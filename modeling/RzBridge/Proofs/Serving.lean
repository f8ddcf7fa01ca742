import RzBridge.Proofs.Replies

/-!
# A connection that is served

`Session.run` is a run of `handle_connection` in which nothing goes wrong around it: the peer's bytes come
in the reads given, every `execute` returns a response and every reply is written. When they happen
and what the responses are is left open. Each step lowers `Session.weight`, so the session comes to
rest, and if neither the buffer limit nor the frame timeout was met on the way it has then taken off
the stream what the whole-stream parser finds in it.
-/

namespace RzBridge
open Machine Incremental

/-! ### The drain loop makes progress -/

/-- A round that goes on has taken bytes off the buffer, which held `n`. -/
def DrainIter.Shrinks (n : Nat) : DrainIter → Prop
  | .frame _ rest => rest.length < n
  | .resync rest => rest.length < n
  | .garbage rest => rest.length ≤ n
  | _ => True

theorem drainIter_shrinks (cfg : Config) (buf : Bytes) : (drainIter cfg buf).Shrinks buf.length := by
  unfold drainIter
  split
  · trivial
  · split
    · trivial
    next f hf =>
      have hd := tryDecodeRouter_eq_frame hf
      have hpos := hd.pos
      have hle := hd.le
      split
      · trivial
      · show (buf.drop f.frameLen).length < buf.length
        rw [List.length_drop]
        omega
    · split
      · exact Nat.le_refl _
      next hne =>
        have hpos : 0 < buf.length := List.length_pos_of_ne_nil hne
        have hlen : (buf.drop 1).length = buf.length - 1 := List.length_drop
        dsimp only
        split
        next pos _ =>
          show (if pos > 0 then (buf.drop 1).drop pos else buf.drop 1).length < buf.length
          split_ifs
          · rw [List.length_drop]
            omega
          · omega
        next =>
          show (if (buf.drop 1).length > 64 then
            (buf.drop 1).drop ((buf.drop 1).length - min 8 (buf.drop 1).length) else buf.drop 1).length ≤ buf.length
          split_ifs
          · rw [List.length_drop]
            omega
          · omega

def ClientPc.weight : ClientPc → Nat
  | .reading => 0
  | .draining => 1
  | .replying _ _ => 2
  | .executing _ => 3
  | .closed _ => 0

/-- Bounds the steps a connection can take before it reads again. -/
def Client.weight (c : Client) : Nat := 3 * c.buf.length + c.pc.weight

theorem Client.weight_drain {cfg : Config} {now : Nat} {c : Client} (hpc : c.pc = .draining) :
    (c.drain cfg now).weight < c.weight := by
  have hs := drainIter_shrinks cfg c.buf
  have hw : c.weight = 3 * c.buf.length + 1 := by simp only [Client.weight, hpc, ClientPc.weight]
  rw [hw]
  unfold Client.drain
  split
  case h_1 => simp only [Client.weight, Client.close, ClientPc.weight]; omega
  case h_2 =>
    split
    · simp only [Client.weight, Client.close, ClientPc.weight]; omega
    · simp only [Client.weight, ClientPc.weight]; omega
  case h_3 => simp only [Client.weight, Client.close, ClientPc.weight]; omega
  case h_4 f rest hd =>
    rw [hd] at hs
    have hlt : rest.length < c.buf.length := hs
    by_cases hk : f.segment = keepaliveSegment
    · simp only [Client.weight, if_pos hk, ClientPc.weight]; omega
    · simp only [Client.weight, if_neg hk, ClientPc.weight]; omega
  case h_5 rest hd =>
    rw [hd] at hs
    have hlt : rest.length < c.buf.length := hs
    simp only [Client.weight, hpc, ClientPc.weight]; omega
  case h_6 rest hd =>
    rw [hd] at hs
    have hle : rest.length ≤ c.buf.length := hs
    simp only [Client.weight, ClientPc.weight]; omega

/-! ### Sessions -/

/-- A connection and what its peer still sends, cut into reads. -/
structure Session where
  client : Client
  reads : List Bytes

namespace Session

/-- The event that comes next, with what is left to read; `resp` is the response if it is the return of
`execute`. -/
def next (resp : Bytes) (s : Session) : Option (ClientEvent × List Bytes) :=
  match s.client.pc with
  | .reading => s.reads.head?.map fun r => (.read r, s.reads.tail)
  | .draining => some (.drain, s.reads)
  | .executing _ => some (.returned (.ok resp), s.reads)
  | .replying _ _ => some (.wrote, s.reads)
  | .closed _ => none

/-- The next event happens at the instant `now`. -/
def advance (cfg : Config) (now : Nat) (resp : Bytes) (s : Session) : Session :=
  match s.next resp with
  | none => s
  | some (e, reads) => (s.client.step cfg (now, e)).elim s fun client => { client, reads }

/-- The session after `n` steps, the `k`-th one at `clock k`. -/
def run (cfg : Config) (clock : Nat → Nat) (resp : Nat → Bytes) (s : Session) : Nat → Session :=
  sched (fun k => advance cfg (clock k) (resp k)) s

/-- Nothing happens any more: all is read, or the connection is closed. -/
def AtRest (s : Session) : Prop := s.client.pc = .reading ∧ s.reads = [] ∨ ∃ cause, s.client.pc = .closed cause

def weight (s : Session) : Nat := s.client.weight + 3 * s.reads.flatten.length + 2 * s.reads.length

variable {cfg : Config} {now : Nat} {resp : Bytes} {s : Session}

/-- What a step of a session does, one constructor for each kind of step. -/
inductive Move (cfg : Config) (now : Nat) (resp : Bytes) (s : Session) : Session → Prop
  | rest (h : s.AtRest) : Move cfg now resp s s
  | read (r : Bytes) (rs : List Bytes) (hpc : s.client.pc = .reading) (hr : s.reads = r :: rs) :
      Move cfg now resp s
        { client := { s.client with buf := s.client.buf ++ r, input := s.client.input ++ r, pc := .draining }
          reads := rs }
  | drain (hpc : s.client.pc = .draining) :
      Move cfg now resp s { s with client := s.client.drain cfg now }
  | returned (f : RouterFrame) (hpc : s.client.pc = .executing f) :
      Move cfg now resp s
        { s with client :=
          { s.client with pc := .replying f (.ok resp), returned := s.client.returned ++ [(f, .ok resp)] } }
  | wrote (f : RouterFrame) (r : Except RZError Bytes) (hpc : s.client.pc = .replying f r) :
      Move cfg now resp s { s with client := s.client.replied f r none }

theorem Move.of_advance (hne : ∀ r ∈ s.reads, r ≠ []) : Move cfg now resp s (s.advance cfg now resp) := by
  obtain ⟨c, reads⟩ := s
  cases hpc : c.pc with
  | reading =>
    cases reads with
    | nil =>
      have hadv : advance cfg now resp ⟨c, []⟩ = ⟨c, []⟩ := by simp [advance, next, hpc]
      rw [hadv]
      exact .rest (.inl ⟨hpc, rfl⟩)
    | cons r rs =>
      have hr : r ≠ [] := hne r List.mem_cons_self
      have hadv : advance cfg now resp ⟨c, r :: rs⟩ =
          ⟨{ c with buf := c.buf ++ r, input := c.input ++ r, pc := .draining }, rs⟩ := by
        simp [advance, next, hpc, Client.step, hr]
      rw [hadv]
      exact .read r rs hpc rfl
  | draining =>
    have hadv : advance cfg now resp ⟨c, reads⟩ = ⟨c.drain cfg now, reads⟩ := by
      simp [advance, next, hpc, Client.step]
    rw [hadv]
    exact .drain hpc
  | executing f =>
    have hadv : advance cfg now resp ⟨c, reads⟩ =
        ⟨{ c with pc := .replying f (.ok resp), returned := c.returned ++ [(f, .ok resp)] }, reads⟩ := by
      simp [advance, next, hpc, Client.step]
    rw [hadv]
    exact .returned f hpc
  | replying f r =>
    have hadv : advance cfg now resp ⟨c, reads⟩ = ⟨c.replied f r none, reads⟩ := by
      simp [advance, next, hpc, Client.step]
    rw [hadv]
    exact .wrote f r hpc
  | closed cause =>
    have hadv : advance cfg now resp ⟨c, reads⟩ = ⟨c, reads⟩ := by simp [advance, next, hpc]
    rw [hadv]
    exact .rest (.inr ⟨cause, hpc⟩)

theorem advance_of_atRest (h : s.AtRest) : s.advance cfg now resp = s := by
  rcases h with ⟨hpc, hr⟩ | ⟨cause, hpc⟩
  · simp [advance, next, hpc, hr]
  · simp [advance, next, hpc]

theorem advance_weight (hne : ∀ r ∈ s.reads, r ≠ []) (hrest : ¬ s.AtRest) :
    (s.advance cfg now resp).weight < s.weight := by
  have hmove : Move cfg now resp s (s.advance cfg now resp) := .of_advance hne
  generalize s.advance cfg now resp = s' at hmove
  cases hmove with
  | rest h => exact absurd h hrest
  | read r rs hpc hr =>
    simp only [weight, Client.weight, hpc, hr, ClientPc.weight, List.length_append, List.flatten_cons, List.length_cons]
    omega
  | drain hpc =>
    have hlt : (s.client.drain cfg now).weight < s.client.weight := Client.weight_drain hpc
    simp only [weight]
    omega
  | returned f hpc =>
    simp only [weight, Client.weight, hpc, ClientPc.weight]
    omega
  | wrote f r hpc =>
    cases r with
    | ok b =>
      simp only [weight, Client.weight, hpc, ClientPc.weight, Client.replied]
      omega
    | error e =>
      simp only [weight, Client.weight, hpc, ClientPc.weight, Client.replied, Client.close]
      omega

/-! ### What a session keeps -/

/-- What was read and what is still to be read make up the stream `S`, and no result was an error. -/
structure Inv (cfg : Config) (t : Nat) (S : Bytes) (s : Session) : Prop where
  reach : Reach (Client.step cfg) (Client.new t) s.client
  reads : ∀ r ∈ s.reads, r ≠ []
  stream : s.client.input ++ s.reads.flatten = S
  ok : ∀ f r, s.client.pc = .replying f r → ∃ b, r = .ok b

theorem reach_advance {c₀ : Client} (h : Reach (Client.step cfg) c₀ s.client) :
    Reach (Client.step cfg) c₀ (s.advance cfg now resp).client := by
  unfold advance
  split
  · exact h
  next e reads _ =>
    cases hs : s.client.step cfg (now, e) with
    | none => exact h
    | some c => exact h.tail (now, e) hs

theorem drain_frame (cfg : Config) (now : Nat) (c : Client) :
    (c.drain cfg now).input = c.input ∧ ∀ f r, (c.drain cfg now).pc = .replying f r → c.pc = .replying f r := by
  unfold Client.drain
  split
  case h_2 => split <;> simp [Client.close]
  case h_4 f rest _ =>
    refine ⟨rfl, fun g r hpc => ?_⟩
    by_cases hk : f.segment = keepaliveSegment
    · simp [hk] at hpc
    · simp [hk] at hpc
  all_goals simp [Client.close]

theorem Inv.advance {t : Nat} {S : Bytes} (h : Inv cfg t S s) : Inv cfg t S (s.advance cfg now resp) := by
  have hreach : Reach (Client.step cfg) (Client.new t) (s.advance cfg now resp).client := reach_advance h.reach
  have hmove : Move cfg now resp s (s.advance cfg now resp) := .of_advance h.reads
  generalize s.advance cfg now resp = s' at hreach hmove
  cases hmove with
  | rest => exact h
  | read r rs hpc hr =>
    refine ⟨hreach, fun r' hr' => h.reads r' (hr ▸ List.mem_cons_of_mem r hr'), ?_, by simp⟩
    have hS := h.stream
    rw [hr, List.flatten_cons] at hS
    rw [List.append_assoc]
    exact hS
  | drain hpc =>
    obtain ⟨hin, hrep⟩ := drain_frame cfg now s.client
    refine ⟨hreach, h.reads, ?_, fun f r hr => h.ok f r (hrep f r hr)⟩
    show (s.client.drain cfg now).input ++ s.reads.flatten = S
    rw [hin]
    exact h.stream
  | returned f hpc =>
    refine ⟨hreach, h.reads, h.stream, fun g r hr => ?_⟩
    obtain ⟨-, rfl⟩ := ClientPc.replying.inj hr
    exact ⟨resp, rfl⟩
  | wrote f r hpc =>
    obtain ⟨b, rfl⟩ := h.ok f r hpc
    exact ⟨hreach, h.reads, h.stream, by simp [Client.replied]⟩

theorem Inv.advance_closed {t : Nat} {S : Bytes} (h : Inv cfg t S s)
    (hlim : s.client.pc = .draining → s.client.buf.length ≤ cfg.maxBufferSize ∧
      (drainIter cfg s.client.buf = .needMore → now - s.client.lastFrameTime ≤ cfg.frameTimeout))
    {cause : CloseCause} (hc : (s.advance cfg now resp).client.pc = .closed cause) :
    s.client.pc = .closed cause ∨ ∃ f, cause = .frameTooLarge f := by
  have hmove : Move cfg now resp s (s.advance cfg now resp) := .of_advance h.reads
  generalize s.advance cfg now resp = s' at hmove hc
  cases hmove with
  | rest => exact .inl hc
  | read => cases hc
  | returned => cases hc
  | wrote f r hpc =>
    obtain ⟨b, rfl⟩ := h.ok f r hpc
    cases hc
  | drain hpc =>
    obtain ⟨hbuf, htime⟩ := hlim hpc
    replace hc : (s.client.drain cfg now).pc = .closed cause := hc
    unfold Client.drain at hc
    split at hc
    case h_1 hd =>
      -- the only round that ends in this way is one over the limit
      exfalso
      unfold drainIter at hd
      rw [if_neg (not_lt.2 hbuf)] at hd
      split at hd
      · cases hd
      · split at hd <;> cases hd
      · split at hd
        · cases hd
        · dsimp only at hd
          split at hd <;> cases hd
    case h_2 hd =>
      rw [if_neg (not_lt.2 (htime hd))] at hc
      cases hc
    case h_3 f _ => exact .inr ⟨f, (ClientPc.closed.inj hc).symm⟩
    case h_4 f rest _ =>
      by_cases hk : f.segment = keepaliveSegment
      · simp [hk] at hc
      · simp [hk] at hc
    case h_5 =>
      cases hpc.symm.trans hc
    case h_6 => cases hc

/-! ### What a session has served -/

/-- No round of the drain loop finds the buffer too large, and none that waits for more finds the frame timeout
over. -/
def WithinLimits (cfg : Config) (clock : Nat → Nat) (resp : Nat → Bytes) (s : Session) : Prop :=
  ∀ n, (s.run cfg clock resp n).client.pc = .draining →
    (s.run cfg clock resp n).client.buf.length ≤ cfg.maxBufferSize ∧
      (drainIter cfg (s.run cfg clock resp n).client.buf = .needMore →
        clock n - (s.run cfg clock resp n).client.lastFrameTime ≤ cfg.frameTimeout)

variable {t : Nat} {S r : Bytes} {fs : List RouterFrame} {clock : Nat → Nat} {resps : Nat → Bytes} {reads : List Bytes}

theorem Inv.new (hne : ∀ r ∈ reads, r ≠ []) (hS : reads.flatten = S) :
    Inv cfg t S ⟨Client.new t, reads⟩ :=
  ⟨.refl, hne, by simpa [Client.new] using hS, by simp [Client.new]⟩

theorem Inv.run (h : Inv cfg t S s) (n : Nat) : Inv cfg t S (s.run cfg clock resps n) :=
  sched_induct h (fun _ _ h => h.advance) n

/-- Within the limits a connection is closed only for a frame that is too large. -/
theorem run_closed (h : Inv cfg t S s) (hopen : ∀ cause, s.client.pc ≠ .closed cause)
    (hlim : s.WithinLimits cfg clock resps) {n : Nat} {cause : CloseCause}
    (hc : (s.run cfg clock resps n).client.pc = .closed cause) : ∃ f, cause = .frameTooLarge f := by
  induction n with
  | zero => exact absurd hc (hopen cause)
  | succ n ih =>
    have hn : Inv cfg t S (s.run cfg clock resps n) := h.run n
    rcases hn.advance_closed (hlim n) hc with hc | hf
    · exact ih hc
    · exact hf

theorem run_atRest (h : Inv cfg t S s) {n : Nat} (hn : s.weight < n) : (s.run cfg clock resps n).AtRest :=
  sched_rests (I := Inv cfg t S) h (fun _ _ h => h.advance) (fun _ _ hr => advance_of_atRest hr)
    (fun _ _ h hr => advance_weight h.reads hr) hn

theorem run_of_atRest {k : Nat} (hrest : (s.run cfg clock resps k).AtRest) (d : Nat) :
    s.run cfg clock resps (k + d) = s.run cfg clock resps k := by
  induction d with
  | zero => rfl
  | succ d ih =>
    show (s.run cfg clock resps (k + d)).advance cfg (clock (k + d)) (resps (k + d)) = _
    rw [ih, advance_of_atRest hrest]

theorem withinLimits_of_atRest {k : Nat} (hrest : (s.run cfg clock resps k).AtRest)
    (hlim : ∀ n < k, (s.run cfg clock resps n).client.pc = .draining →
      (s.run cfg clock resps n).client.buf.length ≤ cfg.maxBufferSize ∧
        (drainIter cfg (s.run cfg clock resps n).client.buf = .needMore →
          clock n - (s.run cfg clock resps n).client.lastFrameTime ≤ cfg.frameTimeout)) :
    s.WithinLimits cfg clock resps := by
  intro n hpc
  rcases Nat.lt_or_ge n k with hn | hn
  · exact hlim n hn hpc
  · obtain ⟨d, rfl⟩ := Nat.exists_eq_add_of_le hn
    rw [run_of_atRest hrest d] at hpc
    rcases hrest with ⟨hr, -⟩ | ⟨cause, hr⟩
    · rw [hr] at hpc
      cases hpc
    · rw [hr] at hpc
      cases hpc

theorem replyLog_of_reach {c : Client} (h : Reach (Client.step cfg) (Client.new t) c) : ReplyLog c :=
  h.induct (.new t) fun _ _ _ _ hi hs => hi.step hs

theorem Inv.replies (h : Inv cfg t S s) (hrun : s.client.pc.running = []) (hunw : s.client.pc.unwritten = [])
    (hpassed : ∀ o ∈ s.client.outcomes, Passed o) :
    s.client.returned.map Prod.fst = requests s.client.frames ∧
      s.client.written = (s.client.returned.map fun p => replyBytes p.1 p.2).flatten := by
  have hreplies := replyLog_of_reach h.reach
  have horder := hreplies.order
  obtain ⟨done, hdone, hwritten⟩ := hreplies.replied
  rw [hrun, List.append_nil] at horder
  rw [hunw, List.append_nil] at hdone
  refine ⟨horder.symm, ?_⟩
  rw [hdone]
  refine hwritten fun o ho => ?_
  obtain ⟨b, rfl⟩ := hpassed o ho
  rfl

/-- The connection waits for more input, has taken the frames `fs` off what it read, and has executed the
requests among them, once each and in their order; nothing but their replies was written. -/
structure Served (fs : List RouterFrame) (c : Client) : Prop where
  reading : c.pc = .reading
  frames : c.frames = fs
  returned : c.returned.map Prod.fst = requests fs
  written : c.written = (c.returned.map fun p => replyBytes p.1 p.2).flatten

/-- A connection that reads the stream `S`, in whatever pieces and within the limits, comes to wait for
more, having served the frames that the whole-stream parser finds in `S`. -/
theorem served (hp : Parses routerScanner S fs r) (hx : Exhausted r)
    (hsmall : ∀ f ∈ fs, f.frameLen ≤ cfg.maxFrameSize) (hne : ∀ r ∈ reads, r ≠ []) (hS : reads.flatten = S)
    (hlim : WithinLimits cfg clock resps ⟨Client.new t, reads⟩) :
    ∃ N, ∀ n ≥ N, ∃ c, run cfg clock resps ⟨Client.new t, reads⟩ n = ⟨c, []⟩ ∧ Served fs c := by
  have hinv : Inv cfg t S ⟨Client.new t, reads⟩ := .new hne hS
  refine ⟨weight ⟨Client.new t, reads⟩ + 1, fun n hn => ?_⟩
  have hclosed := @run_closed _ _ _ _ _ _ hinv (by simp [Client.new]) hlim n
  have hrest : (run cfg clock resps ⟨Client.new t, reads⟩ n).AtRest := run_atRest hinv hn
  have hn : Inv cfg t S (run cfg clock resps ⟨Client.new t, reads⟩ n) := hinv.run n
  generalize run cfg clock resps ⟨Client.new t, reads⟩ n = s at hclosed hrest hn
  obtain ⟨c, rest⟩ := s
  rcases hrest with ⟨hpc, hr⟩ | ⟨cause, hpc⟩
  · dsimp only at hpc hr
    subst hr
    have hin : c.input = S := by simpa using hn.stream
    have hstream := Client.reach_streamInv hn.reach
    have hparsed := hstream.parsed
    have hprogress := hstream.progress
    dsimp only at hparsed hprogress
    rw [hpc] at hprogress
    rw [hin] at hparsed
    -- neither the loop nor the parser can find anything more behind what it has
    have hle : fs <+: c.frames := hprogress.2.complete hparsed hp
    have hge : c.frames <+: fs := hx.complete hp hparsed
    have hfs : c.frames = fs := hge.eq_of_length (Nat.le_antisymm hge.length_le hle.length_le)
    obtain ⟨hret, hwritten⟩ := hn.replies (by rw [hpc]; rfl) (by rw [hpc]; rfl) hprogress.1.passed
    exact ⟨c, rfl, hpc, hfs, by rw [hret, hfs], hwritten⟩
  · -- the connection would have been closed for a frame of the stream
    exfalso
    obtain ⟨f, rfl⟩ := hclosed hpc
    have hstream := Client.reach_streamInv hn.reach
    have hprogress := hstream.progress
    rw [hpc] at hprogress
    obtain ⟨-, hmax, r', hf⟩ := hprogress
    have hparsed := (hstream.parsed.trans hf).append rest.flatten
    rw [hn.stream] at hparsed
    have hmem : f ∈ fs := (hx.complete hp hparsed).subset (by simp)
    exact absurd (hsmall f hmem) (not_le.2 hmax)

end Session
end RzBridge
