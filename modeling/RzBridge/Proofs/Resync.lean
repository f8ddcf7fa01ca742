import RzBridge.Proofs.RouterCodec
import RzBridge.Proofs.Serving

/-!
# Resynchronisation

After a parse error `handle_connection` gives up one byte and goes on at the next magic byte. Bytes
without a magic byte are therefore skipped wherever they stand between frames, and no frame is lost
(`resync_loses_no_frame`). A malformed envelope is skipped in the same way, although its length is
known: the loop looks for magic bytes inside of it, and what it finds there is taken for the start of
a frame. `resyncSafe` goes through the envelopes as the loop does, and the malformed ones among them
are isolated exactly if it finds nothing inside of one that is executed, hides a well-formed envelope
or stops the loop in front of one (`malformed_isolated`). Which frame of the stream was taken is a
matter of where it stands: the same frame may lie inside of a malformed envelope and behind it.
-/

namespace RzBridge
open Machine Incremental LittleEndian

/-! ### Garbage between frames -/

/-- A stretch of a client's stream: bytes that are no frame, or the encoding of a frame. -/
inductive Piece
  | junk (bs : Bytes)
  | frame (bs : Bytes) (f : RouterFrame)

namespace Piece

def bytes : Piece → Bytes
  | .junk bs => bs
  | .frame bs _ => bs

def frame? : Piece → Option RouterFrame
  | .junk _ => none
  | .frame _ f => some f

/-- Junk has no magic byte; a frame is encoded by just these bytes and is not over the limit. -/
def WellFormed (cfg : Config) : Piece → Prop
  | .junk bs => ∀ x ∈ bs, x ≠ routerMagic
  | .frame bs f => f.Encoded bs ∧ f.frameLen = bs.length ∧ bs.length ≤ cfg.maxFrameSize

end Piece

theorem parses_pieces {cfg : Config} {pieces : List Piece} (hw : ∀ p ∈ pieces, p.WellFormed cfg) :
    Parses routerScanner (pieces.map Piece.bytes).flatten (pieces.filterMap Piece.frame?) [] := by
  induction pieces with
  | nil => exact .refl []
  | cons p pieces ih =>
    have ih := ih fun q hq => hw q (List.mem_cons_of_mem p hq)
    have hp := hw p List.mem_cons_self
    cases p with
    | junk bs => exact (parses_junk hp (pieces.map Piece.bytes).flatten).trans ih
    | frame bs f =>
      obtain ⟨henc, hlen, -⟩ := hp
      have hdec : tryDecodeRouter (bs ++ (pieces.map Piece.bytes).flatten) = .frame f := by
        rw [tryDecodeRouter_append _ (by rw [tryDecodeRouter_frame_iff.2 henc]; simp)]
        exact tryDecodeRouter_frame_iff.2 henc
      have hnext := scan_of_frame hdec
      rw [hlen, List.drop_left] at hnext
      exact .head hnext ih

/-- No frame is lost across garbage. Frames within the limit and runs of bytes without a magic byte, in any
order and read in any pieces, within the buffer limit and the frame timeout and with every `execute`
succeeding: the connection takes exactly the frames off the stream, executes those that are no
keepalives, and writes only their replies. -/
theorem resync_loses_no_frame {cfg : Config} {t : Nat} {clock : Nat → Nat} {resps : Nat → Bytes}
    {pieces : List Piece} {reads : List Bytes} (hw : ∀ p ∈ pieces, p.WellFormed cfg) (hne : ∀ r ∈ reads, r ≠ [])
    (hS : reads.flatten = (pieces.map Piece.bytes).flatten)
    (hlim : Session.WithinLimits cfg clock resps ⟨Client.new t, reads⟩) :
    ∃ N, ∀ n ≥ N, ∃ c, Session.run cfg clock resps ⟨Client.new t, reads⟩ n = ⟨c, []⟩ ∧
      Session.Served (pieces.filterMap Piece.frame?) c := by
  refine Session.served (parses_pieces hw) exhausted_nil (fun f hf => ?_) hne hS hlim
  obtain ⟨p, hp, hpf⟩ := List.mem_filterMap.1 hf
  cases p with
  | junk bs => cases hpf
  | frame bs g =>
    cases hpf
    obtain ⟨-, hlen, hmax⟩ := hw _ hp
    omega

/-- The smallest request there is. -/
def smallRequest : Bytes := [0xFE, 7, 0, 0, 0, 0, 1, 0xFF, 1, 2, 3, 4]

def smallRequestFrame : RouterFrame :=
  { frameLen := 12, segment := "", isWrite := true, shardFrame := [0xFF, 1, 2, 3, 4], clridOffset := 8,
    originalClrid := 0x04030201 }

/-- Garbage in front of a request, cut inside the garbage and inside the length field, and a request after
25 seconds of silence. -/
theorem resync_loses_no_frame_cut :
    ∃ N, ∀ n ≥ N, ∃ c, Session.run {} (fun n => if n < 10 then 0 else 25 * nanosPerSec) (fun _ => [])
        ⟨Client.new 0, [[1, 2], [3, 4, 5, 6, 0xFE, 7], smallRequest.drop 2, smallRequest]⟩ n = ⟨c, []⟩ ∧
      Session.Served [smallRequestFrame, smallRequestFrame] c := by
  have hdec : tryDecodeRouter smallRequest = .frame smallRequestFrame := by decide
  have hw : ∀ p ∈ [Piece.junk [1, 2, 3, 4, 5, 6], .frame smallRequest smallRequestFrame,
      .frame smallRequest smallRequestFrame], p.WellFormed {} := by
    have hframe : (Piece.frame smallRequest smallRequestFrame).WellFormed {} :=
      ⟨tryDecodeRouter_frame_iff.1 hdec, by decide, by decide⟩
    intro p hp
    simp only [List.mem_cons, List.not_mem_nil, or_false] at hp
    rcases hp with rfl | rfl | rfl
    · show ∀ x ∈ [1, 2, 3, 4, 5, 6], x ≠ routerMagic
      simp [routerMagic]
    · exact hframe
    · exact hframe
  exact resync_loses_no_frame hw (by decide) (by decide)
    (Session.withinLimits_of_atRest (k := 15) (.inl (by decide)) (by decide))

/-! ### Where a session takes its frames -/

namespace Session

/-- The frame that the next step takes off the stream, with its offset in the stream. -/
def takes (cfg : Config) (s : Session) : Option (Nat × RouterFrame) :=
  match s.client.pc, drainIter cfg s.client.buf with
  | .draining, .frame f _ => some (s.client.input.length - s.client.buf.length, f)
  | _, _ => none

/-- The frames that the first `n` steps take. -/
def taken (cfg : Config) (clock : Nat → Nat) (resp : Nat → Bytes) (s : Session) (n : Nat) :
    List (Nat × RouterFrame) :=
  (List.range n).filterMap fun k => (s.run cfg clock resp k).takes cfg

end Session

/-- The whole-stream parser, which stops at a frame over the limit. -/
def frameScanner (cfg : Config) : Scanner UInt8 RouterFrame :=
  routerScanner.upTo fun f => f.frameLen ≤ cfg.maxFrameSize

/-- The rounds of the parser. -/
def roundScanner (cfg : Config) : Scanner UInt8 (Option RouterFrame × Nat) := (frameScanner cfg).rounds

section Rounds

variable {cfg : Config} {b rest : Bytes} {f : RouterFrame} {fs : List RouterFrame}

theorem shrinks_scan : routerScanner.Shrinks := by
  intro b r i h
  cases b with
  | nil => cases h
  | cons x xs =>
    simp only [routerScanner, scan] at h
    split at h
    · cases h
      exact Nat.lt_succ_self _
    · split at h
      · cases h
      next f hf =>
        cases h
        have hd := tryDecodeRouter_eq_frame hf
        have hpos := hd.pos
        have hle := hd.le
        rw [List.length_drop]
        omega
      · cases h
        exact Nat.lt_succ_self _

theorem roundScanner_frame (hf : tryDecodeRouter b = .frame f) (hmax : f.frameLen ≤ cfg.maxFrameSize) :
    (roundScanner cfg).next b = some (some (some f, f.frameLen), b.drop f.frameLen) := by
  have hnext : routerScanner.next b = some (some f, b.drop f.frameLen) := scan_of_frame hf
  have hle := (tryDecodeRouter_eq_frame hf).le
  have hlen : b.length - (b.drop f.frameLen).length = f.frameLen := by
    rw [List.length_drop]
    omega
  have hupTo : (frameScanner cfg).next b = some (some f, b.drop f.frameLen) :=
    Option.filter_eq_some_iff.2 ⟨hnext, by simpa using hmax⟩
  simp only [roundScanner, Scanner.rounds, hupTo, Option.map_some, hlen]

theorem roundScanner_skip {x : UInt8} (h : x ≠ routerMagic ∨ ∃ e, tryDecodeRouter (x :: b) = .error e) :
    (roundScanner cfg).next (x :: b) = some (some (none, 1), b) := by
  have hnext : routerScanner.next (x :: b) = some (none, b) := by
    rcases h with hx | ⟨e, he⟩
    · exact if_pos hx
    · exact scan_of_error he
  simp [roundScanner, frameScanner, Scanner.rounds, Scanner.upTo, hnext, Option.filter]

theorem waits_needMore {x : UInt8} (hx : x = routerMagic) (h : tryDecodeRouter (x :: b) = .needMore) :
    Waits (roundScanner cfg) (x :: b) := by
  refine waits_rounds.2 (Waits.upTo ?_)
  simp only [Waits, routerScanner, scan, hx, ne_eq, not_true_eq_false, if_false, hx ▸ h]

theorem waits_tooLarge (hf : tryDecodeRouter b = .frame f) (hmax : cfg.maxFrameSize < f.frameLen) :
    Waits (roundScanner cfg) b :=
  waits_rounds.2 (waits_upTo (scan_of_frame hf) (by simpa using hmax))

theorem rounds_of_junk (h : Parses (frameScanner cfg) b [] rest) :
    ∃ ts, Parses (roundScanner cfg) b ts rest ∧ ∀ o, located o ts = [] := by
  obtain ⟨ts, hts, hnone⟩ := h.rounds
  refine ⟨ts, hts, fun o => List.map_eq_nil_iff.1 (map_snd_located.trans hnone)⟩

theorem drainIter_frame_next (h : drainIter cfg b = .frame f rest) :
    tryDecodeRouter b = .frame f ∧ f.frameLen ≤ cfg.maxFrameSize ∧ rest = b.drop f.frameLen := by
  have hd := drainIter_eq_frame h
  have hr := drainIter_rounds cfg b
  rw [h] at hr
  cases hr with
  | frame _ _ _ hmax =>
    refine ⟨hd, hmax, ?_⟩
    unfold drainIter at h
    rw [hd] at h
    split at h
    · cases h
    · dsimp only at h
      rw [if_neg (not_lt.2 hmax)] at h
      exact (DrainIter.frame.inj h).2.symm

end Rounds

namespace Session

variable {cfg : Config} {now t : Nat} {resp S : Bytes} {s s' : Session} {clock : Nat → Nat} {resps : Nat → Bytes}
  {reads : List Bytes} {log : List (Nat × RouterFrame)}

theorem taken_succ (n : Nat) :
    taken cfg clock resps s (n + 1) = taken cfg clock resps s n ++ ((s.run cfg clock resps n).takes cfg).toList := by
  rw [taken, List.range_succ, List.filterMap_append]
  cases h : (s.run cfg clock resps n).takes cfg <;> simp [taken, h]

theorem takes_of_ne (hpc : s.client.pc ≠ .draining) : s.takes cfg = none := by
  unfold takes
  split
  next hd _ => exact absurd hd hpc
  next => rfl

/-- The rounds of the parser so far have found the frames of `log`. -/
structure Logged (cfg : Config) (log : List (Nat × RouterFrame)) (s : Session) : Prop where
  rounds : ∃ ts, Parses (roundScanner cfg) s.client.input ts s.client.buf ∧ located 0 ts = log
  frames : s.client.frames = log.map Prod.snd

theorem Logged.drain (h : Logged cfg log s) (hpc : s.client.pc = .draining) :
    Logged cfg (log ++ (s.takes cfg).toList) { s with client := s.client.drain cfg now } := by
  obtain ⟨⟨ts, hts, hlog⟩, hframes⟩ := h
  have hnone : ∀ {rest : Bytes}, Parses routerScanner s.client.buf [] rest →
      ∃ us, Parses (roundScanner cfg) s.client.input us rest ∧ located 0 us = log := by
    intro rest hr
    have hjunk : Parses (frameScanner cfg) s.client.buf [] rest := hr.upTo (by simp)
    obtain ⟨us, hus, hno⟩ := rounds_of_junk hjunk
    exact ⟨ts ++ us, hts.trans hus, by rw [located_append, hlog, hno, List.append_nil]⟩
  have hr := drainIter_rounds cfg s.client.buf
  unfold takes Client.drain
  rw [hpc]
  cases hd : drainIter cfg s.client.buf with
  | frame f rest =>
    obtain ⟨hf, hmax, rfl⟩ := drainIter_frame_next hd
    have hone := Parses.one (roundScanner_frame hf hmax)
    have hsum := Parses.sum_rounds shrinks_scan.upTo hts
    have hoff : 0 + (ts.map Prod.snd).sum = s.client.input.length - s.client.buf.length := by omega
    refine ⟨⟨_, hts.trans hone, ?_⟩, ?_⟩
    · rw [located_append, hlog, hoff]
      rfl
    · show s.client.frames ++ [f] = _
      rw [hframes, List.map_append]
      rfl
  | needMore =>
    dsimp only
    rw [Option.toList_none, List.append_nil]
    split
    · exact ⟨⟨ts, hts, hlog⟩, hframes⟩
    · exact ⟨⟨ts, hts, hlog⟩, hframes⟩
  | bufferTooLarge | frameTooLarge f => simpa using ⟨⟨ts, hts, hlog⟩, hframes⟩
  | resync rest =>
    rw [hd] at hr
    cases hr with
    | resync _ hj => simpa using ⟨hnone hj, hframes⟩
  | garbage rest =>
    rw [hd] at hr
    cases hr with
    | garbage _ hj => simpa using ⟨hnone hj, hframes⟩

theorem Logged.move (h : Logged cfg log s) (hm : Move cfg now resp s s') :
    Logged cfg (log ++ (s.takes cfg).toList) s' := by
  have hidle : s.client.pc ≠ .draining → log ++ (s.takes cfg).toList = log := by
    intro hpc
    rw [takes_of_ne hpc, Option.toList_none, List.append_nil]
  cases hm with
  | rest hrest =>
    rwa [hidle]
    rcases hrest with ⟨hpc, -⟩ | ⟨cause, hpc⟩ <;> simp [hpc]
  | read r rs hpc hr =>
    rw [hidle (by simp [hpc])]
    obtain ⟨⟨ts, hts, hlog⟩, hframes⟩ := h
    exact ⟨⟨ts, hts.append r, hlog⟩, hframes⟩
  | drain hpc => exact h.drain hpc
  | returned f hpc =>
    rw [hidle (by simp [hpc])]
    exact ⟨h.rounds, h.frames⟩
  | wrote f r hpc =>
    rw [hidle (by simp [hpc])]
    unfold Client.replied
    dsimp only
    cases r <;> exact ⟨h.rounds, h.frames⟩

theorem logged_run (h : Inv cfg t S s) (h0 : Logged cfg [] s) (n : Nat) :
    Logged cfg (taken cfg clock resps s n) (s.run cfg clock resps n) := by
  induction n with
  | zero => exact h0
  | succ n ih =>
    rw [taken_succ]
    exact ih.move (.of_advance (h.run n).reads)

theorem Inv.stuck (h : Inv cfg t S s) (hrest : s.AtRest)
    (hclosed : ∀ {cause}, s.client.pc = .closed cause → ∃ f, cause = .frameTooLarge f) :
    (∃ w, Parses (frameScanner cfg) (s.client.buf ++ s.reads.flatten) [] w ∧ Waits (frameScanner cfg) w) ∧
      s.client.pc.running = [] ∧ s.client.pc.unwritten = [] ∧ ∀ o ∈ s.client.outcomes, Passed o := by
  have hprogress := (Client.reach_streamInv h.reach).progress
  rcases hrest with ⟨hpc, hr⟩ | ⟨cause, hpc⟩
  · rw [hpc] at hprogress
    obtain ⟨hset, w, hjunk, hww⟩ := hprogress
    rw [hr, List.flatten_nil, List.append_nil, hpc]
    exact ⟨⟨w, hjunk.upTo (by simp), hww.upTo⟩, rfl, rfl, hset.passed⟩
  · obtain ⟨f, rfl⟩ := hclosed hpc
    rw [hpc] at hprogress
    obtain ⟨hset, hmax, r', hf⟩ := hprogress
    rw [hpc]
    exact ⟨(hf.append s.reads.flatten).refused (by simpa using hmax), rfl, rfl, hset.passed⟩

/-- Within the limits a session takes all the frames that the parser finds in the stream, up to one that is over
the limit, and executes the requests among them. -/
theorem taken_all {ts : List (Option RouterFrame × Nat)} {r : Bytes} (hp : Parses (roundScanner cfg) S ts r)
    (hw : Waits (roundScanner cfg) r) (hne : ∀ r ∈ reads, r ≠ []) (hS : reads.flatten = S)
    (hlim : WithinLimits cfg clock resps ⟨Client.new t, reads⟩) :
    ∃ N, ∀ n ≥ N, taken cfg clock resps ⟨Client.new t, reads⟩ n = located 0 ts ∧
      ∃ c rest, run cfg clock resps ⟨Client.new t, reads⟩ n = ⟨c, rest⟩ ∧
        c.returned.map Prod.fst = requests ((located 0 ts).map Prod.snd) ∧
        c.written = (c.returned.map fun p => replyBytes p.1 p.2).flatten := by
  have hinv : Inv cfg t S ⟨Client.new t, reads⟩ := .new hne hS
  refine ⟨weight ⟨Client.new t, reads⟩ + 1, fun n hn => ?_⟩
  have hclosed := @run_closed _ _ _ _ _ _ hinv (by simp [Client.new]) hlim n
  have hrest : (run cfg clock resps ⟨Client.new t, reads⟩ n).AtRest := run_atRest hinv hn
  have hn : Inv cfg t S (run cfg clock resps ⟨Client.new t, reads⟩ n) := hinv.run n
  have hlog : Logged cfg (taken cfg clock resps ⟨Client.new t, reads⟩ n)
      (run cfg clock resps ⟨Client.new t, reads⟩ n) := logged_run hinv ⟨⟨[], .refl _, rfl⟩, rfl⟩ n
  generalize run cfg clock resps ⟨Client.new t, reads⟩ n = s at hclosed hrest hn hlog
  generalize taken cfg clock resps ⟨Client.new t, reads⟩ n = log at hlog
  -- what is left holds no frame, so the rounds of the loop are all the rounds there are
  obtain ⟨⟨w, hjunk, hww⟩, hrun, hunw, hpassed⟩ := hn.stuck hrest hclosed
  obtain ⟨⟨us, hus, hlocated⟩, hframes⟩ := hlog
  obtain ⟨vs, hvs, hno⟩ := rounds_of_junk hjunk
  have hall : Parses (roundScanner cfg) S (us ++ vs) w := by
    have happ := (hus.append s.reads.flatten).trans hvs
    rwa [hn.stream] at happ
  have hww : Waits (roundScanner cfg) w := waits_rounds.2 hww
  have hle : ts <+: us ++ vs := hall.prefix_of_waits hww hp
  have hge : us ++ vs <+: ts := hp.prefix_of_waits hw hall
  have hts : us ++ vs = ts := hge.eq_of_length (Nat.le_antisymm hge.length_le hle.length_le)
  have hlog : log = located 0 ts := by rw [← hts, located_append, hno, List.append_nil, hlocated]
  subst hlog
  obtain ⟨hret, hwritten⟩ := hn.replies hrun hunw hpassed
  exact ⟨rfl, s.client, s.reads, rfl, by rw [hret, hframes], hwritten⟩

end Session

/-! ### Malformed envelopes -/

/-- `0xFE ++ LE32(n) ++` `n` bytes, with `n` at most 16 MiB. -/
def IsEnvelope (bs : Bytes) : Prop :=
  ∃ body : Bytes, body.length ≤ 16 * 1024 * 1024 ∧ bs = [routerMagic] ++ leBytes 4 body.length ++ body

/-- The frame in an envelope, if it is well formed. -/
def wellFormed? (bs : Bytes) : Option RouterFrame :=
  match tryDecodeRouter bs with
  | .frame f => some f
  | _ => none

/-- The well-formed envelopes with their offsets, when the first envelope is at the offset `o`. -/
def wellFormedAt : Nat → List Bytes → List (Nat × RouterFrame)
  | _, [] => []
  | o, bs :: rest => ((wellFormed? bs).map (Prod.mk o)).toList ++ wellFormedAt (o + bs.length) rest

/-- The loop is at the bytes `xs` of a rejected envelope, with the envelopes `rest` behind it, and passes over the
next `k` bytes, which it has taken already. What it finds at a magic byte is rejected, or it is a keepalive, or
it stops the loop and hides nothing well formed. `next` says how it goes on behind the envelope. -/
def skipSafe (cfg : Config) (rest : List Bytes) (next : Nat → Bool) : Nat → Bytes → Bool
  | k, [] => next k
  | k + 1, _ :: xs => skipSafe cfg rest next k xs
  | 0, x :: xs =>
    if x ≠ routerMagic then skipSafe cfg rest next 0 xs
    else
      match tryDecodeRouter (x :: xs ++ rest.flatten) with
      | .error _ => skipSafe cfg rest next 0 xs
      | .needMore => (rest.filterMap wellFormed?).isEmpty
      | .frame f =>
        if f.frameLen > cfg.maxFrameSize then (rest.filterMap wellFormed?).isEmpty
        else decide (f.segment = keepaliveSegment) && skipSafe cfg rest next (f.frameLen - 1) xs

/-- Going through the envelopes the loop is safe inside of each rejected one, and comes to the front of each
well-formed one. -/
def resyncSafe (cfg : Config) : Nat → List Bytes → Bool
  | _, [] => true
  | k, bs :: rest =>
    match wellFormed? bs with
    | some _ => decide (k = 0) && resyncSafe cfg 0 rest
    | none => skipSafe cfg rest (resyncSafe cfg · rest) k bs

theorem IsEnvelope.lengthField {bs : Bytes} (h : IsEnvelope bs) :
    5 ≤ bs.length ∧ leVal (slice bs 1 5) = bs.length - 5 ∧ bs.length - 5 ≤ 16 * 1024 * 1024 := by
  obtain ⟨body, hlen, rfl⟩ := h
  have hslice : slice ([routerMagic] ++ leBytes 4 body.length ++ body) 1 5 = leBytes 4 body.length := by
    rw [slice, List.append_assoc, List.singleton_append, List.drop_succ_cons, List.drop_zero]
    exact List.take_left' (length_leBytes 4 _)
  have hl : ([routerMagic] ++ leBytes 4 body.length ++ body).length = 5 + body.length := by
    simp
    omega
  refine ⟨by omega, ?_, by omega⟩
  rw [hslice, leVal_leBytes, hl]
  omega

theorem IsEnvelope.not_needMore {bs : Bytes} (h : IsEnvelope bs) : tryDecodeRouter bs ≠ .needMore := by
  obtain ⟨h5, hval, -⟩ := h.lengthField
  rw [ne_eq, tryDecodeRouter_needMore_iff, hval]
  omega

theorem IsEnvelope.frameLen {bs : Bytes} {f : RouterFrame} (h : IsEnvelope bs)
    (hf : tryDecodeRouter bs = .frame f) : f.frameLen = bs.length := by
  obtain ⟨h5, hval, -⟩ := h.lengthField
  have hlen := (fields_of_tryDecodeRouter hf).frameLen
  omega

theorem le_of_mem_wellFormedAt {envs : List Bytes} {o : Nat} {e : Nat × RouterFrame}
    (h : e ∈ wellFormedAt o envs) : o ≤ e.1 := by
  induction envs generalizing o with
  | nil => cases h
  | cons bs envs ih =>
    rcases List.mem_append.1 h with h | h
    · cases hw : wellFormed? bs with
      | none => simp [hw] at h
      | some f =>
        rw [hw] at h
        obtain rfl := List.mem_singleton.1 h
        exact le_rfl
    · exact (Nat.le_add_right o _).trans (ih h)

theorem map_snd_wellFormedAt {envs : List Bytes} {o : Nat} :
    (wellFormedAt o envs).map Prod.snd = envs.filterMap wellFormed? := by
  induction envs generalizing o with
  | nil => rfl
  | cons bs envs ih =>
    rw [wellFormedAt, List.map_append, ih]
    cases hw : wellFormed? bs with
    | none => exact (List.filterMap_cons_none hw).symm
    | some f => exact (List.filterMap_cons_some hw).symm

/-! ### What is executed of a stream of envelopes -/

/-- The requests among frames with their offsets. -/
def requestsAt (log : List (Nat × RouterFrame)) : List (Nat × RouterFrame) :=
  log.filter fun e => e.2.segment ≠ keepaliveSegment

theorem map_snd_requestsAt (log : List (Nat × RouterFrame)) :
    (requestsAt log).map Prod.snd = requests (log.map Prod.snd) :=
  (List.filter_map (p := fun f : RouterFrame => decide (f.segment ≠ keepaliveSegment))).symm

/-- Of the frames `log` of a stream just those of `ws` are executed, and none of `ws` is missing. -/
structure Isolated (ws log : List (Nat × RouterFrame)) : Prop where
  executed : requestsAt log = requestsAt ws
  kept : ws ⊆ log

section Isolated

variable {ws log : List (Nat × RouterFrame)} {o : Nat} {f : RouterFrame}

theorem isolated_nil : Isolated ws [] ↔ ws = [] := by
  refine ⟨fun h => List.subset_nil.1 h.kept, ?_⟩
  rintro rfl
  exact ⟨rfl, List.Subset.refl _⟩

theorem isolated_both (hws : ∀ e ∈ ws, o < e.1) : Isolated ((o, f) :: ws) ((o, f) :: log) ↔ Isolated ws log := by
  constructor
  · rintro ⟨hexec, hkept⟩
    refine ⟨?_, fun e he => ?_⟩
    · by_cases hk : f.segment = keepaliveSegment
      · simpa [requestsAt, hk] using hexec
      · simpa [requestsAt, hk] using hexec
    · rcases List.mem_cons.1 (hkept (List.mem_cons_of_mem _ he)) with rfl | hmem
      · exact absurd (hws _ he) (Nat.lt_irrefl o)
      · exact hmem
  · rintro ⟨hexec, hkept⟩
    refine ⟨?_, List.cons_subset_cons _ hkept⟩
    unfold requestsAt at hexec ⊢
    rw [List.filter_cons, List.filter_cons, hexec]

/-- A frame that stands where no envelope begins must be a keepalive. -/
theorem isolated_extra (hws : ∀ e ∈ ws, o < e.1) :
    Isolated ws ((o, f) :: log) ↔ f.segment = keepaliveSegment ∧ Isolated ws log := by
  constructor
  · rintro ⟨hexec, hkept⟩
    have hk : f.segment = keepaliveSegment := by
      by_contra hk
      have hmem : (o, f) ∈ requestsAt ws := by
        rw [← hexec]
        simp [requestsAt, hk]
      exact absurd (hws _ (List.mem_filter.1 hmem).1) (Nat.lt_irrefl o)
    refine ⟨hk, by simpa [requestsAt, hk] using hexec, fun e he => ?_⟩
    rcases List.mem_cons.1 (hkept he) with rfl | hmem
    · exact absurd (hws _ he) (Nat.lt_irrefl o)
    · exact hmem
  · rintro ⟨hk, hexec, hkept⟩
    exact ⟨by simpa [requestsAt, hk] using hexec, fun e he => List.mem_cons_of_mem _ (hkept he)⟩

theorem not_isolated_of_missed (hlog : ∀ e ∈ log, o < e.1) : ¬ Isolated ((o, f) :: ws) log :=
  fun h => absurd (hlog _ (h.kept List.mem_cons_self)) (Nat.lt_irrefl o)

end Isolated

section Scans

variable {cfg : Config} {o : Nat} {x : UInt8} {b : Bytes} {f : RouterFrame} {ws : List (Nat × RouterFrame)}
  {safe : Bool}

/-- The parser goes as far as it can on `b`, which is at the offset `o`, and `safe` says whether this isolates
the frames `ws`. -/
def Scans (cfg : Config) (o : Nat) (b : Bytes) (ws : List (Nat × RouterFrame)) (safe : Bool) : Prop :=
  ∃ ts r, Parses (roundScanner cfg) b ts r ∧ Waits (roundScanner cfg) r ∧
    (Isolated ws (located o ts) ↔ safe = true)

theorem Scans.skip (h : Scans cfg (o + 1) b ws safe)
    (hx : x ≠ routerMagic ∨ ∃ e, tryDecodeRouter (x :: b) = .error e) : Scans cfg o (x :: b) ws safe := by
  obtain ⟨ts, r, hp, hw, hiff⟩ := h
  exact ⟨_, r, .head (roundScanner_skip hx) hp, hw, hiff⟩

theorem Scans.stop {l : List RouterFrame} (hw : Waits (roundScanner cfg) b) (hws : ws.map Prod.snd = l) :
    Scans cfg o b ws l.isEmpty := by
  refine ⟨[], b, .refl b, hw, isolated_nil.trans ?_⟩
  rw [List.isEmpty_iff, ← hws, List.map_eq_nil_iff]

theorem Scans.frame (h : Scans cfg (o + f.frameLen) (b.drop f.frameLen) ws safe) (hf : tryDecodeRouter b = .frame f)
    (hmax : f.frameLen ≤ cfg.maxFrameSize) (hws : ∀ e ∈ ws, o < e.1) :
    Scans cfg o b ws (decide (f.segment = keepaliveSegment) && safe) := by
  obtain ⟨ts, r, hp, hw, hiff⟩ := h
  refine ⟨_, r, .head (roundScanner_frame hf hmax) hp, hw, ?_⟩
  rw [Bool.and_eq_true, decide_eq_true_iff, ← hiff]
  exact isolated_extra hws

end Scans

/-- Inside of a rejected envelope. -/
theorem scans_skipSafe {cfg : Config} {rest : List Bytes} {next : Nat → Bool} {o e k : Nat} {xs : Bytes}
    (he : o + xs.length = e) (hk : k ≤ (xs ++ rest.flatten).length)
    (hnext : ∀ k ≤ rest.flatten.length, Scans cfg (e + k) (rest.flatten.drop k) (wellFormedAt e rest) (next k)) :
    Scans cfg (o + k) ((xs ++ rest.flatten).drop k) (wellFormedAt e rest) (skipSafe cfg rest next k xs) := by
  induction xs generalizing o k with
  | nil =>
    obtain rfl : o = e := he
    exact hnext k hk
  | cons x xs ih =>
    have he' : o + 1 + xs.length = e := by
      rw [List.length_cons] at he
      omega
    have hnext1 : Scans cfg (o + 1) (xs ++ rest.flatten) (wellFormedAt e rest) (skipSafe cfg rest next 0 xs) :=
      ih he' (Nat.zero_le _)
    cases k with
    | succ k =>
      have hk' : k ≤ (xs ++ rest.flatten).length := Nat.le_of_succ_le_succ hk
      have hdrop := ih he' hk'
      rwa [Nat.add_assoc, Nat.add_comm 1 k] at hdrop
    | zero =>
      rw [List.drop_zero, Nat.add_zero, List.cons_append]
      unfold skipSafe
      by_cases hx : x = routerMagic
      · rw [if_neg (not_not.2 hx), List.cons_append]
        cases hd : tryDecodeRouter (x :: (xs ++ rest.flatten)) with
        | error err => exact hnext1.skip (.inr ⟨err, hd⟩)
        | needMore => exact .stop (waits_needMore hx hd) map_snd_wellFormedAt
        | frame f =>
          dsimp only
          by_cases hmax : f.frameLen > cfg.maxFrameSize
          · rw [if_pos hmax]
            exact .stop (waits_tooLarge hd hmax) map_snd_wellFormedAt
          · rw [if_neg hmax]
            have hframe := tryDecodeRouter_eq_frame hd
            have hpos := hframe.pos
            have hle := hframe.le
            rw [List.length_cons] at hle
            have hbehind := ih he' (k := f.frameLen - 1) (by omega)
            have hoff : o + 1 + (f.frameLen - 1) = o + f.frameLen := by omega
            have hdrop : (x :: (xs ++ rest.flatten)).drop f.frameLen = (xs ++ rest.flatten).drop (f.frameLen - 1) := by
              rw [← Nat.sub_add_cancel (show 1 ≤ f.frameLen by omega), List.drop_succ_cons, Nat.add_sub_cancel]
            rw [hoff, ← hdrop] at hbehind
            refine hbehind.frame hd (not_lt.1 hmax) fun e' hmem => ?_
            have := le_of_mem_wellFormedAt hmem
            omega
      · rw [if_pos hx]
        exact hnext1.skip (.inl hx)

theorem scans_resyncSafe {cfg : Config} {envs : List Bytes} {o k : Nat} (henv : ∀ bs ∈ envs, IsEnvelope bs)
    (hmax : ∀ bs ∈ envs, bs.length ≤ cfg.maxFrameSize) (hk : k ≤ envs.flatten.length) :
    Scans cfg (o + k) (envs.flatten.drop k) (wellFormedAt o envs) (resyncSafe cfg k envs) := by
  induction envs generalizing o k with
  | nil =>
    refine ⟨[], [], ?_, rfl, isolated_nil.trans (by simp [resyncSafe, wellFormedAt])⟩
    rw [List.flatten_nil, List.drop_nil]
    exact .refl []
  | cons bs envs ih =>
    have hbs := henv bs List.mem_cons_self
    have ih : ∀ k ≤ envs.flatten.length, Scans cfg (o + bs.length + k) (envs.flatten.drop k)
        (wellFormedAt (o + bs.length) envs) (resyncSafe cfg k envs) := fun k hk =>
      ih (fun bs' h => henv bs' (List.mem_cons_of_mem bs h)) (fun bs' h => hmax bs' (List.mem_cons_of_mem bs h)) hk
    have happ := tryDecodeRouter_append envs.flatten hbs.not_needMore
    rw [List.flatten_cons]
    cases hd : tryDecodeRouter bs with
    | needMore => exact absurd hd hbs.not_needMore
    | error err =>
      have hw : wellFormed? bs = none := by simp [wellFormed?, hd]
      simp only [wellFormedAt, resyncSafe, hw, Option.map_none, Option.toList_none, List.nil_append]
      exact scans_skipSafe rfl (by simpa using hk) ih
    | frame f =>
      have hw : wellFormed? bs = some f := by simp [wellFormed?, hd]
      have hlen := hbs.frameLen hd
      have hpos := (tryDecodeRouter_eq_frame hd).pos
      simp only [wellFormedAt, resyncSafe, hw, Option.map_some, Option.toList_some, List.singleton_append]
      by_cases hk0 : k = 0
      · subst hk0
        obtain ⟨ts, r, hp, hwait, hiff⟩ := ih 0 (Nat.zero_le _)
        have hone : (roundScanner cfg).next (bs ++ envs.flatten) =
            some (some (some f, f.frameLen), envs.flatten) := by
          rw [roundScanner_frame (happ.trans hd) (by rw [hlen]; exact hmax bs List.mem_cons_self), hlen, List.drop_left]
        refine ⟨_, r, .head hone hp, hwait, ?_⟩
        rw [decide_eq_true rfl, Bool.true_and, ← hiff, ← hlen]
        refine isolated_both fun e hmem => ?_
        have := le_of_mem_wellFormedAt hmem
        omega
      · -- the frame's first byte is passed over, so the frame is lost
        obtain ⟨ts, r, hp, hwait⟩ := shrinks_scan.upTo.rounds.exists_waits ((bs ++ envs.flatten).drop k)
        refine ⟨ts, r, hp, hwait, ?_⟩
        rw [decide_eq_false hk0, Bool.false_and, Bool.false_eq_true, iff_false]
        refine not_isolated_of_missed fun e hmem => ?_
        have := le_of_mem_located hmem
        omega

namespace Session

/-- After `n` steps the well-formed envelopes are isolated: they are taken where they stand, the requests executed are
those among them, in order, and nothing but their replies is written. -/
structure Isolates (cfg : Config) (clock : Nat → Nat) (resp : Nat → Bytes) (s : Session) (envs : List Bytes)
    (n : Nat) : Prop where
  isolated : Isolated (wellFormedAt 0 envs) (s.taken cfg clock resp n)
  returned : (s.run cfg clock resp n).client.returned.map Prod.fst = requests (envs.filterMap wellFormed?)
  written : (s.run cfg clock resp n).client.written =
    ((s.run cfg clock resp n).client.returned.map fun p => replyBytes p.1 p.2).flatten

theorem not_isolates_of_atRest {cfg : Config} {clock : Nat → Nat} {resp : Nat → Bytes} {s : Session}
    {envs : List Bytes} {k : Nat} (hrest : (s.run cfg clock resp k).AtRest)
    (hne : (s.run cfg clock resp k).client.returned.map Prod.fst ≠ requests (envs.filterMap wellFormed?)) :
    ¬ ∃ N, ∀ n ≥ N, s.Isolates cfg clock resp envs n := by
  rintro ⟨N, h⟩
  have hret := (h (k + N) (Nat.le_add_left N k)).returned
  rw [run_of_atRest hrest N] at hret
  exact hne hret

end Session

/-- Whatever the reads, a connection within the limits takes just the well-formed envelopes of a stream for requests,
and misses none of them, if and only if the stream is safe: what the loop comes to at a magic byte inside of a
rejected envelope is rejected, or a keepalive that covers no well-formed envelope, or stops the loop with no
well-formed envelope left. -/
theorem malformed_isolated {cfg : Config} {t : Nat} {clock : Nat → Nat} {resps : Nat → Bytes}
    {envs reads : List Bytes} (henv : ∀ bs ∈ envs, IsEnvelope bs)
    (hmax : ∀ bs ∈ envs, bs.length ≤ cfg.maxFrameSize) (hne : ∀ r ∈ reads, r ≠ [])
    (hS : reads.flatten = envs.flatten)
    (hlim : Session.WithinLimits cfg clock resps ⟨Client.new t, reads⟩) :
    (∃ N, ∀ n ≥ N, Session.Isolates cfg clock resps ⟨Client.new t, reads⟩ envs n) ↔
      resyncSafe cfg 0 envs = true := by
  obtain ⟨ts, r, hp, hw, hiff⟩ := scans_resyncSafe (o := 0) henv hmax (Nat.zero_le _)
  obtain ⟨N, hN⟩ := Session.taken_all hp hw hne hS hlim
  constructor
  · rintro ⟨M, hM⟩
    obtain ⟨htaken, -⟩ := hN (N + M) (Nat.le_add_right N M)
    have hisolated := (hM (N + M) (Nat.le_add_left M N)).isolated
    rw [htaken] at hisolated
    exact hiff.1 hisolated
  · intro hsafe
    have hisolated := hiff.2 hsafe
    refine ⟨N, fun n hn => ?_⟩
    obtain ⟨htaken, c, rest, hrun, hret, hwritten⟩ := hN n hn
    refine ⟨htaken ▸ hisolated, ?_, by rw [hrun]; exact hwritten⟩
    rw [hrun, hret, ← map_snd_requestsAt, hisolated.executed, map_snd_requestsAt, map_snd_wellFormedAt]

/-- A request between an envelope without a shard magic that holds a keepalive, and one that ends in a magic byte. -/
theorem malformed_isolated_request :
    ∃ N, ∀ n ≥ N, Session.Isolates {} (fun _ => 0) (fun _ => [])
      ⟨Client.new 0, [[0xFE, 28, 0, 0, 0, 0, 0, 0, 0xFE, 20, 0, 0, 0],
        [13] ++ asBytes keepaliveSegment ++ [0, 0xFF, 0, 0], [0, 0] ++ smallRequest ++ [0xFE, 2, 0, 0], [0, 0, 0xFE]]⟩
      [[0xFE, 28, 0, 0, 0, 0, 0, 0, 0xFE, 20, 0, 0, 0, 13] ++ asBytes keepaliveSegment ++ [0, 0xFF, 0, 0, 0, 0],
        smallRequest, [0xFE, 2, 0, 0, 0, 0, 0xFE]] n := by
  refine (malformed_isolated ?_ (by decide) (by decide) (by decide)
    (Session.withinLimits_of_atRest (k := 16) (.inl (by decide +kernel)) (by decide +kernel))).2 (by decide +kernel)
  intro bs hbs
  simp only [List.mem_cons, List.not_mem_nil, or_false] at hbs
  rcases hbs with rfl | rfl | rfl
  · exact ⟨[0, 0, 0, 0xFE, 20, 0, 0, 0, 13] ++ asBytes keepaliveSegment ++ [0, 0xFF, 0, 0, 0, 0], by decide,
      by decide⟩
  · exact ⟨[0, 1, 0xFF, 1, 2, 3, 4], by decide, by decide⟩
  · exact ⟨[0, 0xFE], by decide, by decide⟩

/-- Malformed envelopes are not isolated in general. In the first stream the request inside of a rejected
envelope is executed; in the second one a magic byte inside of a rejected envelope declares a long
frame, and the request behind the envelope is not executed. In the third one nothing is malformed, but the
peer pauses inside of the request for longer than the frame timeout. -/
theorem malformed_not_isolated :
    (∃ envs reads : List Bytes, (∀ bs ∈ envs, IsEnvelope bs) ∧
      (∀ bs ∈ envs, bs.length ≤ ({} : Config).maxFrameSize) ∧ (∀ r ∈ reads, r ≠ []) ∧
      reads.flatten = envs.flatten ∧
      Session.WithinLimits {} (fun _ => 0) (fun _ => []) ⟨Client.new 0, reads⟩ ∧
      envs.filterMap wellFormed? = [] ∧
      ¬ ∃ N, ∀ n ≥ N, Session.Isolates {} (fun _ => 0) (fun _ => []) ⟨Client.new 0, reads⟩ envs n) ∧
    (∃ envs reads : List Bytes, (∀ bs ∈ envs, IsEnvelope bs) ∧
      (∀ bs ∈ envs, bs.length ≤ ({} : Config).maxFrameSize) ∧ (∀ r ∈ reads, r ≠ []) ∧
      reads.flatten = envs.flatten ∧
      Session.WithinLimits {} (fun _ => 0) (fun _ => []) ⟨Client.new 0, reads⟩ ∧
      envs.filterMap wellFormed? = [smallRequestFrame] ∧
      ¬ ∃ N, ∀ n ≥ N, Session.Isolates {} (fun _ => 0) (fun _ => []) ⟨Client.new 0, reads⟩ envs n) ∧
    ∃ (clock : Nat → Nat) (envs reads : List Bytes), (∀ bs ∈ envs, IsEnvelope bs) ∧
      (∀ bs ∈ envs, bs.length ≤ ({} : Config).maxFrameSize) ∧ (∀ r ∈ reads, r ≠ []) ∧
      reads.flatten = envs.flatten ∧
      (∀ n, (Session.run {} clock (fun _ => []) ⟨Client.new 0, reads⟩ n).client.buf.length ≤
        ({} : Config).maxBufferSize) ∧
      envs.filterMap wellFormed? = [smallRequestFrame] ∧
      ¬ ∃ N, ∀ n ≥ N, Session.Isolates {} clock (fun _ => []) ⟨Client.new 0, reads⟩ envs n := by
  refine ⟨?_, ?_, ?_⟩
  · -- 0xFE, 15 bytes: no segment, no write, no shard magic, and the small request
    let env : Bytes := [0xFE, 15, 0, 0, 0, 0, 0, 0] ++ smallRequest
    refine ⟨[env], [env], ?_, by decide, by decide, rfl,
      Session.withinLimits_of_atRest (k := 6) (.inl (by decide)) (by decide), by decide,
      Session.not_isolates_of_atRest (k := 6) (.inl (by decide)) (by decide)⟩
    intro bs hbs
    obtain rfl := List.mem_singleton.1 hbs
    exact ⟨[0, 0, 0] ++ smallRequest, by decide, by decide⟩
  · let env : Bytes := [0xFE, 8, 0, 0, 0, 0, 0, 0, 0xFE, 0xFF, 0xFF, 0xFF, 0]
    refine ⟨[env, smallRequest], [env ++ smallRequest], ?_, by decide, by decide, by decide,
      Session.withinLimits_of_atRest (k := 4) (.inl (by decide)) (by decide), by decide,
      Session.not_isolates_of_atRest (k := 4) (.inl (by decide)) (by decide)⟩
    intro bs hbs
    rcases List.mem_pair.1 hbs with rfl | rfl
    · exact ⟨[0, 0, 0, 0xFE, 0xFF, 0xFF, 0xFF, 0], by decide, by decide⟩
    · exact ⟨[0, 1, 0xFF, 1, 2, 3, 4], by decide, by decide⟩
  · let clock : Nat → Nat := fun n => if n < 2 then 0 else 25 * nanosPerSec
    let reads : List Bytes := [smallRequest.take 3, (smallRequest.drop 3).take 4, smallRequest.drop 7]
    have hrest : (Session.run {} clock (fun _ => []) ⟨Client.new 0, reads⟩ 4).AtRest :=
      .inr ⟨.frameTimeout, by decide⟩
    refine ⟨clock, [smallRequest], reads, ?_, by decide, by decide, by decide, fun n => ?_, by decide,
      Session.not_isolates_of_atRest hrest (by decide)⟩
    · intro bs hbs
      obtain rfl := List.mem_singleton.1 hbs
      exact ⟨[0, 1, 0xFF, 1, 2, 3, 4], by decide, by decide⟩
    · rcases Nat.lt_or_ge n 4 with hn | hn
      · have hbuf : ∀ n < 4, (Session.run {} clock (fun _ => []) ⟨Client.new 0, reads⟩ n).client.buf.length ≤
            ({} : Config).maxBufferSize := by decide
        exact hbuf n hn
      · obtain ⟨d, rfl⟩ := Nat.exists_eq_add_of_le hn
        rw [Session.run_of_atRest hrest d]
        decide

end RzBridge
