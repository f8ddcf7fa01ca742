import RzBridge.Lib.Incremental
import RzBridge.Proofs.ServerStep

/-!
# Chunking independence of the client stream

`scan` is the parser that `handle_connection` runs in effect: it skips bytes up to a magic byte, then
takes a frame or gives that byte up. It looks at the whole stream; the drain loop sees what happens
to be buffered, throws garbage away in blocks and stops at the first round that needs more. Each
round of the drain loop is some rounds of `scan`, and whenever the loop goes back to reading, `scan`
is stuck too, after some junk. So what the loop takes off a stream is what `scan` finds in it.
-/

namespace RzBridge
open Machine Incremental

/-! ### The whole-stream parser -/

/-- One round of the whole-stream parser. -/
def scan : Bytes → Option (Option RouterFrame × Bytes)
  | [] => none
  | x :: rest =>
    if x ≠ routerMagic then some (none, rest)
    else
      match tryDecodeRouter (x :: rest) with
      | .needMore => none
      | .frame f => some (some f, (x :: rest).drop f.frameLen)
      | .error _ => some (none, rest)

theorem scan_of_frame {b : Bytes} {f : RouterFrame} (h : tryDecodeRouter b = .frame f) :
    scan b = some (some f, b.drop f.frameLen) := by
  have hd := tryDecodeRouter_eq_frame h
  cases b with
  | nil => exact absurd hd.le (by have := hd.pos; simp; omega)
  | cons x rest =>
    have hx : ¬ x ≠ routerMagic := not_not.2 hd.magic
    simp only [scan, if_neg hx, h]

theorem scan_of_error {b : Bytes} {e : RZError} (h : tryDecodeRouter b = .error e) :
    scan b = some (none, b.drop 1) := by
  cases b with
  | nil => simp [tryDecodeRouter] at h
  | cons x rest => by_cases hx : x ≠ routerMagic <;> simp [scan, hx, h]

theorem scan_append {b r : Bytes} {i : Option RouterFrame} (c : Bytes) (h : scan b = some (i, r)) :
    scan (b ++ c) = some (i, r ++ c) := by
  cases b with
  | nil => cases h
  | cons x rest =>
    by_cases hx : x ≠ routerMagic
    · simp only [scan, if_pos hx, Option.some.injEq, Prod.mk.injEq] at h
      simp only [List.cons_append, scan, if_pos hx, ← h.1, ← h.2]
    · simp only [scan, if_neg hx] at h
      split at h
      · cases h
      next f hf =>
        have hd := tryDecodeRouter_eq_frame hf
        have hf' := tryDecodeRouter_append c (by rw [hf]; simp)
        rw [hf] at hf'
        cases h
        rw [scan_of_frame hf', List.drop_append_of_le_length hd.le]
      next e he =>
        have he' := tryDecodeRouter_append c (by rw [he]; simp)
        rw [he] at he'
        cases h
        rw [scan_of_error he', List.cons_append, List.drop_succ_cons, List.drop_zero]

def routerScanner : Scanner UInt8 RouterFrame := ⟨scan, scan_append⟩

theorem parses_junk {xs : Bytes} (h : ∀ x ∈ xs, x ≠ routerMagic) (b : Bytes) :
    Parses routerScanner (xs ++ b) [] b := by
  induction xs with
  | nil => exact .refl b
  | cons x xs ih =>
    have hx : routerScanner.next (x :: xs ++ b) = some (none, xs ++ b) := if_pos (h x List.mem_cons_self)
    exact .head hx (ih fun y hy => h y (List.mem_cons_of_mem x hy))

/-- All that `scan` can still do on `b` is to skip junk. -/
def Exhausted (b : Bytes) : Prop := ∃ r, Parses routerScanner b [] r ∧ Waits routerScanner r

theorem exhausted_nil : Exhausted [] := ⟨[], .refl _, rfl⟩

theorem exhausted_junk {xs : Bytes} (h : ∀ x ∈ xs, x ≠ routerMagic) : Exhausted xs :=
  ⟨[], by simpa using parses_junk h [], rfl⟩

theorem exhausted_needMore {b : Bytes} (h : tryDecodeRouter b = .needMore) : Exhausted b := by
  -- a short buffer that starts with junk stays short when the junk is skipped
  induction b with
  | nil => exact exhausted_nil
  | cons x rest ih =>
    by_cases hx : x ≠ routerMagic
    · have hn : routerScanner.next (x :: rest) = some (none, rest) := if_pos hx
      have h5 : (x :: rest).length < 5 := (tryDecodeRouter_needMore h).resolve_right hx
      have hr : tryDecodeRouter rest = .needMore := if_pos (by simp at h5; omega)
      obtain ⟨r, hr, hw⟩ := ih hr
      exact ⟨r, .head hn hr, hw⟩
    · refine ⟨_, .refl _, ?_⟩
      simp only [Waits, routerScanner, scan, if_neg hx, h]

theorem Exhausted.complete {b : Bytes} {is js : List RouterFrame} {r r' : Bytes} (h : Exhausted r)
    (hp : Parses routerScanner b is r) (hp' : Parses routerScanner b js r') : js <+: is := by
  obtain ⟨w, hw, hww⟩ := h
  simpa using (hp.trans hw).prefix_of_waits hww hp'

/-! ### A round of the drain loop -/

theorem findNextRouterMagic_eq_some {b : Bytes} {pos : Nat} (h : findNextRouterMagic b 0 = some pos) :
    ∀ x ∈ b.take pos, x ≠ routerMagic := by
  simp only [findNextRouterMagic, List.drop_zero, Option.map_eq_some_iff, Nat.zero_add, exists_eq_right] at h
  obtain ⟨hlt, _, hne⟩ := List.findIdx?_eq_some_iff_getElem.1 h
  intro x hx
  obtain ⟨j, hj, rfl⟩ := List.mem_take_iff_getElem.1 hx
  simpa using hne j (by omega)

theorem findNextRouterMagic_eq_none {b : Bytes} (h : findNextRouterMagic b 0 = none) :
    ∀ x ∈ b, x ≠ routerMagic := by
  simp only [findNextRouterMagic, List.drop_zero, Option.map_eq_none_iff, List.findIdx?_eq_none_iff] at h
  intro x hx
  simpa using h x hx

/-- What a round of the drain loop does, as rounds of the whole-stream parser. -/
inductive DrainRounds (cfg : Config) (b : Bytes) : DrainIter → Prop
  | bufferTooLarge : DrainRounds cfg b .bufferTooLarge
  | needMore (h : Exhausted b) : DrainRounds cfg b .needMore
  | frameTooLarge (f : RouterFrame) (h : Parses routerScanner b [f] (b.drop f.frameLen))
      (hmax : cfg.maxFrameSize < f.frameLen) : DrainRounds cfg b (.frameTooLarge f)
  | frame (f : RouterFrame) (rest : Bytes) (h : Parses routerScanner b [f] rest)
      (hmax : f.frameLen ≤ cfg.maxFrameSize) :
      DrainRounds cfg b (.frame f rest)
  | resync (rest : Bytes) (h : Parses routerScanner b [] rest) : DrainRounds cfg b (.resync rest)
  | garbage (rest : Bytes) (h : Parses routerScanner b [] rest) (hr : Exhausted rest) :
      DrainRounds cfg b (.garbage rest)

theorem drainIter_rounds (cfg : Config) (b : Bytes) : DrainRounds cfg b (drainIter cfg b) := by
  unfold drainIter
  split
  · exact .bufferTooLarge
  · split
    next h => exact .needMore (exhausted_needMore h)
    next f h =>
      have hp := Parses.one (p := routerScanner) (scan_of_frame h)
      split
      next hmax => exact .frameTooLarge f hp hmax
      next hmax => exact .frame f _ hp (not_lt.1 hmax)
    next e h =>
      have hp := Parses.one (p := routerScanner) (scan_of_error h)
      split
      next hb => subst hb; exact .garbage [] (.refl _) exhausted_nil
      next hb =>
        dsimp only
        split
        next pos hpos =>
          have hj := parses_junk (findNextRouterMagic_eq_some hpos) ((b.drop 1).drop pos)
          rw [List.take_append_drop] at hj
          have hd : (if pos > 0 then (b.drop 1).drop pos else b.drop 1) = (b.drop 1).drop pos := by
            split
            · rfl
            · rw [show pos = 0 by omega, List.drop_zero]
          rw [hd]
          exact .resync _ (by simpa using hp.trans hj)
        next hnone =>
          have hne := findNextRouterMagic_eq_none hnone
          split
          · -- the block thrown away and the bytes kept are both junk
            set k := (b.drop 1).length - min 8 (b.drop 1).length with hk
            have htake : ∀ x ∈ (b.drop 1).take k, x ≠ routerMagic := fun x hx => hne x (List.mem_of_mem_take hx)
            have hj := parses_junk htake ((b.drop 1).drop k)
            rw [List.take_append_drop] at hj
            exact .garbage _ (by simpa using hp.trans hj)
              (exhausted_junk fun x hx => hne x (List.mem_of_mem_drop hx))
          · exact .garbage _ (by simpa using hp) (exhausted_junk hne)

/-! ### What a run has taken off its input -/

/-- The frames that are executed. -/
def requests (fs : List RouterFrame) : List RouterFrame := fs.filter (·.segment ≠ keepaliveSegment)

@[simp] theorem requests_append (fs gs : List RouterFrame) :
    requests (fs ++ gs) = requests fs ++ requests gs :=
  List.filter_append ..

theorem requests_keepalive {f : RouterFrame} (h : f.segment = keepaliveSegment) : requests [f] = [] := by
  simp [requests, h]

theorem requests_request {f : RouterFrame} (h : f.segment ≠ keepaliveSegment) : requests [f] = [f] := by
  simp [requests, h]

/-- `execute` succeeded and its reply was written, so that the loop went on. -/
def Passed (o : Except RZError Bytes × Bool) : Prop := ∃ resp, o = (.ok resp, true)

/-- Every request among `fs` has an outcome, and the loop went on after each. -/
structure Settled (fs : List RouterFrame) (os : List (Except RZError Bytes × Bool)) : Prop where
  length_eq : os.length = (requests fs).length
  passed : ∀ o ∈ os, Passed o

theorem Settled.keepalive {fs : List RouterFrame} {os : List (Except RZError Bytes × Bool)} {f : RouterFrame}
    (h : Settled fs os) (hf : f.segment = keepaliveSegment) : Settled (fs ++ [f]) os :=
  ⟨by simp [h.length_eq, requests_keepalive hf], h.passed⟩

theorem Settled.request {fs : List RouterFrame} {os : List (Except RZError Bytes × Bool)} {f : RouterFrame}
    {o : Except RZError Bytes × Bool} (h : Settled fs os) (hf : f.segment ≠ keepaliveSegment)
    (ho : Passed o) :
    Settled (fs ++ [f]) (os ++ [o]) := by
  refine ⟨by simp [h.length_eq, requests_request hf], fun o' ho' => ?_⟩
  rcases List.mem_append.1 ho' with ho' | ho'
  · exact h.passed o' ho'
  · exact List.mem_singleton.1 ho' ▸ ho

/-- The frame a connection is closed for. -/
def CloseCause.frame : CloseCause → Option RouterFrame
  | .frameTooLarge f | .writeFailed f | .executeFailed f => some f
  | _ => none

/-- Why an outcome closes the connection, if it does. -/
def failure (f : RouterFrame) : Except RZError Bytes × Bool → Option CloseCause
  | (.ok _, true) => none
  | (.ok _, false) => some (.writeFailed f)
  | (.error _, _) => some (.executeFailed f)

/-- The last frame taken was a request, and its outcome closed the connection. -/
def FailedAt (f : RouterFrame) (cause : CloseCause) (fs : List RouterFrame)
    (os : List (Except RZError Bytes × Bool)) : Prop :=
  ∃ gs os' o, fs = gs ++ [f] ∧ f.segment ≠ keepaliveSegment ∧ os = os' ++ [o] ∧ Settled gs os' ∧
    failure f o = some cause

/-- Where the frames taken and the outcomes stand, by program counter. -/
def Progress (cfg : Config) (buf : Bytes) (fs : List RouterFrame) (os : List (Except RZError Bytes × Bool)) :
    ClientPc → Prop
  | .reading => Settled fs os ∧ Exhausted buf
  | .draining => Settled fs os
  | .executing f | .replying f _ => ∃ gs, fs = gs ++ [f] ∧ f.segment ≠ keepaliveSegment ∧ Settled gs os
  | .closed (.frameTooLarge f) => Settled fs os ∧ cfg.maxFrameSize < f.frameLen ∧
      ∃ r, Parses routerScanner buf [f] r
  | .closed (.writeFailed f) => FailedAt f (.writeFailed f) fs os
  | .closed (.executeFailed f) => FailedAt f (.executeFailed f) fs os
  | .closed .bufferTooLarge => Settled fs os
  | .closed _ => Settled fs os ∧ Exhausted buf

/-- The frames taken off the input are what the whole-stream parser finds in it, up to where the
loop stands. -/
structure StreamInv (cfg : Config) (c : Client) : Prop where
  parsed : Parses routerScanner c.input c.frames c.buf
  small : ∀ f ∈ c.frames, f.frameLen ≤ cfg.maxFrameSize
  progress : Progress cfg c.buf c.frames c.outcomes c.pc

theorem StreamInv.new (cfg : Config) (t : Nat) : StreamInv cfg (Client.new t) :=
  ⟨.refl _, by simp [Client.new], ⟨⟨rfl, by simp [Client.new]⟩, exhausted_nil⟩⟩

theorem StreamInv.drain {cfg : Config} {now : Nat} {c : Client} (h : StreamInv cfg c)
    (hpc : c.pc = .draining) :
    StreamInv cfg (c.drain cfg now) := by
  obtain ⟨hp, hs, hg⟩ := h
  rw [hpc] at hg
  have hr := drainIter_rounds cfg c.buf
  unfold Client.drain
  generalize drainIter cfg c.buf = it at hr
  cases hr with
  | bufferTooLarge => exact ⟨hp, hs, hg⟩
  | needMore hx =>
    dsimp only
    split
    · exact ⟨hp, hs, hg, hx⟩
    · exact ⟨hp, hs, hg, hx⟩
  | frameTooLarge f hf hmax => exact ⟨hp, hs, hg, hmax, _, hf⟩
  | frame f rest hf hmax =>
    refine ⟨hp.trans hf, fun g hgm => ?_, ?_⟩
    · rcases List.mem_append.1 hgm with hgm | hgm
      · exact hs g hgm
      · exact List.mem_singleton.1 hgm ▸ hmax
    · dsimp only
      split
      next hk => exact Settled.keepalive hg hk
      next hk => exact ⟨c.frames, rfl, hk, hg⟩
  | resync rest hr => exact ⟨by simpa using hp.trans hr, hs, by rw [hpc]; exact hg⟩
  | garbage rest hr hx => exact ⟨by simpa using hp.trans hr, hs, hg, hx⟩

theorem StreamInv.replied {cfg : Config} {c : Client} {f : RouterFrame} {r : Except RZError Bytes}
    (failedAfter : Option Nat) (h : StreamInv cfg c) (hpc : c.pc = .replying f r) :
    StreamInv cfg (c.replied f r failedAfter) := by
  obtain ⟨hp, hs, hg⟩ := h
  rw [hpc] at hg
  obtain ⟨gs, hfs, hseg, hset⟩ := hg
  rcases r with e | resp
  · exact ⟨hp, hs, gs, _, _, hfs, hseg, rfl, hset, rfl⟩
  · cases failedAfter with
    | none => exact ⟨hp, hs, hfs ▸ hset.request hseg ⟨resp, rfl⟩⟩
    | some n => exact ⟨hp, hs, gs, _, _, hfs, hseg, rfl, hset, rfl⟩

theorem StreamInv.step {cfg : Config} {c c' : Client} {now : Nat} {e : ClientEvent} (h : StreamInv cfg c)
    (hs : c.step cfg (now, e) = some c') : StreamInv cfg c' := by
  have ⟨hp, hsm, hg⟩ := h
  cases Client.Move.of_step hs with
  | close e cause he hpc =>
    rw [hpc] at hg
    cases e <;> cases he <;> exact ⟨hp, hsm, hg⟩
  | read chunk hpc =>
    rw [hpc] at hg
    exact ⟨hp.append chunk, hsm, hg.1⟩
  | drain hpc => exact h.drain hpc
  | returned f r hpc =>
    rw [hpc] at hg
    exact ⟨hp, hsm, hg⟩
  | wrote f r hpc => exact h.replied none hpc
  | writeFail n f r hpc => exact h.replied (some n) hpc

theorem Client.reach_streamInv {cfg : Config} {t : Nat} {c : Client}
    (h : Reach (Client.step cfg) (Client.new t) c) :
    StreamInv cfg c :=
  h.induct (.new cfg t) fun _ _ _ _ hi hs => hi.step hs

/-! ### Two runs over one stream -/

namespace Client

/-- The cause the connection was closed for, when it was closed for a frame. -/
def closedFor (c : Client) : Option CloseCause :=
  match c.pc with
  | .closed cause => if cause.frame.isSome then some cause else none
  | _ => none

/-- The connection has served the stream `S`: it has read all of it and waits for more or was told
that there is no more, or it was closed for a frame before the end. No timeout fired and the buffer
was never too large. -/
inductive HasServed (S : Bytes) (c : Client) : Prop
  | waiting (hpc : c.pc = .reading) (hin : c.input = S)
  | ended {cause : CloseCause} (hpc : c.pc = .closed cause)
      (hc : cause = .cancelled ∨ cause = .peerClosed ∨ cause = .readError) (hin : c.input = S)
  | closed {cause : CloseCause} (hpc : c.pc = .closed cause) (hc : cause.frame.isSome) (hin : c.input <+: S)

end Client

/-- How a run over the stream `S` ends, said without its reads. -/
inductive Ends (cfg : Config) (S : Bytes) :
    List RouterFrame → List (Except RZError Bytes × Bool) → Option CloseCause → Prop
  | exhausted {fs os r} (hp : Parses routerScanner S fs r) (hx : Exhausted r) (hs : Settled fs os) :
      Ends cfg S fs os none
  | tooLarge {fs os r r' f} (hp : Parses routerScanner S fs r) (hf : Parses routerScanner r [f] r')
      (hmax : cfg.maxFrameSize < f.frameLen) (hs : Settled fs os) : Ends cfg S fs os (some (.frameTooLarge f))
  | failed {gs os r f o cause} (hp : Parses routerScanner S (gs ++ [f]) r)
      (hseg : f.segment ≠ keepaliveSegment)
      (hs : Settled gs os) (hf : failure f o = some cause) : Ends cfg S (gs ++ [f]) (os ++ [o]) (some cause)

theorem StreamInv.ends {cfg : Config} {S : Bytes} {c : Client} (h : StreamInv cfg c) (hs : c.HasServed S) :
    Ends cfg S c.frames c.outcomes c.closedFor := by
  obtain ⟨hp, -, hg⟩ := h
  unfold Client.closedFor
  cases hs with
  | waiting hpc hin =>
    rw [hpc] at hg ⊢
    exact .exhausted (hin ▸ hp) hg.2 hg.1
  | ended hpc hc hin =>
    rw [hpc] at hg ⊢
    rcases hc with rfl | rfl | rfl <;> exact .exhausted (hin ▸ hp) hg.2 hg.1
  | closed hpc hc hin =>
    obtain ⟨more, rfl⟩ := hin
    have hp' := hp.append more
    rw [hpc] at hg ⊢
    dsimp only
    rw [if_pos hc]
    rename_i cause
    cases cause with
    | frameTooLarge f =>
      obtain ⟨hset, hmax, r, hf⟩ := hg
      exact .tooLarge hp' (hf.append more) hmax hset
    | writeFailed f | executeFailed f =>
      obtain ⟨gs, os', o, hfs, hseg, hos, hset, hf⟩ := hg
      rw [hfs] at hp' ⊢
      rw [hos]
      exact .failed hp' hseg hset hf
    | _ => cases hc

/-- The `i`-th outcomes of two runs have the same consequence. -/
def Agree (os os' : List (Except RZError Bytes × Bool)) : Prop :=
  ∀ (i : Nat) o o', os[i]? = some o → os'[i]? = some o' → ∀ f, failure f o = failure f o'

theorem Agree.symm {os os' : List (Except RZError Bytes × Bool)} (h : Agree os os') : Agree os' os :=
  fun i o o' ho ho' f => (h i o' o ho' ho f).symm

theorem Agree.left {os tl os' : List (Except RZError Bytes × Bool)} (h : Agree (os ++ tl) os') :
    Agree os os' :=
  fun i o o' ho => h i o o' ((List.getElem?_append_left (List.getElem?_eq_some_iff.1 ho).1).trans ho)

theorem Settled.no_failure {fs gs : List RouterFrame} {os os' : List (Except RZError Bytes × Bool)}
    {f : RouterFrame} {o : Except RZError Bytes × Bool} {cause : CloseCause} (h : Settled fs os)
    (hg : Settled gs os') (hpre : gs ++ [f] <+: fs) (hseg : f.segment ≠ keepaliveSegment)
    (ha : Agree os (os' ++ [o])) (hf : failure f o = some cause) : False := by
  have hlt : os'.length < os.length := by
    obtain ⟨t, rfl⟩ := hpre
    rw [hg.length_eq, h.length_eq, requests_append, requests_append, requests_request hseg]
    simp only [List.length_append, List.length_singleton]
    omega
  obtain ⟨resp, hr⟩ := h.passed _ (List.getElem_mem hlt)
  have hi : os[os'.length]? = some (.ok resp, true) := by rw [List.getElem?_eq_getElem hlt, hr]
  rw [← ha os'.length _ o hi List.getElem?_concat_length f] at hf
  cases hf

namespace Ends

variable {cfg : Config} {S : Bytes} {fs fs' : List RouterFrame} {os os' : List (Except RZError Bytes × Bool)}
  {w w' : Option CloseCause}

theorem parses (h : Ends cfg S fs os w) : ∃ r, Parses routerScanner S fs r := by
  cases h <;> exact ⟨_, by assumption⟩

theorem settled (h : Ends cfg S fs os w) {hs : List RouterFrame} {g : RouterFrame} (hpre : hs ++ [g] <+: fs) :
    ∃ gs os₁ tl, Settled gs os₁ ∧ os = os₁ ++ tl ∧ hs <+: gs := by
  have hhs := (List.prefix_append hs [g]).trans hpre
  cases h with
  | exhausted hp hx hs => exact ⟨_, _, [], hs, by simp, hhs⟩
  | tooLarge hp hf hmax hs => exact ⟨_, _, [], hs, by simp, hhs⟩
  | failed hp hseg hs hf =>
    refine ⟨_, _, _, hs, rfl, ?_⟩
    rcases List.prefix_concat_iff.1 hpre with he | he
    · rw [(List.append_inj' he rfl).1]
    · exact (List.prefix_append _ _).trans he

theorem not_longer (h : Ends cfg S fs os w) (h' : Ends cfg S fs' os' w')
    (hsmall : ∀ f ∈ fs', f.frameLen ≤ cfg.maxFrameSize) (ha : Agree os os') {g : RouterFrame}
    (hpre : fs ++ [g] <+: fs') : False := by
  obtain ⟨r', hp'⟩ := h'.parses
  cases h with
  | exhausted hp hx hs =>
    have := (hpre.trans (hx.complete hp hp')).length_le
    simp at this
  | tooLarge hp hf hmax hs =>
    have hg := (hp.trans hf).next_eq hp' hpre
    exact absurd (hsmall g (hpre.subset (by simp))) (by rw [← hg]; omega)
  | failed hp hseg hs hf =>
    obtain ⟨gs, os₁, tl, hset, rfl, hgs⟩ := h'.settled hpre
    exact hset.no_failure hs hgs hseg ha.symm.left hf

theorem cause_eq (h : Ends cfg S fs os w) (h' : Ends cfg S fs' os' w') (hfs : fs = fs') (ha : Agree os os') :
    w = w' := by
  cases h with
  | exhausted hp hx hs =>
    cases h' with
    | exhausted => rfl
    | tooLarge hp' hf' =>
      have := (hx.complete hp (hp'.trans hf')).length_le
      simp [hfs] at this
    | failed hp' hseg' hs' hf' => exact (hs.no_failure hs' (hfs ▸ List.prefix_rfl) hseg' ha hf').elim
  | tooLarge hp hf hmax hs =>
    cases h' with
    | exhausted hp' hx' =>
      have := (hx'.complete hp' (hp.trans hf)).length_le
      simp [hfs] at this
    | tooLarge hp' hf' =>
      subst hfs
      rw [(hp.trans hf).next_eq (hp'.trans hf') List.prefix_rfl]
    | failed hp' hseg' hs' hf' => exact (hs.no_failure hs' (hfs ▸ List.prefix_rfl) hseg' ha hf').elim
  | failed hp hseg hs hf =>
    cases h' with
    | exhausted hp' hx' hs' => exact (hs'.no_failure hs (hfs ▸ List.prefix_rfl) hseg ha.symm hf).elim
    | tooLarge hp' hf' _ hs' => exact (hs'.no_failure hs (hfs ▸ List.prefix_rfl) hseg ha.symm hf).elim
    | failed hp' hseg' hs' hf' =>
      obtain ⟨rfl, hff⟩ := List.append_inj' hfs rfl
      obtain rfl := List.singleton_inj.1 hff
      have hlen := hs.length_eq.trans hs'.length_eq.symm
      have ho := ha _ _ _ (hlen ▸ List.getElem?_concat_length) List.getElem?_concat_length
      exact hf.symm.trans ((ho _).trans hf')

/-- What a run over `S` takes off it, and what it is closed for, depends only on the outcomes of its
requests. -/
theorem unique (h : Ends cfg S fs os w) (h' : Ends cfg S fs' os' w')
    (hsmall : ∀ f ∈ fs, f.frameLen ≤ cfg.maxFrameSize) (hsmall' : ∀ f ∈ fs', f.frameLen ≤ cfg.maxFrameSize)
    (ha : Agree os os') : fs = fs' ∧ w = w' := by
  have hfs : fs = fs' := by
    obtain ⟨r, hp⟩ := h.parses
    obtain ⟨r', hp'⟩ := h'.parses
    rcases hp.prefix_or hp' with ⟨t, rfl⟩ | ⟨t, rfl⟩
    · cases t with
      | nil => simp
      | cons g t => exact (h.not_longer h' hsmall' ha (g := g) ⟨t, by simp⟩).elim
    · cases t with
      | nil => simp
      | cons g t => exact (h'.not_longer h hsmall ha.symm (g := g) ⟨t, by simp⟩).elim
  subst hfs
  exact ⟨rfl, h.cause_eq h' rfl ha⟩

end Ends

/-- Chunking independence. Two connections that served the same stream, each split into reads in its
own way, and whose `i`-th `execute` had the same result (and whose reply could be written in both or
in neither), have taken the same frames off it and were closed for the same frame, if for any. -/
theorem chunking_independent {cfg : Config} {t₁ t₂ : Nat} {c₁ c₂ : Client} {S : Bytes}
    (h₁ : Reach (Client.step cfg) (Client.new t₁) c₁) (h₂ : Reach (Client.step cfg) (Client.new t₂) c₂)
    (hs₁ : c₁.HasServed S) (hs₂ : c₂.HasServed S)
    (hexec : ∀ (i : Nat) o₁ o₂, c₁.outcomes[i]? = some o₁ → c₂.outcomes[i]? = some o₂ → o₁.1 = o₂.1)
    (hwrite : ∀ (i : Nat) resp w₁ w₂, c₁.outcomes[i]? = some (.ok resp, w₁) →
      c₂.outcomes[i]? = some (.ok resp, w₂) → w₁ = w₂) :
    c₁.frames = c₂.frames ∧ c₁.closedFor = c₂.closedFor := by
  have hi₁ := Client.reach_streamInv h₁
  have hi₂ := Client.reach_streamInv h₂
  refine (hi₁.ends hs₁).unique (hi₂.ends hs₂) hi₁.small hi₂.small ?_
  rintro i ⟨r₁, w₁⟩ ⟨r₂, w₂⟩ ho₁ ho₂ f
  obtain rfl : r₁ = r₂ := hexec i _ _ ho₁ ho₂
  rcases r₁ with e | resp
  · rfl
  · rw [hwrite i resp w₁ w₂ ho₁ ho₂]

theorem Client.HasServed.of_closedFor {S : Bytes} {c : Client} (h : c.closedFor.isSome)
    (hin : c.input <+: S) :
    c.HasServed S := by
  unfold Client.closedFor at h
  split at h
  next cause hpc =>
    split at h
    next hc => exact .closed hpc hc hin
    next => cases h
  next => cases h

/-- Junk with a magic byte in it, a keepalive and a request, in one read and cut inside the junk, a
header and a shard frame; `execute` fails in both runs. -/
theorem chunking_independent_cut :
    ∃ (S : Bytes) (c₁ c₂ : Client), Reach (Client.step {}) (Client.new 0) c₁ ∧
      Reach (Client.step {}) (Client.new 5) c₂ ∧
      c₁.HasServed S ∧ c₂.HasServed S ∧ c₁.frames.length = 2 ∧ c₁.frames = c₂.frames ∧
        c₁.closedFor = c₂.closedFor := by
  let junk : Bytes := [7, 0xFE, 0xFF, 0xFF, 0xFF, 0xFF]
  let keepalive : Bytes := [0xFE, 20, 0, 0, 0, 13] ++
    [0x5F, 0x5F, 0x6B, 0x65, 0x65, 0x70, 0x61, 0x6C, 0x69, 0x76, 0x65, 0x5F, 0x5F] ++
    [0, 0xFF, 0, 0, 0, 0]
  let request : Bytes := [0xFE, 11, 0, 0, 0, 0, 0, 0xFF, 7, 0, 0, 0, 0, 0, 0, 0]
  let S := junk ++ keepalive ++ request
  let p : Client → Bool := fun c =>
    decide (c.frames.length = 2 ∧ c.input = S ∧ c.outcomes = [(.error .timeout, true)] ∧
    c.closedFor.isSome)
  obtain ⟨c₁, -, h₁, hp₁⟩ := Reach.of_any (Client.step {}) (Client.new 0)
    [(1, .read S), (1, .drain), (1, .drain), (1, .drain), (1, .drain), (2, .returned (.error .timeout)),
      (2, .wrote)] p
    (by decide +kernel)
  obtain ⟨c₂, -, h₂, hp₂⟩ := Reach.of_any (Client.step {}) (Client.new 5)
    [(6, .read (S.take 3)), (6, .drain), (7, .read ((S.drop 3).take 5)), (7, .drain), (7, .drain), (7, .drain),
      (8, .read ((S.drop 8).take 30)), (8, .drain), (8, .drain), (9, .read (S.drop 38)), (9, .drain),
      (9, .returned (.error .timeout)), (9, .wrote)] p
    (by decide +kernel)
  obtain ⟨hf₁, hi₁, ho₁, hc₁⟩ := of_decide_eq_true hp₁
  obtain ⟨-, hi₂, ho₂, hc₂⟩ := of_decide_eq_true hp₂
  have hs₁ : c₁.HasServed S := .of_closedFor hc₁ (hi₁ ▸ List.prefix_rfl)
  have hs₂ : c₂.HasServed S := .of_closedFor hc₂ (hi₂ ▸ List.prefix_rfl)
  refine ⟨S, c₁, c₂, h₁, h₂, hs₁, hs₂, hf₁, chunking_independent h₁ h₂ hs₁ hs₂ ?_ ?_⟩
  · intro i o₁ o₂ e₁ e₂
    rw [ho₁] at e₁
    rw [ho₂, e₁] at e₂
    cases e₂
    rfl
  · intro i resp w₁ w₂ e₁ e₂
    rw [ho₁] at e₁
    rw [ho₂, e₁] at e₂
    cases e₂
    rfl

end RzBridge
