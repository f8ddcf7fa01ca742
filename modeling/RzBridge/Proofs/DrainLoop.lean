import RzBridge.Proofs.RouterCodec
import RzBridge.Proofs.Serving

/-!
# What the drain loop leaves

From one read to the next the drain loop takes bytes off the front of the buffer, with an `execute` and a reply
for each request. Every event of the loop lowers `Client.weight`, so it ends (`drain_loop_ends`). What it
leaves when it goes back to reading is the beginning of a frame or a few bytes in which no frame can
begin (`Residue`).
-/

namespace RzBridge
open Machine LittleEndian

/-! ### One round -/

/-- The beginning of a frame, as far as one can tell. -/
def AwaitsMore (buf : Bytes) : Prop :=
  buf.length < 5 ∨ buf.headD 0 = routerMagic ∧ buf.length < 5 + leVal (slice buf 1 5)

/-- What the drain loop may leave in the buffer. -/
structure Residue (cfg : Config) (buf : Bytes) : Prop where
  size : buf.length ≤ cfg.maxBufferSize
  shape : tryDecodeRouter buf = .needMore ∧ AwaitsMore buf ∨ routerMagic ∉ buf ∧ buf.length ≤ 64

theorem awaitsMore_of_needMore {buf : Bytes} (h : tryDecodeRouter buf = .needMore) : AwaitsMore buf :=
  (tryDecodeRouter_needMore_iff.1 h).imp_right fun ⟨hm, _, hlen⟩ => ⟨hm, hlen⟩

theorem Residue.no_frame {cfg : Config} {buf : Bytes} (h : Residue cfg buf) (f : RouterFrame) :
    tryDecodeRouter buf ≠ .frame f := by
  intro hf
  rcases h.shape with ⟨hn, -⟩ | ⟨hno, -⟩
  · cases hn.symm.trans hf
  · have hd := tryDecodeRouter_eq_frame hf
    cases buf with
    | nil => exact absurd (hd.pos.trans_le hd.le) (by simp)
    | cons b buf => exact hno (List.mem_cons.2 (.inl hd.magic.symm))

/-- What a round of the loop leaves of the buffer `buf`. -/
def DrainIter.Leaves (cfg : Config) (buf : Bytes) : DrainIter → Prop
  | .needMore => Residue cfg buf
  | .frame _ rest => rest <:+ buf
  | .resync rest => rest <:+ buf
  | .garbage rest => rest <:+ buf ∧ Residue cfg rest
  | _ => True

theorem drainIter_leaves (cfg : Config) (buf : Bytes) : (drainIter cfg buf).Leaves cfg buf := by
  unfold drainIter
  split
  · trivial
  next hsize =>
    have hsize := not_lt.1 hsize
    split
    next hd => exact ⟨hsize, .inl ⟨hd, awaitsMore_of_needMore hd⟩⟩
    next f hf =>
      split
      · trivial
      · exact List.drop_suffix f.frameLen buf
    · split
      next hnil => exact ⟨List.suffix_rfl, hsize, .inr ⟨by simp [hnil], by simp [hnil]⟩⟩
      · have hone : buf.drop 1 <:+ buf := List.drop_suffix 1 buf
        dsimp only
        split
        next pos hpos =>
          show (if pos > 0 then (buf.drop 1).drop pos else buf.drop 1) <:+ buf
          split
          · exact (List.drop_suffix pos (buf.drop 1)).trans hone
          · exact hone
        next hnone =>
          have hno := findNextRouterMagic_eq_none hnone
          have hle := hone.length_le
          split
          next hlong =>
            have hkeep := List.drop_suffix ((buf.drop 1).length - min 8 (buf.drop 1).length) (buf.drop 1)
            refine ⟨hkeep.trans hone, (hkeep.trans hone).length_le.trans hsize, .inr ⟨fun hin => ?_, ?_⟩⟩
            · exact hno _ (List.mem_of_mem_drop hin) rfl
            · rw [List.length_drop]
              omega
          next hshort =>
            exact ⟨hone, hle.trans hsize, .inr ⟨fun hin => hno _ hin rfl, not_lt.1 hshort⟩⟩

/-! ### The loop -/

/-- The events of the drain loop and of what it awaits. -/
def ClientEvent.inLoop : ClientEvent → Bool
  | .drain => true
  | .returned _ => true
  | .wrote => true
  | .writeFail _ => true
  | _ => false

theorem Client.replied_buf (c : Client) (f : RouterFrame) (r : Except RZError Bytes) (failedAfter : Option Nat) :
    (c.replied f r failedAfter).buf = c.buf ∧ (c.replied f r failedAfter).pc ≠ .reading ∧
      (c.replied f r failedAfter).pc.weight ≤ 1 := by
  unfold Client.replied
  dsimp only
  split
  · exact ⟨rfl, by simp, Nat.le_refl 1⟩
  · exact ⟨rfl, by simp [Client.close], Nat.zero_le 1⟩
  · exact ⟨rfl, by simp [Client.close], Nat.zero_le 1⟩

theorem Client.replied_input (c : Client) (f : RouterFrame) (r : Except RZError Bytes) (failedAfter : Option Nat) :
    (c.replied f r failedAfter).input = c.input := by
  unfold Client.replied
  dsimp only
  split <;> rfl

theorem Client.drain_leaves {cfg : Config} {now : Nat} {c : Client} (hpc : c.pc = .draining) :
    (c.drain cfg now).buf <:+ c.buf ∧
      ((c.drain cfg now).pc = .reading → Residue cfg (c.drain cfg now).buf) := by
  have hl := drainIter_leaves cfg c.buf
  unfold Client.drain
  split
  case h_1 => exact ⟨List.suffix_rfl, by simp [Client.close]⟩
  case h_2 hd =>
    rw [hd] at hl
    split
    · exact ⟨List.suffix_rfl, by simp [Client.close]⟩
    · exact ⟨List.suffix_rfl, fun _ => hl⟩
  case h_3 => exact ⟨List.suffix_rfl, by simp [Client.close]⟩
  case h_4 f rest hd =>
    rw [hd] at hl
    refine ⟨hl, fun hr => ?_⟩
    dsimp only at hr
    split at hr
    · cases hr
    · cases hr
  case h_5 rest hd =>
    rw [hd] at hl
    refine ⟨hl, fun hr => ?_⟩
    cases hpc.symm.trans hr
  case h_6 rest hd =>
    rw [hd] at hl
    exact ⟨hl.1, fun _ => hl.2⟩

/-- An event of the loop lowers the weight and takes bytes off the front at most. -/
theorem Client.loop_step {cfg : Config} {now : Nat} {c c' : Client} {e : ClientEvent} (he : e.inLoop = true)
    (hs : c.step cfg (now, e) = some c') :
    c'.weight < c.weight ∧ c'.buf <:+ c.buf ∧ (c'.pc = .reading → Residue cfg c'.buf) := by
  cases Client.Move.of_step hs with
  | close e cause hc => cases e <;> simp [ClientEvent.inLoop, ClientEvent.closes] at he hc
  | read => cases he
  | drain hpc =>
    obtain ⟨hbuf, hres⟩ := @Client.drain_leaves cfg now c hpc
    exact ⟨Client.weight_drain hpc, hbuf, hres⟩
  | returned f r hpc =>
    refine ⟨?_, List.suffix_rfl, by simp⟩
    simp only [Client.weight, hpc, ClientPc.weight]
    omega
  | wrote f r hpc =>
    obtain ⟨hbuf, hreading, hw⟩ := c.replied_buf f r none
    have hweight : c.weight = 3 * c.buf.length + 2 := by simp only [Client.weight, hpc, ClientPc.weight]
    refine ⟨?_, hbuf ▸ List.suffix_rfl, fun h => absurd h hreading⟩
    rw [hweight, Client.weight, hbuf]
    omega
  | writeFail n f r hpc =>
    obtain ⟨hbuf, hreading, hw⟩ := c.replied_buf f r (some n)
    have hweight : c.weight = 3 * c.buf.length + 2 := by simp only [Client.weight, hpc, ClientPc.weight]
    refine ⟨?_, hbuf ▸ List.suffix_rfl, fun h => absurd h hreading⟩
    rw [hweight, Client.weight, hbuf]
    omega

/-- The drain loop on any buffer, whatever `execute` returns and when: it takes a bounded number of events, it
can go on until it is left, and if it is left without closing the connection the buffer is a suffix of
the one it began with and a residue, with no frame at its front. -/
theorem drain_loop_ends {cfg : Config} {c c' : Client} {ls : List (Nat × ClientEvent)} (hpc : c.pc = .draining)
    (hls : ∀ l ∈ ls, l.2.inLoop = true) (he : exec (Client.step cfg) c ls = some c') :
    ls.length ≤ 3 * c.buf.length + 1 ∧
    ((∀ l, l.2.inLoop = true → c'.step cfg l = none) → c'.pc = .reading ∨ ∃ cause, c'.pc = .closed cause) ∧
    (c'.pc = .reading → c'.buf <:+ c.buf ∧ Residue cfg c'.buf ∧ ∀ f, tryDecodeRouter c'.buf ≠ .frame f) := by
  have hweight : c.weight = 3 * c.buf.length + 1 := by simp only [Client.weight, hpc, ClientPc.weight]
  have hinv : ls.length + c'.weight ≤ c.weight ∧ c'.buf <:+ c.buf ∧ (c'.pc = .reading → Residue cfg c'.buf) := by
    refine exec_induct (I := fun pre s => (∀ l ∈ pre, l.2.inLoop = true) →
      pre.length + s.weight ≤ c.weight ∧ s.buf <:+ c.buf ∧ (s.pc = .reading → Residue cfg s.buf)) he ?_ ?_ hls
    · exact fun _ => ⟨by simp, List.suffix_rfl, fun h => by cases hpc.symm.trans h⟩
    · intro pre s l s' _ ih hs hpre
      obtain ⟨hw, hbuf, -⟩ := ih fun l hl => hpre l (List.mem_append_left _ hl)
      obtain ⟨hw', hbuf', hres⟩ := Client.loop_step (hpre l (List.mem_append_right _ List.mem_cons_self)) hs
      refine ⟨?_, hbuf'.trans hbuf, hres⟩
      rw [List.length_append, List.length_singleton]
      omega
  obtain ⟨hw, hbuf, hres⟩ := hinv
  refine ⟨by omega, fun hstuck => ?_, fun hr => ⟨hbuf, hres hr, (hres hr).no_frame⟩⟩
  cases hpc' : c'.pc with
  | reading => exact .inl rfl
  | closed cause => exact .inr ⟨cause, rfl⟩
  | draining =>
    have h := hstuck (0, .drain) rfl
    simp [Client.step, hpc'] at h
  | executing f =>
    have h := hstuck (0, .returned (.error .timeout)) rfl
    simp [Client.step, hpc'] at h
  | replying f r =>
    have h := hstuck (0, .wrote) rfl
    simp [Client.step, hpc'] at h

/-- Garbage and the first two bytes of a frame: these two are left. -/
theorem drain_loop_ends_garbage : ∃ c', exec (Client.step {})
      { Client.new 0 with buf := [1, 2, 3, 0xFE, 7], pc := .draining } [(0, .drain), (0, .drain)] = some c' ∧
    c'.pc = .reading ∧ c'.buf = [0xFE, 7] ∧ Residue {} c'.buf := by
  obtain ⟨c', he, -, hp⟩ := Reach.of_any (Client.step {})
    { Client.new 0 with buf := [1, 2, 3, 0xFE, 7], pc := .draining } [(0, .drain), (0, .drain)]
    (fun c' => decide (c'.pc = .reading ∧ c'.buf = [0xFE, 7])) (by decide)
  obtain ⟨hr, hbuf⟩ := of_decide_eq_true hp
  exact ⟨c', he, hr, hbuf, ((drain_loop_ends rfl (by decide) he).2.2 hr).2.1⟩

end RzBridge
