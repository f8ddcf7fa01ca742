import RzBridge.ReadLoop
import RzBridge.Proofs.CloseDecision

/-!
# The read loop does not panic

`drain_frame_async` looks only at bytes it has waited for. The test of the read loop covers the start of the
field data but not the three bytes it then takes. These are there all the same: what it calls the payload
is the whole frame, and `drain_frame_async` has checked that the payload proper, nine bytes shorter,
reaches as far as the field count (`shouldCloseChecked_eq`).
-/

namespace RzBridge
open Machine LittleEndian

/-! ### The checked operations -/

theorem sliceChecked_eq {xs : Bytes} {i j : Nat} (hi : i ≤ j) (hj : j ≤ xs.length) :
    sliceChecked xs i j = some (slice xs i j) := if_pos ⟨hi, hj⟩

theorem splitToChecked_eq {xs : Bytes} {n : Nat} (hn : n ≤ xs.length) :
    splitToChecked xs n = some (xs.take n, xs.drop n) := if_pos hn

theorem toArrayChecked_eq {n : Nat} {xs : Bytes} (hn : xs.length = n) : toArrayChecked n xs = some xs := if_pos hn

theorem fillTo_true {n : Nat} {reads reads' : List Bytes} {buf buf' : Bytes}
    (h : fillTo n reads buf = (true, reads', buf')) : n ≤ buf'.length ∧ buf <+: buf' := by
  induction reads generalizing buf with
  | nil =>
    simp only [fillTo, Prod.mk.injEq, decide_eq_true_eq] at h
    obtain ⟨hn, -, rfl⟩ := h
    exact ⟨hn, List.prefix_rfl⟩
  | cons r rs ih =>
    simp only [fillTo] at h
    split at h
    next hn =>
      cases h
      exact ⟨hn, List.prefix_rfl⟩
    next =>
      split at h
      · cases h
      · obtain ⟨hn, hpre⟩ := ih h
        exact ⟨hn, (List.prefix_append buf r).trans hpre⟩

theorem takeFrameChecked_eq {buf : Bytes} {n : Nat} (h9 : 9 ≤ n) (hn : n ≤ buf.length) :
    takeFrameChecked (u32FromLeBytes (slice buf 1 5)) n buf =
      some (match parseHeader (buf.take n) with
        | .error e => (.error e, buf.drop n)
        | .ok hdr => (.ok (hdr, buf.take n), buf.drop n)) := by
  have hlen : (buf.take n).length = n := List.length_take_of_le hn
  have hpayload : slice (buf.take n) 9 (buf.take n).length = (buf.take n).drop 9 := by
    rw [slice, List.take_of_length_le (by rw [List.length_drop])]
  unfold takeFrameChecked parseHeader
  rw [splitToChecked_eq hn]
  simp only [Option.bind_eq_bind, Option.bind_some]
  rw [sliceChecked_eq (h9.trans_eq hlen.symm) le_rfl, hpayload, Option.bind_some]
  cases hp : (buf.take n).drop 9 with
  | nil => rfl
  | cons b payload =>
    rw [if_neg (List.cons_ne_nil b payload)]
    simp only [List.getElem?_cons_zero, Option.bind_some]
    by_cases hshort : (b :: payload).length < 1 + b.toNat + 2
    · rw [if_pos hshort, if_pos hshort]
    · have hlong := not_lt.1 hshort
      rw [if_neg hshort, if_neg hshort, sliceChecked_eq (Nat.le_add_right ..) hlong, Option.bind_some,
        toArrayChecked_eq (by rw [length_slice hlong]; omega), Option.bind_some, slice_take (h9.trans' (by decide))]

/-- `drain_frame_async` does not panic, whatever the reads return. -/
theorem drainFrameChecked_eq (reads : List Bytes) (buf : Bytes) :
    drainFrameChecked reads buf = some (drainFrameAsync reads buf) := by
  unfold drainFrameChecked drainFrameAsync
  rcases hfirst : fillTo 9 reads buf with ⟨_ | _, reads₁, buf₁⟩
  · rfl
  obtain ⟨h9, -⟩ := fillTo_true hfirst
  have hheader : slice buf₁ 0 9 = buf₁.take 9 := rfl
  have hmagic : (buf₁.take 9)[0]? = some (buf₁.headD 0) := by
    cases buf₁ with
    | nil => exact absurd h9 (by decide)
    | cons b buf₁ => rfl
  have hfield : ∀ {i j}, i ≤ j → j ≤ 9 → sliceChecked (buf₁.take 9) i j = some (slice buf₁ i j) := by
    intro i j hij hj
    rw [sliceChecked_eq hij (by rw [List.length_take]; omega), slice_take hj]
  have hfour : ∀ {i}, i + 4 ≤ 9 → (slice buf₁ i (i + 4)).length = 4 := by
    intro i hi
    rw [length_slice (hi.trans h9)]
    omega
  dsimp only
  rw [sliceChecked_eq (Nat.zero_le 9) h9, hheader]
  simp only [Option.bind_eq_bind, Option.bind_some]
  rw [hmagic]
  simp only [Option.bind_some]
  split
  · rfl
  rw [hfield (by decide) (by decide), hfield (by decide) le_rfl, Option.bind_some,
    toArrayChecked_eq (hfour (by decide)), Option.bind_some, Option.bind_some, toArrayChecked_eq (hfour (by decide)),
    Option.bind_some]
  rcases hsecond : fillTo (9 + leVal (slice buf₁ 5 9)) reads₁ buf₁ with ⟨_ | _, reads₂, buf₂⟩
  · rfl
  obtain ⟨hn, rest, rfl⟩ := fillTo_true hsecond
  dsimp only
  rw [← slice_append (i := 1) (j := 5) rest (h9.trans' (by decide)), takeFrameChecked_eq (Nat.le_add_right ..) hn,
    slice_append (i := 5) rest h9]
  cases parseHeader ((buf₁ ++ rest).take (9 + leVal (slice buf₁ 5 9))) <;> rfl

/-- The close decision does not panic on a frame that `drain_frame_async` returned. -/
theorem shouldCloseChecked_eq {hdr : Header} {frame : Bytes} (h : parseHeader frame = .ok hdr) :
    shouldCloseChecked hdr frame = some (shouldClose hdr frame) := by
  obtain ⟨-, hlen⟩ := parseHeader_ok h
  unfold shouldCloseChecked shouldClose
  dsimp only
  rw [if_pos (by omega), sliceChecked_eq (by omega) (by omega), Option.bind_eq_bind, Option.bind_some]
  by_cases hs : slice frame 1 (1 + hdr.statusLen.toNat) = [0x45, 0x52, 0x52, 0x4F, 0x52]
  · rw [if_pos hs, if_pos ⟨by omega, hs⟩, sliceChecked_eq (Nat.le_add_right ..) (by omega), Option.bind_some]
    cases fromUtf8 (slice frame (1 + hdr.statusLen.toNat + 2) (1 + hdr.statusLen.toNat + 2 + 3)) <;> rfl
  · rw [if_neg hs, if_neg fun hc => hs hc.2]

/-! ### The steps of the read loop -/

theorem Mux.readerDrainChecked_eq (m : Mux) (c : Nat) : m.readerDrainChecked c = (m.readerDrain c).map some := by
  unfold readerDrainChecked readerDrain
  cases m.conns[c]? with
  | none => rfl
  | some conn =>
    simp only [Option.bind_eq_bind, Option.bind_some]
    rw [drainFrameChecked_eq, drainFrameAsync_eq]
    by_cases hr : conn.reader = .reading
    · cases drainStep conn.buf with
      | needMore => simp [hr]
      | failed e rest => simp [hr]
      | frame hdr frame rest => simp [hr]
    · simp [hr]

theorem Mux.readerDeliverChecked_eq {m : Mux} {c : Nat} (h : ∀ conn, m.conns[c]? = some conn → ReaderInv conn) :
    m.readerDeliverChecked c = (m.readerDeliver c).map some := by
  unfold readerDeliverChecked readerDeliver
  cases hc : m.conns[c]? with
  | none => rfl
  | some conn =>
    simp only [Option.bind_eq_bind, Option.bind_some]
    cases hr : conn.reader with
    | deliver tok hdr frame =>
      have hinv := h conn hc
      have hparse := hinv.header _ (List.mem_of_getLast? (hinv.deliver tok hdr frame hr))
      dsimp only
      rw [shouldCloseChecked_eq hparse]
      rfl
    | _ => rfl

theorem ConnStep.closed {m : Mux} {l : MuxLabel} {c : Nat} {conn conn' : Conn} (hs : ConnStep m l c conn conn')
    (h : conn.reader = .ended → conn.closed = true) : conn'.reader = .ended → conn'.closed = true := by
  cases hs with
  | readerStop => exact fun _ => rfl
  | writerStop => exact fun _ => rfl
  | readStop => simp
  | drain => simp
  | lockLoad => simp
  | loadRemove => simp
  | deliver hdr f tok closed reader hr hc =>
    rcases hc with ⟨-, rfl⟩ | ⟨-, rfl⟩
    · simp
    · simp
  | _ => exact h

/-- In every state of the multiplexer, started with any demux maps, calls and buffers: no step of a read loop
panics, whatever the socket returns; a loop ends only after it left through a `break`, and by a step that is
then possible and closes the connection, so that the connection of every loop that is over is closed. -/
theorem read_loop_safe {cfg : Config} {m₀ m : Mux}
    (h₀ : ∀ conn ∈ m₀.conns, conn.reader = .reading ∧ conn.received = [])
    (hm : Reach (Mux.step cfg) m₀ m) :
    (∀ reads buf, drainFrameChecked reads buf = some (drainFrameAsync reads buf)) ∧
    (∀ l, m.stepChecked cfg l = (m.step cfg l).map some) ∧
    ∀ (c : Nat) (conn : Conn), m.conns[c]? = some conn →
      (conn.reader = .ended → conn.closed = true) ∧
      (∀ l m' conn', m.step cfg l = some m' → m'.conns[c]? = some conn' → conn'.reader = .ended →
        conn.reader = .ended ∨ conn.reader = .stop) ∧
      (conn.reader = .stop → ∃ m' conn', m.step cfg (.readerStop c) = some m' ∧
        m'.conns[c]? = some conn' ∧ conn'.reader = .ended ∧ conn'.closed = true) := by
  have hinv : ∀ (c : Nat) (conn : Conn), m.conns[c]? = some conn →
      ReaderInv conn ∧ (conn.reader = .ended → conn.closed = true) := by
    refine hm.induct (I := fun m => ∀ (c : Nat) (conn : Conn), m.conns[c]? = some conn →
      ReaderInv conn ∧ (conn.reader = .ended → conn.closed = true)) ?_ ?_
    · intro c conn hc
      obtain ⟨hr, hnil⟩ := h₀ conn (List.mem_of_getElem? hc)
      exact ⟨⟨by simp [hnil], by simp [hr], by simp [hr]⟩, by simp [hr]⟩
    · intro m l m' _ hi hs c conn' hc'
      rcases Mux.step_conn hs hc' with ⟨conn, hc, hstep⟩ | ⟨-, host, -, rfl⟩
      · exact ⟨(hi c conn hc).1.step hstep, hstep.closed (hi c conn hc).2⟩
      · exact ⟨⟨by simp, by simp, by simp⟩, by simp⟩
  refine ⟨drainFrameChecked_eq, fun l => ?_, fun c conn hc => ⟨(hinv c conn hc).2, ?_, fun hr => ?_⟩⟩
  · cases l with
    | drain c => exact m.readerDrainChecked_eq c
    | deliver c => exact Mux.readerDeliverChecked_eq fun conn hc => (hinv c conn hc).1
    | _ => rfl
  · intro l m' conn' hs hc' hended
    rcases Mux.step_conn hs hc' with ⟨conn₁, hc₁, hstep⟩ | ⟨-, host, -, rfl⟩
    · cases hc.symm.trans hc₁
      exact (hstep.ended hended).imp_right (·.2)
    · cases hended
  · set conn' : Conn := { conn with closed := true, reader := .ended } with hconn'
    refine ⟨m.setConn c conn', conn', ?_, Mux.setConn_self hc,
      rfl, rfl⟩
    simp [Mux.step, Mux.readerStop, hc, hr, hconn']

/-- The decision on a "503" does not panic. -/
theorem read_loop_safe_unavailable : ∃ m, exec (Mux.step {}) {} (errorRun "503") = some m ∧
    (m.step {} (.deliver 0)).isSome = true ∧
    m.stepChecked {} (.deliver 0) = (m.step {} (.deliver 0)).map some := by
  obtain ⟨m, hs, hm, hp⟩ := Reach.of_any (Mux.step {}) {} (errorRun "503")
    (fun m => (m.step {} (.deliver 0)).isSome) (by decide +kernel)
  exact ⟨m, hs, hp, (read_loop_safe (by simp) hm).2.1 _⟩

end RzBridge
