import RzBridge.Protocol

/-!
# `drain_frame_async` and shard frames

`drainStep` is `drain_frame_async` between two reads (`drainFrameAsync_eq`). What it returns is a
complete shard frame carrying the header's id, cut off the front of the buffered bytes.
-/

namespace RzBridge
open LittleEndian

theorem length_slice {xs : Bytes} {i j : Nat} (h : j ≤ xs.length) : (slice xs i j).length = j - i := by
  simp only [slice, List.length_take, List.length_drop]
  omega

theorem slice_take {xs : Bytes} {i j n : Nat} (h : j ≤ n) : slice (xs.take n) i j = slice xs i j := by
  simp only [slice, List.drop_take, List.take_take]
  congr 1
  omega

theorem slice_append {xs : Bytes} {i j : Nat} (ys : Bytes) (h : j ≤ xs.length) :
    slice (xs ++ ys) i j = slice xs i j := by
  rcases Nat.lt_or_ge j i with hi | hi
  · simp only [slice, Nat.sub_eq_zero_of_le hi.le, List.take_zero]
  · rw [slice, slice, List.drop_append_of_le_length (by omega), List.take_append_of_le_length (by simp; omega)]

theorem headD_append {xs : Bytes} (ys : Bytes) (h : 0 < xs.length) : (xs ++ ys).headD 0 = xs.headD 0 := by
  cases xs with
  | nil => simp at h
  | cons x xs => rfl

theorem eq_prependHeader {f : Bytes} (h9 : 9 ≤ f.length) (hm : f.headD 0 = shardMagic)
    (hlen : leVal (slice f 5 9) = f.length - 9) :
    f = prependHeader (u32FromLeBytes (slice f 1 5)) (f.drop 9) := by
  have hid : u32ToLeBytes (u32FromLeBytes (slice f 1 5)) = slice f 1 5 :=
    u32ToLeBytes_fromLeBytes (length_slice (by omega))
  have hn : leBytes 4 (f.drop 9).length = slice f 5 9 := by
    have h4 : (slice f 5 9).length = 4 := length_slice (by omega)
    rw [List.length_drop, ← hlen, ← h4, leBytes_leVal]
  obtain ⟨b, f, rfl⟩ : ∃ b t, f = b :: t := List.exists_cons_of_length_pos (by omega)
  have hb : b = shardMagic := hm
  rw [prependHeader, hid, hn, hb]
  simp only [slice, List.drop_succ_cons, List.cons_append, List.cons.injEq, true_and, Nat.reduceSub]
  rw [List.append_assoc, ← List.drop_drop (i := 4) (j := 4), List.take_append_drop, List.drop_zero,
    List.nil_append, List.take_append_drop]

theorem drainStep_eq_frame {buf : Bytes} {hdr : Header} {f rest : Bytes}
    (h : drainStep buf = .frame hdr f rest) :
    buf = f ++ rest ∧ IsShardFrame hdr.clrId f ∧ parseHeader f = .ok hdr := by
  unfold drainStep at h
  split at h
  · cases h
  next h9 =>
    split at h
    · cases h
    next hm =>
      simp only at h
      split at h
      · cases h
      next hn =>
        split at h
        · cases h
        next hdr' hp =>
          simp only [DrainStep.frame.injEq] at h
          obtain ⟨rfl, rfl, rfl⟩ := h
          set n := leVal (slice buf 5 9) with hnd
          refine ⟨(List.take_append_drop _ _).symm, ?_, hp⟩
          have hlen : (buf.take (9 + n)).length = 9 + n := by simp; omega
          have hmag : (buf.take (9 + n)).headD 0 = shardMagic := by
            have : buf.headD 0 = shardMagic := by simpa using hm
            cases buf with
            | nil => simp at h9
            | cons b buf => simpa [Nat.add_comm 9 n] using this
          have heq := eq_prependHeader (f := buf.take (9 + n)) (by omega) hmag
            (by rw [slice_take (by omega), hlen]; omega)
          have hid : hdr'.clrId = u32FromLeBytes (slice (buf.take (9 + n)) 1 5) := by
            unfold parseHeader at hp
            split at hp
            · cases hp
            · split at hp
              · cases hp
              · rw [← (Except.ok.inj hp)]
          refine ⟨(buf.take (9 + n)).drop 9, ?_, by rw [hid]; exact heq⟩
          have h4 : (slice buf 5 9).length = 4 := length_slice (by omega)
          have := leVal_lt (slice buf 5 9)
          rw [h4] at this
          rw [List.length_drop, hlen]
          omega

theorem fillTo_of_le {n : Nat} {reads : List Bytes} {buf : Bytes} (h : n ≤ buf.length) :
    fillTo n reads buf = (true, reads, buf) := by
  cases reads with
  | nil => simp [fillTo, h]
  | cons r rs => simp [fillTo, h]

theorem fillTo_of_lt {n : Nat} {r : Bytes} {rs : List Bytes} {buf : Bytes} (h : buf.length < n) :
    fillTo n (r :: rs) buf = if r = [] then (false, rs, buf) else fillTo n rs (buf ++ r) := by
  simp [fillTo, not_le.2 h]

/-- `drain_frame_async` waits until the bytes buffered decide the frame, and its answer is that of
`drainStep`. -/
theorem drainFrameAsync_eq (reads : List Bytes) (buf : Bytes) :
    drainFrameAsync reads buf =
      match drainStep buf, reads with
      | .frame hdr f rest, reads => (.ok (hdr, f), reads, rest)
      | .failed e rest, reads => (.error e, reads, rest)
      | .needMore, [] => (.error .shortFrame, [], buf)
      | .needMore, r :: rs => if r = [] then (.error .shortFrame, rs, buf)
        else drainFrameAsync rs (buf ++ r) := by
  by_cases h9 : buf.length < 9
  · have hd : drainStep buf = .needMore := if_pos h9
    rw [hd]
    cases reads with
    | nil => simp [drainFrameAsync, fillTo, not_le.2 h9]
    | cons r rs =>
      by_cases hr : r = []
      · simp only [drainFrameAsync, fillTo_of_lt h9, if_pos hr]
      · simp only [drainFrameAsync, fillTo_of_lt h9, if_neg hr]
  · have h9' : 9 ≤ buf.length := not_lt.1 h9
    by_cases hm : buf.headD 0 ≠ shardMagic
    · have hd : drainStep buf = .failed (.missingMagic (buf.headD 0)) buf := by
        simp only [drainStep, if_neg h9, if_pos hm]
      simp only [drainFrameAsync, fillTo_of_le h9', if_pos hm, hd]
    · by_cases hn : buf.length < 9 + leVal (slice buf 5 9)
      · have hd : drainStep buf = .needMore := by simp only [drainStep, if_neg h9, if_neg hm, if_pos hn]
        rw [hd]
        cases reads with
        | nil =>
          have hf : fillTo (9 + leVal (slice buf 5 9)) [] buf = (false, [], buf) := by simp [fillTo, not_le.2 hn]
          simp only [drainFrameAsync, fillTo_of_le h9', if_neg hm, hf]
        | cons r rs =>
          -- the header is there already, so more bytes change neither the magic byte nor the length
          have hs := slice_append (i := 5) r h9'
          have hh := headD_append r (show 0 < buf.length by omega)
          have hl : 9 ≤ (buf ++ r).length := by simp only [List.length_append]; omega
          simp only [drainFrameAsync, fillTo_of_le h9', if_neg hm, fillTo_of_lt hn, fillTo_of_le hl, hh, hs]
          by_cases hr : r = []
          · simp only [if_pos hr]
          · simp only [if_neg hr]
      · have hn' := not_lt.1 hn
        simp only [drainFrameAsync, drainStep, fillTo_of_le h9', fillTo_of_le hn', if_neg h9, if_neg hm,
          if_neg hn]
        cases parseHeader (buf.take (9 + leVal (slice buf 5 9))) <;> rfl

end RzBridge
