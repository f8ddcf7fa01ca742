import RzBridge.Proofs.DrainFrame

/-!
# `try_decode_router` and router frames

What a decoded frame is, and that the answer does not depend on the bytes behind the frame: once
`try_decode_router` no longer asks for more, more bytes do not change what it says.
-/

namespace RzBridge
open LittleEndian

theorem slice_slice {xs : Bytes} {i j a b : Nat} (h : i + b ≤ j) :
    slice (slice xs i j) a b = slice xs (i + a) (i + b) := by
  simp only [slice, List.drop_take, List.take_take, List.drop_drop]
  congr 1
  omega

theorem headD_slice {xs : Bytes} {i j : Nat} (hi : i < j) : (slice xs i j).headD 0 = xs.getD i 0 := by
  rw [slice, List.headD_eq_head?_getD, List.head?_take, if_neg (by omega), List.head?_drop,
    List.getD_eq_getElem?_getD]

/-- What `try_decode_router` reads off the buffer, position by position. -/
structure RouterFrame.Fields (buf : Bytes) (f : RouterFrame) : Prop where
  magic : buf.headD 0 = routerMagic
  frameLen : f.frameLen = 5 + leVal (slice buf 1 5)
  bound : leVal (slice buf 1 5) ≤ 16 * 1024 * 1024
  le : f.frameLen ≤ buf.length
  room : 6 + (buf.getD 5 0).toNat + 6 ≤ f.frameLen
  segment : fromUtf8 (slice buf 6 (6 + (buf.getD 5 0).toNat)) = some f.segment
  isWrite : f.isWrite = decide (buf.getD (6 + (buf.getD 5 0).toNat) 0 = 0x01)
  shardMagic : buf.getD (6 + (buf.getD 5 0).toNat + 1) 0 = shardMagic
  shardFrame : f.shardFrame = slice buf (6 + (buf.getD 5 0).toNat + 1) f.frameLen
  clridOffset : f.clridOffset = 6 + (buf.getD 5 0).toNat + 1 + 1
  originalClrid : f.originalClrid =
    u32FromLeBytes (slice buf (6 + (buf.getD 5 0).toNat + 1 + 1) (6 + (buf.getD 5 0).toNat + 1 + 5))

theorem fields_of_tryDecodeRouter {buf : Bytes} {f : RouterFrame} (h : tryDecodeRouter buf = .frame f) :
    f.Fields buf := by
  unfold tryDecodeRouter at h
  dsimp only at h
  split at h
  · cases h
  split at h
  · cases h
  next hm =>
    split at h
    · cases h
    next hmax =>
      split at h
      · cases h
      next hlen =>
        split at h
        · cases h
        split at h
        · cases h
        split at h
        · cases h
        next seg hseg =>
          split at h
          · cases h
          next hsh =>
            simp only [not_or, not_lt, Decidable.not_not] at hsh hlen
            cases h
            exact ⟨by simpa using hm, rfl, by omega, hlen, hsh.1, hseg, rfl, hsh.2, rfl, rfl, rfl⟩

/-- What a decoded frame is. -/
structure RouterFrame.Decoded (buf : Bytes) (f : RouterFrame) : Prop where
  magic : buf.headD 0 = routerMagic
  pos : 5 < f.frameLen
  le : f.frameLen ≤ buf.length
  bound : f.frameLen ≤ 5 + 16 * 1024 * 1024
  shardLen : 5 ≤ f.shardFrame.length
  shardLt : f.shardFrame.length < f.frameLen
  shardMagic : f.shardFrame.headD 0 = shardMagic
  clrid : f.originalClrid = u32FromLeBytes (slice f.shardFrame 1 5)

theorem tryDecodeRouter_eq_frame {buf : Bytes} {f : RouterFrame} (h : tryDecodeRouter buf = .frame f) :
    f.Decoded buf := by
  obtain ⟨hm, hlen, hb, hle, hroom, -, -, hsm, hsf, -, hid⟩ := fields_of_tryDecodeRouter h
  have hshard : f.shardFrame.length = f.frameLen - (6 + (buf.getD 5 0).toNat + 1) := by
    rw [hsf]
    exact length_slice hle
  refine ⟨hm, by omega, hle, by omega, by omega, by omega, ?_, ?_⟩
  · rw [hsf]
    exact (headD_slice (by omega)).trans hsm
  · rw [hid, hsf]
    exact congrArg u32FromLeBytes (slice_slice (by omega)).symm

/-- More bytes do not change an answer other than `needMore`. -/
theorem tryDecodeRouter_append {buf : Bytes} (more : Bytes) (h : tryDecodeRouter buf ≠ .needMore) :
    tryDecodeRouter (buf ++ more) = tryDecodeRouter buf := by
  unfold tryDecodeRouter at h ⊢
  split at h
  · exact absurd rfl h
  next h5 =>
    have hg : ∀ i, i < buf.length → (buf ++ more).getD i 0 = buf.getD i 0 := fun i hi => by
      rw [List.getD_eq_getElem?_getD, List.getElem?_append_left hi, List.getD_eq_getElem?_getD]
    rw [if_neg (by simp; omega), headD_append more (by omega), slice_append (i := 1) more (by omega)]
    by_cases hm : buf.headD 0 ≠ routerMagic
    · simp only [if_neg h5, if_pos hm]
    · rw [if_neg hm] at h
      dsimp only at h ⊢
      by_cases hmax : leVal (slice buf 1 5) > 16 * 1024 * 1024
      · simp only [if_neg h5, if_neg hm, if_pos hmax]
      · rw [if_neg hmax] at h
        by_cases hlen : buf.length < 5 + leVal (slice buf 1 5)
        · rw [if_pos hlen] at h; exact absurd rfl h
        · -- from here on every byte looked at lies inside the frame
          have hlen' : ¬ (buf ++ more).length < 5 + leVal (slice buf 1 5) := by simp; omega
          by_cases h2 : leVal (slice buf 1 5) < 2
          · simp only [if_neg h5, if_neg hm, if_neg hmax, if_neg hlen, if_neg hlen', if_pos h2]
          · have h6 := hg 5 (by omega)
            by_cases hpos : 6 + (buf.getD 5 0).toNat ≥ 5 + leVal (slice buf 1 5)
            · simp only [if_neg h5, if_neg hm, if_neg hmax, if_neg hlen, if_neg hlen', if_neg h2, h6, if_pos hpos]
            · have hseg := slice_append (i := 6) more (show 6 + (buf.getD 5 0).toNat ≤ buf.length by omega)
              have hw := hg (6 + (buf.getD 5 0).toNat) (by omega)
              simp only [if_neg h5, if_neg hm, if_neg hmax, if_neg hlen, if_neg hlen', if_neg h2, h6,
                if_neg hpos, hseg, hw]
              split
              · rfl
              · by_cases hs : 6 + (buf.getD 5 0).toNat + 1 + 5 > 5 + leVal (slice buf 1 5)
                · rw [if_pos (.inl hs), if_pos (.inl hs)]
                · have hsm := hg (6 + (buf.getD 5 0).toNat + 1) (by omega)
                  have hsf := slice_append (i := 6 + (buf.getD 5 0).toNat + 1) more
                    (show 5 + leVal (slice buf 1 5) ≤ buf.length by omega)
                  have hid := slice_append (i := 6 + (buf.getD 5 0).toNat + 1 + 1) more
                    (show 6 + (buf.getD 5 0).toNat + 1 + 5 ≤ buf.length by omega)
                  rw [hsm, hsf, hid]

theorem tryDecodeRouter_needMore {buf : Bytes} (h : tryDecodeRouter buf = .needMore) :
    buf.length < 5 ∨ buf.headD 0 = routerMagic := by
  unfold tryDecodeRouter at h
  by_cases h5 : buf.length < 5
  · exact .inl h5
  · rw [if_neg h5] at h
    by_cases hm : buf.headD 0 ≠ routerMagic
    · rw [if_pos hm] at h; cases h
    · exact .inr (by simpa using hm)

end RzBridge
