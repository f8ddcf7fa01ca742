import RzBridge.Proofs.RouterFrame

/-!
# The router frame codec

`try_decode_router` answers with a frame exactly when the buffer begins with that frame's encoding
(`Encoded`). The decoder reads the buffer by position and the encoding is a concatenation; the two meet
in `slice_eq_append_iff`, which splits an equation between a slice and a concatenation at the end of
its first part.
-/

namespace RzBridge
open LittleEndian

/-! ### Slices and concatenations -/

theorem slice_append_slice {xs : Bytes} {i j k : Nat} (hij : i ≤ j) (hjk : j ≤ k) :
    slice xs i j ++ slice xs j k = slice xs i k := by
  obtain ⟨d, rfl⟩ := Nat.exists_eq_add_of_le hij
  have hk : k - i = d + (k - (i + d)) := by omega
  simp only [slice]
  rw [hk, List.take_add, List.drop_drop, Nat.add_sub_cancel_left]

theorem slice_eq_append_iff {xs a b : Bytes} {i n : Nat} (hn : n ≤ xs.length) (hi : i + a.length ≤ n) :
    slice xs i n = a ++ b ↔ slice xs i (i + a.length) = a ∧ slice xs (i + a.length) n = b := by
  rw [← slice_append_slice (Nat.le_add_right i a.length) hi]
  constructor
  · intro h
    exact List.append_inj h (by rw [length_slice (by omega)]; omega)
  · rintro ⟨ha, hb⟩
    rw [ha, hb]

theorem slice_append_right {xs ys : Bytes} {i j n : Nat} (hn : xs.length = n) :
    slice (xs ++ ys) (n + i) (n + j) = slice ys i j := by
  rw [slice, slice, ← hn, List.drop_length_add_append, Nat.add_sub_add_left]

theorem slice_singleton {xs : Bytes} {i : Nat} (h : i < xs.length) : slice xs i (i + 1) = [xs.getD i 0] := by
  have hd : xs.drop i = xs.getD i 0 :: xs.drop (i + 1) := by
    rw [List.getD_eq_getElem?_getD, List.getElem?_eq_getElem h]
    exact List.drop_eq_getElem_cons h
  rw [slice, Nat.add_sub_cancel_left, hd]
  rfl

/-! ### The fields of a decoded frame -/

theorem tryDecodeRouter_of_fields {buf : Bytes} {f : RouterFrame} (h : f.Fields buf) :
    tryDecodeRouter buf = .frame f := by
  obtain ⟨frameLen, segment, isWrite, shardFrame, clridOffset, originalClrid⟩ := f
  obtain ⟨hm, hlen, hb, hle, hroom, hseg, hw, hsm, hsf, hoff, hid⟩ := h
  dsimp only at hlen hle hroom hseg hw hsf hoff hid
  subst hlen hw hsf hoff hid
  have h5 : ¬ buf.length < 5 := by omega
  have hmax : ¬ leVal (slice buf 1 5) > 16 * 1024 * 1024 := by omega
  have hlen : ¬ buf.length < 5 + leVal (slice buf 1 5) := by omega
  have h2 : ¬ leVal (slice buf 1 5) < 2 := by omega
  have hpos : ¬ 6 + (buf.getD 5 0).toNat ≥ 5 + leVal (slice buf 1 5) := by omega
  have hsh : ¬ (6 + (buf.getD 5 0).toNat + 1 + 5 > 5 + leVal (slice buf 1 5) ∨
      buf.getD (6 + (buf.getD 5 0).toNat + 1) 0 ≠ shardMagic) := by
    rintro (hlt | hne)
    · omega
    · exact hne hsm
  unfold tryDecodeRouter
  simp only [if_neg h5, hm, ne_eq, not_true_eq_false, if_false, if_neg hmax, if_neg hlen, if_neg h2, if_neg hpos,
    hseg, if_neg hsh]

/-! ### The layout -/

/-- `0xFE ++ LE32(n) ++ [len(segment)] ++ segment ++ [b]`, what stands in front of the shard frame. -/
def routerHead (n : Nat) (segment : String) (b : UInt8) : Bytes :=
  [routerMagic] ++ leBytes 4 n ++ [UInt8.ofNat (asBytes segment).length] ++ asBytes segment ++ [b]

theorem length_routerHead (n : Nat) (segment : String) (b : UInt8) :
    (routerHead n segment b).length = 7 + (asBytes segment).length := by
  simp [routerHead]
  omega

/-- The buffer begins with the encoding of `f`, and `clrid_offset` is the place in the buffer of the four
bytes behind the shard magic. -/
def RouterFrame.Encoded (buf : Bytes) (f : RouterFrame) : Prop :=
  ∃ b : UInt8, f.frameLen ≤ buf.length ∧
    buf.take f.frameLen = routerHead (f.frameLen - 5) f.segment b ++ f.shardFrame ∧
    f.frameLen - 5 ≤ 16 * 1024 * 1024 ∧ (asBytes f.segment).length ≤ 255 ∧ f.isWrite = decide (b = 0x01) ∧
    5 ≤ f.shardFrame.length ∧ f.shardFrame.headD 0 = shardMagic ∧
    f.originalClrid = u32FromLeBytes (slice f.shardFrame 1 5) ∧
    f.clridOffset = (routerHead (f.frameLen - 5) f.segment b).length + 1 ∧
    slice buf f.clridOffset (f.clridOffset + 4) = slice f.shardFrame 1 5

theorem slice_eq_routerHead_iff {buf shard : Bytes} {n len : Nat} {segment : String} {b : UInt8}
    (hlen : len ≤ buf.length) (hroom : 7 + (asBytes segment).length ≤ len) :
    slice buf 0 len = routerHead n segment b ++ shard ↔
      buf.headD 0 = routerMagic ∧ slice buf 1 5 = leBytes 4 n ∧
        buf.getD 5 0 = UInt8.ofNat (asBytes segment).length ∧
          slice buf 6 (6 + (asBytes segment).length) = asBytes segment ∧
            buf.getD (6 + (asBytes segment).length) 0 = b ∧ slice buf (7 + (asBytes segment).length) len = shard := by
  have hhead : slice buf 0 1 = [routerMagic] ↔ buf.headD 0 = routerMagic := by
    rw [slice_singleton (by omega), List.cons.injEq]
    cases buf <;> simp
  have hseg : slice buf 5 6 = [UInt8.ofNat (asBytes segment).length] ↔
      buf.getD 5 0 = UInt8.ofNat (asBytes segment).length := by
    rw [slice_singleton (by omega), List.cons.injEq]
    simp
  have hsum : 6 + (asBytes segment).length + 1 = 7 + (asBytes segment).length := by omega
  have hb : slice buf (6 + (asBytes segment).length) (7 + (asBytes segment).length) = [b] ↔
      buf.getD (6 + (asBytes segment).length) 0 = b := by
    rw [← hsum, slice_singleton (by omega), List.cons.injEq]
    simp
  simp only [routerHead, List.append_assoc]
  rw [slice_eq_append_iff hlen (by simp; omega), slice_eq_append_iff hlen (by simp; omega),
    slice_eq_append_iff hlen (by simp; omega), slice_eq_append_iff hlen (by simp; omega),
    slice_eq_append_iff hlen (by simp; omega)]
  simp only [List.length_singleton, length_leBytes, Nat.zero_add, Nat.reduceAdd, hhead, hseg, hsum, hb]

theorem toNat_ofNat_length {segment : String} (h : (asBytes segment).length ≤ 255) :
    (UInt8.ofNat (asBytes segment).length).toNat = (asBytes segment).length := by
  rw [UInt8.toNat_ofNat']
  omega

theorem slice_clrid {buf shard : Bytes} {i len : Nat} (hs : shard = slice buf i len) (h : i + 5 ≤ len) :
    slice buf (i + 1) (i + 5) = slice shard 1 5 := by
  rw [hs, slice_slice h]

theorem RouterFrame.Fields.encoded {buf : Bytes} {f : RouterFrame} (h : f.Fields buf) : f.Encoded buf := by
  have hseg := fromUtf8_eq_some.1 h.segment
  have hroom := h.room
  have hle := h.le
  have hlenSeg : (asBytes f.segment).length = (buf.getD 5 0).toNat := by
    rw [← hseg, length_slice (by omega)]
    omega
  have h255 : (asBytes f.segment).length ≤ 255 := by
    have := (buf.getD 5 0).toNat_lt
    omega
  have hn : f.frameLen - 5 = leVal (slice buf 1 5) := by
    have := h.frameLen
    omega
  have h4 : (slice buf 1 5).length = 4 := length_slice (by omega)
  have hclrid := slice_clrid h.shardFrame (show 6 + (buf.getD 5 0).toNat + 1 + 5 ≤ f.frameLen by omega)
  have hoff : 6 + (buf.getD 5 0).toNat + 1 + 1 = 7 + (asBytes f.segment).length + 1 := by omega
  refine ⟨buf.getD (6 + (buf.getD 5 0).toNat) 0, hle, ?_, by rw [hn]; exact h.bound, h255, h.isWrite, ?_, ?_, ?_, ?_,
    ?_⟩
  · have hslice : slice buf 0 f.frameLen = buf.take f.frameLen := by simp [slice]
    rw [← hslice]
    refine (slice_eq_routerHead_iff hle (by omega)).2 ⟨h.magic, ?_, ?_, ?_, ?_, ?_⟩
    · rw [hn, ← h4, leBytes_leVal]
    · rw [hlenSeg, UInt8.ofNat_toNat]
    · rw [hlenSeg]
      exact hseg
    · rw [hlenSeg]
    · rw [h.shardFrame, hlenSeg]
      congr 1
      omega
  · rw [h.shardFrame, length_slice hle]
    omega
  · rw [h.shardFrame, headD_slice (by omega)]
    exact h.shardMagic
  · rw [h.originalClrid, hclrid]
  · rw [length_routerHead, h.clridOffset, hoff]
  · rw [h.clridOffset]
    exact hclrid

theorem RouterFrame.Encoded.fields {buf : Bytes} {f : RouterFrame} (h : f.Encoded buf) : f.Fields buf := by
  obtain ⟨b, hle, hbytes, hbound, h255, hw, h5, hsm, hid, hoff, hclrid⟩ := h
  have hlen : f.frameLen = 7 + (asBytes f.segment).length + f.shardFrame.length := by
    have h := congrArg List.length hbytes
    rw [List.length_take_of_le hle, List.length_append, length_routerHead] at h
    exact h
  have hslice : slice buf 0 f.frameLen = buf.take f.frameLen := by simp [slice]
  rw [← hslice, slice_eq_routerHead_iff hle (by omega)] at hbytes
  obtain ⟨hm, hn, hsl, hseg, hb, hsh⟩ := hbytes
  have hsl' : (buf.getD 5 0).toNat = (asBytes f.segment).length := by rw [hsl, toNat_ofNat_length h255]
  have hval : leVal (slice buf 1 5) = f.frameLen - 5 := by
    rw [hn, leVal_leBytes]
    omega
  have hshift : 6 + (asBytes f.segment).length + 1 = 7 + (asBytes f.segment).length := by omega
  refine ⟨hm, by omega, by omega, hle, by omega, ?_, ?_, ?_, ?_, ?_, ?_⟩
  · rw [hsl', hseg]
    exact fromUtf8_eq_some.2 rfl
  · rw [hsl', hb]
    exact hw
  · rw [hsl', hshift, ← headD_slice (show 7 + (asBytes f.segment).length < f.frameLen by omega), hsh]
    exact hsm
  · rw [hsl', hshift, hsh]
  · rw [hoff, length_routerHead, hsl']
    omega
  · rw [hsl', hshift, hid]
    exact congrArg u32FromLeBytes (slice_clrid hsh.symm (by omega)).symm

/-! ### The codec -/

theorem tryDecodeRouter_frame_iff {buf : Bytes} {f : RouterFrame} :
    tryDecodeRouter buf = .frame f ↔ f.Encoded buf :=
  ⟨fun h => (fields_of_tryDecodeRouter h).encoded, fun h => tryDecodeRouter_of_fields h.fields⟩

theorem tryDecodeRouter_needMore_iff {buf : Bytes} :
    tryDecodeRouter buf = .needMore ↔
      buf.length < 5 ∨ buf.headD 0 = routerMagic ∧ leVal (slice buf 1 5) ≤ 16 * 1024 * 1024 ∧
        buf.length < 5 + leVal (slice buf 1 5) := by
  constructor
  · intro h
    unfold tryDecodeRouter at h
    dsimp only at h
    split at h
    next h5 => exact .inl h5
    split at h
    · cases h
    next hm =>
      split at h
      · cases h
      next hmax =>
        split at h
        next hlen => exact .inr ⟨by simpa using hm, by omega, hlen⟩
        -- a buffer that holds the declared bytes gets an answer on every path
        next =>
          split at h
          · cases h
          split at h
          · cases h
          split at h
          · cases h
          split at h <;> cases h
  · rintro (h5 | ⟨hm, hmax, hlen⟩)
    · exact if_pos h5
    · unfold tryDecodeRouter
      split
      · rfl
      · rw [if_neg (by simpa using hm)]
        dsimp only
        rw [if_neg (by omega), if_pos hlen]

theorem encoded_prependRouterHeader (segment : String) (isWrite : Bool) (clrid : UInt32) (payload rest : Bytes)
    (hseg : (asBytes segment).length ≤ 255)
    (htotal : 2 + (asBytes segment).length + (9 + payload.length) ≤ 16 * 1024 * 1024) :
    RouterFrame.Encoded (prependRouterHeader segment isWrite clrid payload ++ rest)
      { frameLen := (prependRouterHeader segment isWrite clrid payload).length
        segment
        isWrite
        shardFrame := prependHeader clrid payload
        clridOffset := 8 + (asBytes segment).length
        originalClrid := clrid } := by
  have hout : prependRouterHeader segment isWrite clrid payload =
      routerHead (2 + (asBytes segment).length + (9 + payload.length)) segment (if isWrite then 0x01 else 0x00) ++
        prependHeader clrid payload := by
    have hlen : 1 + (asBytes segment).length + 1 = 2 + (asBytes segment).length := by omega
    simp [prependRouterHeader, routerHead, prependHeader, hlen]
  have hlen : (prependRouterHeader segment isWrite clrid payload).length =
      7 + (asBytes segment).length + (9 + payload.length) := by
    rw [hout, List.length_append, length_routerHead, length_prependHeader]
  have hn : (prependRouterHeader segment isWrite clrid payload).length - 5 =
      2 + (asBytes segment).length + (9 + payload.length) := by omega
  refine ⟨if isWrite then 0x01 else 0x00, ?_, ?_, ?_, hseg, ?_, ?_, rfl, ?_, ?_, ?_⟩
  · rw [List.length_append]
    exact Nat.le_add_right _ _
  · dsimp only
    rw [List.take_left, hn]
    exact hout
  · dsimp only
    omega
  · cases isWrite <;> rfl
  · rw [length_prependHeader]
    omega
  · rw [slice_prependHeader_clrid, u32FromLeBytes_toLeBytes]
  · rw [length_routerHead]
    dsimp only
    omega
  · dsimp only
    have hstart : 8 + (asBytes segment).length = (7 + (asBytes segment).length) + 1 := by omega
    have hend : 8 + (asBytes segment).length + 4 = (7 + (asBytes segment).length) + 5 := by omega
    rw [slice_append rest (by omega), hout, hend, hstart, slice_append_right (length_routerHead _ _ _)]

/-- `try_decode_router` returns a frame exactly when the buffer begins with its encoding, and asks for more
exactly when the buffer is too short to tell; what it returned stays when bytes are appended, and it
reads back what the encoder of the tests wrote, whatever follows. -/
theorem router_codec_exact :
    (∀ (buf : Bytes) (f : RouterFrame), tryDecodeRouter buf = .frame f ↔ f.Encoded buf) ∧
    (∀ buf : Bytes, tryDecodeRouter buf = .needMore ↔
      buf.length < 5 ∨ buf.headD 0 = routerMagic ∧ leVal (slice buf 1 5) ≤ 16 * 1024 * 1024 ∧
        buf.length < 5 + leVal (slice buf 1 5)) ∧
    (∀ buf more : Bytes, tryDecodeRouter buf ≠ .needMore →
      tryDecodeRouter (buf ++ more) = tryDecodeRouter buf) ∧
    ∀ (segment : String) (isWrite : Bool) (clrid : UInt32) (payload rest : Bytes),
      (asBytes segment).length ≤ 255 →
      2 + (asBytes segment).length + (9 + payload.length) ≤ 16 * 1024 * 1024 →
      tryDecodeRouter (prependRouterHeader segment isWrite clrid payload ++ rest) = .frame
        { frameLen := (prependRouterHeader segment isWrite clrid payload).length
          segment
          isWrite
          shardFrame := prependHeader clrid payload
          clridOffset := 8 + (asBytes segment).length
          originalClrid := clrid } := by
  refine ⟨fun _ _ => tryDecodeRouter_frame_iff, fun _ => tryDecodeRouter_needMore_iff,
    fun _ more h => tryDecodeRouter_append more h, ?_⟩
  intro segment isWrite clrid payload rest hseg htotal
  exact tryDecodeRouter_frame_iff.2 (encoded_prependRouterHeader segment isWrite clrid payload rest hseg htotal)

end RzBridge
