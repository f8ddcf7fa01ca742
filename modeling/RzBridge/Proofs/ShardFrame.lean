import RzBridge.Lib.Incremental
import RzBridge.Proofs.RouterFrame

/-!
# Shard frames on a stream

`nextShardFrame` frames a stream of shard frames by the length in the header, as `drain_frame_async`
does before it looks at the payload. A concatenation of complete shard frames comes apart into just
these frames.
-/

namespace RzBridge
open LittleEndian Incremental

/-! ### The header fields -/

theorem drop_prependHeader (id : UInt32) (payload : Bytes) :
    (prependHeader id payload).drop 5 = leBytes 4 payload.length ++ payload := by
  rw [prependHeader, List.append_assoc, List.drop_left' (by simp)]

theorem lengthField_prependHeader {id : UInt32} {payload : Bytes} (more : Bytes)
    (h : payload.length < 2 ^ 32) :
    leVal (slice (prependHeader id payload ++ more) 5 9) = payload.length := by
  have hlen := length_prependHeader id payload
  rw [slice, List.drop_append_of_le_length (by omega), drop_prependHeader, List.append_assoc,
    List.take_left' (by simp),
    leVal_leBytes, Nat.mod_eq_of_lt (by simpa using h)]

theorem setClrid_prependHeader (id id' : UInt32) (payload : Bytes) :
    setClrid id (prependHeader id' payload) = prependHeader id payload := by
  have h5 : 1 + (u32ToLeBytes id).length = 5 := by simp
  rw [setClrid, patch, h5, drop_prependHeader]
  simp [prependHeader]

theorem length_setClrid (id : UInt32) {f : Bytes} (h : 5 ≤ f.length) : (setClrid id f).length = f.length :=
  length_patch (by simpa using h)

theorem clrid_setClrid (id : UInt32) {f : Bytes} (h : 5 ≤ f.length) :
    u32FromLeBytes (slice (setClrid id f) 1 5) = id := by
  have hread : slice (setClrid id f) 1 5 = u32ToLeBytes id := by
    have hlen : 1 + (u32ToLeBytes id).length ≤ f.length := by simpa using h
    have := take_drop_patch hlen
    rwa [length_u32ToLeBytes] at this
  rw [hread, u32FromLeBytes_toLeBytes]

theorem IsShardFrame.setClrid {id : UInt32} {f : Bytes} (id' : UInt32) (h : IsShardFrame id f) :
    IsShardFrame id' (setClrid id' f) := by
  obtain ⟨payload, hp, rfl⟩ := h
  exact ⟨payload, hp, setClrid_prependHeader id' id payload⟩

theorem IsShardFrame.nine_le {id : UInt32} {f : Bytes} (h : IsShardFrame id f) : 9 ≤ f.length := by
  obtain ⟨payload, -, rfl⟩ := h
  rw [length_prependHeader]
  omega

/-- The length field of a shard frame, when there is one, counts the bytes behind the header. -/
def LengthDeclared (f : Bytes) : Prop := f.length < 9 ∨ leVal (slice f 5 9) = f.length - 9

instance (f : Bytes) : Decidable (LengthDeclared f) := inferInstanceAs (Decidable (_ ∨ _))

theorem LengthDeclared.isShardFrame {f : Bytes} (h : LengthDeclared f) (h9 : 9 ≤ f.length)
    (hm : f.headD 0 = shardMagic) : IsShardFrame (u32FromLeBytes (slice f 1 5)) f := by
  have hlen := h.resolve_left (not_lt.2 h9)
  refine ⟨f.drop 9, ?_, eq_prependHeader h9 hm hlen⟩
  have h4 : (slice f 5 9).length = 4 := length_slice (by omega)
  have := leVal_lt (slice f 5 9)
  rw [h4, hlen] at this
  simpa using this

/-! ### Framing by the header length -/

/-- The first frame of a stream, by the length in its header, and what follows. -/
def nextShardFrame (buf : Bytes) : Option (Bytes × Bytes) :=
  if buf.length < 9 ∨ buf.headD 0 ≠ shardMagic then none
  else
    let n := 9 + leVal (slice buf 5 9)
    if buf.length < n then none else some (buf.take n, buf.drop n)

theorem nextShardFrame_eq_some {buf f rest : Bytes} (h : nextShardFrame buf = some (f, rest)) :
    9 ≤ buf.length ∧ buf.headD 0 = shardMagic ∧ 9 + leVal (slice buf 5 9) ≤ buf.length ∧
      f = buf.take (9 + leVal (slice buf 5 9)) ∧ rest = buf.drop (9 + leVal (slice buf 5 9)) := by
  unfold nextShardFrame at h
  split at h
  · cases h
  next hok =>
    simp only [not_or, not_lt, Decidable.not_not] at hok
    dsimp only at h
    split at h
    · cases h
    next hn =>
      cases h
      exact ⟨hok.1, hok.2, not_lt.1 hn, rfl, rfl⟩

theorem nextShardFrame_of {buf : Bytes} (h9 : 9 ≤ buf.length) (hm : buf.headD 0 = shardMagic)
    (hn : 9 + leVal (slice buf 5 9) ≤ buf.length) :
    nextShardFrame buf = some (buf.take (9 + leVal (slice buf 5 9)),
      buf.drop (9 + leVal (slice buf 5 9))) := by
  unfold nextShardFrame
  rw [if_neg (by simp only [not_or, not_lt, Decidable.not_not]; exact ⟨h9, hm⟩)]
  dsimp only
  rw [if_neg (not_lt.2 hn)]

theorem nextShardFrame_append {buf f rest : Bytes} (more : Bytes) (h : nextShardFrame buf = some (f, rest)) :
    nextShardFrame (buf ++ more) = some (f, rest ++ more) := by
  obtain ⟨h9, hm, hn, rfl, rfl⟩ := nextShardFrame_eq_some h
  have hs := slice_append (i := 5) more h9
  rw [nextShardFrame_of (by simp; omega) (by rw [headD_append more (by omega), hm]) (by rw [hs]; simp; omega), hs,
    List.take_append_of_le_length hn, List.drop_append_of_le_length hn]

theorem nextShardFrame_isShardFrame {id : UInt32} {f : Bytes} (h : IsShardFrame id f) (more : Bytes) :
    nextShardFrame (f ++ more) = some (f, more) := by
  obtain ⟨payload, hp, rfl⟩ := h
  have hlen := length_prependHeader id payload
  have hs : leVal (slice (prependHeader id payload ++ more) 5 9) = payload.length :=
    lengthField_prependHeader more hp
  rw [nextShardFrame_of (by simp; omega) rfl (by rw [hs]; simp; omega), hs, ← hlen, List.take_left' rfl,
    List.drop_left' rfl]

theorem nextShardFrame_take {id : UInt32} {f : Bytes} {n : Nat} (h : IsShardFrame id f) (hn : n < f.length) :
    nextShardFrame (f.take n) = none := by
  cases hx : nextShardFrame (f.take n) with
  | none => rfl
  | some p =>
    -- otherwise the whole frame would be cut short as well
    have hcut := nextShardFrame_append (f.drop n) hx
    have hall := nextShardFrame_isShardFrame h []
    rw [List.take_append_drop] at hcut
    rw [List.append_nil, hcut] at hall
    obtain ⟨-, -, -, hp, -⟩ := nextShardFrame_eq_some hx
    have hlen := congrArg (List.length ·.1) (Option.some.inj hall)
    simp only [hp, List.length_take] at hlen
    omega

def shardScanner : Scanner UInt8 Bytes where
  next buf := (nextShardFrame buf).map fun p => (some p.1, p.2)
  next_append := by
    intro b r i c h
    obtain ⟨⟨f, rest⟩, hf, he⟩ := Option.map_eq_some_iff.1 h
    cases he
    rw [nextShardFrame_append c hf]
    rfl

theorem parses_flatten {fs : List Bytes} (h : ∀ f ∈ fs, ∃ id, IsShardFrame id f) (tail : Bytes) :
    Parses shardScanner (fs.flatten ++ tail) fs tail := by
  induction fs with
  | nil => exact .refl _
  | cons f fs ih =>
    obtain ⟨id, hf⟩ := h f List.mem_cons_self
    have hn : shardScanner.next (f ++ (fs.flatten ++ tail)) = some (some f, fs.flatten ++ tail) := by
      simp only [shardScanner, nextShardFrame_isShardFrame hf, Option.map_some]
    rw [List.flatten_cons, List.append_assoc]
    exact .head hn (ih fun g hg => h g (List.mem_cons_of_mem f hg))

theorem waits_take {id : UInt32} {f : Bytes} {n : Nat} (h : IsShardFrame id f) (hn : n < f.length) :
    Waits shardScanner (f.take n) := by
  simp only [Waits, shardScanner, nextShardFrame_take h hn, Option.map_none]

end RzBridge
