import Mathlib.Data.List.Basic
import Mathlib.Tactic.Ring

/-!
# Little-endian byte strings

`leBytes w n` is the `w`-byte little-endian form of `n` (taken modulo `256 ^ w`) and `leVal` reads
one back. Fixed-width header fields are all read and written through this pair, and `patch` is the
in-place overwrite of such a field.
-/

namespace LittleEndian

/-- The `w` little-endian bytes of `n`. -/
def leBytes : Nat → Nat → List UInt8
  | 0, _ => []
  | w + 1, n => UInt8.ofNat n :: leBytes w (n / 256)

/-- The number a little-endian byte string denotes. -/
def leVal : List UInt8 → Nat
  | [] => 0
  | b :: bs => b.toNat + 256 * leVal bs

@[simp] theorem length_leBytes (w n : Nat) : (leBytes w n).length = w := by
  induction w generalizing n with
  | zero => rfl
  | succ w ih => simp [leBytes, ih]

theorem leVal_leBytes (w n : Nat) : leVal (leBytes w n) = n % 256 ^ w := by
  induction w generalizing n with
  | zero => simp [leBytes, leVal, Nat.mod_one]
  | succ w ih =>
    have h : n % 256 ^ (w + 1) = n % 256 + 256 * (n / 256 % 256 ^ w) := by
      rw [pow_succ', Nat.mod_mul]
    rw [leBytes, leVal, ih, h, UInt8.toNat_ofNat']

theorem leVal_lt (bs : List UInt8) : leVal bs < 256 ^ bs.length := by
  induction bs with
  | nil => simp [leVal]
  | cons b bs ih =>
    have hb : b.toNat < 256 := b.toNat_lt
    simp only [leVal, List.length_cons, pow_succ]
    omega

theorem leBytes_leVal (bs : List UInt8) : leBytes bs.length (leVal bs) = bs := by
  induction bs with
  | nil => rfl
  | cons b bs ih =>
    have hb : b.toNat < 256 := b.toNat_lt
    have hdiv : (b.toNat + 256 * leVal bs) / 256 = leVal bs := by omega
    have hhead : UInt8.ofNat (b.toNat + 256 * leVal bs) = b := by
      apply UInt8.toNat_inj.1
      rw [UInt8.toNat_ofNat']
      omega
    simp only [List.length_cons, leBytes, leVal, hdiv, hhead, ih]

/-! ### Overwriting a field in place -/

/-- `xs` with the bytes from position `i` on overwritten by `ys`. -/
def patch (i : Nat) (ys xs : List UInt8) : List UInt8 :=
  xs.take i ++ ys ++ xs.drop (i + ys.length)

theorem patch_patch {i : Nat} {ys zs xs : List UInt8} (hl : ys.length = zs.length)
    (h : i + ys.length ≤ xs.length) : patch i zs (patch i ys xs) = patch i zs xs := by
  have hi : (xs.take i).length = i := by simp; omega
  have ht : (patch i ys xs).take i = xs.take i := by
    rw [patch, List.append_assoc, List.take_append_of_le_length (by omega), List.take_of_length_le (by omega)]
  have hd : (patch i ys xs).drop (i + zs.length) = xs.drop (i + ys.length) := by
    have hlen : (xs.take i ++ ys).length = i + zs.length := by rw [List.length_append, hi, hl]
    rw [patch, ← hlen, List.drop_left]
  rw [patch, ht, hd, patch, hl]

theorem length_patch {i : Nat} {ys xs : List UInt8} (h : i + ys.length ≤ xs.length) :
    (patch i ys xs).length = xs.length := by
  simp only [patch, List.length_append, List.length_take, List.length_drop]
  omega

theorem take_drop_patch {i : Nat} {ys xs : List UInt8} (h : i + ys.length ≤ xs.length) :
    ((patch i ys xs).drop i).take ys.length = ys := by
  have hi : (xs.take i).length = i := by simp; omega
  rw [patch, List.append_assoc, List.drop_left' hi, List.take_left]

end LittleEndian
