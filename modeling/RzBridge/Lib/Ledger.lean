import Mathlib.Algebra.BigOperators.Group.List.Basic
import Mathlib.Algebra.Ring.Nat
import Mathlib.Data.List.Basic

/-!
# Totals over a list of parties

`total g l` adds up what each party of `l` has in its own book. A counter that the parties share agrees
with the total as long as every change of it goes along with the same change of one book.
-/

namespace Ledger

variable {α : Type*} {g h : α → Nat} {l : List α} {i : Nat} {x y : α}

def total (g : α → Nat) (l : List α) : Nat := (l.map g).sum

@[simp] theorem total_nil (g : α → Nat) : total g [] = 0 := rfl

@[simp] theorem total_cons (g : α → Nat) (x : α) (l : List α) : total g (x :: l) = g x + total g l := by
  simp [total]

@[simp] theorem total_append (g : α → Nat) (l l' : List α) : total g (l ++ l') = total g l + total g l' := by
  simp [total]

theorem total_set (g : α → Nat) (y : α) (hx : l[i]? = some x) : total g (l.set i y) + g x = total g l + g y := by
  induction l generalizing i with
  | nil => cases hx
  | cons z l ih =>
    cases i with
    | zero =>
      cases hx
      simp only [List.set_cons_zero, total_cons]
      omega
    | succ i =>
      have := ih hx
      simp only [List.set_cons_succ, total_cons]
      omega

theorem total_add (g h : α → Nat) (l : List α) : total (fun x => g x + h x) l = total g l + total h l := by
  induction l with
  | nil => rfl
  | cons x l ih =>
    simp only [total_cons, ih]
    omega

theorem total_mul (n : Nat) (g : α → Nat) (l : List α) : total (fun x => n * g x) l = n * total g l := by
  induction l with
  | nil => rfl
  | cons x l ih => simp only [total_cons, ih, Nat.mul_add]

theorem total_one (l : List α) : total (fun _ => 1) l = l.length := by
  induction l with
  | nil => rfl
  | cons x l ih => rw [total_cons, ih, List.length_cons, Nat.add_comm]

theorem total_le (hle : ∀ x ∈ l, g x ≤ h x) : total g l ≤ total h l := by
  induction l with
  | nil => exact Nat.le_refl 0
  | cons x l ih =>
    have hx := hle x List.mem_cons_self
    have hl := ih fun y hy => hle y (List.mem_cons_of_mem x hy)
    simp only [total_cons]
    omega

theorem total_congr (heq : ∀ x ∈ l, g x = h x) : total g l = total h l :=
  Nat.le_antisymm (total_le fun x hx => Nat.le_of_eq (heq x hx)) (total_le fun x hx => Nat.le_of_eq (heq x hx).symm)

theorem total_countP (p : α → Bool) (l : List α) : total (fun x => if p x then 1 else 0) l = l.countP p := by
  induction l with
  | nil => rfl
  | cons x l ih => rw [total_cons, ih, List.countP_cons, Nat.add_comm]

theorem balance {n n' : Nat} (hx : l[i]? = some x) (hn : n = total g l) (hstep : n' + g x = n + g y) :
    n' = total g (l.set i y) := by
  have := total_set g y hx
  omega

end Ledger
