import RzBridge.Lib.CircularWait

/-!
# Exclusion

No two tasks hold a lock in conflicting modes. A task that gives locks up keeps it so, and so does a task that
is granted a lock which no other task holds in a conflicting mode.
-/

namespace CircularWait

variable {τ κ : Type*}

def Exclusive (holds : τ → List (κ × Mode)) : Prop :=
  ∀ t u, t ≠ u → ∀ a ∈ holds t, ∀ b ∈ holds u, a.1 = b.1 → Mode.conflicts a.2 b.2 = false

theorem Mode.conflicts_comm (m m' : Mode) : Mode.conflicts m m' = Mode.conflicts m' m := by
  cases m <;> cases m' <;> rfl

namespace Exclusive

variable {holds holds' : τ → List (κ × Mode)}

theorem mono (h : Exclusive holds) (hsub : ∀ t, holds' t ⊆ holds t) : Exclusive holds' :=
  fun t u hne a ha b hb => h t u hne a (hsub t ha) b (hsub u hb)

theorem grant {t : τ} {lm : κ × Mode} (h : Exclusive holds)
    (hfree : ∀ u, u ≠ t → ∀ b ∈ holds u, b.1 = lm.1 → Mode.conflicts lm.2 b.2 = false)
    (ht : ∀ a ∈ holds' t, a = lm ∨ a ∈ holds t) (hu : ∀ u, u ≠ t → holds' u ⊆ holds u) : Exclusive holds' := by
  -- what the task holds now does not conflict with what another one holds
  have granted : ∀ u, u ≠ t → ∀ a ∈ holds' t, ∀ b ∈ holds' u, a.1 = b.1 → Mode.conflicts a.2 b.2 = false := by
    intro u hne a ha b hb hab
    rcases ht a ha with rfl | ha
    · exact hfree u hne b (hu u hne hb) hab.symm
    · exact h t u hne.symm a ha b (hu u hne hb) hab
  intro v w hne a ha b hb hab
  by_cases hv : v = t
  · subst hv
    exact granted w hne.symm a ha b hb hab
  by_cases hw : w = t
  · subst hw
    rw [Mode.conflicts_comm]
    exact granted v hne b hb a ha hab.symm
  exact h v w hne a (hu v hv ha) b (hu w hw hb) hab

theorem not_write {t u : τ} {k : κ} {m : Mode} (h : Exclusive holds) (hne : t ≠ u) (ht : (k, .write) ∈ holds t) :
    (k, m) ∉ holds u := by
  intro hu
  have hno := h t u hne _ ht _ hu rfl
  cases m <;> cases hno

end Exclusive
end CircularWait
