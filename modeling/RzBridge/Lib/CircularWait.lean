import Mathlib.Data.Finset.Max
import Mathlib.Data.Finset.Image

/-!
# Circular waits between lock holders

Tasks hold locks in a mode and may wait for one more; a reader-writer lock is compatible with
readers only, a mutex is a lock that is only ever taken for writing. A circular wait is a non-empty
set of tasks each of which waits for a lock that another task of the set holds.
-/

namespace CircularWait

variable {τ κ : Type*}

/-- How a lock is taken. -/
inductive Mode
  | read
  | write
deriving DecidableEq, Repr

/-- Two holds of one lock that cannot coexist. -/
def Mode.conflicts : Mode → Mode → Bool
  | .read, .read => false
  | _, _ => true

/-- `u` holds, in a conflicting mode, the lock that `t` waits for. -/
def Blocks (holds : τ → List (κ × Mode)) (waits : τ → Option (κ × Mode)) (u t : τ) : Prop :=
  ∃ k m m', waits t = some (k, m) ∧ (k, m') ∈ holds u ∧ Mode.conflicts m m' = true

/-- Every task of the set waits for a lock that another task of the set holds. -/
def IsCircularWait (holds : τ → List (κ × Mode)) (waits : τ → Option (κ × Mode)) (T : Finset τ) : Prop :=
  T.Nonempty ∧ ∀ t ∈ T, ∃ u ∈ T, u ≠ t ∧ Blocks holds waits u t

/-- No set of tasks is in a circular wait. -/
def DeadlockFree (holds : τ → List (κ × Mode)) (waits : τ → Option (κ × Mode)) : Prop :=
  ∀ T : Finset τ, ¬ IsCircularWait holds waits T

/-- If a rank strictly grows from each waiting task to every waiting task that blocks it, there is
no circular wait. -/
theorem deadlockFree_of_rank {holds : τ → List (κ × Mode)} {waits : τ → Option (κ × Mode)}
    (rank : τ → Nat)
    (h : ∀ t u, u ≠ t → Blocks holds waits u t → waits u ≠ none → rank t < rank u) :
    DeadlockFree holds waits := by
  rintro T ⟨hne, hT⟩
  -- a task of greatest rank is blocked by one of the set, which itself waits and so ranks higher
  obtain ⟨t, ht, hmax⟩ := T.exists_max_image rank hne
  obtain ⟨u, hu, hut, hb⟩ := hT t ht
  have hwait : waits u ≠ none := by
    obtain ⟨v, -, -, k, m, m', hw, -⟩ := hT u hu
    simp [hw]
  exact absurd (h t u hut hb hwait) (Nat.not_lt.2 (hmax u hu))

theorem isCircularWait_pair [DecidableEq τ] {holds : τ → List (κ × Mode)} {waits : τ → Option (κ × Mode)}
    {t u : τ} (hne : t ≠ u) (h₁ : Blocks holds waits u t) (h₂ : Blocks holds waits t u) :
    IsCircularWait holds waits {t, u} := by
  refine ⟨⟨t, by simp⟩, fun v hv => ?_⟩
  rcases Finset.mem_insert.1 hv with rfl | hv
  · exact ⟨u, by simp, hne.symm, h₁⟩
  · rw [Finset.mem_singleton] at hv
    subst hv
    exact ⟨t, by simp, hne, h₂⟩

end CircularWait
