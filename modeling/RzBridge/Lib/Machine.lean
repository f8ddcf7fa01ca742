import Mathlib.Data.List.Basic
import Mathlib.Data.List.Infix

/-!
# Runs of a labelled machine

A machine is a partial step function `σ → ℓ → Option σ`; a label carries every choice the
environment makes. `exec` runs a list of labels, `Reach` is reachability, and the two run rules are
`Reach.induct` (an invariant that every step preserves holds in every reachable state) and
`allStates_iff_allSteps` (a property that a step keeps exactly when the step meets a condition holds
throughout a run exactly when every step of the run meets that condition).
-/

namespace Machine

variable {σ ℓ : Type*} {step : σ → ℓ → Option σ}

/-- Run the labels in order, stopping with `none` at the first that is not enabled. -/
def exec (step : σ → ℓ → Option σ) (s : σ) : List ℓ → Option σ
  | [] => some s
  | l :: ls => (step s l).bind fun s' => exec step s' ls

@[simp] theorem exec_nil (s : σ) : exec step s [] = some s := rfl

theorem exec_cons {s : σ} {l : ℓ} {ls : List ℓ} :
    exec step s (l :: ls) = (step s l).bind fun s' => exec step s' ls := rfl

theorem exec_append (s : σ) (ls ms : List ℓ) :
    exec step s (ls ++ ms) = (exec step s ls).bind fun s' => exec step s' ms := by
  induction ls generalizing s with
  | nil => rfl
  | cons l ls ih => simp only [List.cons_append, exec_cons, Option.bind_assoc, ih]

theorem exec_snoc {s s' : σ} {ls : List ℓ} {l : ℓ} :
    exec step s (ls ++ [l]) = some s' ↔ ∃ t, exec step s ls = some t ∧ step t l = some s' := by
  rw [exec_append, Option.bind_eq_some_iff]
  simp [exec_cons]

/-- The states reachable from `s₀`. -/
inductive Reach (step : σ → ℓ → Option σ) (s₀ : σ) : σ → Prop
  | refl : Reach step s₀ s₀
  | tail {s s' : σ} (l : ℓ) (h : Reach step s₀ s) (hs : step s l = some s') : Reach step s₀ s'

/-- The states reachable by runs whose every step meets `C` in the state it is taken from. -/
inductive ReachWith (step : σ → ℓ → Option σ) (C : σ → ℓ → Prop) (s₀ : σ) : σ → Prop
  | refl : ReachWith step C s₀ s₀
  | tail {s s' : σ} (l : ℓ) (h : ReachWith step C s₀ s) (hc : C s l) (hs : step s l = some s') :
      ReachWith step C s₀ s'

theorem Reach.induct {s₀ s : σ} {I : σ → Prop} (h : Reach step s₀ s) (h0 : I s₀)
    (hstep : ∀ s l s', Reach step s₀ s → I s → step s l = some s' → I s') : I s := by
  induction h with
  | refl => exact h0
  | tail l h hs ih => exact hstep _ l _ h ih hs

theorem Reach.trans {s₀ s s' : σ} (h : Reach step s₀ s) (h' : Reach step s s') : Reach step s₀ s' := by
  induction h' with
  | refl => exact h
  | tail l _ hs ih => exact ih.tail l hs

theorem ReachWith.reach {C : σ → ℓ → Prop} {s₀ s : σ} (h : ReachWith step C s₀ s) :
    Reach step s₀ s := by
  induction h with
  | refl => exact .refl
  | tail l _ _ hs ih => exact .tail l ih hs

theorem ReachWith.induct {C : σ → ℓ → Prop} {s₀ s : σ} {I : σ → Prop} (h : ReachWith step C s₀ s)
    (h0 : I s₀)
    (hstep : ∀ s l s', ReachWith step C s₀ s → I s → C s l → step s l = some s' → I s') : I s := by
  induction h with
  | refl => exact h0
  | tail l h hc hs ih => exact hstep _ l _ h ih hc hs

theorem Reach.of_exec {s₀ s s' : σ} {ls : List ℓ} (h : Reach step s₀ s) (he : exec step s ls = some s') :
    Reach step s₀ s' := by
  induction ls generalizing s with
  | nil => simp only [exec_nil, Option.some.injEq] at he; exact he ▸ h
  | cons l ls ih =>
    rw [exec_cons, Option.bind_eq_some_iff] at he
    obtain ⟨t, ht, he⟩ := he
    exact ih (h.tail l ht) he

/-- A relation between the labels run so far and the state, kept by every step, holds at the end of every
run. -/
theorem exec_induct {s₀ s : σ} {ls : List ℓ} {I : List ℓ → σ → Prop} (he : exec step s₀ ls = some s)
    (h0 : I [] s₀)
    (hstep : ∀ pre s l s', Reach step s₀ s → I pre s → step s l = some s' → I (pre ++ [l]) s') : I ls s := by
  induction ls using List.reverseRecOn generalizing s with
  | nil =>
    simp only [exec_nil, Option.some.injEq] at he
    exact he ▸ h0
  | append_singleton pre l ih =>
    obtain ⟨t, ht, hl⟩ := exec_snoc.1 he
    exact hstep pre t l s (Reach.refl.of_exec ht) (ih ht) hl

theorem Reach.of_prefix {s₀ s t : σ} {ls pre : List ℓ} (hpre : pre <+: ls) (ht : exec step s₀ pre = some t)
    (hs : exec step s₀ ls = some s) : Reach step t s := by
  obtain ⟨rest, rfl⟩ := hpre
  rw [exec_append, ht, Option.bind_some] at hs
  exact Reach.refl.of_exec hs

theorem Reach.of_any (step : σ → ℓ → Option σ) (s₀ : σ) (ls : List ℓ) (p : σ → Bool)
    (h : (exec step s₀ ls).any p = true) :
    ∃ s, exec step s₀ ls = some s ∧ Reach step s₀ s ∧ p s = true := by
  obtain ⟨s, hs, hp⟩ := (Option.any_eq_true _ _).1 h
  exact ⟨s, hs, Reach.refl.of_exec hs, hp⟩

/-- The machine restricted to the steps that pass a test. -/
def guarded (c : σ → ℓ → Bool) (step : σ → ℓ → Option σ) (s : σ) (l : ℓ) : Option σ :=
  if c s l then step s l else none

theorem exec_of_guarded {c : σ → ℓ → Bool} {s s' : σ} {ls : List ℓ}
    (he : exec (guarded c step) s ls = some s') :
    exec step s ls = some s' := by
  induction ls generalizing s with
  | nil => exact he
  | cons l ls ih =>
    rw [exec_cons, Option.bind_eq_some_iff] at he ⊢
    obtain ⟨t, ht, he⟩ := he
    unfold guarded at ht
    split at ht
    · exact ⟨t, ht, ih he⟩
    · cases ht

/-- A run whose steps can all be tested for `C` by evaluation. -/
theorem ReachWith.of_guarded {C : σ → ℓ → Prop} {c : σ → ℓ → Bool} {s₀ s s' : σ} {ls : List ℓ}
    (hc : ∀ s l, c s l = true → C s l) (h : ReachWith step C s₀ s)
    (he : exec (guarded c step) s ls = some s') :
    ReachWith step C s₀ s' := by
  induction ls generalizing s with
  | nil => simp only [exec_nil, Option.some.injEq] at he; exact he ▸ h
  | cons l ls ih =>
    rw [exec_cons, Option.bind_eq_some_iff] at he
    obtain ⟨t, ht, he⟩ := he
    unfold guarded at ht
    split at ht
    next hcl => exact ih (h.tail l (hc s l hcl) ht) he
    next => cases ht

/-- A run that projects step by step (with stuttering) onto a second machine reaches there what it
reaches here. -/
theorem Reach.project {τ κ : Type*} {step' : τ → κ → Option τ} {f : σ → τ} {s₀ s : σ}
    (hp : ∀ s l s', step s l = some s' → f s' = f s ∨ ∃ l', step' (f s) l' = some (f s'))
    (h : Reach step s₀ s) : Reach step' (f s₀) (f s) := by
  induction h with
  | refl => exact .refl
  | tail l _ hs ih =>
    rcases hp _ l _ hs with he | ⟨l', hl'⟩
    · exact he ▸ ih
    · exact ih.tail l' hl'

/-! ### Scheduled runs -/

/-- The state after `n` steps, when step `k` is `f k`. -/
def sched (f : Nat → σ → σ) (s : σ) : Nat → σ
  | 0 => s
  | n + 1 => f n (sched f s n)

theorem sched_induct {f : Nat → σ → σ} {s : σ} {I : σ → Prop} (h0 : I s) (hstep : ∀ k s, I s → I (f k s)) :
    ∀ n, I (sched f s n)
  | 0 => h0
  | n + 1 => hstep n _ (sched_induct h0 hstep n)

/-- A schedule whose steps lower `μ` until the state is at rest, and leave a state at rest alone, comes to
rest within `μ s` steps. -/
theorem sched_rests {f : Nat → σ → σ} {s : σ} {I R : σ → Prop} {μ : σ → Nat} (h0 : I s)
    (hstep : ∀ k s, I s → I (f k s)) (hrest : ∀ k s, R s → f k s = s)
    (hdec : ∀ k s, I s → ¬ R s → μ (f k s) < μ s) {n : Nat} (hn : μ s < n) : R (sched f s n) := by
  have hI := sched_induct h0 hstep
  have hmu : ∀ n, R (sched f s n) ∨ μ (sched f s n) + n ≤ μ s := by
    intro n
    induction n with
    | zero => exact .inr (Nat.le_refl _)
    | succ n ih =>
      by_cases hr : R (sched f s n)
      · left
        show R (f n (sched f s n))
        rw [hrest n _ hr]
        exact hr
      · have hle := ih.resolve_left hr
        have hlt := hdec n _ (hI n) hr
        right
        show μ (f n (sched f s n)) + (n + 1) ≤ μ s
        omega
  rcases hmu n with hr | hle
  · exact hr
  · omega

/-! ### A property of all states against a condition on all steps -/

/-- `P` holds in every state the run `ls` from `s` goes through. -/
def AllStates (step : σ → ℓ → Option σ) (P : σ → Prop) (s : σ) (ls : List ℓ) : Prop :=
  ∀ pre t, pre <+: ls → exec step s pre = some t → P t

/-- Every step the run `ls` from `s` takes meets `C` in the state it is taken from. -/
def AllSteps (step : σ → ℓ → Option σ) (C : σ → ℓ → Prop) (s : σ) (ls : List ℓ) : Prop :=
  ∀ pre l t t', pre ++ [l] <+: ls → exec step s pre = some t → step t l = some t' → C t l

theorem AllStates.tail {P : σ → Prop} {s s' : σ} {l : ℓ} {ls : List ℓ} (h : AllStates step P s (l :: ls))
    (hs : step s l = some s') : AllStates step P s' ls :=
  fun pre t hpre ht => h (l :: pre) t (List.cons_prefix_cons.2 ⟨rfl, hpre⟩) (by rw [exec_cons, hs]; exact ht)

theorem AllStates.of_inits {P : σ → Prop} {p : σ → Bool} {s : σ} {ls : List ℓ} (hp : ∀ t, p t = true → P t)
    (h : (ls.inits.all fun pre => (exec step s pre).all p) = true) : AllStates step P s ls := by
  intro pre t hpre ht
  have hpt := List.all_eq_true.1 h pre (List.mem_inits _ _ |>.2 hpre)
  rw [ht] at hpt
  exact hp t hpt

theorem allStates_iff_allSteps {P : σ → Prop} {C : σ → ℓ → Prop} {s : σ} {ls : List ℓ} (h0 : P s)
    (hstep : ∀ t l t', Reach step s t → P t → step t l = some t' → (P t' ↔ C t l)) :
    AllStates step P s ls ↔ AllSteps step C s ls := by
  constructor
  · intro h pre l t t' hpre ht hl
    have hP : P t := h pre t ((List.prefix_append pre [l]).trans hpre) ht
    have hP' : P t' := h (pre ++ [l]) t' hpre (exec_snoc.2 ⟨t, ht, hl⟩)
    exact (hstep t l t' (Reach.refl.of_exec ht) hP hl).1 hP'
  · -- induction on the prefix: each state is the start or the target of a step that meets `C`
    intro h pre
    induction pre using List.reverseRecOn with
    | nil =>
      intro t _ ht
      simp only [exec_nil, Option.some.injEq] at ht
      exact ht ▸ h0
    | append_singleton pre l ih =>
      intro t' hpre ht'
      obtain ⟨t, ht, hl⟩ := exec_snoc.1 ht'
      have hP : P t := ih t ((List.prefix_append pre [l]).trans hpre) ht
      exact (hstep t l t' (Reach.refl.of_exec ht) hP hl).2 (h pre l t t' hpre ht hl)

end Machine
