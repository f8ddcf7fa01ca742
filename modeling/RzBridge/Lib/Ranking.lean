import RzBridge.Lib.Machine
import Mathlib.Data.Prod.Lex
import Mathlib.Data.Set.Finite.Lattice
import Mathlib.Order.OrderIsoNat

/-!
# Ranks

Steps of one kind against a rank that no step raises and each step of that kind lowers: with a rank in
the natural numbers it bounds how many there are in a run (`exec_countP_le`, and `countSteps_le` for a
kind that depends on the state), with one in any well-founded order there are finitely many in every
infinite run (`finite_of_rank`).
-/

namespace Machine

variable {σ ℓ : Type*} {step : σ → ℓ → Option σ}

theorem exec_countP_le {p : ℓ → Bool} {μ : σ → Nat} {s₀ s : σ} {ls : List ℓ} (he : exec step s₀ ls = some s)
    (hstep : ∀ s l s', Reach step s₀ s → step s l = some s' → μ s' + (if p l then 1 else 0) ≤ μ s) :
    ls.countP p + μ s ≤ μ s₀ := by
  refine exec_induct (I := fun ls s => ls.countP p + μ s ≤ μ s₀) he (by simp) ?_
  intro pre s l s' hr ih hs
  have hdec := hstep s l s' hr hs
  rw [List.countP_append, List.countP_singleton]
  omega

/-- How many steps of a run are of the kind `p`. -/
def countSteps (step : σ → ℓ → Option σ) (p : σ → ℓ → Bool) (s : σ) : List ℓ → Nat
  | [] => 0
  | l :: ls => (if p s l then 1 else 0) + (step s l).elim 0 fun s' => countSteps step p s' ls

theorem countSteps_snoc {p : σ → ℓ → Bool} {s t : σ} {ls : List ℓ} {l : ℓ} (ht : exec step s ls = some t)
    (hl : (step t l).isSome = true) :
    countSteps step p s (ls ++ [l]) = countSteps step p s ls + if p t l then 1 else 0 := by
  induction ls generalizing s with
  | nil =>
    cases Option.some.inj ht
    obtain ⟨s', hs'⟩ := Option.isSome_iff_exists.1 hl
    simp [countSteps, hs']
  | cons l' ls ih =>
    rw [exec_cons, Option.bind_eq_some_iff] at ht
    obtain ⟨s', hs', ht⟩ := ht
    rw [List.cons_append, countSteps, countSteps, hs', Option.elim_some, Option.elim_some, ih ht, Nat.add_assoc]

/-- A run has no more of these steps than its start has rank. -/
theorem countSteps_le {p : σ → ℓ → Bool} {μ : σ → Nat} {s₀ s : σ} {ls : List ℓ} (he : exec step s₀ ls = some s)
    (hstep : ∀ s l s', Reach step s₀ s → step s l = some s' → μ s' + (if p s l then 1 else 0) ≤ μ s) :
    countSteps step p s₀ ls ≤ μ s₀ := by
  have hall : exec step s₀ ls = some s ∧ countSteps step p s₀ ls + μ s ≤ μ s₀ := by
    refine exec_induct (I := fun ls s => exec step s₀ ls = some s ∧ countSteps step p s₀ ls + μ s ≤ μ s₀) he
      ⟨rfl, by simp [countSteps]⟩ ?_
    rintro pre s l s' hr ⟨hpre, ih⟩ hs
    have hdec := hstep s l s' hr hs
    refine ⟨exec_snoc.2 ⟨s, hpre, hs⟩, ?_⟩
    rw [countSteps_snoc hpre (by rw [hs]; rfl)]
    omega
  exact (Nat.le_add_right _ _).trans hall.2

/-- An infinite run. -/
structure Run (step : σ → ℓ → Option σ) (s₀ : σ) where
  state : Nat → σ
  label : Nat → ℓ
  start : Reach step s₀ (state 0)
  next : ∀ n, step (state n) (label n) = some (state (n + 1))

theorem Run.reach {s₀ : σ} (r : Run step s₀) (n : Nat) : Reach step s₀ (r.state n) := by
  induction n with
  | zero => exact r.start
  | succ n ih => exact ih.tail _ (r.next n)

theorem Run.finite_of_rank {ι : Type*} [PartialOrder ι] [WellFoundedLT ι] {p : ℓ → Prop} {s₀ : σ}
    (rank : σ → ι) (r : Run step s₀)
    (hle : ∀ s l s', Reach step s₀ s → step s l = some s' → rank s' ≤ rank s)
    (hlt : ∀ s l s', Reach step s₀ s → step s l = some s' → p l → rank s' < rank s) :
    {n | p (r.label n)}.Finite := by
  have hanti : Antitone fun n => rank (r.state n) :=
    antitone_nat_of_succ_le fun n => hle _ _ _ (r.reach n) (r.next n)
  obtain ⟨N, hN⟩ := WellFoundedLT.antitone_chain_condition hanti
  refine (Set.finite_lt_nat N).subset fun n hn => ?_
  -- from `N` on the rank does not fall any more
  by_contra hge
  have hNn : N ≤ n := Nat.le_of_not_lt hge
  have hsame : rank (r.state n) = rank (r.state (n + 1)) := (hN n hNn).symm.trans (hN (n + 1) (by omega))
  exact absurd hsame.symm (hlt _ _ _ (r.reach n) (r.next n) hn).ne

end Machine
