import RzBridge.Lib.Machine

/-!
# Request and reply

What a server promises its clients when it hands their requests on to others: a client has at most
one request open, an open request is passed on at most once, and it is answered once. `Session` is
one client's side of it, and `step` the machine of any number of clients. `Reach.simulate` is the
rule by which an implementation is shown to refine such a machine, steps that do nothing included.
-/

namespace Machine

variable {σ ℓ τ κ : Type*} {step : σ → ℓ → Option σ} {step' : τ → κ → Option τ}

/-- Forward simulation: a run whose every step is matched by a step of the second machine, or by none,
is matched by a run of it. -/
theorem Reach.simulate {R : σ → τ → Prop} {s₀ s : σ} {t₀ : τ} (h : Reach step s₀ s) (h0 : R s₀ t₀)
    (hstep : ∀ s l s' t, Reach step s₀ s → Reach step' t₀ t → R s t → step s l = some s' →
      R s' t ∨ ∃ l' t', step' t l' = some t' ∧ R s' t') :
    ∃ t, Reach step' t₀ t ∧ R s t := by
  induction h with
  | refl => exact ⟨t₀, .refl, h0⟩
  | tail l hr hs ih =>
    obtain ⟨t, ht, hR⟩ := ih
    obtain hR' | ⟨l', t', hl', hR'⟩ := hstep _ l _ t hr ht hR hs
    · exact ⟨t, ht, hR'⟩
    · exact ⟨t', ht.tail l' hl', hR'⟩

end Machine

namespace RequestReply
open Machine

variable {ρ α : Type*}

/-- A client: its requests that were answered, with their answers, the one that is open, whether that
one was passed on, and all that were passed on so far. -/
structure Session (ρ α : Type*) where
  answered : List (ρ × α) := []
  pending : Option ρ := none
  forwarded : Bool := false
  wire : List ρ := []

/-- All that the client has asked for. -/
def Session.asked (x : Session ρ α) : List ρ := x.answered.map Prod.fst ++ x.pending.toList

inductive Act (ρ α : Type*)
  | join
  | ask (i : Nat) (q : ρ)
  | forward (i : Nat)
  | answer (i : Nat) (a : α)

def step (xs : List (Session ρ α)) : Act ρ α → Option (List (Session ρ α))
  | .join => some (xs ++ [{}])
  | .ask i q => (xs[i]?).bind fun x =>
    if x.pending.isNone then some (xs.set i { x with pending := some q, forwarded := false }) else none
  | .forward i => (xs[i]?).bind fun x => x.pending.bind fun q =>
    if x.forwarded then none else some (xs.set i { x with forwarded := true, wire := x.wire ++ [q] })
  | .answer i a => (xs[i]?).bind fun x => x.pending.bind fun q =>
    some (xs.set i { x with answered := x.answered ++ [(q, a)], pending := none, forwarded := false })

/-! ### The steps a client can take -/

variable {xs : List (Session ρ α)} {i : Nat} {x : Session ρ α}

theorem step_ask {q : ρ} (hx : xs[i]? = some x) (hp : x.pending = none) :
    step xs (.ask i q) = some (xs.set i { x with pending := some q, forwarded := false }) := by
  simp [step, hx, hp]

theorem step_forward {q : ρ} (hx : xs[i]? = some x) (hp : x.pending = some q) (hf : x.forwarded = false) :
    step xs (.forward i) = some (xs.set i { x with forwarded := true, wire := x.wire ++ [q] }) := by
  simp [step, hx, hp, hf]

theorem step_answer {q : ρ} {a : α} (hx : xs[i]? = some x) (hp : x.pending = some q) :
    step xs (.answer i a) = some (xs.set i
      { x with answered := x.answered ++ [(q, a)], pending := none, forwarded := false }) := by
  simp [step, hx, hp]

/-! ### Nothing is passed on twice -/

/-- What was passed on, in its order: the open request last, if it was passed on at all. -/
def Session.Ordered (x : Session ρ α) : Prop :=
  if x.forwarded then ∃ w q, x.pending = some q ∧ x.wire = w ++ [q] ∧ List.Sublist w (x.answered.map Prod.fst)
  else List.Sublist x.wire (x.answered.map Prod.fst)

theorem Session.Ordered.asked (h : x.Ordered) : List.Sublist x.wire x.asked := by
  unfold Session.Ordered at h
  unfold Session.asked
  split at h
  · obtain ⟨w, q, hp, hw, hsub⟩ := h
    rw [hw, hp]
    exact hsub.append (List.Sublist.refl _)
  · exact h.trans (List.sublist_append_left _ _)

theorem Session.Ordered.ask (q : ρ) (h : x.Ordered) (hp : x.pending = none) :
    Session.Ordered { x with pending := some q, forwarded := false } := by
  have hw := h.asked
  simpa [Session.Ordered, Session.asked, hp] using hw

theorem Session.Ordered.forward {q : ρ} (h : x.Ordered) (hp : x.pending = some q) (hf : x.forwarded = false) :
    Session.Ordered { x with forwarded := true, wire := x.wire ++ [q] } := by
  simp only [Session.Ordered, hf, Bool.false_eq_true, if_false] at h
  exact ⟨x.wire, q, hp, rfl, h⟩

theorem Session.Ordered.answer {q : ρ} (a : α) (h : x.Ordered) (hp : x.pending = some q) :
    Session.Ordered { x with answered := x.answered ++ [(q, a)], pending := none, forwarded := false } := by
  have hw := h.asked
  simpa [Session.Ordered, Session.asked, hp] using hw

/-- A client's requests are passed on at most once each, in the order in which it made them. -/
theorem wire_sublist (h : Reach step ([] : List (Session ρ α)) xs) : ∀ x ∈ xs, List.Sublist x.wire x.asked := by
  have hinv : ∀ x ∈ xs, x.Ordered := by
    refine h.induct (I := fun xs => ∀ x ∈ xs, Session.Ordered x) (by simp) ?_
    intro xs l xs' _ ih hs
    have set : ∀ {i x y}, xs[i]? = some x → (x.Ordered → Session.Ordered y) → xs' = xs.set i y →
        ∀ z ∈ xs', Session.Ordered z := by
      rintro i x y hx hy rfl z hz
      rcases List.mem_or_eq_of_mem_set hz with hz | rfl
      · exact ih z hz
      · exact hy (ih x (List.mem_of_getElem? hx))
    cases l with
    | join =>
      cases hs
      intro x hx
      rcases List.mem_append.1 hx with hx | hx
      · exact ih x hx
      · obtain rfl := List.mem_singleton.1 hx
        exact List.Sublist.refl _
    | ask i q =>
      simp only [step, Option.bind_eq_some_iff, Option.ite_none_right_eq_some] at hs
      obtain ⟨x, hx, hp, hs⟩ := hs
      exact set hx (fun h => h.ask q (by simpa using hp)) (Option.some.inj hs).symm
    | forward i =>
      simp only [step, Option.bind_eq_some_iff, Option.ite_none_left_eq_some] at hs
      obtain ⟨x, hx, q, hp, hf, hs⟩ := hs
      exact set hx (fun h => h.forward hp (by simpa using hf)) (Option.some.inj hs).symm
    | answer i a =>
      simp only [step, Option.bind_eq_some_iff] at hs
      obtain ⟨x, hx, q, hp, hs⟩ := hs
      exact set hx (fun h => h.answer a hp) (Option.some.inj hs).symm
  exact fun x hx => (hinv x hx).asked

end RequestReply
