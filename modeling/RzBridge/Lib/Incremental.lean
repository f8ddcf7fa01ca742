import Mathlib.Algebra.BigOperators.Group.List.Basic
import Mathlib.Algebra.Ring.Nat
import Mathlib.Data.List.Basic
import Mathlib.Data.List.Infix

/-!
# Incremental parsing

A `Scanner` looks at the front of a buffer. It waits for more input, or takes something off the
front: an item, or junk that it skips. What it takes does not depend on what follows, and this is all
that is needed for the items found in a stream not to depend on how the stream was cut into pieces:
the runs of a scanner over one stream are all stretches of one run. Where the items stand in the
stream is a matter of items too: the scanner of the rounds (`Scanner.rounds`) finds how much each
round takes off.
-/

namespace Incremental

/-- One round of a parser on a buffer: `none` to wait, otherwise the item taken (if any) and the rest. -/
structure Scanner (α ι : Type*) where
  next : List α → Option (Option ι × List α)
  next_append : ∀ {b r : List α} {i : Option ι} (c : List α), next b = some (i, r) →
    next (b ++ c) = some (i, r ++ c)

variable {α ι : Type*} {p : Scanner α ι} {b c r r' : List α} {is js : List ι} {i : Option ι}

/-- Some rounds on `b` find the items `is` and leave `r`. -/
inductive Parses (p : Scanner α ι) : List α → List ι → List α → Prop
  | refl (b : List α) : Parses p b [] b
  | head {b b' r : List α} {i : Option ι} {is : List ι} (hn : p.next b = some (i, b'))
      (h : Parses p b' is r) :
      Parses p b (i.toList ++ is) r

/-- The scanner waits on `b`. -/
def Waits (p : Scanner α ι) (b : List α) : Prop := p.next b = none

namespace Parses

theorem one (hn : p.next b = some (i, r)) : Parses p b i.toList r := by
  simpa using head hn (refl r)

theorem trans (h : Parses p b is r) (h' : Parses p r js r') : Parses p b (is ++ js) r' := by
  induction h with
  | refl => exact h'
  | head hn _ ih => rw [List.append_assoc]; exact head hn (ih h')

theorem append (h : Parses p b is r) (c : List α) : Parses p (b ++ c) is (r ++ c) := by
  induction h with
  | refl => exact refl _
  | head hn _ ih => exact head (p.next_append c hn) ih

theorem waits (h : Parses p b is r) (hb : Waits p b) : is = [] ∧ r = b := by
  cases h with
  | refl => exact ⟨rfl, rfl⟩
  | head hn _ => rw [Waits, hn] at hb; cases hb

/-- Of two runs on one buffer, one continues the other. -/
theorem linear (h : Parses p b is r) (h' : Parses p b js r') :
    (∃ ks, js = is ++ ks ∧ Parses p r ks r') ∨ ∃ ks, is = js ++ ks ∧ Parses p r' ks r := by
  induction h generalizing js with
  | refl => exact .inl ⟨js, rfl, h'⟩
  | head hn h ih =>
    cases h' with
    | refl => exact .inr ⟨_, rfl, head hn h⟩
    | head hn' h' =>
      obtain ⟨rfl, rfl⟩ := Prod.mk.inj (Option.some.inj (hn.symm.trans hn'))
      rcases ih h' with ⟨ks, rfl, hk⟩ | ⟨ks, rfl, hk⟩
      · exact .inl ⟨ks, (List.append_assoc _ _ _).symm, hk⟩
      · exact .inr ⟨ks, (List.append_assoc _ _ _).symm, hk⟩

theorem prefix_or (h : Parses p b is r) (h' : Parses p b js r') : is <+: js ∨ js <+: is := by
  rcases h.linear h' with ⟨ks, rfl, _⟩ | ⟨ks, rfl, _⟩
  · exact .inl (List.prefix_append _ _)
  · exact .inr (List.prefix_append _ _)

/-- A run that ends where the scanner waits has found everything. -/
theorem prefix_of_waits (h : Parses p b is r) (hw : Waits p r) (h' : Parses p b js r') : js <+: is := by
  rcases h.linear h' with ⟨ks, rfl, hk⟩ | ⟨ks, rfl, _⟩
  · rw [(hk.waits hw).1, List.append_nil]
  · exact List.prefix_append _ _

theorem next_eq {x y : ι} (h : Parses p b (is ++ [x]) r) (h' : Parses p b js r') (hpre : is ++ [y] <+: js) :
    x = y := by
  have heq : is ++ [x] = is ++ [y] := by
    rcases h.prefix_or h' with hq | hq
    · exact (List.prefix_of_prefix_length_le hq hpre (by simp)).eq_of_length (by simp)
    · exact ((hpre.trans hq).eq_of_length (by simp)).symm
  exact List.singleton_inj.1 (List.append_cancel_left heq)

end Parses

/-! ### Scanners that take something off in each round -/

def Scanner.Shrinks (p : Scanner α ι) : Prop :=
  ∀ (b r : List α) (i : Option ι), p.next b = some (i, r) → r.length < b.length

theorem Scanner.Shrinks.exists_waits (hp : p.Shrinks) (b : List α) : ∃ is r, Parses p b is r ∧ Waits p r := by
  induction hn : b.length using Nat.strong_induction_on generalizing b with
  | _ n ih =>
    cases hnext : p.next b with
    | none => exact ⟨[], b, .refl b, hnext⟩
    | some x =>
      obtain ⟨i, b'⟩ := x
      have hlt := hp b b' i hnext
      obtain ⟨is, r, h, hw⟩ := ih b'.length (hn ▸ hlt) b' rfl
      exact ⟨_, r, .head hnext h, hw⟩

/-! ### Items that are refused -/

/-- The scanner that waits for ever at an item that is not `ok`. -/
def Scanner.upTo (p : Scanner α ι) (ok : ι → Bool) : Scanner α ι where
  next b := (p.next b).filter fun x => x.1.all ok
  next_append := by
    intro b r i c h
    obtain ⟨hn, hok⟩ := Option.filter_eq_some_iff.1 h
    exact Option.filter_eq_some_iff.2 ⟨p.next_append c hn, hok⟩

variable {ok : ι → Bool}

theorem Scanner.Shrinks.upTo (hp : p.Shrinks) : (p.upTo ok).Shrinks :=
  fun b r i h => hp b r i (Option.filter_eq_some_iff.1 h).1

theorem Waits.upTo (h : Waits p b) : Waits (p.upTo ok) b := by
  simp only [Waits, Scanner.upTo, show p.next b = none from h, Option.filter_none]

theorem waits_upTo {x : ι} (hn : p.next b = some (some x, r)) (hx : ok x = false) : Waits (p.upTo ok) b := by
  simp [Waits, Scanner.upTo, hn, Option.filter, hx]

namespace Parses

theorem upTo (h : Parses p b is r) (hok : ∀ x ∈ is, ok x = true) : Parses (p.upTo ok) b is r := by
  induction h with
  | refl => exact refl _
  | @head b b' r i is hn h ih =>
    refine head (Option.filter_eq_some_iff.2 ⟨hn, ?_⟩) (ih fun x hx => hok x (List.mem_append_right _ hx))
    cases i with
    | none => rfl
    | some x => exact hok x (by simp)

theorem refused {x : ι} (h : Parses p b (x :: is) r) (hx : ok x = false) :
    ∃ w, Parses (p.upTo ok) b [] w ∧ Waits (p.upTo ok) w := by
  generalize hl : x :: is = l at h
  induction h with
  | refl => cases hl
  | @head b b' r i js hn h ih =>
    cases i with
    | none =>
      obtain ⟨w, hw, hww⟩ := ih hl
      exact ⟨w, head (Option.filter_eq_some_iff.2 ⟨hn, rfl⟩) hw, hww⟩
    | some y =>
      obtain rfl := (List.cons.inj hl).1
      exact ⟨b, refl b, waits_upTo hn hx⟩

end Parses

/-! ### Where the items stand -/

/-- The scanner whose items are the rounds of `p`: what the round found, if anything, and how much it took
off. -/
def Scanner.rounds (p : Scanner α ι) : Scanner α (Option ι × ℕ) where
  next b := (p.next b).map fun x => (some (x.1, b.length - x.2.length), x.2)
  next_append := by
    intro b r i c h
    obtain ⟨⟨j, t⟩, hn, he⟩ := Option.map_eq_some_iff.1 h
    cases he
    rw [p.next_append c hn, Option.map_some, List.length_append, List.length_append, Nat.add_sub_add_right]

theorem Scanner.Shrinks.rounds (hp : p.Shrinks) : p.rounds.Shrinks := by
  intro b r i h
  obtain ⟨⟨j, t⟩, hn, he⟩ := Option.map_eq_some_iff.1 h
  cases he
  exact hp b t j hn

/-- The items that rounds have found, with their offsets, when the first round is at the offset `o`. -/
def located : ℕ → List (Option ι × ℕ) → List (ℕ × ι)
  | _, [] => []
  | o, (i, n) :: ts => (i.map (Prod.mk o)).toList ++ located (o + n) ts

variable {ts us : List (Option ι × ℕ)} {o : ℕ}

theorem located_append :
    located o (ts ++ us) = located o ts ++ located (o + (ts.map Prod.snd).sum) us := by
  induction ts generalizing o with
  | nil => rfl
  | cons t ts ih =>
    rw [List.cons_append, located, located, ih, List.append_assoc, List.map_cons, List.sum_cons, Nat.add_assoc]

theorem map_snd_located : (located o ts).map Prod.snd = ts.filterMap Prod.fst := by
  induction ts generalizing o with
  | nil => rfl
  | cons t ts ih =>
    obtain ⟨i, n⟩ := t
    rw [located, List.map_append, ih]
    cases i <;> rfl

theorem le_of_mem_located {e : ℕ × ι} (h : e ∈ located o ts) : o ≤ e.1 := by
  induction ts generalizing o with
  | nil => cases h
  | cons t ts ih =>
    obtain ⟨i, n⟩ := t
    rcases List.mem_append.1 h with h | h
    · cases i with
      | none => cases h
      | some x =>
        obtain rfl := List.mem_singleton.1 h
        exact le_rfl
    · exact (Nat.le_add_right o n).trans (ih h)

theorem waits_rounds : Waits p.rounds b ↔ Waits p b := Option.map_eq_none_iff

namespace Parses

theorem rounds (h : Parses p b is r) : ∃ ts, Parses p.rounds b ts r ∧ ts.filterMap Prod.fst = is := by
  induction h with
  | refl => exact ⟨[], refl _, rfl⟩
  | @head b b' r i is hn h ih =>
    obtain ⟨ts, hts, hi⟩ := ih
    have hn' : p.rounds.next b = some (some (i, b.length - b'.length), b') := by
      simp only [Scanner.rounds, hn, Option.map_some]
    refine ⟨(i, b.length - b'.length) :: ts, head hn' hts, ?_⟩
    cases i with
    | none => exact hi
    | some x => exact congrArg (List.cons x) hi

/-- The rounds have taken off what is missing. -/
theorem sum_rounds (hp : p.Shrinks) (h : Parses p.rounds b ts r) : (ts.map Prod.snd).sum + r.length = b.length := by
  induction h with
  | refl => simp
  | @head b b' r t ts hn h ih =>
    obtain ⟨⟨j, c⟩, hn₀, he⟩ := Option.map_eq_some_iff.1 hn
    cases he
    have hlt := hp b c j hn₀
    have ih : (ts.map Prod.snd).sum + r.length = c.length := ih
    simp only [Option.toList_some, List.singleton_append, List.map_cons, List.sum_cons]
    omega

end Parses
end Incremental
