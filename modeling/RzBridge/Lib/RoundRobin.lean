import RzBridge.Lib.Machine
import Mathlib.Data.List.Range

/-!
# Taking turns

`circle n i` goes once around the numbers below `n`, from `i` on. A selection that takes the first of them
with some property and the next time starts behind it (`next`) takes each of them in turn
(`turns_perm`).
-/

namespace RoundRobin

/-- `k` steps around the numbers below `n`, from `i` on. -/
def walk (n k i : Nat) : List Nat := (List.range k).map fun d => (i + d) % n

/-- Once around. -/
def circle (n i : Nat) : List Nat := walk n n i

/-- The first number with `p` after `last`. -/
def next (p : Nat → Bool) (n last : Nat) : Option Nat := (circle n ((last + 1) % n)).find? p

/-- What `k` selections take. -/
def turns (p : Nat → Bool) (n : Nat) : Nat → Nat → List Nat
  | 0, _ => []
  | k + 1, last =>
    match next p n last with
    | none => []
    | some x => x :: turns p n k x

variable {p : Nat → Bool} {n k i last x : Nat}

theorem walk_succ (hi : i < n) : walk n (k + 1) i = i :: walk n k ((i + 1) % n) := by
  rw [walk, List.range_succ_eq_map, List.map_cons, Nat.add_zero, Nat.mod_eq_of_lt hi, List.map_map]
  congr 1
  refine List.map_congr_left fun d _ => ?_
  rw [Nat.mod_add_mod]
  exact congrArg (· % n) (by rw [Nat.succ_eq_add_one]; omega)

theorem walk_snoc : walk n (k + 1) i = walk n k i ++ [(i + k) % n] := by
  rw [walk, List.range_succ, List.map_append]
  rfl

theorem lt_of_mem_walk (hn : 0 < n) (h : x ∈ walk n k i) : x < n := by
  obtain ⟨d, -, rfl⟩ := List.mem_map.1 h
  exact Nat.mod_lt _ hn

theorem circle_step (hi : i < n) :
    ∃ t, circle n i = i :: t ∧ circle n ((i + 1) % n) = t ++ [i] := by
  obtain ⟨m, rfl⟩ := Nat.exists_eq_succ_of_ne_zero (Nat.ne_zero_of_lt hi)
  refine ⟨walk (m + 1) m ((i + 1) % (m + 1)), walk_succ hi, ?_⟩
  have hlast : ((i + 1) % (m + 1) + m) % (m + 1) = i := by
    rw [Nat.mod_add_mod, Nat.add_assoc, Nat.add_comm 1 m, Nat.add_mod_right, Nat.mod_eq_of_lt hi]
  rw [circle, Nat.succ_eq_add_one, walk_snoc, hlast]

theorem circle_perm (hi : i < n) : (circle n i).Perm (List.range n) := by
  induction i with
  | zero =>
    refine .of_eq ((List.map_congr_left fun d hd => ?_).trans (List.map_id _))
    rw [Nat.zero_add, Nat.mod_eq_of_lt (List.mem_range.1 hd), id]
  | succ i ih =>
    obtain ⟨t, ht, ht'⟩ := circle_step (Nat.lt_of_succ_lt hi)
    have ih := ih (Nat.lt_of_succ_lt hi)
    rw [Nat.mod_eq_of_lt hi] at ht'
    rw [ht] at ih
    rw [ht']
    exact (List.perm_append_singleton i t).trans ih

theorem circle_behind {before behind : List Nat} (hi : i < n) (h : circle n i = before ++ x :: behind) :
    circle n ((x + 1) % n) = behind ++ before ++ [x] := by
  induction before generalizing i behind with
  | nil =>
    obtain ⟨t, ht, ht'⟩ := circle_step hi
    cases ht.symm.trans h
    rw [ht', List.append_nil]
  | cons a before ih =>
    obtain ⟨t, ht, ht'⟩ := circle_step hi
    obtain ⟨rfl, htail⟩ := List.cons.inj (ht.symm.trans h)
    have hbehind : circle n ((i + 1) % n) = before ++ x :: (behind ++ [i]) := by
      rw [ht', htail]
      exact List.append_assoc before (x :: behind) [i]
    rw [ih (Nat.mod_lt _ (Nat.zero_lt_of_lt hi)) hbehind, List.append_assoc behind]
    rfl

theorem filter_circle_behind {t : List Nat} (hi : i < n) (h : (circle n i).filter p = x :: t) :
    (circle n ((x + 1) % n)).filter p = t ++ [x] := by
  obtain ⟨before, behind, hc, hbefore, hx, rfl⟩ := List.filter_eq_cons_iff.1 h
  have hnil : before.filter p = [] := List.filter_eq_nil_iff.2 hbefore
  rw [circle_behind hi hc, List.filter_append, List.filter_append, hnil, List.append_nil, List.filter_singleton, hx]
  rfl

theorem next_eq_head? : next p n last = ((circle n ((last + 1) % n)).filter p).head? := by
  rw [next, List.head?_filter]

theorem turns_eq_take (hlast : last < n) (hk : k ≤ ((circle n ((last + 1) % n)).filter p).length) :
    turns p n k last = ((circle n ((last + 1) % n)).filter p).take k := by
  induction k generalizing last with
  | zero => rfl
  | succ k ih =>
    have hi : (last + 1) % n < n := Nat.mod_lt _ (Nat.zero_lt_of_lt hlast)
    cases hf : (circle n ((last + 1) % n)).filter p with
    | nil =>
      rw [hf] at hk
      exact absurd hk (Nat.not_succ_le_zero k)
    | cons x t =>
      have hx : x < n := lt_of_mem_walk (Nat.zero_lt_of_lt hlast)
        (List.mem_of_mem_filter (hf ▸ List.mem_cons_self : x ∈ (circle n ((last + 1) % n)).filter p))
      have hnext := filter_circle_behind hi hf
      have hkt : k ≤ t.length := Nat.le_of_succ_le_succ (by rwa [hf] at hk)
      rw [turns, next_eq_head?, hf, List.head?_cons]
      dsimp only
      rw [ih hx (by rw [hnext, List.length_append]; exact hkt.trans (Nat.le_add_right ..)), hnext,
        List.take_append_of_le_length hkt, List.take_succ_cons]

theorem next_true (hn : 0 < n) : next (fun _ => true) n last = some ((last + 1) % n) := by
  obtain ⟨t, ht, -⟩ := circle_step (Nat.mod_lt (last + 1) hn)
  rw [next, ht, List.find?_cons_of_pos rfl]

theorem turns_perm (hlast : last < n) :
    (turns p n ((List.range n).countP p) last).Perm ((List.range n).filter p) := by
  have hperm : ((circle n ((last + 1) % n)).filter p).Perm ((List.range n).filter p) :=
    (circle_perm (Nat.mod_lt _ (Nat.zero_lt_of_lt hlast))).filter p
  rw [List.countP_eq_length_filter, ← hperm.length_eq, turns_eq_take hlast le_rfl, List.take_length]
  exact hperm

theorem turns_length_le : (turns p n k last).length ≤ k := by
  induction k generalizing last with
  | zero => exact le_rfl
  | succ k ih =>
    rw [turns]
    split
    · exact Nat.zero_le _
    · exact Nat.succ_le_succ ih

theorem turns_take {d : Nat} (hd : d ≤ k) : (turns p n k last).take d = turns p n d last := by
  induction k generalizing d last with
  | zero =>
    rw [Nat.le_zero.1 hd]
    rfl
  | succ k ih =>
    cases d with
    | zero => rfl
    | succ d =>
      rw [turns, turns]
      split
      · rfl
      · rw [List.take_succ_cons, ih (Nat.le_of_succ_le_succ hd)]

theorem turns_drop {d : Nat} (hlast : last < n) (hd : d ≤ k) :
    ∃ last' < n, (turns p n k last).drop d = turns p n (k - d) last' := by
  induction d generalizing k last with
  | zero => exact ⟨last, hlast, rfl⟩
  | succ d ih =>
    obtain ⟨k, rfl⟩ := Nat.exists_eq_succ_of_ne_zero (Nat.ne_zero_of_lt hd)
    have hk : k.succ - (d + 1) = k - d := Nat.succ_sub_succ k d
    cases hnext : next p n last with
    | none =>
      -- then there is nothing to select
      have hnil : ∀ j, turns p n j last = [] := by
        intro j
        cases j with
        | zero => rfl
        | succ j => rw [turns, hnext]
      exact ⟨last, hlast, by rw [hnil, hnil, List.drop_nil]⟩
    | some x =>
      have hx : x < n := lt_of_mem_walk (Nat.zero_lt_of_lt hlast) (List.mem_of_find?_eq_some hnext)
      obtain ⟨last', hlast', hrest⟩ := ih hx (Nat.le_of_succ_le_succ hd)
      refine ⟨last', hlast', ?_⟩
      rw [turns, hnext, hk]
      exact hrest

/-- As many selections in a row as there are numbers with `p`, whenever they begin, take each of these once. -/
theorem turns_window {before window after : List Nat} (hlast : last < n)
    (h : turns p n k last = before ++ window ++ after) (hw : window.length = (List.range n).countP p) :
    window.Perm ((List.range n).filter p) := by
  have hle := (congrArg List.length h).symm.trans_le turns_length_le
  simp only [List.length_append] at hle
  obtain ⟨last', hlast', hdrop⟩ := turns_drop (p := p) hlast (show before.length ≤ k by omega)
  have hwindow : window = turns p n window.length last' := by
    rw [← turns_take (k := k - before.length) (by omega), ← hdrop, h, List.append_assoc, List.drop_left',
      List.take_left']
    all_goals rfl
  rw [hwindow, hw]
  exact turns_perm hlast'

/-- What the steps of a run select are turns, when each selects the next number after the last one (`At`). -/
theorem log_eq_turns {σ ℓ : Type*} {step : σ → ℓ → Option σ} (C : σ → Prop) (At : σ → Nat → Prop)
    (selected : σ → σ → ℓ → Option Nat) (log : σ → List ℓ → List Nat) (hnil : ∀ s, log s [] = [])
    (hcons : ∀ s l ls, log s (l :: ls) = (step s l).elim [] fun s' => (selected s s' l).toList ++ log s' ls)
    (hstep : ∀ s l s' last, C s → At s last → step s l = some s' →
      (selected s s' l = none → At s' last) ∧ ∀ i, selected s s' l = some i → next p n last = some i ∧ At s' i)
    {s : σ} {ls : List ℓ} (hC : Machine.AllStates step C s ls) (hat : At s last) :
    log s ls = turns p n (log s ls).length last := by
  induction ls generalizing s last with
  | nil =>
    rw [hnil]
    rfl
  | cons l ls ih =>
    rw [hcons]
    cases hs : step s l with
    | none => rfl
    | some s' =>
      obtain ⟨hnone, hsome⟩ := hstep s l s' last (hC [] s List.nil_prefix rfl) hat hs
      rw [Option.elim_some]
      cases hi : selected s s' l with
      | none => exact ih (hC.tail hs) (hnone hi)
      | some i =>
        obtain ⟨hnext, hat'⟩ := hsome i hi
        have ih := ih (hC.tail hs) hat'
        show i :: log s' ls = turns p n ((log s' ls).length + 1) last
        rw [turns, hnext]
        exact congrArg (i :: ·) ih

theorem next_eq_some_iff : next p n last = some x ↔
    ∃ d < n, x = (last + 1 + d) % n ∧ p x = true ∧ ∀ d' < d, p ((last + 1 + d') % n) = false := by
  rw [next, circle, walk, List.find?_map, Option.map_eq_some_iff]
  simp only [List.find?_range_eq_some, Function.comp_apply, Nat.mod_add_mod, List.mem_range, Bool.not_eq_true']
  constructor
  · rintro ⟨d, ⟨hx, hd, hbefore⟩, rfl⟩
    exact ⟨d, hd, rfl, hx, hbefore⟩
  · rintro ⟨d, hd, rfl, hx, hbefore⟩
    exact ⟨d, ⟨hx, hd, hbefore⟩, rfl⟩

theorem next_eq_none_iff (hlast : last < n) : next p n last = none ↔ ∀ x < n, p x = false := by
  rw [next, List.find?_eq_none]
  simp only [(circle_perm (Nat.mod_lt (last + 1) (Nat.zero_lt_of_lt hlast))).mem_iff, List.mem_range,
    Bool.not_eq_true]

end RoundRobin
