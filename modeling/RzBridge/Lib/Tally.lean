import RzBridge.Lib.Assoc
import Mathlib.Data.List.Induction

/-!
# Counting votes

`tally` counts the occurrences of each element of a list in a map, `maxByKey` picks an element with the
greatest key. Together they elect an element that occurs most often, whatever the order in which the
map is gone through.
-/

namespace Tally
open Assoc

variable {α κ : Type*} [DecidableEq κ]

/-- `*votes.entry(k).or_insert(0) += 1` for each `k` of the list. -/
def tally (ks : List κ) : AList fun _ : κ => Nat :=
  ks.foldl (fun m k => m.insert k ((m.lookup k).getD 0 + 1)) ∅

theorem tally_snoc (ks : List κ) (k : κ) :
    tally (ks ++ [k]) = (tally ks).insert k (((tally ks).lookup k).getD 0 + 1) := by
  simp [tally, List.foldl_append]

theorem lookup_tally (ks : List κ) (k : κ) :
    (tally ks).lookup k = if k ∈ ks then some (ks.count k) else none := by
  induction ks using List.reverseRecOn with
  | nil => simp [tally]
  | append_singleton ks k' ih =>
    rw [tally_snoc]
    by_cases hk : k = k'
    · subst hk
      rw [AList.lookup_insert, ih]
      by_cases hm : k ∈ ks
      · simp [hm, List.count_append]
      · simp [hm, List.count_append, List.count_eq_zero_of_not_mem hm]
    · have hc : List.count k [k'] = 0 := List.count_eq_zero_of_not_mem (by simpa using hk)
      rw [AList.lookup_insert_ne hk, ih]
      simp [hk, List.count_append, hc]

theorem mem_entries_tally {ks : List κ} {k : κ} {n : Nat} :
    (⟨k, n⟩ : Sigma fun _ : κ => Nat) ∈ (tally ks).entries ↔ k ∈ ks ∧ n = ks.count k := by
  rw [mem_entries_iff, lookup_tally]
  by_cases hk : k ∈ ks
  · simp [hk, eq_comm]
  · simp [hk]

/-- `Iterator::max_by_key`: of several elements with the greatest key the last one. -/
def maxByKey (key : α → Nat) (l : List α) : Option α :=
  l.foldl (fun best x => match best with
    | none => some x
    | some b => if key b ≤ key x then some x else some b) none

theorem maxByKey_snoc (key : α → Nat) (l : List α) (x : α) :
    maxByKey key (l ++ [x]) = match maxByKey key l with
      | none => some x
      | some b => if key b ≤ key x then some x else some b := by
  simp [maxByKey, List.foldl_append]

theorem maxByKey_eq_none {key : α → Nat} {l : List α} (h : maxByKey key l = none) : l = [] := by
  induction l using List.reverseRecOn with
  | nil => rfl
  | append_singleton l x _ =>
    rw [maxByKey_snoc] at h
    split at h
    · cases h
    · split at h <;> cases h

theorem maxByKey_eq_some {key : α → Nat} {l : List α} {a : α} (h : maxByKey key l = some a) :
    a ∈ l ∧ ∀ b ∈ l, key b ≤ key a := by
  induction l using List.reverseRecOn generalizing a with
  | nil => cases h
  | append_singleton l x ih =>
    rw [maxByKey_snoc] at h
    split at h
    next hnone =>
      cases h
      obtain rfl := maxByKey_eq_none hnone
      simp
    next b hb =>
      obtain ⟨hmem, hmax⟩ := ih hb
      split at h
      next hle =>
        cases h
        refine ⟨by simp, fun c hc => ?_⟩
        rcases List.mem_append.1 hc with hc | hc
        · exact Nat.le_trans (hmax c hc) hle
        · rw [List.mem_singleton.1 hc]
      next hlt =>
        cases h
        refine ⟨List.mem_append_left _ hmem, fun c hc => ?_⟩
        rcases List.mem_append.1 hc with hc | hc
        · exact hmax c hc
        · rw [List.mem_singleton.1 hc]
          omega

theorem maxByKey_concat {key : α → Nat} {l : List α} {x : α} (h : ∀ b ∈ l, key b ≤ key x) :
    maxByKey key (l ++ [x]) = some x := by
  rw [maxByKey_snoc]
  split
  next => rfl
  next b hb => exact if_pos (h b (maxByKey_eq_some hb).1)

/-- An element picked from the tally, gone through in any order, occurs most often. -/
theorem count_le_of_maxByKey {ks : List κ} {order : List (κ × Nat)} {k : κ} {n : Nat}
    (hperm : order.Perm ((tally ks).entries.map fun e => (e.1, e.2)))
    (h : maxByKey Prod.snd order = some (k, n)) : k ∈ ks ∧ ∀ k', ks.count k' ≤ ks.count k := by
  have hentry : ∀ k n, (k, n) ∈ order ↔ k ∈ ks ∧ n = ks.count k := by
    intro k n
    rw [hperm.mem_iff, List.mem_map, ← mem_entries_tally]
    constructor
    · rintro ⟨⟨k', n'⟩, he, heq⟩
      cases heq
      exact he
    · exact fun he => ⟨_, he, rfl⟩
  obtain ⟨hmem, hmax⟩ := maxByKey_eq_some h
  obtain ⟨hk, rfl⟩ := (hentry k n).1 hmem
  refine ⟨hk, fun k' => ?_⟩
  by_cases hk' : k' ∈ ks
  · exact hmax (k', ks.count k') ((hentry k' _).2 ⟨hk', rfl⟩)
  · rw [List.count_eq_zero_of_not_mem hk']
    exact Nat.zero_le _

theorem eq_nil_of_maxByKey {ks : List κ} {order : List (κ × Nat)}
    (hperm : order.Perm ((tally ks).entries.map fun e => (e.1, e.2)))
    (h : maxByKey Prod.snd order = none) : ks = [] := by
  rw [maxByKey_eq_none h] at hperm
  have hnil : (tally ks).entries = [] := List.map_eq_nil_iff.1 hperm.symm.eq_nil
  apply List.eq_nil_iff_forall_not_mem.2
  intro k hk
  have hmem := mem_entries_tally.2 ⟨hk, rfl⟩
  rw [hnil] at hmem
  exact absurd hmem List.not_mem_nil

end Tally
