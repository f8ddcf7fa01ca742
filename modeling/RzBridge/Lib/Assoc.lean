import Mathlib.Data.List.AList

/-!
# Finite maps as association lists

What a lookup finds after an update of an `AList` whose values have one type, as equivalences, and after
a list of insertions.
-/

namespace Assoc

variable {α β : Type*} [DecidableEq α] {m m' : AList fun _ : α => β} {a a' : α} {b b' : β}

theorem lookup_insert_iff :
    (m.insert a b).lookup a' = some b' ↔ a' = a ∧ b = b' ∨ a' ≠ a ∧ m.lookup a' = some b' := by
  by_cases h : a' = a
  · subst h
    simp [AList.lookup_insert]
  · simp [AList.lookup_insert_ne h, h]

theorem lookup_erase_iff : (m.erase a).lookup a' = some b' ↔ a' ≠ a ∧ m.lookup a' = some b' := by
  by_cases h : a' = a
  · subst h
    simp [AList.lookup_erase]
  · simp [AList.lookup_erase_ne h, h]

theorem mem_entries_iff {e : Sigma fun _ : α => β} : e ∈ m.entries ↔ m.lookup e.1 = some e.2 :=
  AList.mem_lookup_iff.symm

theorem mem_of_lookup (h : m.lookup a = some b) : a ∈ m := AList.lookup_isSome.1 (by simp [h])

theorem exists_lookup (h : a ∈ m) : ∃ b, m.lookup a = some b :=
  Option.isSome_iff_exists.1 (AList.lookup_isSome.2 h)

theorem lookup_replace_eq :
    (m.replace a b).lookup a' = if a' = a then (m.lookup a).map fun _ => b else m.lookup a' := by
  have loop : ∀ l : List (Sigma fun _ : α => β), (l.kreplace a b).dlookup a' =
      if a' = a then (l.dlookup a).map fun _ => b else l.dlookup a' := by
    intro l
    induction l with
    | nil => simp [List.kreplace]
    | cons x l ih =>
      obtain ⟨k, v⟩ := x
      by_cases hx : a = k
      · subst hx
        have hcons : (⟨a, v⟩ :: l : List (Sigma fun _ : α => β)).kreplace a b = ⟨a, b⟩ :: l :=
          List.lookmap_cons_some _ _ (by simp)
        rw [hcons]
        by_cases ha : a' = a
        · subst ha
          simp
        · rw [if_neg ha]
          exact (List.dlookup_cons_ne l _ ha).trans (List.dlookup_cons_ne l _ ha).symm
      · have hcons : (⟨k, v⟩ :: l : List (Sigma fun _ : α => β)).kreplace a b = ⟨k, v⟩ :: l.kreplace a b :=
          List.lookmap_cons_none _ _ (by simp only [if_neg hx])
        rw [hcons, List.dlookup_cons_ne (a := a) _ _ hx]
        by_cases hk : a' = k
        · subst hk
          rw [if_neg (Ne.symm hx), List.dlookup_cons_eq, List.dlookup_cons_eq]
        · rw [List.dlookup_cons_ne _ _ hk, List.dlookup_cons_ne _ _ hk, ih]
  exact loop m.entries

theorem lookup_replace (h : (m.replace a b).lookup a' = some b') : a' = a ∧ b = b' ∨ m.lookup a' = some b' := by
  rw [lookup_replace_eq] at h
  split at h
  next ha =>
    obtain ⟨-, -, hb⟩ := Option.map_eq_some_iff.1 h
    exact .inl ⟨ha, hb⟩
  next => exact .inr h

theorem length_replace : (m.replace a b).entries.length = m.entries.length := by
  have hkeys := congrArg List.length (AList.keys_replace a b m)
  simpa only [AList.keys, List.keys, List.length_map] using hkeys

/-! ### Inserting a key that is not there yet -/

theorem mem_orInsert : a' ∈ (if a ∈ m then m else m.insert a b) ↔ a' = a ∨ a' ∈ m := by
  split
  next hin =>
    constructor
    · exact .inr
    · rintro (rfl | h)
      · exact hin
      · exact h
  next => exact AList.mem_insert _

theorem lookup_orInsert (h : (if a ∈ m then m else m.insert a b).lookup a' = some b') :
    b = b' ∨ m.lookup a' = some b' := by
  split at h
  next => exact .inr h
  next =>
    rcases lookup_insert_iff.1 h with ⟨-, hb⟩ | ⟨-, h⟩
    · exact .inl hb
    · exact .inr h

/-! ### Counting entries -/

section
variable (p : (Sigma fun _ : α => β) → Bool)

theorem countP_insert (m : AList fun _ : α => β) (a : α) (b : β) :
    (m.insert a b).entries.countP p = (m.erase a).entries.countP p + if p ⟨a, b⟩ then 1 else 0 := by
  rw [AList.entries_insert, List.countP_cons]
  rfl

theorem countP_erase (h : m.lookup a = some b) :
    m.entries.countP p = (m.erase a).entries.countP p + if p ⟨a, b⟩ then 1 else 0 := by
  have hperm : (m.insert a b).entries.Perm m.entries := by
    refine List.lookup_ext (m.insert a b).nodupKeys m.nodupKeys fun x y => ?_
    show (m.insert a b).lookup x = some y ↔ m.lookup x = some y
    rw [lookup_insert_iff]
    by_cases hx : x = a
    · subst hx
      simp [h]
    · simp [hx]
  rw [← hperm.countP_eq, countP_insert]

theorem countP_erase_of_not (h : ∀ b, m.lookup a = some b → p ⟨a, b⟩ = false) :
    (m.erase a).entries.countP p = m.entries.countP p := by
  cases hl : m.lookup a with
  | none =>
    have hsame : (m.erase a).entries = m.entries := List.kerase_of_notMem_keys (AList.lookup_eq_none.1 hl)
    rw [hsame]
  | some b =>
    rw [countP_erase p hl, h b hl]
    rfl

theorem countP_erase_le (m : AList fun _ : α => β) (a : α) : (m.erase a).entries.countP p ≤ m.entries.countP p :=
  (List.kerase_sublist a m.entries).countP_le

end

theorem lookup_foldl_insert {γ : Type*} (key : γ → α) (val : γ → β) (l : List γ) (m : AList fun _ : α => β) (a : α) :
    (l.foldl (fun m x => m.insert (key x) (val x)) m).lookup a =
      ((l.reverse.find? fun x => key x = a).map val).or (m.lookup a) := by
  induction l generalizing m with
  | nil => simp
  | cons x l ih =>
    rw [List.foldl_cons, ih, List.reverse_cons, List.find?_append]
    by_cases hx : key x = a
    · subst hx
      cases l.reverse.find? fun y => key y = key x <;> simp [AList.lookup_insert]
    · have hne : a ≠ key x := fun h => hx h.symm
      cases l.reverse.find? fun y => key y = a <;> simp [AList.lookup_insert_ne hne, hx]

end Assoc
