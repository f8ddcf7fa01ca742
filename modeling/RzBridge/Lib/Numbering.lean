import Mathlib.Data.List.DropRight
import Mathlib.Data.List.Nodup

/-!
# Handing out numbers

Names come one after the other for a number. A name that has had a number before gets that number
back; another draws the last of the free numbers, and goes without when there is none left. `Clear`
is what it takes for nobody to get a number that is somebody else's: the old numbers are nobody
else's, no two of the names still to come have the same one, and none of them is among the numbers
that will be drawn.
-/

namespace Numbering

variable {α : Type*}

/-- The numbers that `names` will draw from `free`, when `had` gives the numbers of old. -/
def draws (names : List α) (had : α → Option Nat) (free : List Nat) : List Nat :=
  free.rtake (names.countP fun a => (had a).isNone)

/-- No number is taken twice. -/
def Distinct (taken : α → Nat → Prop) : Prop := ∀ a b i, taken a i → taken b i → a = b

structure Clear (taken : α → Nat → Prop) (names : List α) (had : α → Option Nat) (free : List Nat) : Prop where
  nodup : names.Nodup
  nodupFree : free.Nodup
  own : ∀ a ∈ names, ∀ i, had a = some i → ∀ b, taken b i → b = a
  apart : ∀ a ∈ names, ∀ b ∈ names, ∀ i, had a = some i → had b = some i → a = b
  spared : ∀ a ∈ names, ∀ i, had a = some i → i ∉ draws names had free
  unused : ∀ i ∈ draws names had free, ∀ b, ¬ taken b i

variable {taken taken' : α → Nat → Prop} {a : α} {names : List α} {had had' : α → Option Nat} {free : List Nat}
  {i : Nat}

theorem Distinct.mono (h : Distinct taken) (ht : ∀ b j, taken' b j → taken b j) : Distinct taken' :=
  fun b c j hb hc => h b c j (ht b j hb) (ht c j hc)

theorem Distinct.add (h : Distinct taken) (ha : ∀ b, taken b i → b = a)
    (ht : ∀ b j, taken' b j → taken b j ∨ b = a ∧ j = i) : Distinct taken' := by
  intro b c j hb hc
  rcases ht b j hb with hb | ⟨rfl, rfl⟩ <;> rcases ht c j hc with hc | ⟨rfl, hj⟩
  · exact h b c j hb hc
  · exact ha b (hj ▸ hb)
  · exact (ha c hc).symm
  · rfl

theorem Clear.mono (h : Clear taken names had free) (ht : ∀ b j, taken' b j → taken b j) :
    Clear taken' names had free :=
  ⟨h.nodup, h.nodupFree, fun a ha i hi b hb => h.own a ha i hi b (ht b i hb), h.apart, h.spared,
    fun i hi b hb => h.unused i hi b (ht b i hb)⟩

theorem Clear.perm {names' : List α} (h : Clear taken names had free) (hp : names'.Perm names) :
    Clear taken names' had free := by
  have hdraws : draws names' had free = draws names had free := by rw [draws, draws, hp.countP_eq]
  refine ⟨hp.nodup_iff.2 h.nodup, h.nodupFree, fun b hb => ?_, fun b hb c hc => ?_, fun b hb => ?_, ?_⟩
  · exact h.own b (hp.mem_iff.1 hb)
  · exact h.apart b (hp.mem_iff.1 hb) c (hp.mem_iff.1 hc)
  · rw [hdraws]
    exact h.spared b (hp.mem_iff.1 hb)
  · rw [hdraws]
    exact h.unused

theorem draws_cons_some (hi : had a = some i) : draws (a :: names) had free = draws names had free := by
  simp [draws, hi]

theorem Clear.reclaim (h : Clear taken (a :: names) had free) (hi : had a = some i)
    (ht : ∀ b j, taken' b j → taken b j ∨ b = a ∧ j = i) : Clear taken' names had free := by
  have hdraws : draws (a :: names) had free = draws names had free := draws_cons_some hi
  refine ⟨(List.nodup_cons.1 h.nodup).2, h.nodupFree, fun b hb j hj c hc => ?_, fun b hb c hc => ?_,
    fun b hb j hj => ?_, fun j hj b hb => ?_⟩
  · rcases ht c j hc with hc | ⟨rfl, rfl⟩
    · exact h.own b (List.mem_cons_of_mem a hb) j hj c hc
    · exact h.apart c (List.mem_cons_self ..) b (List.mem_cons_of_mem c hb) j hi hj
  · exact h.apart b (List.mem_cons_of_mem a hb) c (List.mem_cons_of_mem a hc)
  · rw [← hdraws]
    exact h.spared b (List.mem_cons_of_mem a hb) j hj
  · rw [← hdraws] at hj
    rcases ht b j hb with hb | ⟨rfl, rfl⟩
    · exact h.unused j hj b hb
    · exact h.spared b (List.mem_cons_self ..) j hi hj

theorem Clear.skip (h : Clear taken (a :: names) had []) : Clear taken names had [] := by
  have hdraws : draws names had [] = draws (a :: names) had [] := by simp [draws]
  refine ⟨(List.nodup_cons.1 h.nodup).2, h.nodupFree, fun b hb => ?_, fun b hb c hc => ?_, fun b hb => ?_, ?_⟩
  · exact h.own b (List.mem_cons_of_mem a hb)
  · exact h.apart b (List.mem_cons_of_mem a hb) c (List.mem_cons_of_mem a hc)
  · rw [hdraws]
    exact h.spared b (List.mem_cons_of_mem a hb)
  · rw [hdraws]
    exact h.unused

theorem draws_cons_none (hn : had a = none) : draws (a :: names) had (free ++ [i]) = draws names had free ++ [i] := by
  rw [draws, List.countP_cons_of_pos (by simp [hn]), List.rtake_concat_succ]
  rfl

theorem Clear.draw (h : Clear taken (a :: names) had (free ++ [i])) (hn : had a = none)
    (hh : ∀ b, b ≠ a → had' b = had b) (ht : ∀ b j, taken' b j → taken b j ∨ b = a ∧ j = i) :
    Clear taken' names had' free := by
  obtain ⟨ha, hnames⟩ := List.nodup_cons.1 h.nodup
  obtain ⟨hfree, -, hlast⟩ := List.nodup_append.1 h.nodupFree
  have hsame : ∀ b ∈ names, had' b = had b := fun b hb => hh b fun he => ha (he ▸ hb)
  have hdraws : draws (a :: names) had (free ++ [i]) = draws names had' free ++ [i] := by
    have hcount : (names.countP fun b => (had b).isNone) = names.countP fun b => (had' b).isNone :=
      List.countP_congr fun b hb => by rw [hsame b hb]
    rw [draws_cons_none hn, draws, draws, hcount]
  have hi : i ∈ draws (a :: names) had (free ++ [i]) := by simp [hdraws]
  refine ⟨hnames, hfree, fun b hb j hj c hc => ?_, fun b hb c hc j hj hj' => ?_, fun b hb j hj => ?_,
    fun j hj b hb => ?_⟩
  · rw [hsame b hb] at hj
    rcases ht c j hc with hc | ⟨rfl, rfl⟩
    · exact h.own b (List.mem_cons_of_mem a hb) j hj c hc
    · exact absurd hi (h.spared b (List.mem_cons_of_mem c hb) j hj)
  · rw [hsame b hb] at hj
    rw [hsame c hc] at hj'
    exact h.apart b (List.mem_cons_of_mem a hb) c (List.mem_cons_of_mem a hc) j hj hj'
  · rw [hsame b hb] at hj
    have hj' := h.spared b (List.mem_cons_of_mem a hb) j hj
    rw [hdraws] at hj'
    exact fun hm => hj' (List.mem_append_left _ hm)
  · have hjd : j ∈ draws (a :: names) had (free ++ [i]) := by
      rw [hdraws]
      exact List.mem_append_left _ hj
    rcases ht b j hb with hb | ⟨-, rfl⟩
    · exact h.unused j hjd b hb
    · exact hlast j (List.mem_of_mem_drop hj) j (List.mem_singleton_self j) rfl

/-! ### Whether the free numbers suffice -/

/-- There were `total` free numbers at the start, and those of `news` that have a number by now drew it from
them; whoever is still to draw is one of `news`. -/
structure Supply (news : List α) (total : Nat) (names : List α) (had : α → Option Nat) (free : List Nat) :
    Prop where
  count : (news.countP fun a => (had a).isSome) + free.length = total
  mem : ∀ a ∈ names, had a = none → a ∈ news

variable {news : List α} {total : Nat}

theorem Supply.perm {names' : List α} (h : Supply news total names had free) (hp : names'.Perm names) :
    Supply news total names' had free :=
  ⟨h.count, fun a ha => h.mem a (hp.mem_iff.1 ha)⟩

theorem Supply.tail (h : Supply news total (a :: names) had free) : Supply news total names had free :=
  ⟨h.count, fun b hb => h.mem b (List.mem_cons_of_mem a hb)⟩

theorem Supply.draw [DecidableEq α] (h : Supply news total (a :: names) had (free ++ [i])) (hnews : news.Nodup)
    (hn : had a = none) (ha : had' a = some i) (hh : ∀ b, b ≠ a → had' b = had b) :
    Supply news total names had' free := by
  have hmem : a ∈ news := h.mem a (List.mem_cons_self ..) hn
  have hperm : news.Perm (a :: news.erase a) := List.perm_cons_erase hmem
  have hrest : ((news.erase a).countP fun b => (had' b).isSome) = (news.erase a).countP fun b => (had b).isSome :=
    List.countP_congr fun b hb => by rw [hh b (hnews.mem_erase_iff.1 hb).1]
  have hcount := h.count
  rw [hperm.countP_eq, List.countP_cons_of_neg (by simp [hn]), List.length_append, List.length_singleton] at hcount
  refine ⟨?_, fun b hb hb' => ?_⟩
  · rw [hperm.countP_eq, List.countP_cons_of_pos (by simp [ha]), hrest]
    omega
  · by_cases hba : b = a
    · exact hba ▸ hmem
    · exact h.mem b (List.mem_cons_of_mem a hb) (hh b hba ▸ hb')

theorem Supply.short (h : Supply news total (a :: names) had []) (hn : had a = none) : total < news.length := by
  have hlt : (news.countP fun b => (had b).isSome) < news.length := by
    refine lt_of_le_of_ne List.countP_le_length fun he => ?_
    have hall := List.countP_eq_length.1 he a (h.mem a (List.mem_cons_self ..) hn)
    simp [hn] at hall
  have hcount := h.count
  rw [List.length_nil] at hcount
  omega

theorem Supply.enough (h : Supply news total names had free) (hall : ∀ a ∈ news, (had a).isSome = true) :
    news.length ≤ total := by
  have hcount := h.count
  rw [List.countP_eq_length.2 hall] at hcount
  omega

end Numbering
