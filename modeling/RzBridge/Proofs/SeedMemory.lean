import RzBridge.Proofs.TopologySpec

/-!
# What `discover` remembers

`discover` starts from the node ids it remembers and asks RzID only when that leads nowhere. The ids of the
attempt that succeeded are what it remembers next (`Discovers`); a vote has at least one voter, so they
are never none.
-/

namespace RzBridge

theorem observed_of_ok {a : Attempt} {seedIds observed : List String} {topo : ClusterTopology}
    (h : discoverFromSeeds a seedIds = .ok (topo, observed)) :
    observed ≠ [] ∧ ∀ id, id ∈ observed ↔ ∃ p ∈ a.results seedIds, p.nodeId = id := by
  obtain ⟨helect, rfl⟩ := discoverFromSeeds_ok h
  obtain ⟨leaderId, ⟨-, hpos, -⟩, -⟩ := (electLeader_spec a fun p hp => Attempt.results_host hp).1 topo helect
  refine ⟨fun hnil => ?_, fun id => List.mem_map⟩
  rw [List.map_eq_nil_iff.1 hnil] at hpos
  exact absurd hpos (Nat.lt_irrefl 0)

/-- RzID's answer leads to no topology. -/
def Encounter.FallbackFails (x : Encounter) : Prop :=
  (∃ e, x.rzid = .error e) ∨ ∃ seedIds, x.rzid = .ok seedIds ∧ ∃ e, discoverFromSeeds x.fallback seedIds = .error e

/-- The known seeds lead to no topology. -/
def Encounter.KnownFail (x : Encounter) (known : List String) : Prop :=
  known = [] ∨ ∃ e, discoverFromSeeds x.known known = .error e

/-- What a call of `discover` does, one constructor for each way it ends. -/
inductive Discovers (x : Encounter) (known : List String) : Discovery → Prop
  | fromKnown (topo : ClusterTopology) (observed : List String) (hne : known ≠ [])
      (h : discoverFromSeeds x.known known = .ok (topo, observed)) :
      Discovers x known { result := .ok topo, knownNodeIds := observed, askedRzid := false }
  | fromRzid (seedIds : List String) (topo : ClusterTopology) (observed : List String) (hk : x.KnownFail known)
      (hr : x.rzid = .ok seedIds) (h : discoverFromSeeds x.fallback seedIds = .ok (topo, observed)) :
      Discovers x known { result := .ok topo, knownNodeIds := observed, askedRzid := true }
  | failed (e : RZError) (hk : x.KnownFail known) (hf : x.FallbackFails) :
      Discovers x known { result := .error e, knownNodeIds := known, askedRzid := true }

theorem Discovers.of_fallback {x : Encounter} {known : List String} (hk : x.KnownFail known) :
    Discovers x known (discoverFromRzid x known) := by
  unfold discoverFromRzid
  split
  next e hr => exact .failed e hk (.inl ⟨e, hr⟩)
  next seedIds hr =>
    split
    next hnil =>
      refine .failed _ hk (.inr ⟨seedIds, hr, .validation "roomzin seed node list is empty", ?_⟩)
      rw [hnil]
      rfl
    next =>
      split
      next e h => exact .failed e hk (.inr ⟨seedIds, hr, e, h⟩)
      next topo observed h =>
        rw [if_neg (observed_of_ok h).1]
        exact .fromRzid seedIds topo observed hk hr h

theorem Discovers.of_discover (x : Encounter) (known : List String) : Discovers x known (discover x known) := by
  unfold discover
  split
  next hnil => exact .of_fallback (.inl hnil)
  next hne =>
    split
    next topo observed h =>
      rw [if_neg (observed_of_ok h).1]
      exact .fromKnown topo observed hne h
    next e h => exact .of_fallback (.inr ⟨e, h⟩)

theorem Discovers.ne_nil {x : Encounter} {known : List String} {d : Discovery} (h : Discovers x known d)
    (hor : known ≠ [] ∨ ∃ topo, d.result = .ok topo) : d.knownNodeIds ≠ [] := by
  cases h with
  | fromKnown topo observed _ hok => exact (observed_of_ok hok).1
  | fromRzid seedIds topo observed _ _ hok => exact (observed_of_ok hok).1
  | failed e hk hf =>
    rcases hor with hne | ⟨topo, ht⟩
    · exact hne
    · cases ht

theorem seedMemory_append (initialSeedIds : List String) (before after : List Encounter) :
    seedMemory initialSeedIds (before ++ after) = seedMemory (seedMemory initialSeedIds before) after :=
  List.foldl_append

theorem seedMemory_ne_nil {known : List String} (calls : List Encounter) (h : known ≠ []) :
    seedMemory known calls ≠ [] := by
  induction calls generalizing known with
  | nil => exact h
  | cons x calls ih => exact ih ((Discovers.of_discover x known).ne_nil (.inl h))

/-- A call of `discover` after any others. A failure changes nothing and means that neither the known ids
nor RzID led to a topology; a success remembers the ids that its attempt probed successfully; RzID is
asked only when the known ids led nowhere; and after a success there always are known ids. -/
theorem discover_remembers (initialSeedIds : List String) (calls : List Encounter) (x : Encounter) :
    let known := seedMemory initialSeedIds calls
    let d := discover x known
    (∀ e, d.result = .error e → d.knownNodeIds = known ∧ x.KnownFail known ∧ x.FallbackFails) ∧
    (∀ topo, d.result = .ok topo → d.knownNodeIds ≠ [] ∧ ∃ a seedIds,
      (d.askedRzid = false ∧ a = x.known ∧ seedIds = known ∨
        d.askedRzid = true ∧ a = x.fallback ∧ x.rzid = .ok seedIds) ∧
      discoverFromSeeds a seedIds = .ok (topo, d.knownNodeIds) ∧
        ∀ id, id ∈ d.knownNodeIds ↔ ∃ p ∈ a.results seedIds, p.nodeId = id) ∧
    (d.askedRzid = true → x.KnownFail known) ∧
    ∀ before y after topo, calls = before ++ y :: after →
      (discover y (seedMemory initialSeedIds before)).result = .ok topo → known ≠ [] ∧ d.knownNodeIds ≠ [] := by
  intro known d
  have hd : Discovers x known d := .of_discover x known
  clear_value d
  refine ⟨fun e he => ?_, fun topo ht => ?_, fun hr => ?_, fun before y after topo hcalls hy => ?_⟩
  · cases hd with
    | fromKnown => cases he
    | fromRzid => cases he
    | failed e' hk hf => exact ⟨rfl, hk, hf⟩
  · refine ⟨hd.ne_nil (.inr ⟨topo, ht⟩), ?_⟩
    cases hd with
    | fromKnown topo' observed _ hok =>
      cases ht
      exact ⟨x.known, known, .inl ⟨rfl, rfl, rfl⟩, hok, (observed_of_ok hok).2⟩
    | fromRzid seedIds topo' observed _ hr hok =>
      cases ht
      exact ⟨x.fallback, seedIds, .inr ⟨rfl, rfl, hr⟩, hok, (observed_of_ok hok).2⟩
    | failed => cases ht
  · cases hd with
    | fromKnown => cases hr
    | fromRzid seedIds topo observed hk _ _ => exact hk
    | failed e hk _ => exact hk
  · have hne : known ≠ [] := by
      show seedMemory initialSeedIds calls ≠ []
      rw [hcalls, seedMemory_append]
      exact seedMemory_ne_nil after ((Discovers.of_discover y _).ne_nil (.inr ⟨topo, hy⟩))
    exact ⟨hne, hd.ne_nil (.inl hne)⟩

end RzBridge
