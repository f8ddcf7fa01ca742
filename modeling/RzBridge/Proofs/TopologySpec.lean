import RzBridge.Topology
import Mathlib.Data.List.Dedup
import Mathlib.Data.List.Perm.Basic

/-!
# What a discovery finds

The results of the probes are merged into a map keyed by host, so of several results for one host the
last one merged is kept (`keptAt`). `discover_from_seeds` is specified over the list `R` of all results
in the order they are merged, without the map and without any iteration order: the leader's id is one
that most hosts report, the leader and the followers are hosts that report it.
-/

namespace RzBridge
open Tally Assoc

/-! ### The results kept -/

/-- The result kept for a host: the last one merged. -/
def keptAt (R : List Probe) (host : String) : Option NodeData :=
  (R.reverse.find? fun p => p.host = host).map (·.data)

/-- How many hosts report `id`. -/
def reporting (R : List Probe) (id : String) : Nat :=
  (R.map (·.host)).dedup.countP fun host => (keptAt R host).any fun d => d.leaderId = id

/-- A non-empty id that at least as many hosts report as any other. -/
def Elected (R : List Probe) (id : String) : Prop :=
  id ≠ "" ∧ 0 < reporting R id ∧ ∀ id', id' ≠ "" → reporting R id' ≤ reporting R id

theorem lookup_mergeNodes (R : List Probe) (host : String) : (mergeNodes R).lookup host = keptAt R host := by
  rw [mergeNodes, lookup_foldl_insert, AList.lookup_empty, Option.or_none]
  rfl

theorem keptAt_mem {R : List Probe} {host : String} {d : NodeData} (h : keptAt R host = some d) :
    ∃ p ∈ R, p.host = host ∧ p.data = d := by
  obtain ⟨p, hp, hd⟩ := Option.map_eq_some_iff.1 h
  exact ⟨p, List.mem_reverse.1 (List.mem_of_find?_eq_some hp), by simpa using List.find?_some hp, hd⟩

theorem keptAt_isSome {R : List Probe} {p : Probe} (h : p ∈ R) : ∃ d, keptAt R p.host = some d := by
  have hsome : (R.reverse.find? fun q => q.host = p.host).isSome := by
    rw [List.find?_isSome]
    exact ⟨p, List.mem_reverse.2 h, by simp⟩
  obtain ⟨q, hq⟩ := Option.isSome_iff_exists.1 hsome
  exact ⟨q.data, by simp [keptAt, hq]⟩

/-! ### The probes -/

theorem probeNode_some {id : String} {r : Responses} {p : Probe} (h : probeNode id r = some p) :
    p.nodeId = id ∧ p.data.host = p.host := by
  unfold probeNode at h
  split at h
  · cases h
  · split at h
    · cases h
    · split at h
      · cases h
      · split at h
        · cases h
        · cases h
          exact ⟨rfl, rfl⟩

theorem probeNodes_host {ids : List String} {responses : Nat → Responses} {p : Probe}
    (h : p ∈ probeNodes ids responses) : p.data.host = p.host := by
  obtain ⟨x, -, hx⟩ := List.mem_filterMap.1 h
  exact (probeNode_some hx).2

theorem mem_probeNodes_nodeId {ids : List String} {responses : Nat → Responses} {id : String} :
    id ∈ (probeNodes ids responses).map (·.nodeId) ↔
      ∃ i, ids[i]? = some id ∧ (probeNode id (responses i)).isSome := by
  simp only [List.mem_map, probeNodes, List.mem_filterMap, Prod.exists]
  constructor
  · rintro ⟨p, ⟨id', i, hx, hp⟩, rfl⟩
    obtain ⟨rfl, -⟩ := probeNode_some hp
    exact ⟨i, List.mem_zipIdx_iff_getElem?.1 hx, by rw [hp]; rfl⟩
  · rintro ⟨i, hi, hsome⟩
    obtain ⟨p, hp⟩ := Option.isSome_iff_exists.1 hsome
    exact ⟨p, ⟨id, i, List.mem_zipIdx_iff_getElem?.2 hi, hp⟩, (probeNode_some hp).1⟩

theorem insertPeers (seedIds ps : List String) {acc : List String} (hacc : acc.Nodup) :
    (ps.foldl (fun peers peer => if seedIds.contains peer then peers else peers.insert peer) acc).Nodup ∧
      ∀ id, id ∈ ps.foldl (fun peers peer => if seedIds.contains peer then peers else peers.insert peer) acc ↔
        id ∈ acc ∨ id ∉ seedIds ∧ id ∈ ps := by
  induction ps generalizing acc with
  | nil => simp [hacc]
  | cons p ps ih =>
    rw [List.foldl_cons]
    by_cases hp : p ∈ seedIds
    · obtain ⟨hnd, hmem⟩ := ih hacc
      rw [if_pos (by simpa using hp)]
      refine ⟨hnd, fun id => (hmem id).trans ?_⟩
      have hne : id ∉ seedIds → id ≠ p := fun h heq => h (heq ▸ hp)
      constructor
      · rintro (h | ⟨h, h'⟩)
        · exact .inl h
        · exact .inr ⟨h, List.mem_cons_of_mem p h'⟩
      · rintro (h | ⟨h, h'⟩)
        · exact .inl h
        · exact .inr ⟨h, (List.mem_cons.1 h').resolve_left (hne h)⟩
    · obtain ⟨hnd, hmem⟩ := ih (hacc.insert (a := p))
      rw [if_neg (by simpa using hp)]
      refine ⟨hnd, fun id => (hmem id).trans ?_⟩
      rw [List.mem_insert_iff, List.mem_cons]
      constructor
      · rintro ((rfl | h) | ⟨h, h'⟩)
        · exact .inr ⟨hp, .inl rfl⟩
        · exact .inl h
        · exact .inr ⟨h, .inr h'⟩
      · rintro (h | ⟨h, rfl | h'⟩)
        · exact .inl (.inr h)
        · exact .inl (.inl rfl)
        · exact .inr ⟨h, h'⟩

theorem discoveredPeers_spec (seedIds : List String) (results : List Probe) :
    (discoveredPeers seedIds results).Nodup ∧
      ∀ id, id ∈ discoveredPeers seedIds results ↔ id ∉ seedIds ∧ ∃ p ∈ results, id ∈ p.peers := by
  induction results using List.reverseRecOn with
  | nil => simp [discoveredPeers]
  | append_singleton results p ih =>
    obtain ⟨hnd, hmem⟩ := ih
    obtain ⟨hnd', hmem'⟩ := insertPeers seedIds p.peers hnd
    have hsnoc : discoveredPeers seedIds (results ++ [p]) = p.peers.foldl (fun peers peer =>
        if seedIds.contains peer then peers else peers.insert peer) (discoveredPeers seedIds results) := by
      simp [discoveredPeers, List.foldl_append]
    rw [hsnoc]
    refine ⟨hnd', fun id => (hmem' id).trans ?_⟩
    rw [hmem id]
    constructor
    · rintro (⟨h, q, hq, hid⟩ | ⟨h, hid⟩)
      · exact ⟨h, q, List.mem_append_left _ hq, hid⟩
      · exact ⟨h, p, by simp, hid⟩
    · rintro ⟨h, q, hq, hid⟩
      rcases List.mem_append.1 hq with hq | hq
      · exact .inl ⟨h, q, hq, hid⟩
      · rw [List.mem_singleton.1 hq] at hid
        exact .inr ⟨h, hid⟩

/-! ### The values of the map -/

section Values

variable {R : List Probe} {values : List NodeData} (hhost : ∀ p ∈ R, p.data.host = p.host)
  (hvalues : values.Perm ((mergeNodes R).entries.map (·.2)))

include hhost in
theorem keptAt_host {host : String} {d : NodeData} (h : keptAt R host = some d) : d.host = host := by
  obtain ⟨p, hp, rfl, rfl⟩ := keptAt_mem h
  exact hhost p hp

include hhost hvalues in
theorem mem_values_iff {d : NodeData} : d ∈ values ↔ keptAt R d.host = some d := by
  rw [hvalues.mem_iff, List.mem_map]
  constructor
  · rintro ⟨⟨host, d'⟩, he, rfl⟩
    have hk : keptAt R host = some d' := by
      rw [← lookup_mergeNodes]
      exact mem_entries_iff.1 he
    rw [keptAt_host hhost hk]
    exact hk
  · intro h
    rw [← lookup_mergeNodes] at h
    exact ⟨⟨d.host, d⟩, mem_entries_iff.2 h, rfl⟩

include hhost hvalues in
theorem nodup_values_host : (values.map (·.host)).Nodup := by
  have hkeys : ((mergeNodes R).entries.map (·.2)).map (·.host) = (mergeNodes R).keys := by
    rw [List.map_map]
    refine List.map_congr_left fun e he => ?_
    have hk : keptAt R e.1 = some e.2 := by
      rw [← lookup_mergeNodes]
      exact mem_entries_iff.1 he
    exact keptAt_host hhost hk
  have hperm := hvalues.map (·.host)
  rw [hkeys] at hperm
  exact hperm.nodup_iff.2 (mergeNodes R).keys_nodup

theorem keys_perm_hosts : (mergeNodes R).keys.Perm (R.map (·.host)).dedup := by
  refine (List.perm_ext_iff_of_nodup (mergeNodes R).keys_nodup (List.nodup_dedup _)).2 fun host => ?_
  rw [List.mem_dedup, List.mem_map, ← AList.mem_keys]
  constructor
  · intro h
    obtain ⟨d, hd⟩ := exists_lookup h
    rw [lookup_mergeNodes] at hd
    obtain ⟨p, hp, hph, -⟩ := keptAt_mem hd
    exact ⟨p, hp, hph⟩
  · rintro ⟨p, hp, rfl⟩
    obtain ⟨d, hd⟩ := keptAt_isSome hp
    exact mem_of_lookup (lookup_mergeNodes R p.host ▸ hd)

include hvalues in
theorem count_leaderId (id : String) : (values.map (·.leaderId)).count id = reporting R id := by
  have hentries : (mergeNodes R).entries.countP (fun e => e.2.leaderId = id) =
      (mergeNodes R).entries.countP fun e => (keptAt R e.1).any fun d => d.leaderId = id := by
    refine List.countP_congr fun e he => ?_
    have hk : keptAt R e.1 = some e.2 := by
      rw [← lookup_mergeNodes]
      exact mem_entries_iff.1 he
    simp [hk]
  calc (values.map (·.leaderId)).count id
      = values.countP (fun d => d.leaderId = id) := by
        rw [List.count_eq_countP, List.countP_map]
        exact List.countP_congr fun d _ => by simp
    _ = (mergeNodes R).entries.countP fun e => e.2.leaderId = id := by
        rw [hvalues.countP_eq, List.countP_map]
        rfl
    _ = (mergeNodes R).keys.countP fun host => (keptAt R host).any fun d => d.leaderId = id := by
        rw [hentries, AList.keys, List.keys, List.countP_map]
        rfl
    _ = reporting R id := keys_perm_hosts.countP_eq _

end Values

/-! ### The vote -/

theorem countVotes_eq_tally (values : List NodeData) :
    countVotes values = tally ((values.map (·.leaderId)).filter (· ≠ "")) := by
  induction values using List.reverseRecOn with
  | nil => rfl
  | append_singleton values d ih =>
    have hsnoc : countVotes (values ++ [d]) = if d.leaderId = "" then countVotes values
        else (countVotes values).insert d.leaderId (((countVotes values).lookup d.leaderId).getD 0 + 1) := by
      simp [countVotes, List.foldl_append]
    rw [hsnoc, List.map_append, List.filter_append, ih]
    by_cases hd : d.leaderId = ""
    · simp [hd]
    · have hf : ([d].map (·.leaderId)).filter (· ≠ "") = [d.leaderId] := by simp [hd]
      rw [if_neg hd, hf, tally_snoc]

theorem count_filter_ne {ids : List String} {id : String} (h : id ≠ "") :
    (ids.filter (· ≠ "")).count id = ids.count id :=
  List.count_filter (by simpa using h)

theorem elected_of_maxByKey {R : List Probe} {values : List NodeData} {order : List (String × Nat)}
    {leaderId : String} {n : Nat} (hvalues : values.Perm ((mergeNodes R).entries.map (·.2)))
    (horder : order.Perm ((countVotes values).entries.map fun e => (e.1, e.2)))
    (h : maxByKey Prod.snd order = some (leaderId, n)) : Elected R leaderId := by
  rw [countVotes_eq_tally] at horder
  obtain ⟨hmem, hmax⟩ := count_le_of_maxByKey horder h
  have hne : leaderId ≠ "" := by simpa using List.of_mem_filter hmem
  refine ⟨hne, ?_, fun id hid => ?_⟩
  · rw [← count_leaderId hvalues, List.count_pos_iff]
    exact List.mem_of_mem_filter hmem
  · have hle := hmax id
    rw [count_filter_ne hid, count_filter_ne hne, count_leaderId hvalues, count_leaderId hvalues] at hle
    exact hle

theorem reporting_eq_zero {R : List Probe} {values : List NodeData} {order : List (String × Nat)}
    (hvalues : values.Perm ((mergeNodes R).entries.map (·.2)))
    (horder : order.Perm ((countVotes values).entries.map fun e => (e.1, e.2)))
    (h : maxByKey Prod.snd order = none) {id : String} (hid : id ≠ "") : reporting R id = 0 := by
  rw [countVotes_eq_tally] at horder
  have hnil := eq_nil_of_maxByKey horder h
  rw [← count_leaderId hvalues, ← count_filter_ne hid, hnil]
  rfl

/-! ### The classification -/

/-- A host that follows `leaderId` and says it is healthy in the way given. -/
def NodeData.Is (health leaderId : String) (d : NodeData) : Prop := d.health = health ∧ d.leaderId = leaderId

instance (health leaderId : String) (d : NodeData) : Decidable (d.Is health leaderId) :=
  inferInstanceAs (Decidable (_ ∧ _))

/-- The leader is some node that says it leads, the followers are all those that say they follow. -/
theorem classify_spec (leaderId : String) (values : List NodeData) :
    (∀ host, (classify leaderId values).1 = some host →
      ∃ d ∈ values, d.Is "active_leader" leaderId ∧ d.host = host) ∧
    ((classify leaderId values).1 = none → ∀ d ∈ values, ¬ d.Is "active_leader" leaderId) ∧
    (classify leaderId values).2 = (values.filter fun d => d.Is "active_follower" leaderId).map (·.host) := by
  induction values using List.reverseRecOn with
  | nil => simp [classify]
  | append_singleton values d ih =>
    obtain ⟨hsome, hnone, hfollowers⟩ := ih
    have hsnoc : classify leaderId (values ++ [d]) =
        if d.leaderId = leaderId then
          if d.health = "active_leader" then (some d.host, (classify leaderId values).2)
          else if d.health = "active_follower" then
            ((classify leaderId values).1, (classify leaderId values).2 ++ [d.host])
          else classify leaderId values
        else classify leaderId values := by
      simp only [classify, List.foldl_append, List.foldl_cons, List.foldl_nil]
    -- a node that is neither the leader nor a follower changes nothing
    have hold : ∀ host, (classify leaderId values).1 = some host →
        ∃ d' ∈ values ++ [d], d'.Is "active_leader" leaderId ∧ d'.host = host := by
      intro host h
      obtain ⟨d', hd', h⟩ := hsome host h
      exact ⟨d', List.mem_append_left _ hd', h⟩
    have hkeep : ¬ d.Is "active_leader" leaderId → (classify leaderId values).1 = none →
        ∀ d' ∈ values ++ [d], ¬ d'.Is "active_leader" leaderId := by
      intro hd h d' hd'
      rcases List.mem_append.1 hd' with hd' | hd'
      · exact hnone h d' hd'
      · rw [List.mem_singleton.1 hd']
        exact hd
    rw [hsnoc, List.filter_append, List.map_append, ← hfollowers]
    by_cases hid : d.leaderId = leaderId
    · rw [if_pos hid]
      by_cases hl : d.health = "active_leader"
      · rw [if_pos hl]
        refine ⟨fun host h => ?_, by simp, by simp [NodeData.Is, hl]⟩
        cases h
        exact ⟨d, by simp, ⟨hl, hid⟩, rfl⟩
      · rw [if_neg hl]
        by_cases hf : d.health = "active_follower"
        · rw [if_pos hf]
          exact ⟨hold, hkeep fun h => hl h.1, by simp [NodeData.Is, hf, hid]⟩
        · rw [if_neg hf]
          exact ⟨hold, hkeep fun h => hl h.1, by simp [NodeData.Is, hf]⟩
    · rw [if_neg hid]
      exact ⟨hold, hkeep fun h => hid h.2, by simp [NodeData.Is, hid]⟩

/-! ### The result -/

/-- `topo` is a topology of the hosts that report the elected id `leaderId`. -/
structure IsTopology (R : List Probe) (leaderId : String) (topo : ClusterTopology) : Prop where
  leader : ∃ d, keptAt R topo.leader = some d ∧ d.Is "active_leader" leaderId
  nodup : topo.followers.Nodup
  followers : ∀ host, host ∈ topo.followers ↔ ∃ d, keptAt R host = some d ∧ d.Is "active_follower" leaderId
  disjoint : topo.leader ∉ topo.followers

theorem isTopology_of_classify {R : List Probe} {values : List NodeData} {leaderId leader : String}
    {followers : List String} (hhost : ∀ p ∈ R, p.data.host = p.host)
    (hvalues : values.Perm ((mergeNodes R).entries.map (·.2)))
    (h : classify leaderId values = (some leader, followers)) :
    IsTopology R leaderId ⟨leader, followers⟩ := by
  obtain ⟨hsome, -, hfollowers⟩ := classify_spec leaderId values
  rw [h] at hsome hfollowers
  dsimp only at hsome hfollowers
  obtain ⟨d, hd, his, hdl⟩ := hsome leader rfl
  have hleader : keptAt R leader = some d := hdl ▸ (mem_values_iff hhost hvalues).1 hd
  have hmem : ∀ host, host ∈ followers ↔ ∃ d, keptAt R host = some d ∧ d.Is "active_follower" leaderId := by
    intro host
    rw [hfollowers, List.mem_map]
    constructor
    · rintro ⟨d', hd', rfl⟩
      obtain ⟨hmem, his'⟩ := List.mem_filter.1 hd'
      exact ⟨d', (mem_values_iff hhost hvalues).1 hmem, by simpa using his'⟩
    · rintro ⟨d', hk, his'⟩
      have hh := keptAt_host hhost hk
      refine ⟨d', List.mem_filter.2 ⟨(mem_values_iff hhost hvalues).2 (hh ▸ hk), by simpa using his'⟩, hh⟩
  refine ⟨⟨d, hleader, his⟩, ?_, hmem, fun hin => ?_⟩
  · rw [hfollowers]
    exact (nodup_values_host hhost hvalues).sublist (List.filter_sublist.map _)
  · -- the result kept for the leader would say both
    obtain ⟨d', hk, his'⟩ := (hmem leader).1 hin
    cases hleader.symm.trans hk
    exact absurd (his.1.symm.trans his'.1) (by decide)

theorem mergeNodes_eq_nil {R : List Probe} (h : (mergeNodes R).entries = []) : R = [] := by
  cases R with
  | nil => rfl
  | cons p R =>
    obtain ⟨d, hd⟩ := keptAt_isSome (List.mem_cons_self (a := p) (l := R))
    rw [← lookup_mergeNodes] at hd
    have hmem : (⟨p.host, d⟩ : Sigma fun _ : String => NodeData) ∈ (mergeNodes (p :: R)).entries :=
      mem_entries_iff.2 hd
    rw [h] at hmem
    exact absurd hmem List.not_mem_nil

/-- The id that the vote of an attempt elects. -/
def Attempt.winner (a : Attempt) (nodes : AList fun _ : String => NodeData) : Option String :=
  (maxByKey Prod.snd (a.voteOrder.run
    ((countVotes (a.nodeOrder.run (nodes.entries.map (·.2)))).entries.map fun e => (e.1, e.2)))).map (·.1)

theorem electLeader_ok {a : Attempt} {R : List Probe} {topo : ClusterTopology}
    (hhost : ∀ p ∈ R, p.data.host = p.host) (h : electLeader a (mergeNodes R) = .ok topo) :
    ∃ leaderId, a.winner (mergeNodes R) = some leaderId ∧ Elected R leaderId ∧ IsTopology R leaderId topo := by
  unfold electLeader at h
  unfold Attempt.winner
  dsimp only at h
  set values := a.nodeOrder.run ((mergeNodes R).entries.map (·.2))
  have hvalues : values.Perm ((mergeNodes R).entries.map (·.2)) := a.nodeOrder.perm _
  have horder := a.voteOrder.perm ((countVotes values).entries.map fun e => (e.1, e.2))
  split at h
  · cases h
  split at h
  · cases h
  next leaderId n hmax =>
    split at h
    · cases h
    next leader followers hclass =>
      cases h
      exact ⟨leaderId, by rw [hmax]; rfl, elected_of_maxByKey hvalues horder hmax,
        isTopology_of_classify hhost hvalues hclass⟩

/-- The vote and the classification find a topology of an elected id, or fail for one of three reasons. -/
theorem electLeader_spec (a : Attempt) {R : List Probe} (hhost : ∀ p ∈ R, p.data.host = p.host) :
    (∀ topo, electLeader a (mergeNodes R) = .ok topo →
      ∃ leaderId, Elected R leaderId ∧ IsTopology R leaderId topo) ∧
    ∀ e, electLeader a (mergeNodes R) = .error e →
      (∀ id, id ≠ "" → reporting R id = 0) ∨
        (∃ leaderId, Elected R leaderId ∧
          ∀ host d, keptAt R host = some d → ¬ d.Is "active_leader" leaderId) ∨ R = [] := by
  constructor
  · intro topo h
    obtain ⟨leaderId, -, helected, htopo⟩ := electLeader_ok hhost h
    exact ⟨leaderId, helected, htopo⟩
  · intro e h
    unfold electLeader at h
    dsimp only at h
    set values := a.nodeOrder.run ((mergeNodes R).entries.map (·.2))
    have hvalues : values.Perm ((mergeNodes R).entries.map (·.2)) := a.nodeOrder.perm _
    have horder := a.voteOrder.perm ((countVotes values).entries.map fun e => (e.1, e.2))
    split at h
    next hnil => exact .inr (.inr (mergeNodes_eq_nil hnil))
    split at h
    next hmax => exact .inl fun id hid => reporting_eq_zero hvalues horder hmax hid
    next leaderId n hmax =>
      split at h
      next followers hclass =>
        refine .inr (.inl ⟨leaderId, elected_of_maxByKey hvalues horder hmax, fun host d hk => ?_⟩)
        have hnone := (classify_spec leaderId values).2.1 (by rw [hclass])
        have hh := keptAt_host hhost hk
        exact hnone d ((mem_values_iff hhost hvalues).2 (hh ▸ hk))
      next => cases h

/-- The results of an attempt from `seedIds`, in the order they are merged. -/
def Attempt.results (a : Attempt) (seedIds : List String) : List Probe :=
  let seedResults := probeNodes seedIds a.seedResponses
  seedResults ++ probeNodes (a.peerOrder.run (discoveredPeers seedIds seedResults)) a.peerResponses

theorem Attempt.results_host {a : Attempt} {seedIds : List String} {p : Probe} (h : p ∈ a.results seedIds) :
    p.data.host = p.host := by
  rcases List.mem_append.1 h with h | h
  · exact probeNodes_host h
  · exact probeNodes_host h

theorem Attempt.results_nil (a : Attempt) : a.results [] = [] := by
  have hperm := a.peerOrder.perm (discoveredPeers [] (probeNodes [] a.seedResponses))
  rw [Attempt.results, hperm.eq_nil]
  rfl

theorem discoverFromSeeds_of_ne_nil {a : Attempt} {seedIds : List String} (hne : seedIds ≠ []) :
    discoverFromSeeds a seedIds = (electLeader a (mergeNodes (a.results seedIds))).map
      fun topo => (topo, (a.results seedIds).map (·.nodeId)) := by
  set discovered := discoveredPeers seedIds (probeNodes seedIds a.seedResponses) with hdisc
  have hperm := a.peerOrder.perm discovered
  have hpeers : (if discovered = [] then [] else probeNodes (a.peerOrder.run discovered) a.peerResponses) =
      probeNodes (a.peerOrder.run discovered) a.peerResponses := by
    split
    next hnil =>
      rw [hnil] at hperm ⊢
      rw [hperm.eq_nil]
      rfl
    next => rfl
  unfold discoverFromSeeds Attempt.results
  rw [if_neg hne]
  dsimp only
  rw [← hdisc, hpeers, List.map_append]

/-- An attempt that succeeds does so by its vote. -/
theorem discoverFromSeeds_ok {a : Attempt} {seedIds observed : List String} {topo : ClusterTopology}
    (h : discoverFromSeeds a seedIds = .ok (topo, observed)) :
    electLeader a (mergeNodes (a.results seedIds)) = .ok topo ∧ observed = (a.results seedIds).map (·.nodeId) := by
  have hne : seedIds ≠ [] := by
    rintro rfl
    cases h
  rw [discoverFromSeeds_of_ne_nil hne] at h
  cases helect : electLeader a (mergeNodes (a.results seedIds)) with
  | error e =>
    rw [helect] at h
    cases h
  | ok topo' =>
    rw [helect] at h
    cases h
    exact ⟨rfl, rfl⟩

theorem discoverFromSeeds_error {a : Attempt} {seedIds : List String} {e : RZError}
    (h : discoverFromSeeds a seedIds = .error e) :
    seedIds = [] ∨ electLeader a (mergeNodes (a.results seedIds)) = .error e := by
  by_cases hne : seedIds = []
  · exact .inl hne
  rw [discoverFromSeeds_of_ne_nil hne] at h
  cases helect : electLeader a (mergeNodes (a.results seedIds)) with
  | error e' =>
    rw [helect] at h
    cases h
    exact .inr rfl
  | ok topo =>
    rw [helect] at h
    cases h

/-- The specification of `discover_from_seeds`, for whatever the probes return and in whatever orders the
collections are gone through. `R` are the results for the seeds and for the peers they name. -/
theorem discoverFromSeeds_spec (a : Attempt) (seedIds : List String) :
    ∃ peers : List String, peers.Nodup ∧
      (∀ id, id ∈ peers ↔ id ∉ seedIds ∧ ∃ p ∈ probeNodes seedIds a.seedResponses, id ∈ p.peers) ∧
      let R := probeNodes seedIds a.seedResponses ++ probeNodes peers a.peerResponses
      (∀ topo observed, discoverFromSeeds a seedIds = .ok (topo, observed) →
        (∃ leaderId, Elected R leaderId ∧ IsTopology R leaderId topo) ∧
          ∀ id, id ∈ observed ↔
            (∃ i, seedIds[i]? = some id ∧ (probeNode id (a.seedResponses i)).isSome) ∨
              ∃ i, peers[i]? = some id ∧ (probeNode id (a.peerResponses i)).isSome) ∧
      ∀ e, discoverFromSeeds a seedIds = .error e →
        (∀ id, id ≠ "" → reporting R id = 0) ∨
          (∃ leaderId, Elected R leaderId ∧
            ∀ host d, keptAt R host = some d → ¬ d.Is "active_leader" leaderId) ∨
            R = [] ∨ seedIds = [] := by
  by_cases hne : seedIds = []
  · subst hne
    refine ⟨[], List.nodup_nil, by simp [probeNodes], ?_, ?_⟩
    · intro topo observed h
      simp [discoverFromSeeds] at h
    · exact fun e _ => .inr (.inr (.inr rfl))
  · obtain ⟨hnd, hmem⟩ := discoveredPeers_spec seedIds (probeNodes seedIds a.seedResponses)
    have hperm := a.peerOrder.perm (discoveredPeers seedIds (probeNodes seedIds a.seedResponses))
    refine ⟨_, hperm.nodup_iff.2 hnd, fun id => hperm.mem_iff.trans (hmem id), ?_⟩
    intro R
    obtain ⟨hok, herr⟩ := electLeader_spec a fun p hp => @Attempt.results_host a seedIds p hp
    constructor
    · intro topo observed h
      obtain ⟨helect, rfl⟩ := discoverFromSeeds_ok h
      refine ⟨hok topo helect, fun id => ?_⟩
      rw [Attempt.results, List.map_append, List.mem_append, mem_probeNodes_nodeId, mem_probeNodes_nodeId]
    · intro e h
      rcases herr e ((discoverFromSeeds_error h).resolve_left hne) with hnone | hleader | hnil
      · exact .inl hnone
      · exact .inr (.inl hleader)
      · exact .inr (.inr (.inl hnil))

end RzBridge
