import RzBridge.Proofs.TopologySpec

/-!
# What a discovery may come to

The vote goes to an id that most hosts report, the last one met when there are several, and the leader is
the last host met that reports it and says that it leads. So for given results of the probes each host
with which `CanLead` holds is the leader of some run. Two runs come to the same topology, whatever their
orders, exactly when no host can lead or the vote and the host are determined
(`discovery_order_independent_iff`). Nothing ties the host to the node id elected but what the host says
of itself (`leader_named`).
-/

namespace RzBridge
open Tally

/-! ### The order of the results -/

section
variable {R R' : List Probe} (hd : (R.map (·.host)).Nodup)

include hd in
theorem keptAt_eq_some_iff {host : String} {d : NodeData} :
    keptAt R host = some d ↔ ∃ p ∈ R, p.host = host ∧ p.data = d := by
  constructor
  · exact keptAt_mem
  · rintro ⟨p, hp, rfl, rfl⟩
    obtain ⟨d, hk⟩ := keptAt_isSome hp
    obtain ⟨q, hq, hqh, rfl⟩ := keptAt_mem hk
    rw [hk, List.inj_on_of_nodup_map hd hq hp hqh]

include hd in
theorem keptAt_perm (h : R'.Perm R) (host : String) : keptAt R' host = keptAt R host := by
  have hd' : (R'.map (·.host)).Nodup := (h.map (·.host)).nodup_iff.2 hd
  refine Option.ext fun d => ?_
  rw [keptAt_eq_some_iff hd, keptAt_eq_some_iff hd']
  simp only [h.mem_iff]

include hd in
theorem reporting_perm (h : R'.Perm R) (id : String) : reporting R' id = reporting R id := by
  have hkept : keptAt R' = keptAt R := funext (keptAt_perm hd h)
  unfold reporting
  rw [hkept]
  exact (h.map (·.host)).dedup.countP_eq _

include hd in
theorem elected_perm (h : R'.Perm R) {id : String} : Elected R' id ↔ Elected R id := by
  unfold Elected
  simp only [reporting_perm hd h]

end

/-! ### Who can lead -/

/-- The vote may elect `leaderId`, and `host` reports it and says that it leads. -/
def CanLead (R : List Probe) (leaderId host : String) : Prop :=
  Elected R leaderId ∧ ∃ d, keptAt R host = some d ∧ d.Is "active_leader" leaderId

theorem canLead_of_ok {a : Attempt} {R : List Probe} {topo : ClusterTopology}
    (hhost : ∀ p ∈ R, p.data.host = p.host) (h : electLeader a (mergeNodes R) = .ok topo) :
    ∃ leaderId, a.winner (mergeNodes R) = some leaderId ∧ CanLead R leaderId topo.leader ∧
      IsTopology R leaderId topo := by
  obtain ⟨leaderId, hw, helected, htopo⟩ := electLeader_ok hhost h
  exact ⟨leaderId, hw, ⟨helected, htopo.leader⟩, htopo⟩

theorem CanLead.id_eq {R : List Probe} {leaderId leaderId' host : String} (h : CanLead R leaderId host)
    (h' : CanLead R leaderId' host) : leaderId = leaderId' := by
  obtain ⟨-, d, hk, -, rfl⟩ := h
  obtain ⟨-, d', hk', -, rfl⟩ := h'
  cases hk.symm.trans hk'
  rfl

/-- The order that comes to `x` last. -/
def Shuffle.last {α : Type} [DecidableEq α] (x : α) : Shuffle α where
  run l := if x ∈ l then l.erase x ++ [x] else l
  perm l := by
    split
    next hx => exact (List.perm_append_singleton x _).trans (List.perm_cons_erase hx).symm
    next => exact .refl l

theorem Shuffle.run_last {α : Type} [DecidableEq α] {x : α} {l : List α} (hx : x ∈ l) :
    ∃ front, (Shuffle.last x).run l = front ++ [x] ∧ front ⊆ l :=
  ⟨l.erase x, if_pos hx, List.erase_subset⟩

theorem maxByKey_last {R : List Probe} {values : List NodeData} {leaderId : String}
    (hvalues : values.Perm ((mergeNodes R).entries.map (·.2))) (h : Elected R leaderId) :
    maxByKey Prod.snd ((Shuffle.last (leaderId, reporting R leaderId)).run
      ((countVotes values).entries.map fun e => (e.1, e.2))) = some (leaderId, reporting R leaderId) := by
  obtain ⟨hne, hpos, hmax⟩ := h
  have hentry : ∀ k n, (k, n) ∈ (countVotes values).entries.map (fun e => (e.1, e.2)) ↔
      k ≠ "" ∧ 0 < n ∧ n = reporting R k := by
    intro k n
    rw [countVotes_eq_tally, List.mem_map]
    constructor
    · rintro ⟨⟨k', n'⟩, he, heq⟩
      cases heq
      obtain ⟨hmem, hn⟩ := mem_entries_tally.1 he
      have hk : k' ≠ "" := by simpa using List.of_mem_filter hmem
      refine ⟨hk, ?_, ?_⟩
      · rw [hn]
        exact List.count_pos_iff.2 hmem
      · rw [hn, count_filter_ne hk, count_leaderId hvalues]
    · rintro ⟨hk, hn, rfl⟩
      refine ⟨⟨k, reporting R k⟩, mem_entries_tally.2 ⟨?_, ?_⟩, rfl⟩
      · rw [← count_leaderId hvalues] at hn
        exact List.mem_filter.2 ⟨List.count_pos_iff.1 hn, by simpa using hk⟩
      · rw [count_filter_ne hk, count_leaderId hvalues]
  obtain ⟨front, hrun, hsub⟩ := Shuffle.run_last ((hentry _ _).2 ⟨hne, hpos, rfl⟩)
  rw [hrun]
  refine maxByKey_concat fun ⟨k, n⟩ he => ?_
  obtain ⟨hk, -, rfl⟩ := (hentry k n).1 (hsub he)
  exact hmax k hk

theorem classify_concat {leaderId : String} {values : List NodeData} {d : NodeData}
    (h : d.Is "active_leader" leaderId) : (classify leaderId (values ++ [d])).1 = some d.host := by
  simp only [classify, List.foldl_append, List.foldl_cons, List.foldl_nil, if_pos h.1, if_pos h.2]

/-- Once the vote is decided, the leader is who `classify` finds under the id elected. -/
theorem electLeader_of_vote {a : Attempt} {nodes : AList fun _ : String => NodeData} {leaderId : String} {n : Nat}
    (hne : nodes.entries ≠ [])
    (hvote : maxByKey Prod.snd (a.voteOrder.run
      ((countVotes (a.nodeOrder.run (nodes.entries.map (·.2)))).entries.map fun e => (e.1, e.2))) =
        some (leaderId, n)) :
    ((classify leaderId (a.nodeOrder.run (nodes.entries.map (·.2)))).1 = none →
      electLeader a nodes = .error .noLeaderAvailable) ∧
    ∀ leader, (classify leaderId (a.nodeOrder.run (nodes.entries.map (·.2)))).1 = some leader →
      ∃ followers, electLeader a nodes = .ok ⟨leader, followers⟩ := by
  unfold electLeader
  dsimp only
  rw [if_neg hne, hvote]
  dsimp only
  generalize classify leaderId (a.nodeOrder.run (nodes.entries.map (·.2))) = result
  obtain ⟨found, followers⟩ := result
  constructor
  · rintro rfl
    rfl
  · rintro leader rfl
    exact ⟨followers, rfl⟩

section
variable {a : Attempt} {R : List Probe} {leaderId host : String} (hhost : ∀ p ∈ R, p.data.host = p.host)

theorem mergeNodes_ne_nil (h : Elected R leaderId) : (mergeNodes R).entries ≠ [] := by
  intro hnil
  obtain ⟨-, hpos, -⟩ := h
  rw [mergeNodes_eq_nil hnil] at hpos
  exact absurd hpos (Nat.lt_irrefl 0)

include hhost in
theorem electLeader_of_canLead (h : CanLead R leaderId host) : ∃ nodeOrder voteOrder followers,
    electLeader { a with nodeOrder, voteOrder } (mergeNodes R) = .ok ⟨host, followers⟩ := by
  obtain ⟨helected, d, hk, his⟩ := h
  have hmem : d ∈ (mergeNodes R).entries.map (·.2) := by
    rw [mem_values_iff hhost (.refl _), keptAt_host hhost hk]
    exact hk
  have hlead : (classify leaderId ((Shuffle.last d).run ((mergeNodes R).entries.map (·.2)))).1 = some host := by
    obtain ⟨front, hrun, -⟩ := Shuffle.run_last hmem
    rw [hrun, classify_concat his, keptAt_host hhost hk]
  have hvote := maxByKey_last ((Shuffle.last d).perm _) helected
  exact ⟨.last d, .last (leaderId, reporting R leaderId),
    (electLeader_of_vote (mergeNodes_ne_nil helected) hvote).2 host hlead⟩

include hhost in
theorem electLeader_of_nobody (helected : Elected R leaderId) (hno : ∀ host, ¬ CanLead R leaderId host) :
    ∃ voteOrder, electLeader { a with voteOrder } (mergeNodes R) = .error .noLeaderAvailable := by
  have hvalues := a.nodeOrder.perm ((mergeNodes R).entries.map (·.2))
  have hlead : (classify leaderId (a.nodeOrder.run ((mergeNodes R).entries.map (·.2)))).1 = none := by
    rw [Option.eq_none_iff_forall_ne_some]
    intro host h
    obtain ⟨d, hd, his, rfl⟩ := (classify_spec leaderId _).1 host h
    exact hno d.host ⟨helected, d, (mem_values_iff hhost hvalues).1 hd, his⟩
  exact ⟨.last (leaderId, reporting R leaderId),
    (electLeader_of_vote (mergeNodes_ne_nil helected) (maxByKey_last hvalues helected)).1 hlead⟩

end

/-! ### Two runs -/

/-- Both discoveries fail, or both find the same leader and the same set of followers. -/
def SameTopology : Except RZError (ClusterTopology × List String) → Except RZError (ClusterTopology × List String) → Prop
  | .ok (topo, _), .ok (topo', _) =>
    topo.leader = topo'.leader ∧ ∀ host, host ∈ topo.followers ↔ host ∈ topo'.followers
  | .error _, .error _ => True
  | _, _ => False

/-- Nobody can lead, or there is one id that the vote may elect and one host that leads under it. -/
def Determined (R : List Probe) : Prop :=
  (∀ leaderId host, ¬ CanLead R leaderId host) ∨
    ∃ leaderId host, CanLead R leaderId host ∧ (∀ leaderId', Elected R leaderId' → leaderId' = leaderId) ∧
      ∀ host', CanLead R leaderId host' → host' = host

/-- Some run with the same results finds whoever can lead. -/
theorem discoverFromSeeds_of_canLead {a : Attempt} {seedIds : List String} {leaderId host : String}
    (hne : seedIds ≠ []) (h : CanLead (a.results seedIds) leaderId host) : ∃ a' followers,
      a'.results seedIds = a.results seedIds ∧
      discoverFromSeeds a' seedIds = .ok (⟨host, followers⟩, (a.results seedIds).map (·.nodeId)) := by
  obtain ⟨nodeOrder, voteOrder, followers, hrun⟩ :=
    electLeader_of_canLead (a := a) (fun p hp => Attempt.results_host hp) h
  refine ⟨{ a with nodeOrder, voteOrder }, followers, rfl, ?_⟩
  rw [discoverFromSeeds_of_ne_nil hne]
  exact congrArg (Except.map _) hrun

theorem discoverFromSeeds_of_nobody {a : Attempt} {seedIds : List String} {leaderId : String} (hne : seedIds ≠ [])
    (helected : Elected (a.results seedIds) leaderId) (hno : ∀ host, ¬ CanLead (a.results seedIds) leaderId host) :
    ∃ a', a'.results seedIds = a.results seedIds ∧ discoverFromSeeds a' seedIds = .error .noLeaderAvailable := by
  obtain ⟨voteOrder, hrun⟩ := electLeader_of_nobody (a := a) (fun p hp => Attempt.results_host hp) helected hno
  refine ⟨{ a with voteOrder }, rfl, ?_⟩
  rw [discoverFromSeeds_of_ne_nil hne]
  exact congrArg (Except.map _) hrun

/-- A discovery of determined results, whatever the orders: it fails, or finds the leader determined and the
hosts that follow it. -/
theorem outcome_of_determined {a : Attempt} {seedIds : List String} {R : List Probe}
    (hd : (R.map (·.host)).Nodup) (hR : (a.results seedIds).Perm R) :
    ((∀ leaderId host, ¬ CanLead R leaderId host) → ∃ e, discoverFromSeeds a seedIds = .error e) ∧
    ∀ leaderId host, CanLead R leaderId host → (∀ leaderId', Elected R leaderId' → leaderId' = leaderId) →
      (∀ host', CanLead R leaderId host' → host' = host) → ∃ followers observed,
        discoverFromSeeds a seedIds = .ok (⟨host, followers⟩, observed) ∧
          ∀ host', host' ∈ followers ↔ ∃ d, keptAt R host' = some d ∧ d.Is "active_follower" leaderId := by
  have hkept := keptAt_perm hd hR
  have hcan : ∀ {leaderId host}, CanLead (a.results seedIds) leaderId host ↔ CanLead R leaderId host := by
    intro leaderId host
    rw [CanLead, CanLead, elected_perm hd hR, hkept]
  have hspec := (electLeader_spec a fun p hp => @Attempt.results_host a seedIds p hp).2
  cases hres : discoverFromSeeds a seedIds with
  | error e =>
    refine ⟨fun _ => ⟨e, rfl⟩, fun leaderId host h huniq _ => ?_⟩
    -- there is a vote, so seeds and votes; and who is elected has a leader
    exfalso
    obtain ⟨helected, d, hk, his⟩ := hcan.2 h
    rcases discoverFromSeeds_error hres with rfl | herr
    · exact mergeNodes_ne_nil helected (by rw [a.results_nil]; rfl)
    · rcases hspec e herr with hnone | ⟨leaderId', helected', hno⟩ | hnil
      · exact absurd helected.2.1 (by rw [hnone leaderId helected.1]; exact Nat.lt_irrefl 0)
      · obtain rfl := huniq leaderId' ((elected_perm hd hR).1 helected')
        exact hno host d hk his
      · exact mergeNodes_ne_nil helected (by rw [hnil]; rfl)
  | ok found =>
    obtain ⟨topo, observed⟩ := found
    obtain ⟨leaderId', -, hlead, htopo⟩ :=
      canLead_of_ok (fun p hp => Attempt.results_host hp) (discoverFromSeeds_ok hres).1
    refine ⟨fun hnone => absurd (hcan.1 hlead) (hnone leaderId' topo.leader), fun leaderId host h huniq honly => ?_⟩
    obtain rfl := huniq leaderId' (hcan.1 hlead).1
    obtain rfl := honly topo.leader (hcan.1 hlead)
    refine ⟨topo.followers, observed, rfl, fun host' => ?_⟩
    rw [htopo.followers host', hkept]

/-- The runs whose probes return the results of `a`, each for another host, come to the same topology in
whatever orders they go through them exactly when the results determine it. -/
theorem discovery_order_independent_iff (a : Attempt) (seedIds : List String)
    (hd : ((a.results seedIds).map (·.host)).Nodup) :
    (∀ a₁ seedIds₁ a₂ seedIds₂, (a₁.results seedIds₁).Perm (a.results seedIds) →
      (a₂.results seedIds₂).Perm (a.results seedIds) →
        SameTopology (discoverFromSeeds a₁ seedIds₁) (discoverFromSeeds a₂ seedIds₂)) ↔
      Determined (a.results seedIds) := by
  constructor
  · intro hsame
    by_cases hnone : ∀ leaderId host, ¬ CanLead (a.results seedIds) leaderId host
    · exact .inl hnone
    push Not at hnone
    obtain ⟨leaderId, host, hlead⟩ := hnone
    have hne : seedIds ≠ [] := by
      rintro rfl
      exact mergeNodes_ne_nil hlead.1 (by rw [a.results_nil]; rfl)
    -- every run that comes to something comes to what the run for `host` does
    obtain ⟨a₁, followers, hres₁, hrun₁⟩ := discoverFromSeeds_of_canLead hne hlead
    have hall : ∀ leaderId' host', CanLead (a.results seedIds) leaderId' host' → host' = host := by
      intro leaderId' host' hlead'
      obtain ⟨a₂, followers', hres₂, hrun₂⟩ := discoverFromSeeds_of_canLead hne hlead'
      have h := hsame a₁ seedIds a₂ seedIds (.of_eq hres₁) (.of_eq hres₂)
      rw [hrun₁, hrun₂] at h
      exact h.1.symm
    refine .inr ⟨leaderId, host, hlead, fun leaderId' helected => ?_, fun host' => hall leaderId host'⟩
    by_cases hno : ∀ host', ¬ CanLead (a.results seedIds) leaderId' host'
    · obtain ⟨a₂, hres₂, hrun₂⟩ := discoverFromSeeds_of_nobody hne helected hno
      have h := hsame a₁ seedIds a₂ seedIds (.of_eq hres₁) (.of_eq hres₂)
      rw [hrun₁, hrun₂] at h
      exact h.elim
    · push Not at hno
      obtain ⟨host', hlead'⟩ := hno
      obtain rfl := hall leaderId' host' hlead'
      exact hlead'.id_eq hlead
  · intro hdet a₁ seedIds₁ a₂ seedIds₂ h₁ h₂
    obtain ⟨hfail₁, hfind₁⟩ := outcome_of_determined hd h₁
    obtain ⟨hfail₂, hfind₂⟩ := outcome_of_determined hd h₂
    rcases hdet with hnone | ⟨leaderId, host, hlead, huniq, honly⟩
    · obtain ⟨e₁, he₁⟩ := hfail₁ hnone
      obtain ⟨e₂, he₂⟩ := hfail₂ hnone
      rw [he₁, he₂]
      trivial
    · obtain ⟨followers₁, observed₁, hok₁, hf₁⟩ := hfind₁ leaderId host hlead huniq honly
      obtain ⟨followers₂, observed₂, hok₂, hf₂⟩ := hfind₂ leaderId host hlead huniq honly
      rw [hok₁, hok₂]
      exact ⟨rfl, fun host' => (hf₁ host').trans (hf₂ host').symm⟩

/-- A cluster in which each node answers: its host, health and leader id. Everything comes in the order of
the lists. -/
def answering (nodes : List (String × String × String)) : Attempt where
  seedResponses i := match nodes[i]? with
    | some (host, health, leaderId) =>
      { resolve := .ok host, health := .ok health, nodeInfo := .ok leaderId, peers := .ok [] }
    | none => { resolve := .error .timeout, health := .error .timeout, nodeInfo := .error .timeout, peers := .ok [] }
  peerResponses _ :=
    { resolve := .error .timeout, health := .error .timeout, nodeInfo := .error .timeout, peers := .ok [] }
  peerOrder := ⟨id, fun l => .refl l⟩
  nodeOrder := ⟨id, fun l => .refl l⟩
  voteOrder := ⟨id, fun l => .refl l⟩

/-- A leader with its follower. -/
def settled : Attempt := answering [("h1", "active_leader", "n1"), ("h2", "active_follower", "n1")]

theorem settled_kept {host : String} {d : NodeData} (h : keptAt (settled.results ["n1", "n2"]) host = some d) :
    d.leaderId = "n1" ∧ (d.health = "active_leader" → host = "h1") := by
  obtain ⟨p, hp, rfl, rfl⟩ := keptAt_mem h
  exact (by decide : ∀ p ∈ settled.results ["n1", "n2"],
    p.data.leaderId = "n1" ∧ (p.data.health = "active_leader" → p.host = "h1")) p hp

theorem determined_settled : Determined (settled.results ["n1", "n2"]) := by
  have hlead : keptAt (settled.results ["n1", "n2"]) "h1" = some ⟨"h1", "active_leader", "n1"⟩ := by decide
  have hother : ∀ id, id ≠ "n1" → reporting (settled.results ["n1", "n2"]) id = 0 := by
    intro id hid
    refine List.countP_eq_zero.2 fun host _ h => ?_
    obtain ⟨d, hk, hd⟩ := (Option.any_eq_true _ _).1 h
    exact hid ((of_decide_eq_true hd).symm.trans (settled_kept hk).1)
  have hcount : reporting (settled.results ["n1", "n2"]) "n1" = 2 := by decide
  refine .inr ⟨"n1", "h1", ⟨⟨by decide, hcount ▸ Nat.two_pos, fun id _ => ?_⟩, _, hlead, rfl, rfl⟩, ?_, ?_⟩
  · by_cases hid : id = "n1"
    · rw [hid]
    · rw [hother id hid]
      exact Nat.zero_le _
  · intro id helected
    by_contra hid
    rw [Elected, hother id hid] at helected
    exact absurd helected.2.1 (Nat.lt_irrefl 0)
  · rintro host ⟨-, d, hk, his⟩
    exact (settled_kept hk).2 his.1

theorem discovery_order_independent_iff_settled :
    SameTopology (discoverFromSeeds settled ["n1", "n2"])
      (discoverFromSeeds { settled with nodeOrder := .last ⟨"h1", "active_leader", "n1"⟩ } ["n1", "n2"]) :=
  (discovery_order_independent_iff settled ["n1", "n2"] (by decide)).2 determined_settled
    settled ["n1", "n2"] _ ["n1", "n2"] (.refl _) (.refl _)

/-- Two nodes that both say that they lead, each with one vote. -/
def contested : Attempt := answering [("h1", "active_leader", "n1"), ("h2", "active_leader", "n2")]

/-- The leader is the one whose vote is met last. -/
theorem discovery_order_dependent :
    ((contested.results ["n1", "n2"]).map (·.host)).Nodup ∧
    discoverFromSeeds contested ["n1", "n2"] = .ok (⟨"h2", []⟩, ["n1", "n2"]) ∧
    discoverFromSeeds { contested with voteOrder := .last ("n1", 1) } ["n1", "n2"] =
      .ok (⟨"h1", []⟩, ["n1", "n2"]) ∧
    ¬ SameTopology (discoverFromSeeds contested ["n1", "n2"])
      (discoverFromSeeds { contested with voteOrder := .last ("n1", 1) } ["n1", "n2"]) := by
  have h₁ : discoverFromSeeds contested ["n1", "n2"] = .ok (⟨"h2", []⟩, ["n1", "n2"]) := by rfl
  have h₂ : discoverFromSeeds { contested with voteOrder := .last ("n1", 1) } ["n1", "n2"] =
      .ok (⟨"h1", []⟩, ["n1", "n2"]) := by rfl
  refine ⟨by decide, h₁, h₂, fun hsame => ?_⟩
  rw [h₁, h₂] at hsame
  exact absurd hsame.1 (by decide)

/-! ### The leader and the id elected -/

/-- The leader of `topo` was probed under the id that the vote of `a` elects. -/
def NamesWinner (a : Attempt) (seedIds : List String) (topo : ClusterTopology) : Prop :=
  ∃ leaderId, a.winner (mergeNodes (a.results seedIds)) = some leaderId ∧
    ∃ p ∈ a.results seedIds, p.nodeId = leaderId ∧ p.host = topo.leader

/-- A topology names a host that reports the id elected and says that it leads. Whatever the orders, it was
probed under that id exactly when this holds of every host that can lead. -/
theorem leader_named (a : Attempt) (seedIds : List String) :
    (∀ topo observed, discoverFromSeeds a seedIds = .ok (topo, observed) →
      ∃ leaderId d, a.winner (mergeNodes (a.results seedIds)) = some leaderId ∧
        keptAt (a.results seedIds) topo.leader = some d ∧ d.Is "active_leader" leaderId) ∧
    ((∀ nodeOrder voteOrder topo observed,
      discoverFromSeeds { a with nodeOrder, voteOrder } seedIds = .ok (topo, observed) →
        NamesWinner { a with nodeOrder, voteOrder } seedIds topo) ↔
      ∀ leaderId host, CanLead (a.results seedIds) leaderId host →
        ∃ p ∈ a.results seedIds, p.nodeId = leaderId ∧ p.host = host) := by
  have hhost : ∀ p ∈ a.results seedIds, p.data.host = p.host := fun p hp => Attempt.results_host hp
  refine ⟨fun topo observed h => ?_, fun hnames leaderId host hlead => ?_, fun hprobed => ?_⟩
  · obtain ⟨leaderId, hw, ⟨-, d, hk, his⟩, -⟩ := canLead_of_ok hhost (discoverFromSeeds_ok h).1
    exact ⟨leaderId, d, hw, hk, his⟩
  · -- the run in which `host` leads
    have hne : seedIds ≠ [] := by
      rintro rfl
      exact mergeNodes_ne_nil hlead.1 (by rw [a.results_nil]; rfl)
    obtain ⟨nodeOrder, voteOrder, followers, hrun⟩ := electLeader_of_canLead (a := a) hhost hlead
    obtain ⟨leaderId', hw, p, hp, hid, hph⟩ := hnames nodeOrder voteOrder ⟨host, followers⟩
      ((a.results seedIds).map (·.nodeId)) (by
        rw [discoverFromSeeds_of_ne_nil hne]
        exact congrArg (Except.map _) hrun)
    obtain ⟨leaderId'', hw', hlead', -⟩ := canLead_of_ok hhost hrun
    cases hw.symm.trans hw'
    exact ⟨p, hp, hid.trans (hlead'.id_eq hlead), hph⟩
  · intro nodeOrder voteOrder topo observed h
    obtain ⟨leaderId, hw, hlead, -⟩ := canLead_of_ok hhost (discoverFromSeeds_ok h).1
    exact ⟨leaderId, hw, hprobed leaderId topo.leader hlead⟩

/-- A node that says it leads while it and the other report the other. -/
def stale : Attempt := answering [("h1", "active_leader", "n2"), ("h2", "active_follower", "n2")]

/-- The vote elects `n2`, but the leader is the host of `n1`. -/
theorem leader_not_named :
    discoverFromSeeds stale ["n1", "n2"] = .ok (⟨"h1", ["h2"]⟩, ["n1", "n2"]) ∧
    stale.winner (mergeNodes (stale.results ["n1", "n2"])) = some "n2" ∧
    ¬ NamesWinner stale ["n1", "n2"] ⟨"h1", ["h2"]⟩ := by
  have hw : stale.winner (mergeNodes (stale.results ["n1", "n2"])) = some "n2" := by rfl
  refine ⟨by rfl, hw, ?_⟩
  rintro ⟨leaderId, hw', p, hp, hid, hh⟩
  cases hw.symm.trans hw'
  exact (by decide : ∀ p ∈ stale.results ["n1", "n2"], p.nodeId = "n2" → p.host ≠ "h1") p hp hid hh

end RzBridge
