import RzBridge.Proofs.FollowerScan
import RzBridge.Proofs.LeaderSelect

/-!
# The iterations of the reads

`next_follower_conn` gives the load balancer back after each iteration of its loop, so the iterations of reads that
select at the same time mix. All of them together go around the node indices, and each looks at everything that is
filed under its node (`Trying`): a single read may come back empty, but whoever goes around once meets every host.
-/

namespace RzBridge
open Machine CircularWait RoundRobin Assoc

variable {cfg : Config} {s s' : Sys} {l : SysLabel} {k i : Nat}

/-! ### What a scan has tried -/

/-- The connection index at which a scan stands. -/
def SelPc.conn : SelPc → Option Nat
  | .fMap _ _ j => some j
  | .fScan _ _ j _ => some j
  | .fClean _ _ j _ _ _ => some j
  | _ => none

/-- The node of a scan, the connection index at which it stands, and how many it has tried. -/
def SelPc.scan : SelPc → Option ((String × Nat) × Nat × Nat)
  | .fScan _ node j tried => some (node, j, tried)
  | .fClean _ node j tried _ _ => some (node, j, tried)
  | _ => none

/-- Nothing is filed any more under what a scan has tried, of `n` connection indices. -/
structure Trying (n : Nat) (followers : FollowerMap) (pc : SelPc) : Prop where
  start : ∀ j, pc.conn = some j → 0 < n → j < n
  ahead : ∀ node j tried, pc.scan = some (node, j, tried) →
    ∀ t x, followers.lookup (node.1, node.2, t) = some x → tried + ringDist n j t < n

theorem Trying.of_none {n : Nat} {followers : FollowerMap} {pc : SelPc} (hc : pc.conn = none) (hs : pc.scan = none) :
    Trying n followers pc where
  start j hj := by
    rw [hc] at hj
    cases hj
  ahead node j tried h := by
    rw [hs] at h
    cases h

theorem Trying.fNext {n : Nat} {followers : FollowerMap} (left : Nat) : Trying n followers (fNext left) := by
  unfold RzBridge.fNext
  split <;> exact .of_none rfl rfl

theorem SelMove.trying {closed : Nat → Bool} {now : Nat} {h h' : Handler} {pc pc' : SelPc}
    (hb : SelMove cfg closed now h pc h' pc')
    (hkeys : ∀ key x, h.followers.lookup key = some x → key.2.2 < cfg.connPerNode32)
    (hi : Trying cfg.connPerNode32 h.followers pc) : Trying cfg.connPerNode32 h'.followers pc' := by
  -- a scan goes on behind an index under which nothing is filed
  have next : ∀ {followers : FollowerMap} {node : String × Nat} {j tried : Nat},
      (∀ key x, followers.lookup key = some x → h.followers.lookup key = some x) →
      followers.lookup (node.1, node.2, j) = none → pc.conn = some j → pc.scan = some (node, j, tried) →
      ∀ t x, followers.lookup (node.1, node.2, t) = some x →
        tried + 1 + ringDist cfg.connPerNode32 (wrapIdx cfg.connPerNode32 (j + 1)) t < cfg.connPerNode32 := by
    intro followers node j tried hsub hnone hconn hscan t x hl
    have hlt : t < cfg.connPerNode32 := hkeys _ x (hsub _ x hl)
    have hne : j ≠ t := by
      rintro rfl
      cases hnone.symm.trans hl
    have hahead := hi.ahead node j tried hscan t x (hsub _ x hl)
    have hdist := ringDist_next (hi.start j hconn (Nat.zero_lt_of_lt hlt)) hlt hne
    omega
  cases hb with
  | fLen | fSkip | fOver => exact .fNext _
  | fTarget left node counter ht =>
    refine ⟨fun j hj hn => ?_, fun node j tried hs => by cases hs⟩
    cases hj
    exact wrapIdx_lt hn
  | fMap left node j =>
    refine ⟨hi.start, fun node j tried hs t x hl => ?_⟩
    cases hs
    have hlt : t < cfg.connPerNode32 := hkeys _ x hl
    rw [Nat.zero_add]
    exact ringDist_lt (hi.start j rfl (Nat.zero_lt_of_lt hlt)) hlt
  | fStale left node j tried c ht hl hc => exact ⟨hi.start, hi.ahead⟩
  | fAbsent left node j tried ht hnone =>
    refine ⟨fun j' hj hn => ?_, fun node' j' tried' hs t x hl => ?_⟩
    · cases hj
      exact wrapIdx_lt hn
    · cases hs
      exact next (fun _ _ hl => hl) hnone rfl rfl t x hl
  | fClean left node j tried c start =>
    refine ⟨fun j' hj hn => ?_, fun node' j' tried' hs t x hl => ?_⟩
    · cases hj
      exact wrapIdx_lt hn
    · cases hs
      exact next (fun _ _ hl => (lookup_erase_iff.1 hl).2) (AList.lookup_erase ..) rfl rfl t x hl
  | _ => exact .of_none rfl rfl

def Sys.Trying (cfg : Config) (s : Sys) : Prop :=
  ∀ sel ∈ s.sels, RzBridge.Trying cfg.connPerNode32 s.handler.followers sel.pc

theorem SelPc.holds_map {pc : SelPc} {node : String × Nat} {j tried : Nat} (h : pc.scan = some (node, j, tried)) :
    (Lock.followers, Mode.write) ∈ pc.outer := by
  cases pc with
  | fScan | fClean => exact List.mem_cons_of_mem _ List.mem_cons_self
  | _ => cases h

theorem Sys.Trying.step (h : s.Trying cfg) (hx : s.MapExcl) (hf : FollowerInv cfg s) (hs : s.step cfg l = some s') :
    s'.Trying cfg := by
  intro sel' hsel'
  rcases Sys.sel_of_step hs hsel' with ⟨sel, hsel, hpc⟩ | hstart | ⟨sel, hsel, hb⟩
  · rw [hpc]
    refine ⟨(h sel hsel).start, fun node j tried hscan t x hl => ?_⟩
    rcases Sys.followers_of_step hs hl with hl | ⟨hmap, hsels⟩
    · exact (h sel hsel).ahead node j tried hscan t x hl
    · -- the sync task cannot be filing while this selection has the map
      have hheld : sel'.HoldsMap := List.mem_append_left _ (by rw [hpc]; exact SelPc.holds_map hscan)
      exact absurd hmap (hx sel' (hsels ▸ hsel') hheld)
  · rcases hstart with hpc | hpc | hpc <;> rw [hpc] <;> exact .of_none rfl rfl
  · exact hb.trying (fun key x hl => (hf.map key x hl).2.2) (h sel hsel)

theorem Sys.Trying.of_reach (h : Reach (Sys.step cfg) (Sys.init cfg) s) : s.Trying cfg :=
  h.induct (by simp [Sys.Trying, Sys.init]) fun _ _ _ hr hi hs =>
    hi.step (Sys.MapExcl.of_reach hr) (FollowerInv.of_reach hr) hs

/-! ### One iteration at a time -/

theorem SelMove.holds_loadBalancer {closed : Nat → Bool} {now : Nat} {h h' : Handler} {sel : Sel} {pc' : SelPc}
    (hb : SelMove cfg closed now h sel.pc h' pc') (hw : sel.waits = none) :
    (Lock.loadBalancer, Mode.write) ∈ sel.holds := by
  obtain ⟨pc, held⟩ := sel
  have awaited := fun lm => @Sel.mem_holds_of_awaits { pc, held } lm hw
  have outer : pc.outer ⊆ Sel.holds { pc, held } := List.subset_append_left _ _
  dsimp only at hb awaited
  cases hb with
  | fLen | fSkip | fTarget | lLock => exact awaited _ rfl
  | _ => exact outer List.mem_cons_self

theorem SelPc.outer_of_node {pc : SelPc} (h : pc.node ≠ none) : (Lock.loadBalancer, Mode.write) ∈ pc.outer := by
  cases pc with
  | fMap | fScan | fClean => exact List.mem_cons_self
  | _ => exact absurd rfl h

theorem Sys.node_of_held (hx : Exclusive s.poolHolds) (hheld : (Lock.loadBalancer, Mode.write) ∈ s.poolHolds (some k))
    {k' : Nat} {sel : Sel} (hne : k' ≠ k) (hk' : s.sels[k']? = some sel) : sel.pc.node = none := by
  by_contra hnode
  exact hx.not_write (t := some k) (u := some k') (by simpa using Ne.symm hne) hheld
    (Sys.poolHolds_of_outer hk' (SelPc.outer_of_node hnode))

/-- Some selection is within an iteration. -/
def Looking (sels : List Sel) : Prop := ∃ sel ∈ sels, sel.pc.node ≠ none

theorem looking_set {sels : List Sel} {sel' : Sel} (hk : k < sels.length)
    (h : ∀ k' sel, k' ≠ k → sels[k']? = some sel → sel.pc.node = none) :
    Looking (sels.set k sel') ↔ sel'.pc.node ≠ none := by
  constructor
  · rintro ⟨sel, hsel, hnode⟩
    obtain ⟨k', hk'⟩ := List.mem_iff_getElem?.1 hsel
    by_cases hne : k' = k
    · rw [hne, List.getElem?_set_self hk] at hk'
      cases hk'
      exact hnode
    · rw [List.getElem?_set_ne (Ne.symm hne)] at hk'
      exact absurd (h k' sel hne hk') hnode
  · exact fun hnode => ⟨sel', List.mem_set hk sel', hnode⟩

theorem looking_iff {sels : List Sel} {sel : Sel} (hk : sels[k]? = some sel)
    (h : ∀ k' sel, k' ≠ k → sels[k']? = some sel → sel.pc.node = none) : Looking sels ↔ sel.pc.node ≠ none := by
  obtain ⟨hlt, rfl⟩ := List.getElem?_eq_some_iff.1 hk
  rw [← looking_set hlt h, List.set_getElem_self]

theorem looking_set_same {sels : List Sel} {sel sel' : Sel} (hk : sels[k]? = some sel)
    (hn : sel'.pc.node = sel.pc.node) : Looking (sels.set k sel') ↔ Looking sels := by
  have hmap : (sels.set k sel').map (fun sel => sel.pc.node) = sels.map fun sel => sel.pc.node := by
    obtain ⟨hlt, rfl⟩ := List.getElem?_eq_some_iff.1 hk
    rw [List.map_set, hn, ← List.getElem_map (fun sel : Sel => sel.pc.node) (h := by simpa using hlt),
      List.set_getElem_self]
  have through : ∀ ts : List Sel, Looking ts ↔ ∃ node ∈ ts.map fun sel => sel.pc.node, node ≠ none := fun ts => by
    simp [Looking]
  rw [through, hmap, through]

/-- The node indices that the reads go around. -/
def Sys.ring (s : Sys) : Nat := s.handler.loadBalancer.ring

/-- `last_node_id` is an index of the ring, and within an iteration it is that of the node looked at. -/
structure Sys.Around (s : Sys) : Prop where
  last : s.handler.loadBalancer.lastNodeId < max s.ring 1
  node : ∀ sel ∈ s.sels, ∀ node, sel.pc.node = some node → node.2 = s.handler.loadBalancer.lastNodeId

theorem LoadBalancer.nextNode_lt_max (lb : LoadBalancer) : lb.nextNode < max lb.ring 1 := by
  rcases Nat.eq_zero_or_pos lb.followerHistory.entries.length with hz | hpos
  · have hzero : lb.nextNode = 0 := by
      rw [nextNode, hz, wrapIdx, if_pos (Nat.zero_le _)]
    rw [hzero]
    omega
  · exact (LoadBalancer.nextNode_lt hpos).trans_le (Nat.le_max_left ..)

theorem ring_insert_le {lb : LoadBalancer} {node : String × Nat} {j : Nat} (h : node ∉ lb.followerHistory) :
    lb.ring ≤ ({ lb with followerHistory := lb.followerHistory.insert node j } : LoadBalancer).ring := by
  unfold LoadBalancer.ring
  rw [AList.entries_insert_of_notMem h, List.length_cons]
  omega

theorem Sys.ring_le_step (hs : s.step cfg l = some s') : s.ring ≤ s'.ring := by
  cases Sys.Move.of_step hs with
  | sel k sel handler pc' hk hw hb =>
    generalize sel.pc = pc at hb
    cases hb with
    | fFound left node j tried c ht hl hc =>
      show s.handler.loadBalancer.ring ≤ (s.handler.loadBalancer.chosen cfg node j).ring
      unfold LoadBalancer.chosen
      split
      next => exact le_of_eq (by unfold LoadBalancer.ring; rw [length_replace])
      next hnot => exact ring_insert_le hnot
    | _ => exact le_rfl
  | sync i handler pc' hw hb =>
    generalize s.sync.pc = pc at hb
    cases hb with
    | recordHistory fs todo free a name nidx j freeConns conns =>
      show s.handler.loadBalancer.ring ≤ LoadBalancer.ring _
      dsimp only
      split
      next => exact le_rfl
      next hnot => exact ring_insert_le hnot
    | _ => exact le_rfl
  | rehashHistory history hp =>
    show s.handler.loadBalancer.ring ≤ LoadBalancer.ring _
    unfold LoadBalancer.ring
    rw [hp.length_eq]
  | _ => exact le_rfl

/-- What an iteration that goes from one point of a selection to another comes back with, if it ends there. -/
def SelPc.ends : SelPc → SelPc → Option (Option Connection)
  | .fScan .., .ret r => some r
  | .fScan .., .fIter _ => some none
  | .fIter _, .ret _ => some none
  | .fIter _, .fIter _ => some none
  | _, _ => none

/-- The iteration that ends in a step: the node index it looked at and what it comes back with. -/
def Sys.ended (s s' : Sys) : SysLabel → Option (Nat × Option Connection)
  | .sel k => do
    let sel ← s.sels[k]?
    let sel' ← s'.sels[k]?
    let r ← sel.pc.ends sel'.pc
    some (s'.handler.loadBalancer.lastNodeId, r)
  | _ => none

/-- The iterations that end in a run, one after the other. -/
def Sys.iterations (cfg : Config) (s : Sys) : List SysLabel → List (Nat × Option Connection)
  | [] => []
  | l :: ls =>
    match s.step cfg l with
    | none => []
    | some s' => (s.ended s' l).toList ++ iterations cfg s' ls

/-- What an iteration at index `i` comes back with in state `s`: an open connection filed under a host that the
history has there; or nothing, and then the history has no host there, or nothing is filed under one. -/
def Sys.Yields (s : Sys) (i : Nat) : Option Connection → Prop
  | some c => s.closed c.id = false ∧
      ∃ host j, (host, i) ∈ s.history ∧ s.handler.followers.lookup (host, i, j) = some c
  | none => (∀ host, (host, i) ∉ s.history) ∨
      ∃ host, (host, i) ∈ s.history ∧ ∀ j, s.handler.followers.lookup (host, i, j) = none

/-- What a step does to the iterations, with the one it ends. -/
inductive Sys.Iterates (s s' : Sys) : Option (Nat × Option Connection) → Prop
  | quiet (hlook : Looking s'.sels ↔ Looking s.sels)
      (hlast : s'.handler.loadBalancer.lastNodeId = s.handler.loadBalancer.lastNodeId) : Iterates s s' none
  | begins (hlook : ¬ Looking s.sels) (hlook' : Looking s'.sels)
      (hlast : s'.handler.loadBalancer.lastNodeId = s.handler.loadBalancer.nextNode) : Iterates s s' none
  | skips (hlook : ¬ Looking s.sels) (hlook' : ¬ Looking s'.sels)
      (hlast : s'.handler.loadBalancer.lastNodeId = s.handler.loadBalancer.nextNode)
      (hr : s.Yields s'.handler.loadBalancer.lastNodeId none) :
      Iterates s s' (some (s'.handler.loadBalancer.lastNodeId, none))
  | ends (r : Option Connection) (hlook : Looking s.sels) (hlook' : ¬ Looking s'.sels)
      (hlast : s'.handler.loadBalancer.lastNodeId = s.handler.loadBalancer.lastNodeId)
      (hr : s.Yields s'.handler.loadBalancer.lastNodeId r) :
      Iterates s s' (some (s'.handler.loadBalancer.lastNodeId, r))

theorem Sys.ended_sel {sel sel' : Sel} (hk : s.sels[k]? = some sel) (hsels : s'.sels = s.sels.set k sel') :
    s.ended s' (.sel k) = (sel.pc.ends sel'.pc).map fun r => (s'.handler.loadBalancer.lastNodeId, r) := by
  have hk' : s'.sels[k]? = some sel' := by rw [hsels, List.getElem?_set_self (List.getElem?_eq_some_iff.1 hk).1]
  simp only [Sys.ended, hk, hk', Option.bind_eq_bind, Option.bind_some]
  cases sel.pc.ends sel'.pc <;> rfl

theorem node_fNext (left : Nat) : (fNext left).node = none := by
  unfold fNext
  split <;> rfl

theorem ends_fNext {pc : SelPc} (left : Nat) (h : (∃ n, pc = .fIter n) ∨ ∃ n node j tried, pc = .fScan n node j tried) :
    pc.ends (fNext left) = some none := by
  unfold fNext
  rcases h with ⟨n, rfl⟩ | ⟨n, node, j, tried, rfl⟩ <;> split <;> rfl

theorem LoadBalancer.target_none {lb : LoadBalancer} (h : lb.target i = none) (host : String) :
    (host, i) ∉ lb.followerHistory := by
  intro hmem
  obtain ⟨counter, hl⟩ := Option.isSome_iff_exists.1 (AList.lookup_isSome.2 hmem)
  have he : (⟨(host, i), counter⟩ : Sigma fun _ : String × Nat => Nat) ∈ lb.followerHistory.entries :=
    mem_entries_iff.2 hl
  exact List.find?_eq_none.1 (Option.map_eq_none_iff.1 h) _ he (decide_eq_true rfl)

theorem Sys.Iterates.of_step (h : Reach (Sys.step cfg) (Sys.init cfg) s)
    (hnode : ∀ sel ∈ s.sels, ∀ node, sel.pc.node = some node → node.2 = s.handler.loadBalancer.lastNodeId)
    (hs : s.step cfg l = some s') : s.Iterates s' (s.ended s' l) := by
  cases Sys.Move.of_step hs with
  | sel k sel handler pc' hk hw hb =>
    have hheld : (Lock.loadBalancer, Mode.write) ∈ s.poolHolds (some k) := by
      rw [Sys.poolHolds, hk]
      exact hb.holds_loadBalancer hw
    have alone : ∀ k' sel', k' ≠ k → s.sels[k']? = some sel' → sel'.pc.node = none := fun k' sel' hne hk' =>
      Sys.node_of_held (Sys.exclusive_of_reach h) hheld hne hk'
    have hlook := looking_iff hk alone
    have hlook' : Looking (s.sels.set k { pc := pc' }) ↔ pc'.node ≠ none :=
      looking_set (List.getElem?_eq_some_iff.1 hk).1 alone
    have hmem := List.mem_of_getElem? hk
    have hnode := hnode sel hmem
    have hhist := (IndexInv.of_reach h).sels sel hmem
    have htry := Sys.Trying.of_reach h sel hmem
    rw [Sys.ended_sel hk rfl]
    generalize sel.pc = pc at hb hlook hnode hhist htry
    have idle : pc.node = none → ¬ Looking s.sels := fun hn hl => hlook.1 hl hn
    have idle' : pc'.node = none → ¬ Looking (s.sels.set k { pc := pc' }) := fun hn hl => hlook'.1 hl hn
    cases hb with
    | fLen => exact .quiet (iff_of_false (idle' (node_fNext _)) (idle rfl)) rfl
    | fTarget left node counter ht => exact .begins (idle rfl) (hlook'.2 (Option.some_ne_none node)) rfl
    | fSkip left ht =>
      rw [ends_fNext _ (.inl ⟨_, rfl⟩)]
      exact .skips (idle rfl) (idle' (node_fNext _)) rfl (.inl (LoadBalancer.target_none ht))
    | fOver left node j tried ht =>
      rw [ends_fNext _ (.inr ⟨_, _, _, _, rfl⟩)]
      refine .ends none (hlook.2 (Option.some_ne_none node)) (idle' (node_fNext _)) rfl ?_
      refine .inr ⟨node.1, hnode node rfl ▸ hhist node rfl, fun t => ?_⟩
      rw [← hnode node rfl, Option.eq_none_iff_forall_ne_some]
      intro x hl
      -- the index is one that was tried
      have hahead := htry.ahead node j tried rfl t x hl
      have hle : cfg.connPerNode32 ≤ cfg.connPerRoomzinNode := Nat.mod_le _ _
      omega
    | fFound left node j tried c ht hl hc =>
      have hlast : node.2 = s.handler.loadBalancer.lastNodeId := hnode node rfl
      exact .ends (some c) (hlook.2 (Option.some_ne_none node)) (idle' rfl) hlast ⟨hc, node.1, j, hhist node rfl, hl⟩
    | fMap left node | fStale left node | fAbsent left node | fClean left node =>
      exact .quiet (iff_of_true (hlook'.2 (Option.some_ne_none node)) (hlook.2 (Option.some_ne_none node))) rfl
    | _ => exact .quiet (iff_of_false (idle' rfl) (idle rfl)) rfl
  | selStart k sel call hk hpc hc hcp =>
    rw [Sys.ended_sel hk rfl, hpc]
    refine .quiet (looking_set_same hk ?_) rfl
    rw [hpc]
    cases call.isWrite <;> rfl
  | selReturn k sel r mux hk hpc hm =>
    rw [Sys.ended_sel hk rfl, hpc]
    exact .quiet (looking_set_same hk (by rw [hpc]; rfl)) rfl
  | lockSel k sel lm hk hw hf => exact .quiet (looking_set_same hk rfl) rfl
  | spawn w f mux hm => exact .quiet (by simp [Looking, SelPc.node]) rfl
  | sync j handler pc' hw hb =>
    refine .quiet Iff.rfl ?_
    generalize s.sync.pc = pc at hb
    cases hb <;> rfl
  | _ => exact .quiet Iff.rfl rfl

theorem SelMove.node_last {closed : Nat → Bool} {now : Nat} {h h' : Handler} {pc pc' : SelPc}
    (hb : SelMove cfg closed now h pc h' pc')
    (hi : ∀ node, pc.node = some node → node.2 = h.loadBalancer.lastNodeId) {node : String × Nat}
    (hn : pc'.node = some node) : node.2 = h'.loadBalancer.lastNodeId := by
  cases hb with
  | fLen | fSkip | fOver => cases (node_fNext _).symm.trans hn
  | fTarget left node counter ht =>
    cases hn
    exact (LoadBalancer.target_idx ht).1
  | fMap | fStale | fAbsent | fClean => exact hi node hn
  | _ => cases hn

theorem Sys.Around.step (h : s.Around) (hr : Reach (Sys.step cfg) (Sys.init cfg) s) (hs : s.step cfg l = some s') :
    s'.Around := by
  have hit := Sys.Iterates.of_step hr h.node hs
  have hring := Sys.ring_le_step hs
  refine ⟨?_, fun sel' hsel' node hn => ?_⟩
  · have hnext : s.handler.loadBalancer.nextNode < max s.ring 1 := LoadBalancer.nextNode_lt_max _
    have hlast := h.last
    generalize s.ended s' l = e at hit
    cases hit with
    | quiet _ heq | begins _ _ heq | skips _ _ heq | ends _ _ _ heq => omega
  · rcases Sys.sel_of_step hs hsel' with ⟨sel, hsel, hpc⟩ | hstart | ⟨sel, hsel, hb⟩
    · rw [hpc] at hn
      have hlook : Looking s.sels := ⟨sel, hsel, by rw [hn]; exact Option.some_ne_none node⟩
      rw [h.node sel hsel node hn]
      generalize s.ended s' l = e at hit
      cases hit with
      | quiet _ heq | ends _ _ _ heq => exact heq.symm
      | begins hnot | skips hnot => exact absurd hlook hnot
    · rcases hstart with hpc | hpc | hpc <;> rw [hpc] at hn <;> cases hn
    · exact hb.node_last (h.node sel hsel) hn

theorem Sys.Around.of_reach (h : Reach (Sys.step cfg) (Sys.init cfg) s) : s.Around := by
  refine h.induct (I := Sys.Around) ⟨?_, by simp [Sys.init]⟩ fun _ _ _ hr hi hs => hi.step hr hs
  show 0 < max (Sys.init cfg).ring 1
  omega

theorem Sys.Iterates.yields {e : Option (Nat × Option Connection)} (h : s.Iterates s' e) {r : Option Connection}
    (he : e = some (i, r)) : s.Yields i r := by
  cases h with
  | quiet | begins => cases he
  | skips _ _ _ hr | ends _ _ _ _ hr =>
    cases he
    exact hr

/-- In every run and under every interleaving, an iteration of a read that comes back with a connection has one that
is open and filed under a host of the index it looked at. One that comes back with nothing has met an index
without a host, or a host under which nothing is filed in that moment. -/
theorem follower_iteration_exact (h : Reach (Sys.step cfg) (Sys.init cfg) s) (hs : s.step cfg l = some s')
    {r : Option Connection} (he : s.ended s' l = some (i, r)) : s.Yields i r :=
  (Sys.Iterates.of_step h (Sys.Around.of_reach h).node hs).yields he

/-- Two followers are connected to, `a` under index 1 and `b` under index 0. The connection to `b` closes; then three
reads begin to select. -/
def oneFollowerShut : List SysLabel :=
  Sys.leaderDown "l" ["a", "b"] true ++ Sys.followersUp [("a", true), ("b", true)] ++
    [.mux (.readEnd 1), .mux (.readerStop 1)] ++ (Sys.readCall 0 (prependHeader 7 [1])).take 5 ++
    (Sys.readCall 1 (prependHeader 8 [1])).take 5 ++ (Sys.readCall 2 (prependHeader 9 [1])).take 5

/-- The first read always has its turn at index 0: the others are at index 1 in between. -/
def crossingReads : List SysLabel :=
  (Sys.readCall 1 []).drop 5 ++
    [.acquire (.call 0), .sel 0, .acquire (.call 0), .sel 0, .sel 0, .acquire (.call 0), .sel 0, .sel 0] ++
    (Sys.readCall 2 []).drop 5 ++ [.acquire (.call 0), .sel 0, .acquire (.call 0), .sel 0, .sel 0, .sel 0]

/-- The first read is through with `b`. -/
theorem follower_iteration_exact_shut : ∃ s s' : Sys,
    exec (Sys.step {}) (Sys.init {}) (oneFollowerShut ++ crossingReads.take 12) = some s ∧
    s.step {} (.sel 0) = some s' ∧ s.ended s' (.sel 0) = some (0, none) ∧ s.Yields 0 none := by
  obtain ⟨s, hs, hr, hp⟩ := Reach.of_any (Sys.step {}) (Sys.init {}) (oneFollowerShut ++ crossingReads.take 12)
    (fun s => decide ((s.step {} (.sel 0)).bind (fun s' => s.ended s' (.sel 0)) = some (0, none))) (by decide +kernel)
  obtain ⟨s', hs', he⟩ := Option.bind_eq_some_iff.1 (of_decide_eq_true hp)
  exact ⟨s, s', hs, hs', he, follower_iteration_exact hr hs' he⟩

/-! ### Around the node indices -/

/-- The next iteration to end looks at the index behind `p`. -/
structure Sys.Behind (n p : Nat) (s : Sys) : Prop where
  looking : Looking s.sels → (p + 1) % n = s.handler.loadBalancer.lastNodeId
  resting : ¬ Looking s.sels → p = s.handler.loadBalancer.lastNodeId

theorem LoadBalancer.nextNode_mod {lb : LoadBalancer} (h : lb.lastNodeId < lb.ring) :
    lb.nextNode = (lb.lastNodeId + 1) % lb.ring := by
  have h32 : lb.ring ≤ 2 ^ 32 := Nat.min_le_right ..
  rw [nextNode_eq (h.trans_le h32), wrapIdx_succ h]

theorem Sys.Behind.step {n p : Nat} {e : Option (Nat × Option Connection)} (h : s.Behind n p) (hp : p < n)
    (hring : s.ring = n) (hit : s.Iterates s' e) :
    (e = none → s'.Behind n p) ∧ ∀ x, e = some x → x.1 = (p + 1) % n ∧ s'.Behind n x.1 := by
  -- where no iteration is going on, the next one is behind `p`
  have next : ¬ Looking s.sels → s.handler.loadBalancer.nextNode = (p + 1) % n := by
    intro hlook
    have hlast := h.resting hlook
    rw [LoadBalancer.nextNode_mod (by rw [← hlast]; exact hp.trans_eq hring.symm), ← hlast]
    exact congrArg _ hring
  cases hit with
  | quiet hlook hlast =>
    refine ⟨fun _ => ⟨fun hl => ?_, fun hl => ?_⟩, fun x hx => by cases hx⟩
    · rw [hlast]
      exact h.looking (hlook.1 hl)
    · rw [hlast]
      exact h.resting fun hl' => hl (hlook.2 hl')
  | begins hlook hlook' hlast =>
    exact ⟨fun _ => ⟨fun _ => (next hlook).symm.trans hlast.symm, fun hl => absurd hlook' hl⟩, fun x hx => by cases hx⟩
  | skips hlook hlook' hlast hr =>
    refine ⟨fun hx => (by cases hx), fun x hx => ?_⟩
    cases hx
    exact ⟨hlast.trans (next hlook), fun hl => absurd hl hlook', fun _ => rfl⟩
  | ends r hlook hlook' hlast hr =>
    refine ⟨fun hx => (by cases hx), fun x hx => ?_⟩
    cases hx
    exact ⟨hlast.trans (h.looking hlook).symm, fun hl => absurd hl hlook', fun _ => rfl⟩

theorem Sys.Around.behind {n : Nat} (h : s.Around) (hring : s.ring = n) (hn : 0 < n) : ∃ p < n, s.Behind n p := by
  have hlast : s.handler.loadBalancer.lastNodeId < n := by
    have := h.last
    omega
  by_cases hlook : Looking s.sels
  · -- an iteration is going on at the index last moved to
    refine ⟨(s.handler.loadBalancer.lastNodeId + (n - 1)) % n, Nat.mod_lt _ hn, fun _ => ?_, fun h => absurd hlook h⟩
    rw [Nat.mod_add_mod, Nat.add_assoc, Nat.sub_add_cancel hn, Nat.add_mod_right, Nat.mod_eq_of_lt hlast]
  · exact ⟨_, hlast, fun h => absurd h hlook, fun _ => rfl⟩

/-- The iterations that end in a stretch look at one index after the other. -/
theorem Sys.iterations_eq {n p : Nat} (h : Reach (Sys.step cfg) (Sys.init cfg) s) {ls : List SysLabel}
    (hsame : AllStates (Sys.step cfg) (fun t => t.ring = n) s ls) (hp : p < n) (hb : s.Behind n p) :
    (s.iterations cfg ls).map Prod.fst = turns (fun _ => true) n (s.iterations cfg ls).length p := by
  have hn := Nat.zero_lt_of_lt hp
  rw [← List.length_map (f := Prod.fst)]
  refine log_eq_turns (fun t => Reach (Sys.step cfg) (Sys.init cfg) t ∧ t.ring = n)
    (fun t p => p < n ∧ t.Behind n p) (fun t t' l => (t.ended t' l).map Prod.fst)
    (fun t ls => (t.iterations cfg ls).map Prod.fst) (fun _ => rfl) (fun t l ls => ?_) (fun t l t' p hC hat hs => ?_)
    (fun pre t hpre ht => ⟨h.of_exec ht, hsame pre t hpre ht⟩) ⟨hp, hb⟩
  · rw [Sys.iterations]
    cases t.step cfg l with
    | none => rfl
    | some t' =>
      rw [Option.elim_some, List.map_append]
      cases t.ended t' l <;> rfl
  · have hit := Sys.Iterates.of_step hC.1 (Sys.Around.of_reach hC.1).node hs
    obtain ⟨hquiet, hended⟩ := hat.2.step hat.1 hC.2 hit
    refine ⟨fun hnone => ⟨hat.1, hquiet (Option.map_eq_none_iff.1 hnone)⟩, fun i hi => ?_⟩
    obtain ⟨x, hx, rfl⟩ := Option.map_eq_some_iff.1 hi
    obtain ⟨heq, hbehind⟩ := hended x hx
    rw [next_true hn, heq]
    exact ⟨rfl, Nat.mod_lt _ hn, heq ▸ hbehind⟩

theorem Sys.iterations_window {n : Nat} (h : Reach (Sys.step cfg) (Sys.init cfg) s) {ls : List SysLabel}
    (hsame : AllStates (Sys.step cfg) (fun t => t.ring = n) s ls) {before window after : List (Nat × Option Connection)}
    (hits : s.iterations cfg ls = before ++ window ++ after) (hw : window.length = n) :
    (window.map Prod.fst).Perm (List.range n) := by
  rcases Nat.eq_zero_or_pos n with rfl | hn
  · rw [List.eq_nil_of_length_eq_zero hw]
    rfl
  · obtain ⟨p, hp, hb⟩ := (Sys.Around.of_reach h).behind (hsame [] s List.nil_prefix rfl) hn
    have hturns := Sys.iterations_eq h hsame hp hb
    rw [hits, List.map_append, List.map_append] at hturns
    have hperm := turns_window hp hturns.symm (by simp [hw])
    rwa [List.filter_true] at hperm

/-- In every stretch of a run in which the history does not grow, as many consecutive iterations of reads as there
are node indices, whichever reads they are of and however these interleave, look at each index once. -/
theorem reads_go_around {n : Nat} (h : Reach (Sys.step cfg) (Sys.init cfg) s) {ls : List SysLabel}
    (hsame : AllStates (Sys.step cfg) (fun t => t.ring = n) s ls) {before window after : List (Nat × Option Connection)}
    (hits : s.iterations cfg ls = before ++ window ++ after) (hw : window.length = n) :
    (window.map Prod.fst).Perm (List.range n) :=
  Sys.iterations_window h hsame hits hw

theorem reads_go_around_crossing : ∃ s : Sys, exec (Sys.step {}) (Sys.init {}) oneFollowerShut = some s ∧
    s.iterations {} crossingReads = [(1, some ⟨0, "a"⟩), (0, none), (1, some ⟨0, "a"⟩), (0, none)] ∧
    [0, 1].Perm (List.range 2) := by
  obtain ⟨s, hs, hr, hp⟩ := Reach.of_any (Sys.step {}) (Sys.init {}) oneFollowerShut
    (fun s => decide (s.iterations {} crossingReads =
      [(1, some ⟨0, "a"⟩)] ++ [(0, none), (1, some ⟨0, "a"⟩)] ++ [(0, none)]) &&
        crossingReads.inits.all fun pre => (exec (Sys.step {}) s pre).all fun t => t.ring = 2) (by decide +kernel)
  obtain ⟨hits, hall⟩ := Bool.and_eq_true_iff.1 hp
  have hsame : AllStates (Sys.step {}) (fun t => t.ring = 2) s crossingReads :=
    .of_inits (fun t ht => of_decide_eq_true ht) hall
  exact ⟨s, hs, of_decide_eq_true hits, reads_go_around hr hsame (of_decide_eq_true hits) rfl⟩

/-! ### A host with an open connection -/

/-- The host is the only one that the history has under its index, one of those the reads go around, and an open
connection is filed under it. -/
structure Sys.Offers (s : Sys) (node : String × Nat) : Prop where
  index : node.2 < s.ring
  host : ∀ host, (host, node.2) ∈ s.history ↔ host = node.1
  conn : ∃ j c, s.handler.followers.lookup (node.1, node.2, j) = some c ∧ s.closed c.id = false

theorem Sys.Yields.of_offers {node : String × Nat} {r : Option Connection} (h : s.Yields node.2 r)
    (ho : s.Offers node) (hf : FollowerInv cfg s) : ∃ c, r = some c ∧ c.addr = node.1 := by
  cases r with
  | none =>
    obtain ⟨j, c, hl, -⟩ := ho.conn
    rcases h with hno | ⟨host, hmem, hempty⟩
    · exact absurd ((ho.host node.1).2 rfl) (hno node.1)
    · rw [(ho.host host).1 hmem] at hempty
      cases (hempty j).symm.trans hl
  | some c =>
    obtain ⟨-, host, j, hmem, hl⟩ := h
    exact ⟨c, rfl, (hf.map _ c hl).1.trans ((ho.host host).1 hmem)⟩

theorem Sys.found_of_mem_iterations (h : Reach (Sys.step cfg) (Sys.init cfg) s) {ls : List SysLabel}
    {node : String × Nat} (hoffers : AllStates (Sys.step cfg) (fun t => t.Offers node) s ls)
    {r : Option Connection} (hm : (node.2, r) ∈ s.iterations cfg ls) : ∃ c, r = some c ∧ c.addr = node.1 := by
  induction ls generalizing s with
  | nil => cases hm
  | cons l ls ih =>
    rw [Sys.iterations] at hm
    split at hm
    next => cases hm
    next s' hs =>
      rcases List.mem_append.1 hm with hm | hm
      · have hy := (Sys.Iterates.of_step h (Sys.Around.of_reach h).node hs).yields (Option.mem_toList.1 hm)
        exact hy.of_offers (hoffers [] s List.nil_prefix rfl) (FollowerInv.of_reach h)
      · exact ih (h.tail l hs) (hoffers.tail hs) hm

/-- In every stretch of a run in which the history does not grow and a host keeps an open connection under an index
of its own, any as many consecutive iterations of reads as there are node indices find a connection to that host:
whoever closes, cleans up or selects meanwhile. -/
theorem reads_reach_host {n : Nat} (h : Reach (Sys.step cfg) (Sys.init cfg) s) {ls : List SysLabel}
    {node : String × Nat} (hsame : AllStates (Sys.step cfg) (fun t => t.ring = n) s ls)
    (hoffers : AllStates (Sys.step cfg) (fun t => t.Offers node) s ls)
    {before window after : List (Nat × Option Connection)} (hits : s.iterations cfg ls = before ++ window ++ after)
    (hw : window.length = n) : ∃ c, (node.2, some c) ∈ window ∧ c.addr = node.1 := by
  have hring : s.ring = n := hsame [] s List.nil_prefix rfl
  have hindex : node.2 < n := (hoffers [] s List.nil_prefix rfl).index.trans_eq hring
  have hmem := (Sys.iterations_window h hsame hits hw).mem_iff.2 (List.mem_range.2 hindex)
  obtain ⟨⟨i, r⟩, hx, hi⟩ := List.mem_map.1 hmem
  obtain rfl : i = node.2 := hi
  have hall : (node.2, r) ∈ s.iterations cfg ls := by
    rw [hits]
    exact List.mem_append_left _ (List.mem_append_right _ hx)
  obtain ⟨c, rfl, haddr⟩ := Sys.found_of_mem_iterations h hoffers hall
  exact ⟨c, hx, haddr⟩

/-- The first read comes back with nothing though the connection to `a` is open throughout; the others find it. -/
theorem reads_reach_host_crossing : ∃ s s' : Sys, exec (Sys.step {}) (Sys.init {}) oneFollowerShut = some s ∧
    exec (Sys.step {}) s crossingReads = some s' ∧ (s'.sels[0]?).map Sel.pc = some (SelPc.ret none) ∧
    AllStates (Sys.step {}) (fun t => t.Offers ("a", 1)) s crossingReads ∧
    ∃ c, (1, some c) ∈ [(0, none), (1, some (⟨0, "a"⟩ : Connection))] ∧ c.addr = "a" := by
  obtain ⟨s, hs, hr, hp⟩ := Reach.of_any (Sys.step {}) (Sys.init {}) oneFollowerShut
    (fun s => decide (s.iterations {} crossingReads =
        [(1, some ⟨0, "a"⟩)] ++ [(0, none), (1, some ⟨0, "a"⟩)] ++ [(0, none)] ∧
      (exec (Sys.step {}) s crossingReads).bind (fun s' => (s'.sels[0]?).map Sel.pc) = some (SelPc.ret none)) &&
        crossingReads.inits.all fun pre => (exec (Sys.step {}) s pre).all fun t =>
          t.history.keys = [("b", 0), ("a", 1)] ∧ t.ring = 2 ∧
            t.handler.followers.lookup ("a", 1, 0) = some ⟨0, "a"⟩ ∧ t.closed 0 = false) (by decide +kernel)
  obtain ⟨hp, hall⟩ := Bool.and_eq_true_iff.1 hp
  obtain ⟨hits, hret⟩ := of_decide_eq_true hp
  obtain ⟨s', hs', hpc⟩ := Option.bind_eq_some_iff.1 hret
  have hsame : AllStates (Sys.step {}) (fun t => t.ring = 2) s crossingReads :=
    .of_inits (fun t ht => (of_decide_eq_true ht).2.1) hall
  have hoffers : AllStates (Sys.step {}) (fun t => t.Offers ("a", 1)) s crossingReads := by
    refine .of_inits (fun t ht => ?_) hall
    obtain ⟨hkeys, hring, hl, hopen⟩ := of_decide_eq_true ht
    refine ⟨by rw [hring]; decide, fun host => ?_, 0, _, hl, hopen⟩
    rw [AList.mem_keys, hkeys]
    simp
  exact ⟨s, s', hs, hs', hpc, hoffers, reads_reach_host hr hsame hoffers hits rfl⟩

end RzBridge
