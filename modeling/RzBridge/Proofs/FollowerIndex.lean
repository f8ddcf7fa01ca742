import RzBridge.Proofs.FollowerPool

/-!
# The indices of the follower map

A connection is filed under its host, a node index and a connection index. `IndexInv` ties the map to
the history: a host has one node index in both, and what the map has the history has, but for the
index that `sync_followers` has just filed under and is about to record. The host's index is looked up
in the map first, with `0` for "not found"; it is the history that tells the index `0` from none at
all. `ShortfallInv` carries the count that `sync_followers` took from its snapshot to the insertions:
the connections still to be filed for a host fit into the indices that the host has left, so neither the
subtraction nor the index into `free_conn_ids` can go wrong.
-/

namespace RzBridge
open Machine Assoc

variable {cfg : Config} {s s' : Sys} {l : SysLabel}

/-! ### One node index for each host -/

/-- The node that a selection looks at. -/
def SelPc.node : SelPc → Option (String × Nat)
  | .fMap _ node _ => some node
  | .fScan _ node _ _ => some node
  | .fClean _ node _ _ _ _ => some node
  | _ => none

/-- The host and the node index that the sync task files connections under. -/
def SyncPc.filing : SyncPc → Option (String × Nat)
  | .insertConn _ _ _ _ name nidx _ _ => some (name, nidx)
  | .recordHistory _ _ _ _ name nidx _ _ _ => some (name, nidx)
  | _ => none

/-- The node that the sync task has filed a connection under, and is about to record. -/
def SyncPc.recording : SyncPc → Option (String × Nat)
  | .recordHistory _ _ _ _ name nidx _ _ _ => some (name, nidx)
  | _ => none

/-- The connection index it will record. -/
def SyncPc.counter : SyncPc → Option Nat
  | .recordHistory _ _ _ _ _ _ j _ _ => some j
  | _ => none

/-- `new_assigned_node_ids`, once it is filled. -/
def SyncPc.assigned : SyncPc → Option (AList fun _ : String => Nat)
  | .nextHost _ _ _ assigned => some assigned
  | .insertConn _ _ _ assigned _ _ _ _ => some assigned
  | .recordHistory _ _ _ assigned _ _ _ _ _ => some assigned
  | _ => none

def Sys.history (s : Sys) : FollowerHistory := s.handler.loadBalancer.followerHistory

structure IndexInv (cfg : Config) (s : Sys) : Prop where
  counters : ∀ node counter, s.history.lookup node = some counter → counter < cfg.connPerNode32
  unique : ∀ host i i', (host, i) ∈ s.history → (host, i') ∈ s.history → i = i'
  map : ∀ key x, s.handler.followers.lookup key = some x →
    (key.1, key.2.1) ∈ s.history ∨ s.sync.pc.recording = some (key.1, key.2.1)
  sels : ∀ sel ∈ s.sels, ∀ node, sel.pc.node = some node → node ∈ s.history
  assigned : ∀ a, s.sync.pc.assigned = some a → ∀ host i, (host, i) ∈ s.history → a.lookup host = some i
  filing : ∀ a name nidx, s.sync.pc.assigned = some a → s.sync.pc.filing = some (name, nidx) →
    a.lookup name = some nidx
  counter : ∀ j, s.sync.pc.counter = some j → j < cfg.connPerNode32

theorem IndexInv.init (cfg : Config) : IndexInv cfg (Sys.init cfg) := by
  refine ⟨?_, ?_, ?_, ?_, ?_, ?_, ?_⟩ <;>
    simp [Sys.init, Sys.history, Handler.new, SyncPc.assigned, SyncPc.counter]

theorem IndexInv.keep (h : IndexInv cfg s)
    (hm : ∀ key x, s'.handler.followers.lookup key = some x → s.handler.followers.lookup key = some x)
    (hh : ∀ node, node ∈ s'.history ↔ node ∈ s.history)
    (hc : ∀ node counter, s'.history.lookup node = some counter → counter < cfg.connPerNode32)
    (hsel : ∀ sel ∈ s'.sels, ∀ node, sel.pc.node = some node → node ∈ s.history)
    (hp : s'.sync.pc = s.sync.pc) : IndexInv cfg s' := by
  refine ⟨hc, ?_, ?_, ?_, ?_, ?_, ?_⟩
  · intro host i i' hi hi'
    exact h.unique host i i' ((hh _).1 hi) ((hh _).1 hi')
  · intro key x hl
    rw [hh, hp]
    exact h.map key x (hm key x hl)
  · intro sel hmem node hn
    exact (hh node).2 (hsel sel hmem node hn)
  · intro a ha host i hi
    exact h.assigned a (hp ▸ ha) host i ((hh _).1 hi)
  · rw [hp]
    exact h.filing
  · rw [hp]
    exact h.counter

theorem IndexInv.within (h : IndexInv cfg s) (hr : s.sync.pc.recording = none)
    (hf : s'.handler.followers = s.handler.followers) (hh : s'.history = s.history) (hsels : s'.sels = s.sels)
    (ha : ∀ a, s'.sync.pc.assigned = some a → ∀ host i, (host, i) ∈ s.history → a.lookup host = some i)
    (hfi : ∀ a name nidx, s'.sync.pc.assigned = some a → s'.sync.pc.filing = some (name, nidx) →
      a.lookup name = some nidx)
    (hc : s'.sync.pc.counter = none) : IndexInv cfg s' := by
  refine ⟨?_, ?_, ?_, ?_, ?_, hfi, ?_⟩
  · rw [hh]
    exact h.counters
  · rw [hh]
    exact h.unique
  · rw [hf, hh]
    intro key x hl
    rcases h.map key x hl with hmem | hrec
    · exact .inl hmem
    · rw [hr] at hrec
      cases hrec
  · rw [hh, hsels]
    exact h.sels
  · rw [hh]
    exact ha
  · simp [hc]

theorem IndexInv.record {a : AList fun _ : String => Nat} {name : String} {nidx j : Nat} (h : IndexInv cfg s)
    (hr : s.sync.pc.recording = some (name, nidx)) (hj : s.sync.pc.counter = some j)
    (hfi : s.sync.pc.filing = some (name, nidx)) (ha : s.sync.pc.assigned = some a)
    (hf : s'.handler.followers = s.handler.followers)
    (hh : s'.history = if (name, nidx) ∈ s.history then s.history else s.history.insert (name, nidx) j)
    (hsels : s'.sels = s.sels) (ha' : s'.sync.pc.assigned = some a) (hfi' : s'.sync.pc.filing = some (name, nidx))
    (hj' : s'.sync.pc.counter = none) : IndexInv cfg s' := by
  have hmem : ∀ node, node ∈ s'.history ↔ node = (name, nidx) ∨ node ∈ s.history := by
    rw [hh]
    exact fun node => mem_orInsert
  have hname : a.lookup name = some nidx := h.filing a name nidx ha hfi
  have hold : ∀ i, (name, i) ∈ s.history → i = nidx := by
    intro i hi
    have hl := h.assigned a ha name i hi
    rw [hname] at hl
    exact (Option.some.inj hl).symm
  refine ⟨fun node counter hl => ?_, fun host i i' hi hi' => ?_, fun key x hl => ?_, fun sel hsel node hn => ?_,
    ?_, ?_, by simp [hj']⟩
  · rw [hh] at hl
    rcases lookup_orInsert hl with rfl | hl
    · exact h.counter _ hj
    · exact h.counters node counter hl
  · rcases (hmem _).1 hi with he | hi <;> rcases (hmem _).1 hi' with he' | hi'
    · cases he
      cases he'
      rfl
    · cases he
      exact (hold i' hi').symm
    · cases he'
      exact hold i hi
    · exact h.unique host i i' hi hi'
  · rw [hf] at hl
    rcases h.map key x hl with hin | hrec
    · exact .inl ((hmem _).2 (.inr hin))
    · rw [hr] at hrec
      exact .inl ((hmem _).2 (.inl (Option.some.inj hrec).symm))
  · rw [hsels] at hsel
    exact (hmem node).2 (.inr (h.sels sel hsel node hn))
  · rw [ha']
    rintro _ ⟨rfl⟩ host i hi
    rcases (hmem _).1 hi with he | hi
    · cases he
      exact hname
    · exact h.assigned a ha host i hi
  · rw [ha', hfi']
    rintro _ _ _ ⟨rfl⟩ ⟨rfl, rfl⟩
    exact hname

theorem SelMove.node {closed : Nat → Bool} {now : Nat} {h h' : Handler} {pc pc' : SelPc} {node : String × Nat}
    (hb : SelMove cfg closed now h pc h' pc') (hn : pc'.node = some node) :
    pc.node = some node ∨ node ∈ h.loadBalancer.followerHistory := by
  have next : ∀ left, (fNext left).node ≠ some node := by
    intro left
    unfold fNext
    split <;> simp [SelPc.node]
  cases hb with
  | fLen => exact absurd hn (next _)
  | fSkip left ht => exact absurd hn (next _)
  | fOver left node' j tried ht => exact absurd hn (next _)
  | fTarget left node' counter ht =>
    cases hn
    obtain ⟨e, he, hpair⟩ := Option.map_eq_some_iff.1 ht
    simp only [Prod.mk.injEq] at hpair
    obtain ⟨rfl, -⟩ := hpair
    exact .inr (mem_of_lookup (mem_entries_iff.1 (List.mem_of_find?_eq_some he)))
  | fMap left node' j => exact .inl hn
  | fStale left node' j tried c ht hl hc => exact .inl hn
  | fAbsent left node' j tried ht hl => exact .inl hn
  | fClean left node' j tried c start => exact .inl hn
  | _ => cases hn

theorem SelMove.history_keys {closed : Nat → Bool} {now : Nat} {h h' : Handler} {pc pc' : SelPc}
    (hb : SelMove cfg closed now h pc h' pc')
    (hn : ∀ node, pc.node = some node → node ∈ h.loadBalancer.followerHistory) (node : String × Nat) :
    node ∈ h'.loadBalancer.followerHistory ↔ node ∈ h.loadBalancer.followerHistory := by
  cases hb with
  | fFound left node' j tried c ht hl hc =>
    have hmem : node' ∈ h.loadBalancer.followerHistory := hn node' rfl
    simp only [LoadBalancer.chosen, if_pos hmem]
    exact AList.mem_replace
  | _ => exact Iff.rfl

theorem SelMove.counters {closed : Nat → Bool} {now : Nat} {h h' : Handler} {pc pc' : SelPc}
    (hb : SelMove cfg closed now h pc h' pc')
    (hn : ∀ node, pc.node = some node → node ∈ h.loadBalancer.followerHistory)
    (hj : ∀ key x, h.followers.lookup key = some x → key.2.2 < cfg.connPerNode32)
    (hc : ∀ node counter, h.loadBalancer.followerHistory.lookup node = some counter →
      counter < cfg.connPerNode32) {node : String × Nat} {counter : Nat}
    (hl : h'.loadBalancer.followerHistory.lookup node = some counter) : counter < cfg.connPerNode32 := by
  cases hb with
  | fFound left node' j tried c ht hf hcl =>
    have hmem : node' ∈ h.loadBalancer.followerHistory := hn node' rfl
    simp only [LoadBalancer.chosen, if_pos hmem] at hl
    rcases lookup_replace hl with ⟨-, rfl⟩ | hl
    · have hpos : 0 < cfg.connPerNode32 := Nat.zero_lt_of_lt (hj _ c hf)
      exact Nat.mod_lt _ hpos
    · exact hc node counter hl
  | _ => exact hc node counter hl

theorem IndexInv.node_of_step (h : IndexInv cfg s) (hs : s.step cfg l = some s') :
    ∀ sel ∈ s'.sels, ∀ node, sel.pc.node = some node → node ∈ s.history := by
  intro sel' hsel' node hn
  rcases Sys.sel_of_step hs hsel' with ⟨sel, hsel, hpc⟩ | hstart | ⟨sel, hsel, hb⟩
  · exact h.sels sel hsel node (hpc ▸ hn)
  · rcases hstart with hpc | hpc | hpc <;> rw [hpc] at hn <;> cases hn
  · exact (hb.node hn).elim (h.sels sel hsel node) id

theorem assignedNodeIds_of_mem {history : FollowerHistory} {host : String} {i : Nat}
    (hu : ∀ i', (host, i') ∈ history → i = i') (h : (host, i) ∈ history) :
    (assignedNodeIds history).lookup host = some i := by
  cases hl : (assignedNodeIds history).lookup host with
  | some i' => rw [hu i' (assignedNodeIds_lookup hl)]
  | none =>
    obtain ⟨counter, hc⟩ := exists_lookup h
    rw [assignedNodeIds, lookup_foldl_insert, Option.or_eq_none_iff, Option.map_eq_none_iff,
      List.find?_eq_none] at hl
    have hne := hl.1 ⟨(host, i), counter⟩ (List.mem_reverse.2 (mem_entries_iff.2 hc))
    simp at hne

/-- A host whose index in the map is the one assigned to it gets the assigned index, if there is one, and
else the last of the free ones. -/
theorem assignNode_cases {followers : FollowerMap} {name : String} {free free' : List Nat}
    {a a' : AList fun _ : String => Nat} {nidx : Nat}
    (h : assignNode followers name free a = some (nidx, free', a'))
    (hmap : ∀ i j c, followers.lookup (name, i, j) = some c → a.lookup name = some i) :
    (a.lookup name = some nidx ∧ free' = free ∧ a' = a) ∨
      (a.lookup name = none ∧ free = free' ++ [nidx] ∧ a' = a.insert name nidx) := by
  rcases assignNode_some h with ⟨⟨j, c, hl⟩ | hl, hfree, ha⟩ | hdrawn
  · exact .inl ⟨hmap nidx j c hl, hfree, ha⟩
  · exact .inl ⟨hl, hfree, ha⟩
  · exact .inr hdrawn

theorem assignNode_none {followers : FollowerMap} {name : String} {free : List Nat} {a : AList fun _ : String => Nat}
    (h : assignNode followers name free a = none) : a.lookup name = none ∧ free = [] := by
  simp only [assignNode] at h
  split at h
  next => cases h
  next =>
    split at h
    next => cases h
    next hnone =>
      split at h
      next => cases h
      next hlast => exact ⟨hnone, List.getLast?_eq_none_iff.1 hlast⟩

theorem assignNode_assigned {followers : FollowerMap} {name : String} {free free' : List Nat}
    {a a' : AList fun _ : String => Nat} {nidx : Nat}
    (h : assignNode followers name free a = some (nidx, free', a'))
    (hmap : ∀ i j c, followers.lookup (name, i, j) = some c → a.lookup name = some i) :
    a'.lookup name = some nidx ∧ ∀ host i, a.lookup host = some i → a'.lookup host = some i := by
  rcases assignNode_cases h hmap with ⟨hl, -, rfl⟩ | ⟨hnone, -, rfl⟩
  · exact ⟨hl, fun _ _ hl => hl⟩
  · refine ⟨AList.lookup_insert .., fun host i hl => ?_⟩
    have hne : host ≠ name := by
      rintro rfl
      simp [hnone] at hl
    rw [AList.lookup_insert_ne hne]
    exact hl

theorem IndexInv.map_assigned (h : IndexInv cfg s) {a : AList fun _ : String => Nat}
    (ha : s.sync.pc.assigned = some a) (hr : s.sync.pc.recording = none) (name : String) (i j : Nat)
    (x : Connection) (hl : s.handler.followers.lookup (name, i, j) = some x) : a.lookup name = some i := by
  rcases h.map _ x hl with hmem | hrec
  · exact h.assigned a ha name i hmem
  · rw [hr] at hrec
    cases hrec

theorem IndexInv.sync {i : SyncInput} {handler : Handler} {pc' : SyncPc} (h : IndexInv cfg s)
    (hf : FollowerInv cfg s)
    (hb : SyncMove cfg s.closed s.mux.conns.length s.handler s.sync.pc i handler pc')
    (hs : s'.handler = handler) (hsels : s'.sels = s.sels) (hp : s'.sync.pc = pc') : IndexInv cfg s' := by
  have hh : s'.history = handler.loadBalancer.followerHistory := by rw [Sys.history, hs]
  have hfree := hf.free
  have hmap := h.map
  have hassigned := h.assigned
  have hfiling := h.filing
  have hcounter := h.counter
  generalize hpc : s.sync.pc = pc at hb hfree hmap hassigned hfiling hcounter
  -- a move that leaves the map and the history alone and stands after the assignments are read
  have inside : ∀ a, pc.recording = none → handler.followers = s.handler.followers →
      handler.loadBalancer.followerHistory = s.history → pc'.assigned = some a → pc'.counter = none →
      (∀ host i, (host, i) ∈ s.history → a.lookup host = some i) →
      (∀ name nidx, pc'.filing = some (name, nidx) → a.lookup name = some nidx) → IndexInv cfg s' := by
    intro a hr hfo hhi ha hc has hfi
    refine h.within (hpc ▸ hr) (by rw [hs, hfo]) (by rw [hh, hhi]) hsels ?_ ?_ (by rw [hp, hc])
    · rw [hp, ha]
      rintro _ ⟨rfl⟩
      exact has
    · rw [hp, ha]
      rintro _ name nidx ⟨rfl⟩
      exact hfi name nidx
  have outside : pc.recording = none → handler.followers = s.handler.followers →
      handler.loadBalancer.followerHistory = s.history → pc'.assigned = none → pc'.counter = none →
      IndexInv cfg s' :=
    fun hr hfo hhi ha hc => h.within (hpc ▸ hr) (by rw [hs, hfo]) (by rw [hh, hhi]) hsels (by simp [hp, ha])
      (by simp [hp, ha]) (by rw [hp, hc])
  cases hb with
  | readHistory fs hosts new free hperm =>
    refine inside _ rfl rfl rfl rfl rfl (fun host i hi => ?_) (by simp [SyncPc.filing])
    exact assignedNodeIds_of_mem (fun i' hi' => h.unique host i i' hi hi') hi
  | assign fs name conns todo free free' assigned assigned' nidx ha =>
    have hown := h.map_assigned (by rw [hpc]; rfl) (by rw [hpc]; rfl) name
    obtain ⟨hnidx, hkeep⟩ := assignNode_assigned ha hown
    refine inside _ rfl rfl rfl rfl rfl (fun host i hi => ?_) ?_
    · exact hkeep host i (hassigned assigned rfl host i hi)
    · rintro _ _ ⟨rfl, rfl⟩
      exact hnidx
  | noIndex fs name conns todo free assigned ha =>
    exact inside assigned rfl rfl rfl rfl rfl (hassigned assigned rfl) (by simp [SyncPc.filing])
  | hostDone fs todo free assigned name nidx freeConns =>
    exact inside assigned rfl rfl rfl rfl rfl (hassigned assigned rfl) (by simp [SyncPc.filing])
  | insertConn fs todo free assigned name nidx j freeConns c conns =>
    refine ⟨by rw [hh]; exact h.counters, by rw [hh]; exact h.unique, ?_, by rw [hh, hsels]; exact h.sels,
      by rw [hh, hp]; exact hassigned, by rw [hp]; exact hfiling, ?_⟩
    · rw [hs, hh, hp]
      intro key x hl
      rcases lookup_insert_iff.1 hl with ⟨rfl, -⟩ | ⟨-, hl⟩
      · exact .inr rfl
      · rcases hmap key x hl with hmem | hrec
        · exact .inl hmem
        · cases hrec
    · rw [hp]
      rintro _ ⟨rfl⟩
      exact hfree j (List.mem_cons_self ..)
  | recordHistory fs todo free assigned name nidx j freeConns conns =>
    refine h.record (by rw [hpc]; rfl) (by rw [hpc]; rfl) (by rw [hpc]; rfl) (by rw [hpc]; rfl) (by rw [hs]) hh
      hsels ?_ ?_ ?_ <;> (rw [hp]; rfl)
  | fastFollowers anyLeader _ hor => rcases hor with rfl | rfl <;> exact outside rfl rfl rfl rfl rfl
  | _ => exact outside rfl rfl rfl rfl rfl

theorem IndexInv.step (h : IndexInv cfg s) (hf : FollowerInv cfg s) (hs : s.step cfg l = some s') :
    IndexInv cfg s' := by
  have hsels := h.node_of_step hs
  cases Sys.Move.of_step hs with
  | sel k sel handler pc' hk hw hb =>
    have hnode := h.sels sel (List.mem_of_getElem? hk)
    refine h.keep (fun _ _ hl => hb.followers hl) (hb.history_keys hnode) (fun node counter hl => ?_) hsels rfl
    exact hb.counters hnode (fun key x hl => (hf.map key x hl).2.2) h.counters hl
  | sync i handler pc' hw hb => exact h.sync hf hb rfl rfl rfl
  | rehashHistory history hperm =>
    refine h.keep (fun _ _ hl => hl) (fun node => AList.mem_of_perm hperm) (fun node counter hl => ?_) hsels rfl
    exact h.counters node counter ((AList.perm_lookup hperm).symm.trans hl)
  | rehashFollowers followers hperm =>
    exact h.keep (fun key x hl => (AList.perm_lookup hperm).symm.trans hl) (fun _ => Iff.rfl) h.counters hsels rfl
  | _ => exact h.keep (fun _ _ hl => hl) (fun _ => Iff.rfl) h.counters hsels rfl

theorem IndexInv.of_reach (h : Reach (Sys.step cfg) (Sys.init cfg) s) : IndexInv cfg s :=
  h.induct (IndexInv.init cfg) fun _ _ _ hr hi hs => hi.step (FollowerInv.of_reach hr) hs

/-- The host has the node index `i` in the map or in the history. -/
def Sys.HasIndex (s : Sys) (host : String) (i : Nat) : Prop :=
  (host, i) ∈ s.history ∨ ∃ j x, s.handler.followers.lookup (host, i, j) = some x

theorem IndexInv.index_unique (h : IndexInv cfg s) {host : String} {i i' : Nat} (hi : s.HasIndex host i)
    (hi' : s.HasIndex host i') : i = i' := by
  -- an index that is only in the map is being recorded, and then every index of the host is the assigned one
  have key : ∀ n, s.HasIndex host n → (host, n) ∈ s.history ∨ s.sync.pc.recording = some (host, n) := by
    rintro n (hn | ⟨j, x, hl⟩)
    · exact .inl hn
    · exact h.map _ x hl
  have recorded : ∀ n n', s.sync.pc.recording = some (host, n) →
      ((host, n') ∈ s.history ∨ s.sync.pc.recording = some (host, n')) → n = n' := by
    intro n n' hr hor
    cases hpc : s.sync.pc <;> simp only [hpc, SyncPc.recording, reduceCtorEq] at hr
    next fs todo free assigned name nidx j freeConns conns =>
      cases hr
      rcases hor with hn' | hr'
      · have hl := h.assigned assigned (by rw [hpc]; rfl) host n' hn'
        rw [h.filing assigned host n (by rw [hpc]; rfl) (by rw [hpc]; rfl)] at hl
        exact Option.some.inj hl
      · simp only [hpc, SyncPc.recording] at hr'
        cases hr'
        rfl
  rcases key i hi with hh | hr
  · rcases key i' hi' with hh' | hr'
    · exact h.unique host i i' hh hh'
    · exact (recorded i' i hr' (.inl hh)).symm
  · exact recorded i i' hr (key i' hi')

/-! ### The shortfall of a host -/

/-- The connections filed under `host`. -/
def hostCount (followers : FollowerMap) (host : String) : Nat := followers.entries.countP fun e => e.1.1 = host

theorem hostCount_le (h : IndexInv cfg s) (hf : FollowerInv cfg s) (host : String) :
    hostCount s.handler.followers host ≤ cfg.connPerNode32 := by
  set mine := s.handler.followers.entries.filter fun e => e.1.1 = host with hmine
  have mem : ∀ e ∈ mine, e.1.1 = host ∧ s.handler.followers.lookup e.1 = some e.2 := by
    intro e he
    obtain ⟨he, hh⟩ := List.mem_filter.1 he
    exact ⟨of_decide_eq_true hh, mem_entries_iff.1 he⟩
  have hnodup : (mine.map (·.1.2.2)).Nodup := by
    refine List.Nodup.map_on ?_ (s.handler.followers.nodupKeys.nodup.filter _)
    rintro ⟨⟨host₁, i₁, j₁⟩, x₁⟩ he₁ ⟨⟨host₂, i₂, j₂⟩, x₂⟩ he₂ hj
    obtain ⟨hh₁, hl₁⟩ := mem _ he₁
    obtain ⟨hh₂, hl₂⟩ := mem _ he₂
    dsimp only at hj hh₁ hh₂ hl₁ hl₂
    rw [hh₁] at hl₁
    rw [hh₂] at hl₂
    have hi : i₁ = i₂ := h.index_unique (.inr ⟨j₁, x₁, hl₁⟩) (.inr ⟨j₂, x₂, hl₂⟩)
    rw [hi, hj, hl₂, Option.some.injEq] at hl₁
    rw [hh₁, hh₂, hi, hj, hl₁]
  have hsub : mine.map (·.1.2.2) ⊆ List.range cfg.connPerNode32 := by
    intro j hj
    obtain ⟨e, he, rfl⟩ := List.mem_map.1 hj
    exact List.mem_range.2 (hf.map _ _ (mem e he).2).2.2
  have hle := (hnodup.subperm hsub).length_le
  rw [List.length_map, List.length_range, hmine, ← List.countP_eq_length_filter] at hle
  exact hle

theorem sum_map_keys {β : Type} {m : AList fun _ : String => β} {hosts : List String} (hp : hosts.Perm m.keys)
    (f : String → Nat) (host : String) (hf : host ∉ m → f host = 0) :
    (hosts.map fun x => if x = host then f x else 0).sum = f host := by
  have hnodup : hosts.Nodup := hp.nodup_iff.2 m.nodupKeys
  have hsum : ∀ l : List String, l.Nodup →
      (l.map fun x => if x = host then f x else 0).sum = if host ∈ l then f host else 0 := by
    intro l hl
    induction l with
    | nil => rfl
    | cons a l ih =>
      obtain ⟨ha, hl⟩ := List.nodup_cons.1 hl
      rw [List.map_cons, List.sum_cons, ih hl]
      by_cases hah : a = host
      · subst hah
        simp [ha]
      · simp [hah, Ne.symm hah]
  rw [hsum hosts hnodup]
  split
  · rfl
  · refine (hf fun hm => ?_).symm
    exact absurd (hp.mem_iff.2 (AList.mem_keys.1 hm)) ‹_›

section
variable {fs : List String} {cur : List (String × Nat)} {required : AList fun _ : String => Nat}

/-- The subtraction underflows for no host that has at most `conn_per_roomzin_node` connections. -/
theorem requiredConns_isSome (fs : List String)
    (hn : ∀ e ∈ cur, cur.countP (·.1 = e.1) ≤ cfg.connPerRoomzinNode) :
    (requiredConns cfg fs cur).isSome = true := by
  have loop : ∀ (l : List (String × Nat)) (acc : AList fun _ : String => Nat), (∀ e ∈ l, e ∈ cur) →
      (l.foldlM (fun req e =>
        let count := cur.countP (·.1 = e.1)
        if cfg.connPerRoomzinNode < count then none
        else if cfg.connPerRoomzinNode - count > 0 then
          some (req.insert e.1 ((cfg.connPerRoomzinNode - count) % 2 ^ 32))
        else some req) acc).isSome = true := by
    intro l
    induction l with
    | nil => exact fun _ _ => rfl
    | cons e l ih =>
      intro acc hl
      have hle := hn e (hl e (List.mem_cons_self ..))
      have hl' : ∀ e ∈ l, e ∈ cur := fun e' he' => hl e' (List.mem_cons_of_mem e he')
      rw [List.foldlM_cons]
      dsimp only
      rw [if_neg (Nat.not_lt.2 hle)]
      split
      · exact ih _ hl'
      · exact ih _ hl'
  exact loop cur _ fun _ he => he

theorem requiredConns_add (hr : requiredConns cfg fs cur = some required) (host : String)
    (hc : cur.countP (·.1 = host) ≤ cfg.connPerNode32) :
    (required.lookup host).getD 0 + cur.countP (·.1 = host) =
      if cur.countP (·.1 = host) = 0 ∧ host ∉ fs then 0 else cfg.connPerNode32 := by
  rw [lookup_requiredConns hr]
  unfold Config.connPerNode32 at hc ⊢
  by_cases h0 : cur.countP (·.1 = host) = 0
  · by_cases hfs : host ∈ fs <;> simp [h0, hfs]
  · have hout : ¬ (cur.countP (·.1 = host) = 0 ∧ host ∉ fs) := fun h => h0 h.1
    rw [if_neg h0, if_neg hout]
    split
    · rw [Option.getD_some]
      omega
    · rw [Option.getD_none]
      omega

end

theorem length_freeConnIds (cfg : Config) (closed : Nat → Bool) (followers : FollowerMap) (name : String) :
    cfg.connPerNode32 ≤ (freeConnIds cfg closed followers name).length +
      followers.entries.countP fun e => e.1.1 = name ∧ closed e.2.id = false := by
  set taken := (followers.entries.filter fun e => e.1.1 = name ∧ closed e.2.id = false).map (·.1.2.2) with htaken
  have hsub : (List.range cfg.connPerNode32).filter (fun i => taken.contains i) ⊆ taken := by
    intro i hi
    exact List.contains_iff_mem.1 (List.mem_filter.1 hi).2
  have hle := ((List.nodup_range.filter _).subperm hsub).length_le
  have hlen : taken.length = followers.entries.countP fun e => e.1.1 = name ∧ closed e.2.id = false := by
    rw [htaken, List.length_map, ← List.countP_eq_length_filter]
  have hsplit := List.length_eq_length_filter_add (l := List.range cfg.connPerNode32) fun i => taken.contains i
  have hfree : (freeConnIds cfg closed followers name).length =
      ((List.range cfg.connPerNode32).filter fun i => !taken.contains i).length := rfl
  rw [List.length_range] at hsplit
  omega

/-- The connections that wait to be filed under `host`. -/
def queued (todo : List (String × List Connection)) (host : String) : Nat :=
  (todo.map fun e => if e.1 = host then e.2.length else 0).sum

theorem queued_cons (name : String) (conns : List Connection) (todo : List (String × List Connection))
    (host : String) :
    queued ((name, conns) :: todo) host = (if name = host then conns.length else 0) + queued todo host := rfl

theorem queued_tail (name : String) (c : Connection) (conns : List Connection)
    (todo : List (String × List Connection)) (host : String) :
    queued ((name, c :: conns) :: todo) host =
      queued ((name, conns) :: todo) host + if name = host then 1 else 0 := by
  rw [queued_cons, queued_cons]
  split
  · rw [List.length_cons]
    omega
  · omega

/-- The connections that the sync task will open, or has opened and not yet filed, for `host`. -/
def SyncPc.pendingCount (pc : SyncPc) (host : String) : Nat :=
  match pc with
  | .connect _ todo new => todo.count host + ((new.lookup host).getD []).length
  | .writeLock _ new => ((new.lookup host).getD []).length
  | .readHistory _ new _ => ((new.lookup host).getD []).length
  | .nextHost _ todo _ _ => queued todo host
  | .insertConn _ todo _ _ name _ _ conns => queued ((name, conns) :: todo) host
  | .recordHistory _ todo _ _ name _ _ _ conns => queued ((name, conns) :: todo) host
  | _ => 0

/-- The connections that are being filed. -/
def SyncPc.filingConns : SyncPc → List Connection
  | .insertConn _ _ _ _ _ _ _ conns => conns
  | .recordHistory _ _ _ _ _ _ _ _ conns => conns
  | _ => []

/-- What `sync_followers` opens for its hosts, counted host by host. -/
theorem count_todo {required : AList fun _ : String => Nat} {hosts : List String} (hp : hosts.Perm required.keys)
    (host : String) :
    (hosts.flatMap fun h => List.replicate ((required.lookup h).getD 0) h).count host =
      (required.lookup host).getD 0 := by
  rw [List.count_flatMap, ← sum_map_keys hp (fun h => (required.lookup h).getD 0) host ?_]
  · congr 1
    refine List.map_congr_left fun h _ => ?_
    simp [List.count_replicate]
  · intro hn
    simp [AList.lookup_eq_none.2 hn]

theorem queued_hosts {new : NewConns} {hosts : List String} (hp : hosts.Perm new.keys) (host : String) :
    queued (hosts.map fun h => (h, (new.lookup h).getD [])) host = ((new.lookup host).getD []).length := by
  rw [queued, List.map_map, ← sum_map_keys hp (fun h => ((new.lookup h).getD []).length) host ?_]
  · rfl
  · intro hn
    simp [AList.lookup_eq_none.2 hn]

theorem length_pushConn (new : NewConns) (name : String) (x : Connection) (host : String) :
    (((pushConn new name x).lookup host).getD []).length =
      ((new.lookup host).getD []).length + if name = host then 1 else 0 := by
  by_cases h : host = name
  · subst h
    simp [pushConn, AList.lookup_insert]
  · simp [pushConn, AList.lookup_insert_ne h, Ne.symm h]

theorem pendingCount_connected (fs : List String) (name : String) (todo : List String) (new : NewConns)
    (x : Connection) (host : String) :
    (SyncPc.connect fs todo (pushConn new name x)).pendingCount host =
      (SyncPc.connect fs (name :: todo) new).pendingCount host := by
  show todo.count host + _ = (name :: todo).count host + _
  rw [length_pushConn, List.count_cons]
  simp only [beq_iff_eq]
  omega

structure ShortfallInv (cfg : Config) (s : Sys) : Prop where
  room : ∀ host, s.sync.pc.pendingCount host + hostCount s.handler.followers host ≤ cfg.connPerNode32
  slots : s.sync.pc.filingConns.length ≤ s.sync.pc.freeConns.length
  alive : s.sync.pc ≠ .panicked

theorem ShortfallInv.shrink (h : ShortfallInv cfg s)
    (hm : ∀ host, hostCount s'.handler.followers host ≤ hostCount s.handler.followers host)
    (hp : ∀ host, s'.sync.pc.pendingCount host ≤ s.sync.pc.pendingCount host)
    (hc : s'.sync.pc.filingConns.length ≤ s'.sync.pc.freeConns.length) (ha : s'.sync.pc ≠ .panicked) :
    ShortfallInv cfg s' :=
  ⟨fun host => (Nat.add_le_add (hp host) (hm host)).trans (h.room host), hc, ha⟩

theorem hostCount_insert_le (followers : FollowerMap) (key : String × Nat × Nat) (x : Connection) (host : String) :
    hostCount (followers.insert key x) host ≤ hostCount followers host + if key.1 = host then 1 else 0 := by
  have hle : hostCount (followers.erase key) host ≤ hostCount followers host := countP_erase_le _ _ _
  have heq : hostCount (followers.insert key x) host =
      hostCount (followers.erase key) host + if key.1 = host then 1 else 0 := by
    rw [hostCount, hostCount, countP_insert]
    simp only [decide_eq_true_eq]
  omega

theorem SelMove.hostCount_le {closed : Nat → Bool} {now : Nat} {h h' : Handler} {pc pc' : SelPc}
    (hb : SelMove cfg closed now h pc h' pc') (host : String) :
    hostCount h'.followers host ≤ hostCount h.followers host := by
  cases hb with
  | fClean left node j tried c start => exact countP_erase_le _ _ _
  | _ => exact Nat.le_refl _

theorem countP_snapshot (followers : FollowerMap) (host : String) :
    (followers.entries.map fun e => (e.1.1, e.1.2.1)).countP (fun e : String × Nat => e.1 = host) =
      hostCount followers host := by
  rw [List.countP_map]
  rfl

theorem requiredConns_snapshot (hi : IndexInv cfg s) (hf : FollowerInv cfg s) (fs : List String) :
    (requiredConns cfg fs (s.handler.followers.entries.map fun e => (e.1.1, e.1.2.1))).isSome = true := by
  refine requiredConns_isSome fs fun e _ => ?_
  rw [countP_snapshot]
  exact (hostCount_le hi hf e.1).trans (Nat.mod_le _ _)

theorem ShortfallInv.sync {i : SyncInput} {handler : Handler} {pc' : SyncPc} (h : ShortfallInv cfg s)
    (hi : IndexInv cfg s) (hf : FollowerInv cfg s)
    (hb : SyncMove cfg s.closed s.mux.conns.length s.handler s.sync.pc i handler pc')
    (hs : s'.handler = handler) (hp : s'.sync.pc = pc') : ShortfallInv cfg s' := by
  have room := h.room
  have slots := h.slots
  generalize hpc : s.sync.pc = pc at hb room slots
  have same : handler.followers = s.handler.followers → (∀ host, pc'.pendingCount host ≤ pc.pendingCount host) →
      pc'.filingConns.length ≤ pc'.freeConns.length → pc' ≠ .panicked → ShortfallInv cfg s' := by
    intro hfo hle hc ha
    refine h.shrink (fun host => ?_) (fun host => ?_) (by rw [hp]; exact hc) (by rw [hp]; exact ha)
    · rw [hs, hfo]
    · rw [hp, hpc]
      exact hle host
  cases hb with
  | overflow fs hosts hr =>
    have hsome := requiredConns_snapshot hi hf fs
    rw [hr] at hsome
    cases hsome
  | snapshot fs hosts required hr hperm =>
    refine ⟨fun host => ?_, by simp [hp, SyncPc.filingConns], by simp [hp]⟩
    have hle := hostCount_le hi hf host
    have hadd := requiredConns_add hr host (by rw [countP_snapshot]; exact hle)
    rw [hp, hs]
    show List.count host _ + 0 + _ ≤ _
    rw [count_todo hperm, Nat.add_zero, ← countP_snapshot, hadd]
    split
    · exact Nat.zero_le _
    · exact Nat.le_refl _
  | connected fs host' todo new =>
    exact same rfl (fun host => (pendingCount_connected ..).le) (Nat.le_refl _) (by simp)
  | connectFailed fs host' todo new =>
    refine same rfl (fun host => ?_) (Nat.le_refl _) (by simp)
    show todo.count host + _ ≤ (host' :: todo).count host + _
    exact Nat.add_le_add_right (List.count_le_count_cons ..) _
  | connectDone fs new => exact same rfl (fun host => Nat.le_add_left _ _) (Nat.le_refl _) (by simp)
  | writeLock fs new => exact same rfl (fun host => Nat.le_refl _) (Nat.le_refl _) (by simp)
  | readHistory fs hosts new free hperm =>
    exact same rfl (fun host => Nat.le_of_eq (queued_hosts hperm host)) (Nat.le_refl _) (by simp)
  | assign fs name conns todo free free' assigned assigned' nidx ha =>
    refine same rfl (fun host => Nat.le_refl _) ?_ (by simp)
    show conns.length ≤ (freeConnIds cfg s.closed s.handler.followers name).length
    have hfree := length_freeConnIds cfg s.closed s.handler.followers name
    have hopen : (s.handler.followers.entries.countP fun e => e.1.1 = name ∧ s.closed e.2.id = false) ≤
        hostCount s.handler.followers name := List.countP_mono_left (by simp +contextual)
    have hroom : queued ((name, conns) :: todo) name + hostCount s.handler.followers name ≤ cfg.connPerNode32 :=
      room name
    rw [queued_cons, if_pos rfl] at hroom
    omega
  | noIndex fs name conns todo free assigned ha =>
    exact same rfl (fun host => Nat.le_add_left _ _) (Nat.le_refl _) (by simp)
  | hostDone fs todo free assigned name nidx freeConns =>
    exact same rfl (fun host => Nat.le_add_left _ _) (Nat.le_refl _) (by simp)
  | noConnIndex fs todo free assigned name nidx c conns =>
    simp [SyncPc.filingConns, SyncPc.freeConns] at slots
  | insertConn fs todo free assigned name nidx j freeConns c conns =>
    refine ⟨fun host => ?_, ?_, by simp [hp]⟩
    · have hins := hostCount_insert_le s.handler.followers (name, nidx, j) c host
      have hroom : queued ((name, c :: conns) :: todo) host + hostCount s.handler.followers host ≤ cfg.connPerNode32 :=
        room host
      rw [hp, hs]
      show queued ((name, conns) :: todo) host + hostCount (s.handler.followers.insert (name, nidx, j) c) host ≤ _
      rw [queued_tail] at hroom
      dsimp only at hins
      omega
    · rw [hp]
      exact Nat.le_of_succ_le_succ slots
  | recordHistory fs todo free assigned name nidx j freeConns conns =>
    exact same rfl (fun host => Nat.le_refl _) slots (by simp)
  | fastFollowers anyLeader _ hor =>
    rcases hor with rfl | rfl <;> exact same rfl (fun host => Nat.zero_le _) (Nat.le_refl _) (by simp)
  | _ => exact same rfl (fun host => Nat.zero_le _) (Nat.le_refl _) (by simp)

theorem ShortfallInv.step (h : ShortfallInv cfg s) (hi : IndexInv cfg s) (hf : FollowerInv cfg s)
    (hs : s.step cfg l = some s') : ShortfallInv cfg s' := by
  cases Sys.Move.of_step hs with
  | sel k sel handler pc' hk hw hb => exact h.shrink hb.hostCount_le (fun _ => Nat.le_refl _) h.slots h.alive
  | sync i handler pc' hw hb => exact h.sync hi hf hb rfl rfl
  | rehashFollowers followers hperm =>
    exact h.shrink (fun host => Nat.le_of_eq (hperm.countP_eq _)) (fun _ => Nat.le_refl _) h.slots h.alive
  | _ => exact h.shrink (fun _ => Nat.le_refl _) (fun _ => Nat.le_refl _) h.slots h.alive

theorem ShortfallInv.of_reach (h : Reach (Sys.step cfg) (Sys.init cfg) s) : ShortfallInv cfg s := by
  refine h.induct ⟨?_, ?_, ?_⟩ fun _ _ _ hr hi hs => hi.step (IndexInv.of_reach hr) (FollowerInv.of_reach hr) hs
  · simp [Sys.init, Handler.new, SyncPc.pendingCount, hostCount]
  · simp [Sys.init, SyncPc.filingConns]
  · simp [Sys.init]

/-- In every state that the pools can reach: a host has one node index, in the map and in the history;
a node of the map is in the history, or `sync_followers`, holding the map, is about to put it there;
connection indices and counters are below `conn_per_roomzin_node`; and the sync task does not panic, nor
would it on a snapshot taken now. -/
theorem follower_indices_consistent (h : Reach (Sys.step cfg) (Sys.init cfg) s) :
    (∀ host i i', s.HasIndex host i → s.HasIndex host i' → i = i') ∧
    (∀ key x, s.handler.followers.lookup key = some x →
      ((key.1, key.2.1) ∈ s.history ∨
        s.sync.pc.recording = some (key.1, key.2.1) ∧ (.followers, .write) ∈ s.holds .sync) ∧
      key.2.2 < cfg.connPerRoomzinNode) ∧
    (∀ node counter, s.history.lookup node = some counter → counter < cfg.connPerRoomzinNode) ∧
    (∀ fs, requiredConns cfg fs (s.handler.followers.entries.map fun e => (e.1.1, e.1.2.1)) ≠ none) ∧
    s.sync.pc.filingConns.length ≤ s.sync.pc.freeConns.length ∧
    s.sync.pc ≠ .panicked := by
  have hf := FollowerInv.of_reach h
  have hi := IndexInv.of_reach h
  have hsh := ShortfallInv.of_reach h
  have hle : cfg.connPerNode32 ≤ cfg.connPerRoomzinNode := Nat.mod_le _ _
  refine ⟨fun _ _ _ => hi.index_unique, fun key x hl => ⟨?_, ?_⟩, ?_, fun fs => ?_, hsh.slots, hsh.alive⟩
  · refine (hi.map key x hl).imp_right fun hr => ⟨hr, ?_⟩
    cases hpc : s.sync.pc <;> simp only [hpc, SyncPc.recording, reduceCtorEq] at hr
    simp [Sys.holds, Sync.holds, hpc, SyncPc.outer]
  · exact (hf.map key x hl).2.2.trans_le hle
  · exact fun node counter hl => (hi.counters node counter hl).trans_le hle
  · exact Option.isSome_iff_ne_none.1 (requiredConns_snapshot hi hf fs)

/-- A read takes the closed connection of `a` out of the map while `sync_followers` opens one to `c`. -/
theorem follower_indices_consistent_cleaned : ∃ s,
    exec (Sys.step {}) (Sys.init {}) (Sys.leaderDown "l" ["a", "b"] true ++
      Sys.followersUp [("a", true), ("b", true)] ++ [.mux (.readEnd 0), .mux (.readerStop 0)] ++
      Sys.leaderDown "l" ["a", "b", "c"] false ++ (Sys.followersUp [("c", true)]).take 2 ++
      Sys.readCall 0 (prependHeader 7 [1]) ++ [.acquire (.call 0), .sel 0, .sel 0, .acquire (.call 0), .sel 0,
        .acquire (.call 0), .sel 0, .sel 0] ++ (Sys.followersUp [("c", true)]).drop 2) = some s ∧
    s.handler.followers.keys = [("c", 2, 0), ("b", 0, 0)] ∧ s.history.keys = [("c", 2), ("b", 0), ("a", 1)] ∧
    (∀ node counter, s.history.lookup node = some counter → counter < 1) ∧ s.sync.pc ≠ .panicked := by
  obtain ⟨s, hs, hr, hp⟩ := Reach.of_any (Sys.step {}) (Sys.init {})
    (Sys.leaderDown "l" ["a", "b"] true ++
      Sys.followersUp [("a", true), ("b", true)] ++ [.mux (.readEnd 0), .mux (.readerStop 0)] ++
      Sys.leaderDown "l" ["a", "b", "c"] false ++ (Sys.followersUp [("c", true)]).take 2 ++
      Sys.readCall 0 (prependHeader 7 [1]) ++ [.acquire (.call 0), .sel 0, .sel 0, .acquire (.call 0), .sel 0,
        .acquire (.call 0), .sel 0, .sel 0] ++ (Sys.followersUp [("c", true)]).drop 2)
    (fun s => decide (s.handler.followers.keys = [("c", 2, 0), ("b", 0, 0)] ∧
      s.history.keys = [("c", 2), ("b", 0), ("a", 1)])) (by decide +kernel)
  obtain ⟨hkeys, hhist⟩ := of_decide_eq_true hp
  obtain ⟨-, -, hcounters, -, -, halive⟩ := follower_indices_consistent hr
  exact ⟨s, hs, hkeys, hhist, hcounters, halive⟩

/-- Between the insertion and the entry into the history, the node of a connection is not in the history. -/
theorem inserted_before_recorded : ∃ s key x, Reach (Sys.step {}) (Sys.init {}) s ∧
    s.handler.followers.lookup key = some x ∧ (key.1, key.2.1) ∉ s.history := by
  obtain ⟨s, -, hr, hp⟩ := Reach.of_any (Sys.step {}) (Sys.init {})
    (Sys.leaderDown "l" ["a"] true ++ (Sys.followersUp [("a", true)]).take 10)
    (fun s => decide (s.handler.followers.lookup ("a", 0, 0) = some ⟨0, "a"⟩ ∧ ("a", 0) ∉ s.history))
    (by decide +kernel)
  obtain ⟨hl, hn⟩ := of_decide_eq_true hp
  exact ⟨s, ("a", 0, 0), ⟨0, "a"⟩, hr, hl, hn⟩

end RzBridge
