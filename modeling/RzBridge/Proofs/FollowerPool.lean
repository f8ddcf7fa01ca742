import RzBridge.Lib.Assoc
import RzBridge.Proofs.SysStep

/-!
# The follower map

`FollowerInv`: an entry of the map is a connection to the host it is filed under, with a connection
index that the selection can reach; so are the connections that `sync_followers` has opened and not
filed yet. `NodeInv`: the node indices are 32-bit numbers. `HostsIn fs` follows the hosts of the map
through `sync_followers(fs)`: the code adds the hosts of `fs` and tops up the hosts it already has,
but takes none out, so the map keeps within `fs` exactly as long as it was within `fs` when the sync
began.
-/

namespace RzBridge
open Machine Assoc

variable {cfg : Config} {s s' : Sys} {l : SysLabel}

/-- The sync task holds the connections `conns`, opened for the host `name`. -/
def SyncPc.opened (pc : SyncPc) (name : String) (conns : List Connection) : Prop :=
  match pc with
  | .connect _ _ new => new.lookup name = some conns
  | .writeLock _ new => new.lookup name = some conns
  | .readHistory _ new _ => new.lookup name = some conns
  | .nextHost _ todo _ _ => (name, conns) ∈ todo
  | .insertConn _ todo _ _ host _ _ cs => (name, conns) = (host, cs) ∨ (name, conns) ∈ todo
  | .recordHistory _ todo _ _ host _ _ _ cs => (name, conns) = (host, cs) ∨ (name, conns) ∈ todo
  | _ => False

/-- The connection indices that the sync task is about to use. -/
def SyncPc.freeConns : SyncPc → List Nat
  | .insertConn _ _ _ _ _ _ freeConns _ => freeConns
  | .recordHistory _ _ _ _ _ _ _ freeConns _ => freeConns
  | _ => []

structure FollowerInv (cfg : Config) (s : Sys) : Prop where
  map : ∀ key x, s.handler.followers.lookup key = some x →
    x.addr = key.1 ∧ s.Valid x ∧ key.2.2 < cfg.connPerNode32
  opened : ∀ name conns, s.sync.pc.opened name conns → ∀ x ∈ conns, x.addr = name ∧ s.Valid x
  free : ∀ j ∈ s.sync.pc.freeConns, j < cfg.connPerNode32

theorem FollowerInv.init (cfg : Config) : FollowerInv cfg (Sys.init cfg) := by
  refine ⟨?_, ?_, ?_⟩ <;> simp [Sys.init, Handler.new, SyncPc.opened, SyncPc.freeConns]

theorem SelMove.followers {closed : Nat → Bool} {now : Nat} {h h' : Handler} {pc pc' : SelPc}
    (hb : SelMove cfg closed now h pc h' pc') {key : String × Nat × Nat} {x : Connection}
    (hl : h'.followers.lookup key = some x) : h.followers.lookup key = some x := by
  cases hb with
  | fClean left node j tried c start => exact (lookup_erase_iff.1 hl).2
  | _ => exact hl

theorem FollowerInv.shrink (h : FollowerInv cfg s)
    (hm : ∀ key x, s'.handler.followers.lookup key = some x → s.handler.followers.lookup key = some x)
    (ho : ∀ name conns, s'.sync.pc.opened name conns → s.sync.pc.opened name conns)
    (hf : ∀ j ∈ s'.sync.pc.freeConns, j ∈ s.sync.pc.freeConns) (hv : ∀ x, s.Valid x → s'.Valid x) :
    FollowerInv cfg s' := by
  refine ⟨fun key x hl => ?_, fun name conns hn x hx => ?_, fun j hj => h.free j (hf j hj)⟩
  · obtain ⟨ha, hx, hj⟩ := h.map key x (hm key x hl)
    exact ⟨ha, hv x hx, hj⟩
  · exact (h.opened name conns (ho name conns hn) x hx).imp_right (hv x)

theorem mem_pushConn {new : NewConns} {host name : String} {y x : Connection} {conns : List Connection}
    (h : (pushConn new host y).lookup name = some conns) (hx : x ∈ conns) :
    name = host ∧ x = y ∨ ∃ cs, new.lookup name = some cs ∧ x ∈ cs := by
  rcases lookup_insert_iff.1 h with ⟨rfl, rfl⟩ | ⟨-, h⟩
  · rcases List.mem_append.1 hx with hx | hx
    · cases hn : new.lookup name with
      | none => simp [hn] at hx
      | some cs => exact .inr ⟨cs, rfl, by simpa [hn] using hx⟩
    · exact .inl ⟨rfl, List.mem_singleton.1 hx⟩
  · exact .inr ⟨conns, h, hx⟩

theorem FollowerInv.sync {i : SyncInput} {handler : Handler} {pc' : SyncPc} (h : FollowerInv cfg s)
    (hb : SyncMove cfg s.closed s.mux.conns.length s.handler s.sync.pc i handler pc')
    (hv : ∀ x, s.Valid x → s'.Valid x) (hs : s'.handler = handler) (hp : s'.sync.pc = pc')
    (hm : s'.mux = Sys.syncMux s.mux s.sync.pc i) : FollowerInv cfg s' := by
  generalize hpc : s.sync.pc = pc at hb hm
  have map := fun key x hl => (h.map key x hl).imp_right (And.imp_left (hv x))
  have opened := fun name conns hn x hx => (h.opened name conns hn x hx).imp_right (hv x)
  have free := h.free
  rw [hpc] at opened free
  cases hb with
  | connected fs host todo new =>
    refine ⟨by rw [hs]; exact map, ?_, by simp [hp, SyncPc.freeConns]⟩
    rw [hp]
    intro name conns hn x hx
    rcases mem_pushConn hn hx with ⟨rfl, rfl⟩ | ⟨cs, hcs, hx⟩
    · refine ⟨rfl, { addr := name }, ?_, rfl⟩
      rw [hm]
      simp [Sys.syncMux]
    · exact opened name cs hcs x hx
  | snapshot fs hosts required hr hperm =>
    exact ⟨by rw [hs]; exact map, by simp [hp, SyncPc.opened], by simp [hp, SyncPc.freeConns]⟩
  | readHistory fs hosts new free hperm =>
    refine ⟨by rw [hs]; exact map, ?_, by simp [hp, SyncPc.freeConns]⟩
    rw [hp]
    intro name conns hn x hx
    obtain ⟨host, -, he⟩ := List.mem_map.1 hn
    simp only [Prod.mk.injEq] at he
    obtain ⟨rfl, rfl⟩ := he
    cases hl : new.lookup host with
    | none => simp [hl] at hx
    | some cs => exact opened host cs hl x (by simpa [hl] using hx)
  | assign fs name conns todo free free' assigned assigned' nidx ha =>
    refine ⟨by rw [hs]; exact map, ?_, ?_⟩
    · rw [hp]
      exact fun n cs hn => opened n cs (List.mem_cons.2 hn)
    · rw [hp]
      intro j hj
      exact List.mem_range.1 (List.mem_filter.1 hj).1
  | noIndex fs name conns todo free assigned ha =>
    refine ⟨by rw [hs]; exact map, ?_, by simp [hp, SyncPc.freeConns]⟩
    rw [hp]
    exact fun n cs hn => opened n cs (List.mem_cons_of_mem _ hn)
  | hostDone fs todo free assigned name nidx freeConns =>
    refine ⟨by rw [hs]; exact map, ?_, by simp [hp, SyncPc.freeConns]⟩
    rw [hp]
    exact fun n cs hn => opened n cs (.inr hn)
  | insertConn fs todo free assigned name nidx j freeConns c conns =>
    refine ⟨?_, ?_, ?_⟩
    · rw [hs]
      intro key x hl
      rcases lookup_insert_iff.1 hl with ⟨rfl, rfl⟩ | ⟨-, hl⟩
      · obtain ⟨ha, hx⟩ := opened name (c :: conns) (.inl rfl) c (by simp)
        exact ⟨ha, hx, free j (by simp [SyncPc.freeConns])⟩
      · exact map key x hl
    · rw [hp]
      rintro n cs (he | hn) x hx
      · cases he
        exact opened name (c :: conns) (.inl rfl) x (List.mem_cons_of_mem _ hx)
      · exact opened n cs (.inr hn) x hx
    · rw [hp]
      exact fun j' hj' => free j' (List.mem_cons_of_mem _ hj')
  | connectDone fs new => exact ⟨by rw [hs]; exact map, by rw [hp]; exact opened, by simp [hp, SyncPc.freeConns]⟩
  | connectFailed fs host todo new =>
    exact ⟨by rw [hs]; exact map, by rw [hp]; exact opened, by simp [hp, SyncPc.freeConns]⟩
  | writeLock fs new => exact ⟨by rw [hs]; exact map, by rw [hp]; exact opened, by simp [hp, SyncPc.freeConns]⟩
  | recordHistory fs todo free' assigned name nidx j freeConns conns =>
    exact ⟨by rw [hs]; exact map, by rw [hp]; exact opened, by rw [hp]; exact free⟩
  | fastFollowers anyLeader _ hor =>
    rcases hor with rfl | rfl <;>
      exact ⟨by rw [hs]; exact map, by simp [hp, SyncPc.opened], by simp [hp, SyncPc.freeConns]⟩
  | _ => exact ⟨by rw [hs]; exact map, by simp [hp, SyncPc.opened], by simp [hp, SyncPc.freeConns]⟩

theorem FollowerInv.step (h : FollowerInv cfg s) (hs : s.step cfg l = some s') : FollowerInv cfg s' := by
  have hv : ∀ x, s.Valid x → s'.Valid x := fun x hx => hx.step hs
  cases Sys.Move.of_step hs with
  | sel k sel handler pc' hk hw hb =>
    exact h.shrink (fun _ _ hl => hb.followers hl) (fun _ _ hn => hn) (fun _ hj => hj) hv
  | sync i handler pc' hw hb => exact h.sync hb hv rfl rfl rfl
  | rehashFollowers followers hperm =>
    refine h.shrink (fun key x hl => ?_) (fun _ _ hn => hn) (fun _ hj => hj) hv
    exact (AList.perm_lookup hperm).symm.trans hl
  | _ => exact h.shrink (fun _ _ hl => hl) (fun _ _ hn => hn) (fun _ hj => hj) hv

theorem FollowerInv.of_reach (h : Reach (Sys.step cfg) (Sys.init cfg) s) : FollowerInv cfg s :=
  h.induct (FollowerInv.init cfg) fun _ _ _ _ hi hs => hi.step hs

/-! ### The node indices -/

/-- The sync task may still file connections under the node index `i`. -/
def SyncPc.hasNode (pc : SyncPc) (i : Nat) : Prop :=
  match pc with
  | .readHistory _ _ free => i ∈ free
  | .nextHost _ _ free assigned => i ∈ free ∨ ∃ name, assigned.lookup name = some i
  | .insertConn _ _ free assigned _ nidx _ _ => i = nidx ∨ i ∈ free ∨ ∃ name, assigned.lookup name = some i
  | .recordHistory _ _ free assigned _ nidx _ _ _ => i = nidx ∨ i ∈ free ∨ ∃ name, assigned.lookup name = some i
  | _ => False

/-- Node indices are `u32`s: in the map, in the history and in the sync task's hands. -/
structure NodeInv (s : Sys) : Prop where
  map : ∀ key x, s.handler.followers.lookup key = some x → key.2.1 < 2 ^ 32
  history : ∀ node ∈ s.handler.loadBalancer.followerHistory, node.2 < 2 ^ 32
  task : ∀ i, s.sync.pc.hasNode i → i < 2 ^ 32

theorem SelMove.history {closed : Nat → Bool} {now : Nat} {h h' : Handler} {pc pc' : SelPc}
    (hb : SelMove cfg closed now h pc h' pc') {node : String × Nat}
    (hn : node ∈ h'.loadBalancer.followerHistory) :
    node ∈ h.loadBalancer.followerHistory ∨ ∃ j c, h.followers.lookup (node.1, node.2, j) = some c := by
  cases hb with
  | fFound left node' j tried c ht hl hc =>
    simp only [LoadBalancer.chosen] at hn
    split at hn
    · exact .inl (AList.mem_replace.1 hn)
    · rcases (AList.mem_insert _).1 hn with rfl | hn
      · exact .inr ⟨j, c, hl⟩
      · exact .inl hn
  | _ => exact .inl hn

theorem assignedNodeIds_lookup {history : FollowerHistory} {name : String} {i : Nat}
    (h : (assignedNodeIds history).lookup name = some i) : (name, i) ∈ history := by
  rw [assignedNodeIds, lookup_foldl_insert, AList.lookup_empty, Option.or_none, Option.map_eq_some_iff] at h
  obtain ⟨⟨⟨host, idx⟩, counter⟩, hfind, rfl⟩ := h
  have hmem := List.mem_reverse.1 (List.mem_of_find?_eq_some hfind)
  obtain rfl : host = name := by simpa using List.find?_some hfind
  exact mem_of_lookup (mem_entries_iff.1 hmem)

/-- A host gets the index that it has in the map, else the one assigned to it, else the last of the free
ones, which is then assigned to it. -/
theorem assignNode_some {followers : FollowerMap} {name : String} {free free' : List Nat}
    {assigned assigned' : AList fun _ : String => Nat} {nidx : Nat}
    (h : assignNode followers name free assigned = some (nidx, free', assigned')) :
    ((∃ j c, followers.lookup (name, nidx, j) = some c) ∨ assigned.lookup name = some nidx) ∧
        free' = free ∧ assigned' = assigned ∨
      assigned.lookup name = none ∧ free = free' ++ [nidx] ∧ assigned' = assigned.insert name nidx := by
  simp only [assignNode] at h
  split at h
  next hne =>
    cases h
    refine .inl ⟨.inl ?_, rfl, rfl⟩
    unfold mapNodeIdx at hne ⊢
    cases hf : followers.entries.find? fun e => e.1.1 = name with
    | none => simp [hf] at hne
    | some e =>
      obtain ⟨⟨host, idx, j⟩, c⟩ := e
      have hhost : host = name := by simpa using List.find?_some hf
      refine ⟨j, c, ?_⟩
      rw [← hhost]
      exact mem_entries_iff.1 (List.mem_of_find?_eq_some hf)
  next =>
    split at h
    next idx hl =>
      cases h
      exact .inl ⟨.inr hl, rfl, rfl⟩
    next hnone =>
      split at h
      next idx hlast =>
        cases h
        exact .inr ⟨hnone, (List.dropLast_append_getLast? _ hlast).symm, rfl⟩
      next => cases h

theorem NodeInv.sync {i : SyncInput} {handler : Handler} {pc' : SyncPc} (h : NodeInv s)
    (hb : SyncMove cfg s.closed s.mux.conns.length s.handler s.sync.pc i handler pc')
    (hs : s'.handler = handler) (hp : s'.sync.pc = pc') : NodeInv s' := by
  generalize hpc : s.sync.pc = pc at hb
  have task := h.task
  rw [hpc] at task
  cases hb with
  | writeLock fs new =>
    refine ⟨by rw [hs]; exact h.map, by rw [hs]; exact h.history, ?_⟩
    rw [hp]
    intro i hi
    have hlt : i < fs.length % 2 ^ 32 := List.mem_range.1 (List.mem_filter.1 hi).1
    omega
  | readHistory fs hosts new free hperm =>
    refine ⟨by rw [hs]; exact h.map, by rw [hs]; exact h.history, ?_⟩
    rw [hp]
    rintro i (hi | ⟨name, hl⟩)
    · exact task i hi
    · exact h.history _ (assignedNodeIds_lookup hl)
  | assign fs name conns todo free free' assigned assigned' nidx ha =>
    refine ⟨by rw [hs]; exact h.map, by rw [hs]; exact h.history, ?_⟩
    rw [hp]
    rcases assignNode_some ha with ⟨hnidx, rfl, rfl⟩ | ⟨-, rfl, rfl⟩
    · rintro i (rfl | hi | hl)
      · rcases hnidx with ⟨j, c, hl⟩ | hl
        · exact h.map _ c hl
        · exact task i (.inr ⟨name, hl⟩)
      · exact task i (.inl hi)
      · exact task i (.inr hl)
    · have hlast : nidx < 2 ^ 32 := task nidx (.inl (by simp))
      rintro i (rfl | hi | ⟨n, hl⟩)
      · exact hlast
      · exact task i (.inl (List.mem_append_left _ hi))
      · rcases lookup_insert_iff.1 hl with ⟨-, rfl⟩ | ⟨-, hl⟩
        · exact hlast
        · exact task i (.inr ⟨n, hl⟩)
  | noIndex fs name conns todo free assigned ha =>
    exact ⟨by rw [hs]; exact h.map, by rw [hs]; exact h.history, by rw [hp]; exact task⟩
  | hostDone fs todo free assigned name nidx freeConns =>
    exact ⟨by rw [hs]; exact h.map, by rw [hs]; exact h.history, by rw [hp]; exact fun i hi => task i (.inr hi)⟩
  | insertConn fs todo free assigned name nidx j freeConns c conns =>
    refine ⟨?_, by rw [hs]; exact h.history, by rw [hp]; exact task⟩
    rw [hs]
    intro key x hl
    rcases lookup_insert_iff.1 hl with ⟨rfl, -⟩ | ⟨-, hl⟩
    · exact task nidx (.inl rfl)
    · exact h.map key x hl
  | recordHistory fs todo free assigned name nidx j freeConns conns =>
    refine ⟨by rw [hs]; exact h.map, ?_, by rw [hp]; exact task⟩
    rw [hs]
    intro node hn
    rcases mem_orInsert.1 hn with rfl | hn
    · exact task nidx (.inl rfl)
    · exact h.history node hn
  | fastFollowers anyLeader _ hor =>
    rcases hor with rfl | rfl <;>
      exact ⟨by rw [hs]; exact h.map, by rw [hs]; exact h.history, by simp [hp, SyncPc.hasNode]⟩
  | _ => exact ⟨by rw [hs]; exact h.map, by rw [hs]; exact h.history, by simp [hp, SyncPc.hasNode]⟩

theorem NodeInv.step (h : NodeInv s) (hs : s.step cfg l = some s') : NodeInv s' := by
  cases Sys.Move.of_step hs with
  | sel k sel handler pc' hk hw hb =>
    refine ⟨fun key x hl => h.map key x (hb.followers hl), fun node hn => ?_, h.task⟩
    rcases hb.history hn with hn | ⟨j, c, hl⟩
    · exact h.history node hn
    · exact h.map _ c hl
  | sync i handler pc' hw hb => exact h.sync hb rfl rfl
  | rehashHistory history hperm =>
    refine ⟨h.map, fun node hn => h.history node ?_, h.task⟩
    exact (AList.mem_of_perm hperm).1 hn
  | rehashFollowers followers hperm =>
    exact ⟨fun key x hl => h.map key x ((AList.perm_lookup hperm).symm.trans hl), h.history, h.task⟩
  | _ => exact ⟨h.map, h.history, h.task⟩

theorem NodeInv.of_reach (h : Reach (Sys.step cfg) (Sys.init cfg) s) : NodeInv s := by
  refine h.induct ⟨?_, ?_, ?_⟩ fun _ _ _ _ hi hs => hi.step hs
  · simp [Sys.init, Handler.new]
  · simp [Sys.init, Handler.new]
  · simp [Sys.init, SyncPc.hasNode]

/-! ### The hosts of the map -/

/-- Every host with a connection in the map is in `fs`. -/
def Sys.HostsIn (s : Sys) (fs : List String) : Prop :=
  ∀ key x, s.handler.followers.lookup key = some x → key.1 ∈ fs

/-- The list that `sync_followers` works on, from its snapshot of the map to its end. -/
def SyncPc.target : SyncPc → Option (List String)
  | .connect fs _ _ => some fs
  | .writeLock fs _ => some fs
  | .readHistory fs _ _ => some fs
  | .nextHost fs _ _ _ => some fs
  | .insertConn fs _ _ _ _ _ _ _ => some fs
  | .recordHistory fs _ _ _ _ _ _ _ _ => some fs
  | _ => none

/-- The hosts that the sync task will still file connections under. -/
def SyncPc.pending (pc : SyncPc) (name : String) : Prop :=
  (∃ conns, pc.opened name conns) ∨ ∃ fs todo new, pc = .connect fs todo new ∧ name ∈ todo

theorem SyncMove.pending {closed : Nat → Bool} {fresh : Nat} {h h' : Handler} {pc pc' : SyncPc} {i : SyncInput}
    {fs fs' : List String} (hb : SyncMove cfg closed fresh h pc i h' pc') (ht : pc.target = some fs)
    (ht' : pc'.target = some fs') : ∀ name, pc'.pending name → pc.pending name := by
  cases hb with
  | connectDone fs new =>
    rintro name (hn | ⟨_, _, _, he, _⟩)
    · exact .inl hn
    · cases he
  | connected fs host todo new =>
    rintro name (⟨conns, hn⟩ | ⟨_, _, _, he, hn⟩)
    · rcases lookup_insert_iff.1 hn with ⟨rfl, -⟩ | ⟨-, hn⟩
      · exact .inr ⟨fs, name :: todo, new, rfl, List.mem_cons_self ..⟩
      · exact .inl ⟨conns, hn⟩
    · cases he
      exact .inr ⟨fs, host :: todo, new, rfl, List.mem_cons_of_mem _ hn⟩
  | connectFailed fs host todo new =>
    rintro name (hn | ⟨_, _, _, he, hn⟩)
    · exact .inl hn
    · cases he
      exact .inr ⟨fs, host :: todo, new, rfl, List.mem_cons_of_mem _ hn⟩
  | writeLock fs new =>
    rintro name (hn | ⟨_, _, _, he, _⟩)
    · exact .inl hn
    · cases he
  | readHistory fs hosts new free hperm =>
    rintro name (⟨conns, hn⟩ | ⟨_, _, _, he, _⟩)
    · obtain ⟨host, hhost, he⟩ := List.mem_map.1 hn
      simp only [Prod.mk.injEq] at he
      obtain ⟨rfl, -⟩ := he
      obtain ⟨cs, hcs⟩ := exists_lookup (AList.mem_keys.2 (hperm.mem_iff.1 hhost))
      exact .inl ⟨cs, hcs⟩
    · cases he
  | assign fs name conns todo free free' assigned assigned' nidx ha =>
    rintro n (⟨cs, hn⟩ | ⟨_, _, _, he, _⟩)
    · exact .inl ⟨cs, List.mem_cons.2 hn⟩
    · cases he
  | noIndex fs name conns todo free assigned ha =>
    rintro n (⟨cs, hn⟩ | ⟨_, _, _, he, _⟩)
    · exact .inl ⟨cs, List.mem_cons_of_mem _ hn⟩
    · cases he
  | hostDone fs todo free assigned name nidx freeConns =>
    rintro n (⟨cs, hn⟩ | ⟨_, _, _, he, _⟩)
    · exact .inl ⟨cs, .inr hn⟩
    · cases he
  | insertConn fs todo free assigned name nidx j freeConns c conns =>
    rintro n (⟨cs, he | hn⟩ | ⟨_, _, _, he, _⟩)
    · cases he
      exact .inl ⟨c :: conns, .inl rfl⟩
    · exact .inl ⟨cs, .inr hn⟩
    · cases he
  | recordHistory fs todo free assigned name nidx j freeConns conns =>
    rintro n (⟨cs, hn⟩ | ⟨_, _, _, he, _⟩)
    · exact .inl ⟨cs, hn⟩
    · cases he
  | allDone fs free assigned => cases ht'
  | noConnIndex fs todo free assigned name nidx c conns => cases ht'
  | _ => cases ht

structure HostsInv (s : Sys) : Prop where
  during : ∀ fs, s.sync.pc.target = some fs →
    s.sync.synced = none ∧ s.HostsIn fs ∧ ∀ name, s.sync.pc.pending name → name ∈ fs
  synced : ∀ fs, s.sync.synced = some fs → s.HostsIn fs

/-- How many connections `sync_followers(fs)` is to open for a host: what it lacks, when it has some
already; all of them, when it has none and is in `fs`. -/
theorem lookup_requiredConns {fs : List String} {cur : List (String × Nat)}
    {required : AList fun _ : String => Nat} (h : requiredConns cfg fs cur = some required) (host : String) :
    required.lookup host =
      if cur.countP (·.1 = host) = 0 then if host ∈ fs then some cfg.connPerNode32 else none
      else if cfg.connPerRoomzinNode - cur.countP (·.1 = host) > 0 then
        some ((cfg.connPerRoomzinNode - cur.countP (·.1 = host)) % 2 ^ 32)
      else none := by
  -- the two loops of the source, each by induction on what it iterates over
  have loop₁ : ∀ (l : List String) (acc : AList fun _ : String => Nat),
      (l.foldl (fun req n => if cur.any (·.1 = n) then req else req.insert n cfg.connPerNode32) acc).lookup host =
        if host ∈ l ∧ cur.any (·.1 = host) = false then some cfg.connPerNode32 else acc.lookup host := by
    intro l
    induction l with
    | nil => simp
    | cons a l ih =>
      intro acc
      rw [List.foldl_cons, ih]
      by_cases ha : host = a
      · subst ha
        cases hc : cur.any fun e => e.1 = host <;> simp [AList.lookup_insert]
      · have hmem : host ∈ a :: l ↔ host ∈ l := by simp [ha]
        rw [if_congr (and_congr_left' hmem) rfl rfl]
        cases hc : cur.any fun e => e.1 = a <;> simp [AList.lookup_insert_ne ha]
  have loop₂ : ∀ (l : List (String × Nat)) (acc : AList fun _ : String => Nat),
      l.foldlM (fun req e =>
        let count := cur.countP (·.1 = e.1)
        if cfg.connPerRoomzinNode < count then none
        else if cfg.connPerRoomzinNode - count > 0 then
          some (req.insert e.1 ((cfg.connPerRoomzinNode - count) % 2 ^ 32))
        else some req) acc = some required →
      required.lookup host =
        if (∃ e ∈ l, e.1 = host) ∧ cfg.connPerRoomzinNode - cur.countP (·.1 = host) > 0 then
          some ((cfg.connPerRoomzinNode - cur.countP (·.1 = host)) % 2 ^ 32)
        else acc.lookup host := by
    intro l
    induction l with
    | nil =>
      intro acc h
      cases h
      simp
    | cons e l ih =>
      intro acc h
      obtain ⟨acc', ha, h⟩ := Option.bind_eq_some_iff.1 h
      rw [ih acc' h]
      dsimp only at ha
      split at ha
      · cases ha
      · split at ha <;> cases ha
        · by_cases he : host = e.1
          · subst he
            simp_all [AList.lookup_insert]
          · have hmem : (∃ x ∈ e :: l, x.1 = host) ↔ ∃ x ∈ l, x.1 = host := by simp [Ne.symm he]
            rw [if_congr (and_congr_left' hmem) rfl rfl, AList.lookup_insert_ne he]
        · by_cases he : host = e.1
          · subst he
            simp_all
          · have hmem : (∃ x ∈ e :: l, x.1 = host) ↔ ∃ x ∈ l, x.1 = host := by simp [Ne.symm he]
            rw [if_congr (and_congr_left' hmem) rfl rfl]
  have hany : (cur.any (·.1 = host)) = true ↔ cur.countP (·.1 = host) ≠ 0 := by
    rw [List.any_eq_true, ← Nat.pos_iff_ne_zero, List.countP_pos_iff]
  have hex : (∃ e ∈ cur, e.1 = host) ↔ cur.countP (·.1 = host) ≠ 0 := by
    rw [← hany, List.any_eq_true]
    simp
  rw [loop₂ cur _ h, loop₁ fs ∅]
  by_cases hc : cur.countP (·.1 = host) = 0
  · have hany' : cur.any (·.1 = host) = false := Bool.eq_false_iff.2 fun ht => hany.1 ht hc
    rw [if_pos hc, if_neg fun hl => hex.1 hl.1 hc]
    simp [hany']
  · rw [if_neg hc, if_congr (and_iff_right (hex.2 hc)) rfl rfl, hany.2 hc]
    simp

theorem mem_requiredConns {fs : List String} {cur : List (String × Nat)}
    {required : AList fun _ : String => Nat} {name : String} (h : requiredConns cfg fs cur = some required)
    (hn : name ∈ required) :
    name ∈ fs ∨ ∃ e ∈ cur, e.1 = name := by
  obtain ⟨k, hk⟩ := exists_lookup hn
  rw [lookup_requiredConns h] at hk
  by_cases hc : cur.countP (·.1 = name) = 0
  · rw [if_pos hc] at hk
    split at hk
    · exact .inl ‹_›
    · cases hk
  · obtain ⟨e, he, hen⟩ := List.countP_pos_iff.1 (Nat.pos_of_ne_zero hc)
    exact .inr ⟨e, he, of_decide_eq_true hen⟩

/-- What the source would need for the map to stay within the list: when `sync_followers(fs)` looks
at the map, no host outside `fs` has a connection there. -/
def Sys.NobodyLeft (s : Sys) (l : SysLabel) : Prop :=
  ∀ fs i, s.sync.pc = .snapshot fs → l = .sync i → s.HostsIn fs

theorem Sys.HostsIn.shrink {fs : List String} (h : s.HostsIn fs)
    (hm : ∀ key x, s'.handler.followers.lookup key = some x → s.handler.followers.lookup key = some x) :
    s'.HostsIn fs :=
  fun key x hl => h key x (hm key x hl)

theorem HostsInv.shrink (h : HostsInv s)
    (hm : ∀ key x, s'.handler.followers.lookup key = some x → s.handler.followers.lookup key = some x)
    (hp : s'.sync.pc = s.sync.pc) (hsy : s'.sync.synced = s.sync.synced) : HostsInv s' := by
  refine ⟨fun fs hfs => ?_, fun fs hfs => (h.synced fs (hsy ▸ hfs)).shrink hm⟩
  rw [hp] at hfs ⊢
  obtain ⟨hn, hin, hpend⟩ := h.during fs hfs
  exact ⟨hsy ▸ hn, hin.shrink hm, hpend⟩

theorem HostsInv.within {fs : List String} (h : HostsInv s) (hfs : s.sync.pc.target = some fs)
    (hs : s'.handler.followers = s.handler.followers) (hsy : s'.sync.synced = s.sync.synced)
    (ht : s'.sync.pc.target = some fs) (hp : ∀ name, s'.sync.pc.pending name → s.sync.pc.pending name) :
    HostsInv s' := by
  obtain ⟨hn, hin, hpend⟩ := h.during fs hfs
  have hin' : s'.HostsIn fs := hin.shrink (by rw [hs]; exact fun _ _ hl => hl)
  refine ⟨fun fs' hfs' => ?_, fun fs' hfs' => ?_⟩
  · rw [ht, Option.some.injEq] at hfs'
    subst hfs'
    exact ⟨hsy ▸ hn, hin', fun name hname => hpend name (hp name hname)⟩
  · rw [hsy, hn] at hfs'
    cases hfs'

theorem HostsInv.outside (h : HostsInv s) (hs : s'.handler.followers = s.handler.followers)
    (hsy : s'.sync.synced = s.sync.synced ∨ s'.sync.synced = none) (ht : s'.sync.pc.target = none) :
    HostsInv s' := by
  refine ⟨by simp [ht], fun fs hfs => ?_⟩
  rcases hsy with hsy | hsy <;> rw [hsy] at hfs
  · exact (h.synced fs hfs).shrink (by rw [hs]; exact fun _ _ hl => hl)
  · cases hfs

theorem HostsInv.sync {i : SyncInput} {handler : Handler} {pc' : SyncPc} (h : HostsInv s)
    (hc : ∀ fs, s.sync.pc = .snapshot fs → s.HostsIn fs)
    (hb : SyncMove cfg s.closed s.mux.conns.length s.handler s.sync.pc i handler pc')
    (hs : s'.handler = handler) (hp : s'.sync.pc = pc')
    (hsy : s'.sync.synced = Sys.nextSynced s.sync.synced s.sync.pc pc') : HostsInv s' := by
  generalize hpc : s.sync.pc = pc at hb hsy
  have pending : ∀ {fs fs'}, pc.target = some fs → pc'.target = some fs' →
      ∀ name, s'.sync.pc.pending name → s.sync.pc.pending name := by
    intro fs fs' ht ht'
    rw [hp, hpc]
    exact hb.pending ht ht'
  cases hb with
  | snapshot fs hosts required hr hperm =>
    have hin : s.HostsIn fs := hc fs hpc
    refine ⟨fun fs' hfs' => ?_, by simp [hsy, Sys.nextSynced]⟩
    rw [hp] at hfs' ⊢
    cases hfs'
    refine ⟨hsy, hin.shrink (by rw [hs]; exact fun _ _ hl => hl), ?_⟩
    rintro name (⟨conns, hn⟩ | ⟨fs', todo, new, he, hn⟩)
    · simp [SyncPc.opened] at hn
    · cases he
      obtain ⟨host, hhost, hrep⟩ := List.mem_flatMap.1 hn
      obtain ⟨-, rfl⟩ := List.mem_replicate.1 hrep
      rcases mem_requiredConns hr (AList.mem_keys.2 (hperm.mem_iff.1 hhost)) with hf | ⟨e, he, rfl⟩
      · exact hf
      · obtain ⟨⟨key, x⟩, hx, rfl⟩ := List.mem_map.1 he
        exact hin key x (mem_entries_iff.1 hx)
  | connectDone fs new => exact h.within (by rw [hpc]; rfl) (by rw [hs]) hsy (by rw [hp]; rfl) (pending rfl rfl)
  | connected fs host todo new =>
    exact h.within (by rw [hpc]; rfl) (by rw [hs]) hsy (by rw [hp]; rfl) (pending rfl rfl)
  | connectFailed fs host todo new =>
    exact h.within (by rw [hpc]; rfl) (by rw [hs]) hsy (by rw [hp]; rfl) (pending rfl rfl)
  | writeLock fs new => exact h.within (by rw [hpc]; rfl) (by rw [hs]) hsy (by rw [hp]; rfl) (pending rfl rfl)
  | readHistory fs hosts new free hperm =>
    exact h.within (by rw [hpc]; rfl) (by rw [hs]) hsy (by rw [hp]; rfl) (pending rfl rfl)
  | allDone fs free assigned =>
    obtain ⟨-, hin, -⟩ := h.during fs (by rw [hpc]; rfl)
    refine ⟨by simp [hp, SyncPc.target], fun fs' hfs' => ?_⟩
    rw [hsy] at hfs'
    cases hfs'
    exact hin.shrink (by rw [hs]; exact fun _ _ hl => hl)
  | assign fs name conns todo free free' assigned assigned' nidx ha =>
    exact h.within (by rw [hpc]; rfl) (by rw [hs]) hsy (by rw [hp]; rfl) (pending rfl rfl)
  | noIndex fs name conns todo free assigned ha =>
    exact h.within (by rw [hpc]; rfl) (by rw [hs]) hsy (by rw [hp]; rfl) (pending rfl rfl)
  | hostDone fs todo free assigned name nidx freeConns =>
    exact h.within (by rw [hpc]; rfl) (by rw [hs]) hsy (by rw [hp]; rfl) (pending rfl rfl)
  | recordHistory fs todo free assigned name nidx j freeConns conns =>
    exact h.within (by rw [hpc]; rfl) (by rw [hs]) hsy (by rw [hp]; rfl) (pending rfl rfl)
  | insertConn fs todo free assigned name nidx j freeConns c conns =>
    obtain ⟨hn, hin, hpend⟩ := h.during fs (by rw [hpc]; rfl)
    refine ⟨fun fs' hfs' => ?_, fun fs' hfs' => ?_⟩
    · rw [hp] at hfs'
      cases hfs'
      refine ⟨hsy.trans hn, ?_, fun n hn => hpend n (pending rfl rfl n hn)⟩
      rw [Sys.HostsIn, hs]
      intro key x hl
      rcases lookup_insert_iff.1 hl with ⟨rfl, -⟩ | ⟨-, hl⟩
      · exact hpend name (by rw [hpc]; exact .inl ⟨_, .inl rfl⟩)
      · exact hin key x hl
    · rw [hsy] at hfs'
      cases hn.symm.trans hfs'
  | overflow fs hosts hr => exact h.outside (by rw [hs]) (.inr hsy) (by rw [hp]; rfl)
  | noConnIndex fs todo free assigned name nidx c conns =>
    exact h.outside (by rw [hs]) (.inl hsy) (by rw [hp]; rfl)
  | fastFollowers anyLeader _ hor =>
    rcases hor with rfl | rfl <;> exact h.outside (by rw [hs]) (.inl hsy) (by rw [hp]; rfl)
  | _ => exact h.outside (by rw [hs]) (.inl hsy) (by rw [hp]; rfl)

theorem HostsInv.step (h : HostsInv s) (hc : s.NobodyLeft l) (hs : s.step cfg l = some s') : HostsInv s' := by
  cases Sys.Move.of_step hs with
  | sel k sel handler pc' hk hw hb => exact h.shrink (fun _ _ hl => hb.followers hl) rfl rfl
  | sync i handler pc' hw hb => exact h.sync (fun fs hpc => hc fs i hpc rfl) hb rfl rfl rfl
  | rehashFollowers followers hperm =>
    exact h.shrink (fun key x hl => (AList.perm_lookup hperm).symm.trans hl) rfl rfl
  | _ => exact h.shrink (fun _ _ hl => hl) rfl rfl

/-- In a run in which every `sync_followers(fs)` starts from a map within `fs`: once it has
completed, and until the next one starts, every host of the map is in `fs` and so is the host of
every connection that `next_follower_conn` returns. -/
theorem reads_only_to_current_followers (h : ReachWith (Sys.step cfg) Sys.NobodyLeft (Sys.init cfg) s)
    {fs : List String} (hfs : s.sync.synced = some fs) :
    (∀ key x, s.handler.followers.lookup key = some x → key.1 ∈ fs) ∧
    ∀ (k : Nat) (sel sel' : Sel) (left : Nat) (node : String × Nat) (j tried : Nat) (s' : Sys)
      (x : Connection),
      s.sels[k]? = some sel → sel.pc = .fScan left node j tried → s.step cfg (.sel k) = some s' →
      s'.sels[k]? = some sel' → sel'.pc = .ret (some x) → x.addr ∈ fs := by
  have hi : HostsInv s := h.induct ⟨by simp [Sys.init, SyncPc.target], by simp [Sys.init]⟩
    fun _ _ _ _ hi hc hs => hi.step hc hs
  have hin : s.HostsIn fs := hi.synced fs hfs
  refine ⟨hin, ?_⟩
  intro k sel sel' left node j tried s' x hk hpc hs hk' hpc'
  obtain ⟨handler, hb⟩ := Sys.found_of_step hs hk (by simp [hpc]) (by simp [hpc]) hk' hpc'
  obtain ⟨-, ⟨_, _, _, _, -, hl⟩ | ⟨_, _, he, -⟩⟩ := hb.found
  · rw [((FollowerInv.of_reach h.reach).map _ _ hl).1]
    exact hin _ _ hl
  · simp [hpc] at he

/-- `NobodyLeft`, evaluated. -/
def Sys.nobodyLeft (s : Sys) (_ : SysLabel) : Bool :=
  match s.sync.pc with
  | .snapshot fs => s.handler.followers.entries.all fun e => fs.contains e.1.1
  | _ => true

theorem Sys.NobodyLeft.of_check (h : s.nobodyLeft l = true) : s.NobodyLeft l := by
  intro fs i hpc _ key x hl
  simp only [Sys.nobodyLeft, hpc, List.all_eq_true, List.contains_iff_mem] at h
  exact h ⟨key, x⟩ (mem_entries_iff.2 hl)

/-- Two followers are joined by a third. -/
theorem reads_only_to_current_followers_joined : ∃ s,
    exec (Sys.step {}) (Sys.init {}) (Sys.leaderDown "l" ["a", "b"] true ++
      Sys.followersUp [("a", true), ("b", true)] ++
      Sys.leaderDown "l" ["a", "b", "c"] false ++ Sys.followersUp [("c", true)]) = some s ∧
    s.sync.synced = some ["a", "b", "c"] ∧
      s.handler.followers.keys = [("c", 2, 0), ("b", 0, 0), ("a", 1, 0)] ∧
    ∀ key x, s.handler.followers.lookup key = some x → key.1 ∈ ["a", "b", "c"] := by
  obtain ⟨s, hs, -, hp⟩ := Reach.of_any (guarded Sys.nobodyLeft (Sys.step {})) (Sys.init {})
    (Sys.leaderDown "l" ["a", "b"] true ++ Sys.followersUp [("a", true), ("b", true)] ++
      Sys.leaderDown "l" ["a", "b", "c"] false ++ Sys.followersUp [("c", true)])
    (fun s => decide (s.sync.synced = some ["a", "b", "c"] ∧
      s.handler.followers.keys = [("c", 2, 0), ("b", 0, 0), ("a", 1, 0)])) (by decide +kernel)
  obtain ⟨hfs, hkeys⟩ := of_decide_eq_true hp
  have hr : ReachWith (Sys.step {}) Sys.NobodyLeft (Sys.init {}) s :=
    ReachWith.refl.of_guarded (fun _ _ h => Sys.NobodyLeft.of_check h) hs
  exact ⟨s, exec_of_guarded hs, hfs, hkeys, (reads_only_to_current_followers hr hfs).1⟩

/-- Without the condition: `b` leaves the list, the next sync completes, and `b` is still read from. -/
theorem departed_follower_still_read : ∃ s s' fs key x,
    Reach (Sys.step {}) (Sys.init {}) s ∧ s.sync.synced = some fs ∧ s.handler.followers.lookup key = some x ∧
    key.1 ∉ fs ∧ Reach (Sys.step {}) (Sys.init {}) s' ∧ s'.sync.synced = some fs ∧
    (s'.sels.map (·.pc))[1]? = some (.ret (some x)) ∧ x.addr ∉ fs := by
  obtain ⟨s, -, hr, hp⟩ := Reach.of_any (Sys.step {}) (Sys.init {})
    (Sys.leaderDown "l" ["a", "b"] true ++ Sys.followersUp [("a", true), ("b", true)] ++
      Sys.leaderDown "l" ["a"] false ++ Sys.followersUp [])
    (fun s => decide (s.sync.synced = some ["a"] ∧ s.handler.followers.lookup ("b", 0, 0) = some ⟨1, "b"⟩))
    (by decide +kernel)
  obtain ⟨s', -, hr', hp'⟩ := Reach.of_any (Sys.step {}) (Sys.init {})
    (Sys.leaderDown "l" ["a", "b"] true ++ Sys.followersUp [("a", true), ("b", true)] ++
      Sys.leaderDown "l" ["a"] false ++ Sys.followersUp [] ++
      Sys.readCall 0 (prependHeader 7 [1]) ++ Sys.readCall 1 (prependHeader 8 [1]))
    (fun s => decide (s.sync.synced = some ["a"] ∧ (s.sels.map Sel.pc)[1]? = some (SelPc.ret (some ⟨1, "b"⟩))))
    (by decide +kernel)
  obtain ⟨hfs, hl⟩ := of_decide_eq_true hp
  obtain ⟨hfs', hpc⟩ := of_decide_eq_true hp'
  exact ⟨s, s', ["a"], ("b", 0, 0), ⟨1, "b"⟩, hr, hfs, hl, by decide, hr', hfs', hpc, by decide⟩

end RzBridge
