import RzBridge.Config
import RzBridge.Lib.CircularWait
import Mathlib.Data.List.AList

/-!
# The connection pools (`cluster_handler.rs`, without `execute`)

`HandlerInner` holds the leader slots, the follower map and the load balancer, each behind its own
lock. `nextFollowerConn` and `nextLeaderConn` are the selections as a call runs them alone; `SelPc`
and `SyncPc` cut the selections and the sync task at their lock acquisitions and other awaits, so
that `Sys` can interleave them. `selBody` and `syncBody` run one such piece.

A `HashMap` is an association list with distinct keys; its order is the iteration order, which `Sys`
may rearrange at any time. An `Arc<ConnectionInner>` is a `Connection`: the connection's number and
its address.
-/

namespace RzBridge
open CircularWait

structure Connection where
  id : Nat
  addr : String
deriving DecidableEq, Repr

abbrev FollowerHistory := AList fun _ : String × Nat => Nat
abbrev FollowerMap := AList fun _ : String × Nat × Nat => Connection
abbrev NewConns := AList fun _ : String => List Connection

structure LoadBalancer where
  followerHistory : FollowerHistory := ∅
  lastNodeId : Nat := 0
  lastLeaderId : Nat := 0

structure Handler where
  leaderConns : List (Option Connection)
  leaderHost : Option String := none
  followers : FollowerMap := ∅
  loadBalancer : LoadBalancer := {}
  syncing : Bool := false

/-- `ClusterHandler::new` -/
def Handler.new (cfg : Config) : Handler :=
  { leaderConns := List.replicate cfg.connPerRoomzinNode none }

/-- `if i >= n { 0 } else { i }` -/
def wrapIdx (n i : Nat) : Nat := if i ≥ n then 0 else i

/-! ### `next_follower_conn` -/

/-- `next_node_indx`, the node index an iteration looks at. The addition is one of `u32`. -/
def LoadBalancer.nextNode (lb : LoadBalancer) : Nat :=
  wrapIdx lb.followerHistory.entries.length ((lb.lastNodeId + 1) % 2 ^ 32)

/-- The first entry of the history with node index `nidx`. -/
def LoadBalancer.target (lb : LoadBalancer) (nidx : Nat) : Option ((String × Nat) × Nat) :=
  (lb.followerHistory.entries.find? fun e => e.1.2 = nidx).map fun e => (e.1, e.2)

/-- The load balancer when connection `j` of `node` is returned. -/
def LoadBalancer.chosen (lb : LoadBalancer) (cfg : Config) (node : String × Nat) (j : Nat) : LoadBalancer :=
  { lb with
    lastNodeId := node.2
    followerHistory :=
      if node ∈ lb.followerHistory then lb.followerHistory.replace node ((j + 1) % cfg.connPerNode32)
      else lb.followerHistory.insert node 1 }

/-- The `while tried < conn_per_roomzin_node` loop on the connections of `node`, starting at `j`: the
open connection found with its index, and the map without the closed ones met before it. -/
def scanFollower (cfg : Config) (closed : Nat → Bool) (node : String × Nat) :
    Nat → Nat → FollowerMap → Option (Connection × Nat) × FollowerMap
  | 0, _, followers => (none, followers)
  | left + 1, j, followers =>
    match followers.lookup (node.1, node.2, j) with
    | some c =>
      if closed c.id then
        scanFollower cfg closed node left (wrapIdx cfg.connPerNode32 (j + 1))
          (followers.erase (node.1, node.2, j))
      else (some (c, j), followers)
    | none => scanFollower cfg closed node left (wrapIdx cfg.connPerNode32 (j + 1)) followers

/-- The `for _i in 1..=len` loop. -/
def followerLoop (cfg : Config) (closed : Nat → Bool) : Nat → Handler → Option Connection × Handler
  | 0, h => (none, h)
  | left + 1, h =>
    let next := h.loadBalancer.nextNode
    let lb := { h.loadBalancer with lastNodeId := next }
    match lb.target next with
    | none => followerLoop cfg closed left { h with loadBalancer := lb }
    | some (node, counter) =>
      match scanFollower cfg closed node cfg.connPerRoomzinNode
        (wrapIdx cfg.connPerNode32 counter) h.followers with
      | (some (c, j), followers) => (some c, { h with followers, loadBalancer := lb.chosen cfg node j })
      | (none, followers) => followerLoop cfg closed left { h with followers, loadBalancer := lb }

/-- `next_follower_conn` run alone: the result and the handler it leaves. -/
def nextFollowerConn (cfg : Config) (closed : Nat → Bool) (h : Handler) : Option Connection × Handler :=
  followerLoop cfg closed h.loadBalancer.followerHistory.entries.length h

/-! ### `next_leader_conn` -/

/-- The scan over the leader slots, starting at slot `next`. The `take` of a closed slot acts on a
temporary and leaves the vector as it is. -/
def scanLeader (cfg : Config) (closed : Nat → Bool) (slots : List (Option Connection)) :
    Nat → Nat → Option (Nat × Connection)
  | 0, _ => none
  | left + 1, next =>
    match slots[next]? with
    | some (some c) =>
      if closed c.id then scanLeader cfg closed slots left (wrapIdx cfg.connPerRoomzinNode (next + 1))
      else some (next, c)
    | _ => scanLeader cfg closed slots left (wrapIdx cfg.connPerRoomzinNode (next + 1))

/-- `next_leader_conn` run alone. -/
def nextLeaderConn (cfg : Config) (closed : Nat → Bool) (h : Handler) : Option Connection × Handler :=
  let next := wrapIdx cfg.connPerRoomzinNode ((h.loadBalancer.lastLeaderId + 1) % 2 ^ 32)
  if h.leaderConns = [] ∨ ¬ h.leaderConns.any (·.isSome) then (none, h)
  else
    match scanLeader cfg closed h.leaderConns (min cfg.connPerRoomzinNode h.leaderConns.length) next with
    | some (i, c) => (some c, { h with loadBalancer := { h.loadBalancer with lastLeaderId := i % 2 ^ 32 } })
    | none => (none, h)

/-! ### The arithmetic of `sync_followers` -/

/-- `required_conns`: how many connections to open for each host, from the `(host, node index)` pairs
of the connections in the map. `none` is the underflow of `conn_per_roomzin_node - count`. -/
def requiredConns (cfg : Config) (fs : List String) (cur : List (String × Nat)) :
    Option (AList fun _ : String => Nat) :=
  let missing := fs.foldl
    (fun req name => if cur.any (·.1 = name) then req else req.insert name cfg.connPerNode32) ∅
  cur.foldlM
    (fun req e =>
      let count := cur.countP (·.1 = e.1)
      if cfg.connPerRoomzinNode < count then none
      else if cfg.connPerRoomzinNode - count > 0 then
        some (req.insert e.1 ((cfg.connPerRoomzinNode - count) % 2 ^ 32))
      else some req) missing

/-- `free_node_ids`: the indices below `followers.len() as u32` that no connection has. -/
def freeNodeIds (fs : List String) (followers : FollowerMap) : List Nat :=
  (List.range (fs.length % 2 ^ 32)).filter fun i => !(followers.entries.map (·.1.2.1)).contains i

/-- `new_assigned_node_ids`, filled from the history. -/
def assignedNodeIds (history : FollowerHistory) : AList fun _ : String => Nat :=
  history.entries.foldl (fun m e => m.insert e.1.1 e.1.2) ∅

/-- `free_conn_ids` of a host: the connection indices no open connection of it has. -/
def freeConnIds (cfg : Config) (closed : Nat → Bool) (followers : FollowerMap) (name : String) : List Nat :=
  let curConnIds := (followers.entries.filter fun e => e.1.1 = name ∧ closed e.2.id = false).map (·.1.2.2)
  (List.range cfg.connPerNode32).filter fun i => !curConnIds.contains i

/-- `nidx` as looked up in the map, with `0` for "not found". -/
def mapNodeIdx (followers : FollowerMap) (name : String) : Nat :=
  ((followers.entries.find? fun e => e.1.1 = name).map (·.1.2.1)).getD 0

/-- The node index a host gets, with what is left of `free_node_ids` and the assignments; `none` when
the host is skipped. -/
def assignNode (followers : FollowerMap) (name : String) (free : List Nat)
    (assigned : AList fun _ : String => Nat) :
    Option (Nat × List Nat × AList fun _ : String => Nat) :=
  if mapNodeIdx followers name ≠ 0 then some (mapNodeIdx followers name, free, assigned)
  else
    match assigned.lookup name with
    | some idx => some (idx, free, assigned)
    | none =>
      match free.getLast? with
      | some idx => some (idx, free.dropLast, assigned.insert name idx)
      | none => none

/-! ### Selections, cut at their awaits -/

inductive Lock
  | loadBalancer
  | followers
  | leaderConns
  | demux (c : Nat)
deriving DecidableEq, Repr

inductive SelPc
  | idle
  /-- `next_follower_conn`: reading the length of the history -/
  | fLen
  /-- an iteration of its loop, with how many are left -/
  | fIter (left : Nat)
  /-- about to take the follower map, for `node` from connection `j` on -/
  | fMap (left : Nat) (node : String × Nat) (j : Nat)
  /-- in the inner loop -/
  | fScan (left : Nat) (node : String × Nat) (j tried : Nat)
  /-- in `cleanup` of a closed connection, called at `start` -/
  | fClean (left : Nat) (node : String × Nat) (j tried : Nat) (c : Connection) (start : Nat)
  /-- `next_leader_conn`: about to take the load balancer -/
  | lLock
  /-- about to take the slots -/
  | lSlots (next : Nat)
  /-- in the scan -/
  | lScan (left next : Nat)
  | lClean (left next : Nat) (c : Connection) (start : Nat)
  | ret (r : Option Connection)
deriving DecidableEq

/-- The guards alive throughout a piece. -/
def SelPc.outer : SelPc → List (Lock × Mode)
  | .fMap .. => [(.loadBalancer, .write)]
  | .fScan .. => [(.loadBalancer, .write), (.followers, .write)]
  | .fClean .. => [(.loadBalancer, .write), (.followers, .write)]
  | .lSlots _ => [(.loadBalancer, .write)]
  | .lScan .. => [(.loadBalancer, .write), (.leaderConns, .write)]
  | .lClean .. => [(.loadBalancer, .write), (.leaderConns, .write)]
  | _ => []

/-- The lock a piece begins by awaiting. -/
def SelPc.awaits : SelPc → Option (Lock × Mode)
  | .fLen => some (.loadBalancer, .write)
  | .fIter _ => some (.loadBalancer, .write)
  | .fMap .. => some (.followers, .write)
  | .fClean _ _ _ _ c _ => some (.demux c.id, .write)
  | .lLock => some (.loadBalancer, .write)
  | .lSlots _ => some (.leaderConns, .write)
  | .lClean _ _ c _ => some (.demux c.id, .write)
  | _ => none

/-- `for _i in 1..=len` with `left` iterations to go. -/
def fNext (left : Nat) : SelPc := if left = 0 then .ret none else .fIter left

/-- One piece of a selection, its lock granted: the handler and where the call goes. -/
def selBody (cfg : Config) (closed : Nat → Bool) (now : Nat) (h : Handler) : SelPc → Option (Handler × SelPc)
  | .fLen => some (h, fNext h.loadBalancer.followerHistory.entries.length)
  | .fIter left =>
    let next := h.loadBalancer.nextNode
    let lb := { h.loadBalancer with lastNodeId := next }
    match lb.target next with
    | none => some ({ h with loadBalancer := lb }, fNext (left - 1))
    | some (node, counter) =>
      some ({ h with loadBalancer := lb }, .fMap (left - 1) node (wrapIdx cfg.connPerNode32 counter))
  | .fMap left node j => some (h, .fScan left node j 0)
  | .fScan left node j tried =>
    if tried < cfg.connPerRoomzinNode then
      match h.followers.lookup (node.1, node.2, j) with
      | some c =>
        if closed c.id then some (h, .fClean left node j tried c now)
        else some ({ h with loadBalancer := h.loadBalancer.chosen cfg node j }, .ret (some c))
      | none => some (h, .fScan left node (wrapIdx cfg.connPerNode32 (j + 1)) (tried + 1))
    else some (h, fNext left)
  | .fClean left node j tried _ _ =>
    some ({ h with followers := h.followers.erase (node.1, node.2, j) },
      .fScan left node (wrapIdx cfg.connPerNode32 (j + 1)) (tried + 1))
  | .lLock => some (h, .lSlots (wrapIdx cfg.connPerRoomzinNode ((h.loadBalancer.lastLeaderId + 1) % 2 ^ 32)))
  | .lSlots next =>
    if h.leaderConns = [] ∨ ¬ h.leaderConns.any (·.isSome) then some (h, .ret none)
    else some (h, .lScan (min cfg.connPerRoomzinNode h.leaderConns.length) next)
  | .lScan 0 _ => some (h, .ret none)
  | .lScan (left + 1) next =>
    match h.leaderConns[next]? with
    | some (some c) =>
      if closed c.id then some (h, .lClean left next c now)
      else some ({ h with loadBalancer := { h.loadBalancer with lastLeaderId := next % 2 ^ 32 } }, .ret (some c))
    | _ => some (h, .lScan left (wrapIdx cfg.connPerRoomzinNode (next + 1)))
  | .lClean left next _ _ => some (h, .lScan left (wrapIdx cfg.connPerRoomzinNode (next + 1)))
  | .idle => none
  | .ret _ => none

/-! ### The sync task, cut at its awaits -/

inductive SyncPc
  | idle
  /-- the fast tick looks at the leader slots, then at the followers -/
  | fastLeader
  | fastFollowers (anyLeader : Bool)
  /-- `sync_with_cluster` -/
  | enter
  | discover
  /-- `sync_leader` -/
  | leaderLoad (host : String) (fs : List String)
  | leaderClear (host : String) (fs : List String)
  | leaderStore (host : String) (fs : List String)
  | leaderSnapshot (host : String) (fs : List String)
  | leaderConnect (host : String) (fs : List String) (required : List Nat)
  | leaderFill (host : String) (fs : List String) (i : Nat) (required : List Nat) (conn : Connection)
  | leaderRestore (host : String) (fs : List String) (required : List Nat)
  /-- `sync_followers` -/
  | snapshot (fs : List String)
  | connect (fs todo : List String) (new : NewConns)
  | writeLock (fs : List String) (new : NewConns)
  | readHistory (fs : List String) (new : NewConns) (free : List Nat)
  | nextHost (fs : List String) (todo : List (String × List Connection)) (free : List Nat)
      (assigned : AList fun _ : String => Nat)
  | insertConn (fs : List String) (todo : List (String × List Connection)) (free : List Nat)
      (assigned : AList fun _ : String => Nat) (name : String) (nidx : Nat) (freeConns : List Nat)
      (conns : List Connection)
  | recordHistory (fs : List String) (todo : List (String × List Connection)) (free : List Nat)
      (assigned : AList fun _ : String => Nat) (name : String) (nidx j : Nat) (freeConns : List Nat)
      (conns : List Connection)
  | leave
  | panicked

def SyncPc.outer : SyncPc → List (Lock × Mode)
  | .readHistory .. => [(.followers, .write)]
  | .nextHost .. => [(.followers, .write)]
  | .insertConn .. => [(.followers, .write)]
  | .recordHistory .. => [(.followers, .write)]
  | _ => []

def SyncPc.awaits : SyncPc → Option (Lock × Mode)
  | .fastLeader => some (.leaderConns, .read)
  | .fastFollowers _ => some (.followers, .read)
  | .leaderClear .. => some (.leaderConns, .write)
  | .leaderSnapshot .. => some (.leaderConns, .read)
  | .leaderFill .. => some (.leaderConns, .write)
  | .snapshot _ => some (.followers, .read)
  | .writeLock .. => some (.followers, .write)
  | .readHistory .. => some (.loadBalancer, .write)
  | .recordHistory .. => some (.loadBalancer, .write)
  | _ => none

/-- What the environment decides in a step of the sync task. -/
inductive SyncInput
  | go
  | fastTick
  | slowTick
  /-- the outcome of `discover` -/
  | discovered (topo : Option (String × List String))
  /-- the iteration order of a local `HashMap` -/
  | order (hosts : List String)
  /-- the outcome of `Connection::connect` -/
  | connected (ok : Bool)
deriving DecidableEq

/-- `x` pushed onto the vector of `host`. -/
def pushConn (new : NewConns) (host : String) (x : Connection) : NewConns :=
  new.insert host (((new.lookup host).getD []) ++ [x])

/-- One piece of the sync task, its lock granted. `fresh` numbers the next connection made. -/
def syncBody (cfg : Config) (closed : Nat → Bool) (fresh : Nat) (h : Handler) :
    SyncPc → SyncInput → Option (Handler × SyncPc)
  | .idle, .fastTick => some (h, .fastLeader)
  | .idle, .slowTick => some (h, .enter)
  | .fastLeader, .go => some (h, .fastFollowers (h.leaderConns.any fun x => x.any fun c => !closed c.id))
  | .fastFollowers anyLeader, .go =>
    if !anyLeader || !(h.followers.entries.any fun e => !closed e.2.id) then some (h, .enter) else some (h, .idle)
  | .enter, .go => if h.syncing then some (h, .idle) else some ({ h with syncing := true }, .discover)
  | .discover, .discovered none => some (h, .leave)
  | .discover, .discovered (some (host, fs)) => some (h, .leaderLoad host fs)
  | .leaderLoad host fs, .go =>
    if h.leaderHost = some host then some (h, .leaderSnapshot host fs) else some (h, .leaderClear host fs)
  | .leaderClear host fs, .go =>
    some ({ h with leaderConns := h.leaderConns.map fun _ => none }, .leaderStore host fs)
  | .leaderStore host fs, .go => some ({ h with leaderHost := some host }, .leaderSnapshot host fs)
  | .leaderSnapshot host fs, .go =>
    some (h, .leaderConnect host fs
      ((List.range h.leaderConns.length).filter fun i => ((h.leaderConns.getD i none).all fun c => closed c.id)))
  | .leaderConnect _ fs [], .go => some (h, .snapshot fs)
  | .leaderConnect host fs (i :: required), .connected ok =>
    if ok then some (h, .leaderFill host fs i required ⟨fresh, host⟩)
    else some (h, .leaderConnect host fs required)
  | .leaderFill host fs i required conn, .go =>
    some ({ h with leaderConns := h.leaderConns.set i (some conn) }, .leaderRestore host fs required)
  | .leaderRestore host fs required, .go =>
    some ({ h with leaderHost := some host }, .leaderConnect host fs required)
  | .snapshot fs, .order hosts =>
    match requiredConns cfg fs (h.followers.entries.map fun e => (e.1.1, e.1.2.1)) with
    | none => some (h, .panicked)
    | some required =>
      if hosts.Perm required.keys then
        some (h, .connect fs (hosts.flatMap fun host => List.replicate ((required.lookup host).getD 0) host) ∅)
      else none
  | .connect fs [] new, .go => some (h, .writeLock fs new)
  | .connect fs (host :: todo) new, .connected ok =>
    some (h, .connect fs todo (if ok then pushConn new host ⟨fresh, host⟩ else new))
  | .writeLock fs new, .go => some (h, .readHistory fs new (freeNodeIds fs h.followers))
  | .readHistory fs new free, .order hosts =>
    if hosts.Perm new.keys then
      some (h, .nextHost fs (hosts.map fun host => (host, (new.lookup host).getD [])) free
        (assignedNodeIds h.loadBalancer.followerHistory))
    else none
  | .nextHost _ [] _ _, .go => some (h, .leave)
  | .nextHost fs ((name, conns) :: todo) free assigned, .go =>
    match assignNode h.followers name free assigned with
    | some (nidx, free, assigned) =>
      some (h, .insertConn fs todo free assigned name nidx (freeConnIds cfg closed h.followers name) conns)
    | none => some (h, .nextHost fs todo free assigned)
  | .insertConn fs todo free assigned _ _ _ [], .go => some (h, .nextHost fs todo free assigned)
  | .insertConn _ _ _ _ _ _ [] (_ :: _), .go => some (h, .panicked)
  | .insertConn fs todo free assigned name nidx (j :: freeConns) (c :: conns), .go =>
    some ({ h with followers := h.followers.insert (name, nidx, j) c },
      .recordHistory fs todo free assigned name nidx j freeConns conns)
  | .recordHistory fs todo free assigned name nidx j freeConns conns, .go =>
    some
      ({ h with
          loadBalancer :=
            { h.loadBalancer with
              followerHistory :=
                if (name, nidx) ∈ h.loadBalancer.followerHistory then h.loadBalancer.followerHistory
                else h.loadBalancer.followerHistory.insert (name, nidx) j } },
        .insertConn fs todo free assigned name nidx freeConns conns)
  | .leave, .go => some ({ h with syncing := false }, .idle)
  | _, _ => none

end RzBridge
