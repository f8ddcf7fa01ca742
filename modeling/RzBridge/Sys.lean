import RzBridge.Mux
import RzBridge.Pool

/-!
# The cluster handler as a system

`Sys` puts the pools and the multiplexer together: any number of `execute` calls, the sync task and
the loops of every connection, interleaved at their awaits. A lock is held by whoever stands at a
point of the code where its guard is alive (`Sys.holds`), so guards are released where their Rust
scope ends; a task that waits for a lock gets it by an `acquire` step, which is enabled as soon as no
other task holds the lock in a conflicting mode.
-/

namespace RzBridge
open CircularWait

/-- A selection of a call; `held` once the lock it awaits was granted. -/
structure Sel where
  pc : SelPc := .idle
  held : Bool := false

/-- The sync task. `synced` is a history variable: the list of the last completed `sync_followers`,
until the next one starts. -/
structure Sync where
  pc : SyncPc := .idle
  held : Bool := false
  synced : Option (List String) := none

def Sel.holds (t : Sel) : List (Lock × Mode) := t.pc.outer ++ if t.held then t.pc.awaits.toList else []
def Sel.waits (t : Sel) : Option (Lock × Mode) := if t.held then none else t.pc.awaits
def Sync.holds (t : Sync) : List (Lock × Mode) := t.pc.outer ++ if t.held then t.pc.awaits.toList else []
def Sync.waits (t : Sync) : Option (Lock × Mode) := if t.held then none else t.pc.awaits

def CallPc.holds : CallPc → List (Lock × Mode)
  | .store c _ _ true => [(.demux c, .write)]
  | _ => []

def CallPc.waits : CallPc → Option (Lock × Mode)
  | .store c _ _ false => some (.demux c, .write)
  | _ => none

def ReaderPc.holds (c : Nat) : ReaderPc → List (Lock × Mode)
  | .lookup _ _ true => [(.demux c, .write)]
  | _ => []

def ReaderPc.waits (c : Nat) : ReaderPc → Option (Lock × Mode)
  | .lookup _ _ false => some (.demux c, .write)
  | _ => none

structure Sys where
  handler : Handler
  sels : List Sel := []
  sync : Sync := {}
  mux : Mux := {}

/-- The tasks that take locks. -/
inductive Task
  | call (k : Nat)
  | sync
  | reader (c : Nat)
deriving DecidableEq, Repr

inductive SysLabel
  /-- the lock a task waits for is granted -/
  | acquire (t : Task)
  /-- a piece of the selection of call `k` -/
  | sel (k : Nat)
  /-- a piece of the sync task -/
  | sync (i : SyncInput)
  | mux (l : MuxLabel)
  /-- a `HashMap` changes its iteration order -/
  | rehashHistory (history : FollowerHistory)
  | rehashFollowers (followers : FollowerMap)

namespace Sys

/-- The state right after `ClusterHandler::new`. -/
def init (cfg : Config) : Sys := { handler := Handler.new cfg }

/-- `Connection::is_closed` -/
def closed (s : Sys) (c : Nat) : Bool := (s.mux.conns[c]?).all (·.closed)

def holds (s : Sys) : Task → List (Lock × Mode)
  | .call k => ((s.sels[k]?).elim [] Sel.holds) ++ ((s.mux.calls[k]?).elim [] fun call => call.pc.holds)
  | .sync => s.sync.holds
  | .reader c => (s.mux.conns[c]?).elim [] fun conn => conn.reader.holds c

def waits (s : Sys) : Task → Option (Lock × Mode)
  | .call k => ((s.sels[k]?).bind Sel.waits).or ((s.mux.calls[k]?).bind fun call => call.pc.waits)
  | .sync => s.sync.waits
  | .reader c => (s.mux.conns[c]?).bind fun conn => conn.reader.waits c

def tasks (s : Sys) : List Task :=
  .sync :: ((List.range (max s.sels.length s.mux.calls.length)).map .call ++
    (List.range s.mux.conns.length).map .reader)

/-- No other task holds the lock in a conflicting mode. -/
def free (s : Sys) (t : Task) (lm : Lock × Mode) : Bool :=
  s.tasks.all fun u => u = t || (s.holds u).all fun hm => !(hm.1 = lm.1 && Mode.conflicts lm.2 hm.2)

/-- The pools, a selection or the sync task have a handle of connection `c`. -/
def referenced (s : Sys) (c : Nat) : Bool :=
  s.handler.leaderConns.any (fun x => x.any (·.id = c)) || s.handler.followers.entries.any (·.2.id = c) ||
    s.sels.any (fun t =>
      match t.pc with
      | .fClean _ _ _ _ x _ => x.id = c
      | .lClean _ _ x _ => x.id = c
      | .ret (some x) => x.id = c
      | _ => false) ||
    match s.sync.pc with
    | .leaderFill _ _ _ _ x => x.id = c
    | .connect _ _ new => new.entries.any fun e => e.2.any (·.id = c)
    | .writeLock _ new => new.entries.any fun e => e.2.any (·.id = c)
    | .readHistory _ new _ => new.entries.any fun e => e.2.any (·.id = c)
    | .nextHost _ todo _ _ => todo.any fun e => e.2.any (·.id = c)
    | .insertConn _ todo _ _ _ _ _ conns => (todo.any fun e => e.2.any (·.id = c)) || conns.any (·.id = c)
    | .recordHistory _ todo _ _ _ _ _ _ conns => (todo.any fun e => e.2.any (·.id = c)) || conns.any (·.id = c)
    | _ => false

/-- The steps of the multiplexer that need nothing from the pools. -/
def internal : MuxLabel → Bool
  | .selected .. => false
  | .lockStore _ => false
  | .connect _ => false
  | .lockLoad _ => false
  | .cleanup .. => false
  | _ => true

def acquire (cfg : Config) (s : Sys) (t : Task) : Option Sys := do
  let lm ← s.waits t
  guard (s.free t lm)
  match t with
  | .sync => some { s with sync := { s.sync with held := true } }
  | .reader c => do some { s with mux := ← s.mux.step cfg (.lockLoad c) }
  | .call k => do
    let sel ← s.sels[k]?
    if sel.waits.isSome then some { s with sels := s.sels.set k { sel with held := true } }
    else some { s with mux := ← s.mux.step cfg (.lockStore k) }

/-- The `cleanup` that a piece of a selection runs on a closed connection. -/
def selMux (cfg : Config) (m : Mux) : SelPc → Mux
  | .fClean _ _ _ _ c start => demuxCleanup m c.id start cfg.cleanupAge
  | .lClean _ _ c start => demuxCleanup m c.id start cfg.cleanupAge
  | _ => m

/-- The connection that a piece of the sync task opens. -/
def syncMux (m : Mux) : SyncPc → SyncInput → Mux
  | .leaderConnect host _ (_ :: _), .connected true => { m with conns := m.conns ++ [{ addr := host }] }
  | .connect _ (host :: _) _, .connected true => { m with conns := m.conns ++ [{ addr := host }] }
  | _, _ => m

/-- A selection starts, runs a piece (with the `cleanup` it may contain), or hands its result to the
call. -/
def selStep (cfg : Config) (s : Sys) (k : Nat) : Option Sys := do
  let sel ← s.sels[k]?
  match sel.pc with
  | .idle => do
    let call ← s.mux.calls[k]?
    guard (call.pc = .select)
    some { s with sels := s.sels.set k { pc := if call.isWrite then .lLock else .fLen } }
  | .ret r => do
    let mux ← s.mux.step cfg (.selected k (r.map (·.id)))
    some { s with mux, sels := s.sels.set k {} }
  | pc => do
    guard sel.waits.isNone
    let (handler, pc') ← selBody cfg s.closed s.mux.now s.handler pc
    some { s with handler, mux := selMux cfg s.mux pc, sels := s.sels.set k { pc := pc' } }

/-- `synced` after a step of the sync task from `pc`. -/
def nextSynced (synced : Option (List String)) : SyncPc → SyncPc → Option (List String)
  | .snapshot _, _ => none
  | .nextHost fs [] _ _, .leave => some fs
  | _, _ => synced

def syncStep (cfg : Config) (s : Sys) (i : SyncInput) : Option Sys := do
  guard s.sync.waits.isNone
  let (handler, pc) ← syncBody cfg s.closed s.mux.conns.length s.handler s.sync.pc i
  some { s with
    handler
    mux := syncMux s.mux s.sync.pc i
    sync := { pc, synced := nextSynced s.sync.synced s.sync.pc pc } }

def step (cfg : Config) (s : Sys) : SysLabel → Option Sys
  | .acquire t => s.acquire cfg t
  | .sel k => s.selStep cfg k
  | .sync i => s.syncStep cfg i
  | .mux (.spawn w f) => do some { s with mux := ← s.mux.step cfg (.spawn w f), sels := s.sels ++ [{}] }
  | .mux (.free c) => do
    guard (!s.referenced c)
    some { s with mux := ← s.mux.step cfg (.free c) }
  | .mux l => do
    guard (internal l)
    some { s with mux := ← s.mux.step cfg l }
  | .rehashHistory history => do
    guard (history.entries.Perm s.handler.loadBalancer.followerHistory.entries)
    some { s with handler :=
      { s.handler with loadBalancer := { s.handler.loadBalancer with followerHistory := history } } }
  | .rehashFollowers followers => do
    guard (followers.entries.Perm s.handler.followers.entries)
    some { s with handler := { s.handler with followers } }

/-! ### Pieces of runs -/

/-- A first sync finds the leader `host`, opens one connection to it and goes on to the followers. -/
def leaderUp (host : String) (fs : List String) : List SysLabel :=
  [.sync .slowTick, .sync .go, .sync (.discovered (some (host, fs))), .sync .go, .acquire .sync, .sync .go,
    .sync .go, .acquire .sync, .sync .go, .sync (.connected true), .acquire .sync, .sync .go, .sync .go,
      .sync .go]

/-- A sync finds the leader `host` (for the first time when `changed`), opens nothing there and goes on to
the followers. -/
def leaderDown (host : String) (fs : List String) (changed : Bool) : List SysLabel :=
  List.flatten
    [[.sync .slowTick, .sync .go, .sync (.discovered (some (host, fs))), .sync .go],
      if changed then [.acquire .sync, .sync .go, .sync .go] else [],
      [.acquire .sync, .sync .go, .sync (.connected false), .sync .go]]

/-- `sync_followers` tries to open one connection to each of `hosts`, with the outcomes given, and the sync
ends. -/
def followersUp (hosts : List (String × Bool)) : List SysLabel :=
  let up := hosts.filter (·.2)
  List.flatten
    [[.acquire .sync, .sync (.order (hosts.map (·.1)))],
      hosts.map fun x => .sync (.connected x.2),
      [.sync .go, .acquire .sync, .sync .go, .acquire .sync, .sync (.order (up.map (·.1)))],
      up.flatMap fun _ => [.sync .go, .sync .go, .acquire .sync, .sync .go, .sync .go],
      [.sync .go, .sync .go]]

/-- Call `k`, a write, is made and goes over the leader's connection up to awaiting its response. -/
def writeCall (k : Nat) (shardFrame : Bytes) : List SysLabel :=
  [.mux (.spawn true shardFrame), .mux (.start k), .sel k, .acquire (.call k), .sel k, .acquire (.call k), .sel k,
    .sel k, .sel k, .mux (.draw k), .acquire (.call k), .mux (.store k), .mux (.send k)]

/-- Call `k`, a read, is made and its selection finds a connection at the first index it looks at. -/
def readCall (k : Nat) (shardFrame : Bytes) : List SysLabel :=
  [.mux (.spawn false shardFrame), .mux (.start k), .sel k, .acquire (.call k), .sel k, .acquire (.call k),
    .sel k,
    .acquire (.call k), .sel k, .sel k]

/-- Connection `c` receives `frame` and its read loop hands it out. -/
def reply (c : Nat) (frame : Bytes) : List SysLabel :=
  [.mux (.feed c frame), .mux (.drain c), .acquire (.reader c), .mux (.loadRemove c), .mux (.deliver c)]

end Sys
end RzBridge
