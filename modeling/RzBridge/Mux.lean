import RzBridge.Config
import RzBridge.Protocol
import RzBridge.Lib.Machine
import Mathlib.Data.List.AList

/-!
# The multiplexer (`demux.rs`, `connection.rs`, `ClusterHandler::execute`)

Many `execute` calls share a backend connection. A call draws a correlation id, registers the sender
of a one-shot channel under it in the connection's demux map, queues the patched frame and awaits
the channel; the connection's write loop drains the queue into the socket and its read loop hands
each frame received to the sender registered under the frame's id.

The machine interleaves the steps of all calls and of the two loops of every connection: a label
names the task that moves and whatever the environment decides. Which connection a call gets is left
open here (`MuxLabel.selected`); the pool decides it in `Sys`. A program counter that ends in a
`held` flag is at a demux lock: `false` while it waits for the lock, `true` once it was granted.
-/

namespace RzBridge
open LittleEndian

/-- A one-shot channel, named by the attempt that made it. -/
structure Tok where
  call : Nat
  attempt : Nat
deriving DecidableEq, Repr

/-- What the receiver of a one-shot channel finds in it. -/
inductive Slot
  | empty
  | sent (response : Bytes)
  | dropped
deriving DecidableEq, Repr

/-- Where an `execute` call stands. -/
inductive CallPc
  | start
  /-- inside `next_leader_conn` or `next_follower_conn` -/
  | select
  | draw (c : Nat)
  /-- at `demux.store`; the one-shot channel exists -/
  | store (c : Nat) (id : UInt32) (sentAt : Nat) (held : Bool)
  /-- at `send_raw` -/
  | send (c : Nat) (id : UInt32)
  /-- at `resp_rx.await` -/
  | await (c : Nat) (id : UInt32)
  | sleep
  | done (r : Except RZError Bytes)
deriving DecidableEq

/-- The receiver of the current attempt's channel is alive. -/
def CallPc.listening : CallPc → Bool
  | .store .. => true
  | .send .. => true
  | .await .. => true
  | _ => false

/-- The connection the call holds a clone of. -/
def CallPc.conn : CallPc → Option Nat
  | .draw c => some c
  | .store c .. => some c
  | .send c _ => some c
  | .await c _ => some c
  | _ => none

/-- An `execute` call. `shardFrame` is its argument, `frame` the local copy that each attempt
patches; `last` is a history variable: the connection and the id of the last attempt that drew
one. -/
structure Call where
  isWrite : Bool
  shardFrame : Bytes
  frame : Bytes
  attempts : Nat := 0
  pc : CallPc := .start
  slot : Slot := .empty
  last : Option (Nat × UInt32) := none

/-- `original_clrid` -/
def Call.originalClrid (call : Call) : UInt32 := u32FromLeBytes (slice call.shardFrame 1 5)

/-- `attempts += 1; if attempts >= 3 { return Err(e) }; sleep` -/
def Call.retry (call : Call) (e : RZError) : Call :=
  { call with
    attempts := call.attempts + 1
    pc := if call.attempts + 1 ≥ 3 then .done (.error e) else .sleep }

/-- The error returned when no connection could be selected. -/
def Call.noConn (call : Call) : RZError :=
  if call.isWrite then .noLeaderAvailable else .noFollowerNodeAvailable

/-- What `execute` returns for a response. -/
def Call.answer (call : Call) (response : Bytes) : Bytes :=
  if response.length ≥ 9 then setClrid call.originalClrid response else response

inductive WriterPc
  | recv
  | writing (frame : Bytes)
  /-- left the loop -/
  | stop
  /-- stored `closed`, the receiver not dropped yet -/
  | finish
  | ended
deriving DecidableEq, Repr

inductive ReaderPc
  /-- inside `drain_frame_async` -/
  | reading
  /-- at `demux.load_remove` -/
  | lookup (hdr : Header) (frame : Bytes) (held : Bool)
  /-- holds the sender taken from the map -/
  | deliver (tx : Tok) (hdr : Header) (frame : Bytes)
  /-- left the loop -/
  | stop
  | ended
deriving DecidableEq, Repr

abbrev DemuxMap := AList fun _ : UInt32 => Tok × Nat

/-- A backend connection with its two loops. The last five fields are history variables: who drew
each id, the frames `send_raw` accepted, the bytes written to the socket, the frames
`drain_frame_async` returned, and which of them (by position) went to which channel. -/
structure Conn where
  addr : String
  demux : DemuxMap := ∅
  corrId : UInt32 := 1
  closed : Bool := false
  queue : List Bytes := []
  writer : WriterPc := .recv
  reader : ReaderPc := .reading
  buf : Bytes := []
  draws : List Tok := []
  accepted : List (Tok × Bytes) := []
  emitted : Bytes := []
  received : List (Header × Bytes) := []
  delivered : List (Nat × Tok) := []

structure Mux where
  conns : List Conn := []
  calls : List Call := []
  now : Nat := 0

namespace Mux

def setConn (m : Mux) (c : Nat) (conn : Conn) : Mux := { m with conns := m.conns.set c conn }

def setCall (m : Mux) (k : Nat) (call : Call) : Mux := { m with calls := m.calls.set k call }

/-- Put `s` into the channel `tok`, unless its receiver is gone. -/
def fillSlot (m : Mux) (tok : Tok) (s : Slot) : Mux :=
  { m with calls := m.calls.modify tok.call fun call =>
      if call.attempts = tok.attempt ∧ call.pc.listening then { call with slot := s } else call }

/-- The sender `tok` is dropped unsent. -/
def dropSender (m : Mux) (tok : Tok) : Mux := m.fillSlot tok .dropped

/-- `tx.send(response)` -/
def sendSender (m : Mux) (tok : Tok) (response : Bytes) : Mux := m.fillSlot tok (.sent response)

end Mux

/-! ### The demux map -/

/-- `DemuxMap::store` on connection `c`; a sender registered under the same id is dropped. -/
def demuxStore (m : Mux) (c : Nat) (conn : Conn) (id : UInt32) (tok : Tok) (sentAt : Nat) : Mux :=
  let m := match conn.demux.lookup id with
    | some (old, _) => m.dropSender old
    | none => m
  m.setConn c { conn with demux := conn.demux.insert id (tok, sentAt) }

/-- The ids `DemuxMap::cleanup` collects: those registered more than `maxAge` before `start`. -/
def timedOut (demux : DemuxMap) (start maxAge : Nat) : List UInt32 :=
  (demux.entries.filter fun e => e.2.2 + maxAge < start).map (·.1)

/-- One round of the second loop of `DemuxMap::cleanup`. -/
def expire (m : Mux) (c : Nat) (id : UInt32) : Mux :=
  match m.conns[c]? with
  | none => m
  | some conn =>
    match conn.demux.lookup id with
    | some (tok, _) => (m.setConn c { conn with demux := conn.demux.erase id }).sendSender tok []
    | none => m

/-- `DemuxMap::cleanup`, called at the instant `start` (it reads the clock before it takes the lock). -/
def demuxCleanup (m : Mux) (c start maxAge : Nat) : Mux :=
  match m.conns[c]? with
  | none => m
  | some conn => (timedOut conn.demux start maxAge).foldl (expire · c) m

/-! ### The read loop's decision to close -/

/-- `should_close`, as the read loop computes it: its `payload` is the whole frame. -/
def shouldClose (hdr : Header) (payload : Bytes) : Bool :=
  let fieldDataStart := 1 + hdr.statusLen.toNat + 2
  if payload.length ≥ fieldDataStart ∧
      slice payload 1 (1 + hdr.statusLen.toNat) = [0x45, 0x52, 0x52, 0x4F, 0x52] then
    match fromUtf8 (slice payload fieldDataStart (fieldDataStart + 3)) with
    | some code => code = "308" ∨ code = "405" ∨ code = "503"
    | none => false
  else false

/-! ### The machine -/

inductive MuxLabel
  /-- a call of `execute` -/
  | spawn (isWrite : Bool) (shardFrame : Bytes)
  | start (k : Nat)
  /-- the selection returned (`none`, or some connection) -/
  | selected (k : Nat) (r : Option Nat)
  | draw (k : Nat)
  | lockStore (k : Nat)
  | store (k : Nat)
  | send (k : Nat)
  | receive (k : Nat)
  | wake (k : Nat)
  /-- `Connection::connect` succeeded -/
  | connect (host : String)
  /-- a read of the read loop returned bytes -/
  | feed (c : Nat) (chunk : Bytes)
  /-- a read of the read loop returned nothing, or failed -/
  | readEnd (c : Nat)
  | drain (c : Nat)
  | lockLoad (c : Nat)
  | loadRemove (c : Nat)
  | deliver (c : Nat)
  | readerStop (c : Nat)
  | take (c : Nat)
  | wrote (c : Nat)
  /-- `write_all` or `flush` failed after `n` bytes of the frame -/
  | writeFail (c n : Nat)
  | writerStop (c : Nat)
  | writerDrop (c : Nat)
  /-- `cleanup(2 * timeout_sec)` on connection `c`, called at `start` -/
  | cleanup (c start : Nat)
  /-- the last handle of the connection is gone: its map and the senders in it are dropped -/
  | free (c : Nat)
  | tick (d : Nat)
deriving DecidableEq

namespace Mux

def callStart (m : Mux) (k : Nat) : Option Mux := do
  let call ← m.calls[k]?
  guard (call.pc = .start)
  if call.frame.length < 9 ∨ call.frame.headD 0 ≠ shardMagic then
    some (m.setCall k { call with pc := .done (.error (.validation "invalid shard frame")) })
  else some (m.setCall k { call with pc := .select })

/-- The match on the selected connection: `Some(c) if !c.is_closed()` goes on, anything else counts
as a failed attempt. -/
def callSelected (m : Mux) (k : Nat) (r : Option Nat) : Option Mux := do
  let call ← m.calls[k]?
  guard (call.pc = .select)
  match r with
  | none => some (m.setCall k (call.retry call.noConn))
  | some c =>
    let conn ← m.conns[c]?
    if conn.closed then some (m.setCall k (call.retry call.noConn))
    else some (m.setCall k { call with pc := .draw c })

/-- `next_corr_id`, the patch of the frame and the new one-shot channel. -/
def callDraw (m : Mux) (k : Nat) : Option Mux := do
  let call ← m.calls[k]?
  let .draw c := call.pc | none
  let conn ← m.conns[c]?
  let m := m.setConn c
    { conn with corrId := conn.corrId + 1, draws := conn.draws ++ [⟨k, call.attempts⟩] }
  some (m.setCall k
    { call with
      frame := setClrid conn.corrId call.frame
      slot := .empty
      last := some (c, conn.corrId)
      pc := .store c conn.corrId m.now false })

def callLockStore (m : Mux) (k : Nat) : Option Mux := do
  let call ← m.calls[k]?
  let .store c id sentAt false := call.pc | none
  some (m.setCall k { call with pc := .store c id sentAt true })

def callStore (m : Mux) (k : Nat) : Option Mux := do
  let call ← m.calls[k]?
  let .store c id sentAt true := call.pc | none
  let conn ← m.conns[c]?
  some (demuxStore (m.setCall k { call with pc := .send c id }) c conn id ⟨k, call.attempts⟩ sentAt)

/-- `send_raw`: refused once the write loop has dropped the receiver, waiting while the channel is
full. -/
def callSend (cfg : Config) (m : Mux) (k : Nat) : Option Mux := do
  let call ← m.calls[k]?
  let .send c id := call.pc | none
  let conn ← m.conns[c]?
  if conn.writer = .ended then some (m.setCall k (call.retry .timeout))
  else
    guard (conn.queue.length < cfg.sendCapacity)
    some ((m.setConn c
      { conn with
        queue := conn.queue ++ [call.frame]
        accepted := conn.accepted ++ [(⟨k, call.attempts⟩, call.frame)] }).setCall k
      { call with pc := .await c id })

def callReceive (m : Mux) (k : Nat) : Option Mux := do
  let call ← m.calls[k]?
  let .await _ _ := call.pc | none
  match call.slot with
  | .empty => none
  | .sent response => some (m.setCall k { call with pc := .done (.ok (Call.answer call response)) })
  | .dropped => some (m.setCall k (call.retry .timeout))

def callWake (m : Mux) (k : Nat) : Option Mux := do
  let call ← m.calls[k]?
  guard (call.pc = .sleep)
  some (m.setCall k { call with pc := .select })

def readerFeed (m : Mux) (c : Nat) (chunk : Bytes) : Option Mux := do
  let conn ← m.conns[c]?
  guard (conn.reader = .reading ∧ drainStep conn.buf = .needMore ∧ chunk ≠ [])
  some (m.setConn c { conn with buf := conn.buf ++ chunk })

def readerEnd (m : Mux) (c : Nat) : Option Mux := do
  let conn ← m.conns[c]?
  guard (conn.reader = .reading ∧ drainStep conn.buf = .needMore)
  some (m.setConn c { conn with reader := .stop })

def readerDrain (m : Mux) (c : Nat) : Option Mux := do
  let conn ← m.conns[c]?
  guard (conn.reader = .reading)
  match drainStep conn.buf with
  | .needMore => none
  | .failed _ rest => some (m.setConn c { conn with buf := rest, reader := .stop })
  | .frame hdr frame rest =>
    some (m.setConn c
      { conn with
        buf := rest
        reader := .lookup hdr frame false
        received := conn.received ++ [(hdr, frame)] })

def readerLock (m : Mux) (c : Nat) : Option Mux := do
  let conn ← m.conns[c]?
  let .lookup hdr frame false := conn.reader | none
  some (m.setConn c { conn with reader := .lookup hdr frame true })

/-- `load_remove`; the loop ends on an unknown id. -/
def readerLoadRemove (m : Mux) (c : Nat) : Option Mux := do
  let conn ← m.conns[c]?
  let .lookup hdr frame true := conn.reader | none
  match conn.demux.lookup hdr.clrId with
  | some (tok, _) =>
    some (m.setConn c
      { conn with demux := conn.demux.erase hdr.clrId, reader := .deliver tok hdr frame })
  | none => some (m.setConn c { conn with reader := .stop })

/-- `tx.send` and the close decision. -/
def readerDeliver (m : Mux) (c : Nat) : Option Mux := do
  let conn ← m.conns[c]?
  let .deliver tok hdr frame := conn.reader | none
  let conn' := { conn with delivered := conn.delivered ++ [(conn.received.length - 1, tok)] }
  some ((m.setConn c
    (if shouldClose hdr frame then { conn' with closed := true, reader := .stop }
      else { conn' with reader := .reading })).sendSender tok frame)

def readerStop (m : Mux) (c : Nat) : Option Mux := do
  let conn ← m.conns[c]?
  guard (conn.reader = .stop)
  some (m.setConn c { conn with closed := true, reader := .ended })

/-- `send_rx.recv()`. It never returns `None`: the loop's own handle of the connection keeps a
sender alive. -/
def writerTake (m : Mux) (c : Nat) : Option Mux := do
  let conn ← m.conns[c]?
  guard (conn.writer = .recv)
  match conn.queue with
  | [] => none
  | frame :: queue => some (m.setConn c { conn with queue, writer := .writing frame })

def writerWrote (m : Mux) (c : Nat) : Option Mux := do
  let conn ← m.conns[c]?
  let .writing frame := conn.writer | none
  some (m.setConn c { conn with emitted := conn.emitted ++ frame, writer := .recv })

def writerFail (m : Mux) (c n : Nat) : Option Mux := do
  let conn ← m.conns[c]?
  let .writing frame := conn.writer | none
  some (m.setConn c { conn with emitted := conn.emitted ++ frame.take n, writer := .stop })

def writerStop (m : Mux) (c : Nat) : Option Mux := do
  let conn ← m.conns[c]?
  guard (conn.writer = .stop)
  some (m.setConn c { conn with closed := true, writer := .finish })

def writerDrop (m : Mux) (c : Nat) : Option Mux := do
  let conn ← m.conns[c]?
  guard (conn.writer = .finish)
  some (m.setConn c { conn with queue := [], writer := .ended })

/-- Both loops are over and no call holds a handle (the pool's handles are accounted for in
`Sys`). -/
def connFree (m : Mux) (c : Nat) : Option Mux := do
  let conn ← m.conns[c]?
  guard (conn.reader = .ended ∧ conn.writer = .ended ∧ ∀ call ∈ m.calls, call.pc.conn ≠ some c)
  some ((conn.demux.entries.map (·.2.1)).foldl dropSender (m.setConn c { conn with demux := ∅ }))

def step (cfg : Config) (m : Mux) : MuxLabel → Option Mux
  | .spawn w f => some { m with calls := m.calls ++ [{ isWrite := w, shardFrame := f, frame := f }] }
  | .start k => m.callStart k
  | .selected k r => m.callSelected k r
  | .draw k => m.callDraw k
  | .lockStore k => m.callLockStore k
  | .store k => m.callStore k
  | .send k => m.callSend cfg k
  | .receive k => m.callReceive k
  | .wake k => m.callWake k
  | .connect host => some { m with conns := m.conns ++ [{ addr := host }] }
  | .feed c chunk => m.readerFeed c chunk
  | .readEnd c => m.readerEnd c
  | .drain c => m.readerDrain c
  | .lockLoad c => m.readerLock c
  | .loadRemove c => m.readerLoadRemove c
  | .deliver c => m.readerDeliver c
  | .readerStop c => m.readerStop c
  | .take c => m.writerTake c
  | .wrote c => m.writerWrote c
  | .writeFail c n => m.writerFail c n
  | .writerStop c => m.writerStop c
  | .writerDrop c => m.writerDrop c
  | .cleanup c start => some (demuxCleanup m c start cfg.cleanupAge)
  | .free c => m.connFree c
  | .tick d => some { m with now := m.now + d }

end Mux
end RzBridge
