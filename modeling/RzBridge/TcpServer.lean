import RzBridge.Sys

/-!
# The client side (`tcp_server.rs`)

`handle_connection` reads from a client into a buffer, takes the router frames off its front one at a
time, runs `execute` on each and writes the response back before it looks at the next one. `Client`
is one such connection, cut at its awaits; an event comes with the instant at which it happens.
`Server` runs any number of clients over the cluster handler: an `execute` call is made by a client
and its result goes back to that client.
-/

namespace RzBridge
open Machine

/-! ### One round of the drain loop -/

/-- What a round of the drain loop does with the buffer. -/
inductive DrainIter
  | bufferTooLarge
  | needMore
  | frameTooLarge (f : RouterFrame)
  | frame (f : RouterFrame) (rest : Bytes)
  /-- a parse error, with a magic byte further on: the next round starts there -/
  | resync (rest : Bytes)
  /-- a parse error and no magic byte left: the loop ends -/
  | garbage (rest : Bytes)
deriving DecidableEq, Repr

def drainIter (cfg : Config) (buf : Bytes) : DrainIter :=
  if buf.length > cfg.maxBufferSize then .bufferTooLarge
  else
    match tryDecodeRouter buf with
    | .needMore => .needMore
    | .frame f => if f.frameLen > cfg.maxFrameSize then .frameTooLarge f else .frame f (buf.drop f.frameLen)
    | .error _ =>
      if buf = [] then .garbage buf
      else
        let buf := buf.drop 1
        match findNextRouterMagic buf 0 with
        | some pos => .resync (if pos > 0 then buf.drop pos else buf)
        | none => .garbage (if buf.length > 64 then buf.drop (buf.length - min 8 buf.length) else buf)

/-! ### A client connection -/

/-- Why `handle_connection` returned. -/
inductive CloseCause
  | cancelled
  | peerClosed
  | readError
  | idleTimeout
  | bufferTooLarge
  | frameTimeout
  | frameTooLarge (f : RouterFrame)
  | writeFailed (f : RouterFrame)
  | executeFailed (f : RouterFrame)
deriving DecidableEq, Repr

inductive ClientPc
  /-- at the `select!` -/
  | reading
  /-- at the head of the drain loop -/
  | draining
  /-- in `cluster.execute` -/
  | executing (f : RouterFrame)
  /-- in `write_all` of the reply -/
  | replying (f : RouterFrame) (r : Except RZError Bytes)
  | closed (cause : CloseCause)
deriving DecidableEq

/-- A run of `handle_connection`. `closeMsgs` counts its messages on the close channel. The last
five fields are history variables: the bytes read, the frames taken off the buffer, the requests
whose `execute` has returned with its result, the results whose reply was written (or failed to be)
and the bytes written. -/
structure Client where
  buf : Bytes := []
  lastFrameTime : Nat := 0
  readSince : Nat := 0
  pc : ClientPc := .reading
  closeMsgs : Nat := 0
  input : Bytes := []
  frames : List RouterFrame := []
  returned : List (RouterFrame × Except RZError Bytes) := []
  outcomes : List (Except RZError Bytes × Bool) := []
  written : Bytes := []

inductive ClientEvent
  | cancel
  /-- a read returned bytes -/
  | read (chunk : Bytes)
  | eof
  | readError
  /-- the read timed out -/
  | idle
  /-- a round of the drain loop -/
  | drain
  /-- `execute` returned -/
  | returned (r : Except RZError Bytes)
  | wrote
  /-- `write_all` failed after `n` bytes -/
  | writeFail (n : Nat)
deriving DecidableEq

/-- The bytes written for a result. -/
def replyBytes (f : RouterFrame) : Except RZError Bytes → Bytes
  | .ok resp => resp
  | .error _ => buildErrorResponse f.originalClrid 4

namespace Client

/-- A connection accepted at `now`. -/
def new (now : Nat) : Client := { lastFrameTime := now, readSince := now }

/-- `close_tx.send(())`, and the function returns. -/
def close (c : Client) (cause : CloseCause) : Client :=
  { c with pc := .closed cause, closeMsgs := c.closeMsgs + 1 }

/-- One round of the drain loop. -/
def drain (cfg : Config) (now : Nat) (c : Client) : Client :=
  match drainIter cfg c.buf with
  | .bufferTooLarge => c.close .bufferTooLarge
  | .needMore =>
    if now - c.lastFrameTime > cfg.frameTimeout then c.close .frameTimeout
    else { c with pc := .reading, readSince := now }
  | .frameTooLarge f => c.close (.frameTooLarge f)
  | .frame f rest =>
    { c with
      buf := rest
      lastFrameTime := now
      frames := c.frames ++ [f]
      pc := if f.segment = keepaliveSegment then .draining else .executing f }
  | .resync rest => { c with buf := rest }
  | .garbage rest => { c with buf := rest, pc := .reading, readSince := now }

/-- The reply was written, or failed to be after `n` bytes. -/
def replied (c : Client) (f : RouterFrame) (r : Except RZError Bytes) (failedAfter : Option Nat) : Client :=
  let c := { c with
    outcomes := c.outcomes ++ [(r, failedAfter.isNone)]
    written := c.written ++ (failedAfter.elim (replyBytes f r) fun n => (replyBytes f r).take n) }
  match r, failedAfter with
  | .ok _, none => { c with pc := .draining }
  | .ok _, some _ => c.close (.writeFailed f)
  | .error _, _ => c.close (.executeFailed f)

def step (cfg : Config) (c : Client) : Nat × ClientEvent → Option Client
  | (_, .cancel) => if c.pc = .reading then some (c.close .cancelled) else none
  | (_, .read chunk) =>
    if c.pc = .reading ∧ chunk ≠ [] then
      some { c with buf := c.buf ++ chunk, input := c.input ++ chunk, pc := .draining }
    else none
  | (_, .eof) => if c.pc = .reading then some (c.close .peerClosed) else none
  | (_, .readError) => if c.pc = .reading then some (c.close .readError) else none
  | (now, .idle) =>
    if c.pc = .reading ∧ c.readSince + cfg.idleTimeout ≤ now then some (c.close .idleTimeout) else none
  | (now, .drain) => if c.pc = .draining then some (c.drain cfg now) else none
  | (_, .returned r) =>
    match c.pc with
    | .executing f => some { c with pc := .replying f r, returned := c.returned ++ [(f, r)] }
    | _ => none
  | (_, .wrote) =>
    match c.pc with
    | .replying f r => some (c.replied f r none)
    | _ => none
  | (_, .writeFail n) =>
    match c.pc with
    | .replying f r => some (c.replied f r (some n))
    | _ => none

end Client

/-! ### The server -/

/-- A client connection and, while it is in `execute`, the number of the call. -/
structure Served where
  client : Client
  call : Nat := 0

/-- `active` is `active_connections`, `closeQueue` the number of messages in the close channel. -/
structure Server where
  sys : Sys
  clients : List Served := []
  active : Nat := 0
  closeQueue : Nat := 0
  cancelled : Bool := false

inductive ServerLabel
  | accept
  | client (i : Nat) (e : ClientEvent)
  /-- the closing task takes a message -/
  | closeMsg
  | shutdown
  /-- a step of the cluster handler other than a new call -/
  | sys (l : SysLabel)

namespace Server

def init (cfg : Config) : Server := { sys := Sys.init cfg }

/-- `accept`: a connection over `max_connections` is dropped. -/
def accept (cfg : Config) (s : Server) : Server :=
  if s.active ≥ cfg.maxConnections then s
  else { s with clients := s.clients ++ [{ client := Client.new s.sys.mux.now }], active := s.active + 1 }

/-- The result of `execute` comes from the client's own call, and cancellation from the server's token. -/
def allows (s : Server) (x : Served) : ClientEvent → Bool
  | .returned r => (s.sys.mux.calls[x.call]?).any fun call => call.pc = .done r
  | .cancel => s.cancelled
  | _ => true

/-- An event of client `i`; a frame to be executed starts a new call. -/
def clientStep (cfg : Config) (s : Server) (i : Nat) (e : ClientEvent) : Option Server := do
  let x ← s.clients[i]?
  guard (s.allows x e)
  let client ← x.client.step cfg (s.sys.mux.now, e)
  let s := { s with closeQueue := s.closeQueue + (client.closeMsgs - x.client.closeMsgs) }
  match e, client.pc with
  | .drain, .executing f =>
    let sys ← s.sys.step cfg (.mux (.spawn f.isWrite f.shardFrame))
    some { s with sys, clients := s.clients.set i { client, call := s.sys.mux.calls.length } }
  | _, _ => some { s with clients := s.clients.set i { x with client } }

def step (cfg : Config) (s : Server) : ServerLabel → Option Server
  | .accept => some (s.accept cfg)
  | .client i e => s.clientStep cfg i e
  | .closeMsg =>
    if s.closeQueue = 0 then none
    else some { s with closeQueue := s.closeQueue - 1, active := (s.active + (2 ^ 64 - 1)) % 2 ^ 64 }
  | .shutdown => some { s with cancelled := true }
  | .sys (.mux (.spawn _ _)) => none
  | .sys l => do some { s with sys := ← s.sys.step cfg l }

/-! ### Pieces of runs -/

/-- Client `i` sends a request with an empty segment, and its drain loop takes it. -/
def request (i : Nat) (isWrite : Bool) (shardFrame : Bytes) : List ServerLabel :=
  [.client i (.read ([routerMagic] ++ LittleEndian.leBytes 4 (2 + shardFrame.length) ++
    [0, if isWrite then 1 else 0] ++ shardFrame)),
    .client i .drain]

/-- Client `i` sends a write, and its `execute` call `k` goes over the leader's connection up to
awaiting its response. -/
def writeRequest (i k : Nat) (shardFrame : Bytes) : List ServerLabel :=
  request i true shardFrame ++ ((Sys.writeCall k shardFrame).drop 1).map .sys

end Server
end RzBridge
