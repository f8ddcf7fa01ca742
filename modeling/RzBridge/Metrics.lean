import RzBridge.TcpServer

/-!
# The counters (`metrics.rs`)

All connections of a bridge count in the same `BridgeMetrics`. `Client.meter` is what `handle_connection` adds
to it in one event; `Metered` is the server with its counters.
-/

namespace RzBridge

/-- `BridgeMetrics`, without `connections_opened` and `connections_closed`, which nothing ever increments. The
counters are `u64` and are taken not to wrap. -/
structure BridgeMetrics where
  framesReceived : Nat := 0
  framesExecuted : Nat := 0
  bytesReceived : Nat := 0
  bytesSent : Nat := 0
  keepalivesReceived : Nat := 0
  clientErrors : Nat := 0
  executeErrors : Nat := 0
  timeouts : Nat := 0
  resyncs : Nat := 0
deriving DecidableEq, Repr

/-- What `handle_connection` counts in an event. -/
def Client.meter (cfg : Config) (c : Client) (m : BridgeMetrics) : Nat × ClientEvent → BridgeMetrics
  | (_, .read chunk) => { m with bytesReceived := m.bytesReceived + chunk.length }
  | (_, .idle) => { m with timeouts := m.timeouts + 1 }
  | (now, .drain) =>
    match drainIter cfg c.buf with
    | .bufferTooLarge => { m with clientErrors := m.clientErrors + 1 }
    | .needMore => if now - c.lastFrameTime > cfg.frameTimeout then { m with timeouts := m.timeouts + 1 } else m
    | .frameTooLarge _ => { m with clientErrors := m.clientErrors + 1 }
    | .frame f _ =>
      { m with
        framesReceived := m.framesReceived + 1
        keepalivesReceived := m.keepalivesReceived + if f.segment = keepaliveSegment then 1 else 0 }
    | .resync _ => { m with clientErrors := m.clientErrors + 1, resyncs := m.resyncs + 1 }
    | .garbage _ => { m with clientErrors := m.clientErrors + 1, resyncs := m.resyncs + 1 }
  -- before the reply is written; an error response is not counted as sent
  | (_, .returned (.ok resp)) =>
    { m with framesExecuted := m.framesExecuted + 1, bytesSent := m.bytesSent + resp.length }
  | (_, .returned (.error _)) => { m with executeErrors := m.executeErrors + 1 }
  | _ => m

structure Metered where
  server : Server
  metrics : BridgeMetrics := {}

namespace Metered

def init (cfg : Config) : Metered := { server := Server.init cfg }

/-- What a step of the server counts. -/
def meter (cfg : Config) (s : Metered) : ServerLabel → BridgeMetrics
  | .client i e =>
    match s.server.clients[i]? with
    | some x => x.client.meter cfg s.metrics (s.server.sys.mux.now, e)
    | none => s.metrics
  | _ => s.metrics

def step (cfg : Config) (s : Metered) (l : ServerLabel) : Option Metered := do
  let server ← s.server.step cfg l
  some { server, metrics := s.meter cfg l }

end Metered
end RzBridge
