import RzBridge.TcpServer
import RzBridge.Topology

/-!
# The bridge (`async_main`)

The server with the cluster handler under it, whose sync task gets its topologies from
`TopologyDiscovery::discover`. What `discover` remembers between calls is part of the state; what the nodes, the
resolver and RzID answer to it comes with the label (`Encounter`).
-/

namespace RzBridge

/-- `discoveries` is a history variable: the calls of `discover` so far, each with what it met and the node ids it
started from. -/
structure Bridge where
  server : Server
  knownNodeIds : List String := []
  discoveries : List (Encounter × List String) := []

inductive BridgeLabel
  /-- `discover` returns to the sync task -/
  | discover (x : Encounter)
  /-- any other step -/
  | server (l : ServerLabel)

/-- What the sync task makes of the result of `discover`. -/
def Discovery.topology (d : Discovery) : Option ClusterTopology :=
  match d.result with
  | .ok topo => some topo
  | .error _ => none

namespace Bridge

/-- There are no seeds at first: `async_main` passes an empty list. -/
def init (cfg : Config) : Bridge := { server := Server.init cfg }

def step (cfg : Config) (b : Bridge) : BridgeLabel → Option Bridge
  | .discover x => do
    let d := RzBridge.discover x b.knownNodeIds
    let server ← b.server.step cfg (.sys (.sync (.discovered (d.topology.map fun t => (t.leader, t.followers)))))
    some { server, knownNodeIds := d.knownNodeIds, discoveries := b.discoveries ++ [(x, b.knownNodeIds)] }
  | .server (.sys (.sync (.discovered _))) => none
  | .server l => do some { b with server := ← b.server.step cfg l }

end Bridge
end RzBridge
