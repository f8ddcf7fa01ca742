import RzBridge.Protocol
import RzBridge.Lib.Tally

/-!
# Topology discovery (`topology.rs`)

`discoverFromSeeds` probes the seed nodes and the peers they name, lets the nodes vote on the leader's id
and sorts their hosts; `discover` tries it with the node ids it remembers and falls back to RzID. What the
resolver, the nodes and RzID answer is left open: `Responses` holds what the requests of one probing task
return. A `HashSet` or `HashMap` is gone through in some order, which a `Shuffle` stands for.
-/

namespace RzBridge
open Tally

/-- An order in which the elements of a set or the values of a map may be gone through. -/
structure Shuffle (α : Type) where
  run : List α → List α
  perm : ∀ l, (run l).Perm l

/-- What `RzPointResolver::resolve` and the three `NodeClient` calls of a probing task return. Of the
`NodeInfo` only the `leader_id` is used. -/
structure Responses where
  resolve : Except RZError String
  health : Except RZError String
  nodeInfo : Except RZError String
  peers : Except RZError (List String)

structure NodeData where
  host : String
  health : String
  leaderId : String
deriving DecidableEq, Repr

/-- A node that was probed successfully: `(node_id, host, data, peers)`. -/
structure Probe where
  nodeId : String
  host : String
  data : NodeData
  peers : List String
deriving DecidableEq, Repr

/-- A task of `probe_nodes`. -/
def probeNode (nodeId : String) (r : Responses) : Option Probe :=
  match r.resolve with
  | .error _ => none
  | .ok hostname =>
    match r.health with
    | .error _ => none
    | .ok health =>
      if health = "unavailable" then none
      else
        match r.nodeInfo with
        | .error _ => none
        | .ok leaderId =>
          some
            { nodeId
              host := hostname
              data := { host := hostname, health, leaderId }
              -- best effort: a failure does not discard the node
              peers := match r.peers with
                | .ok peers => peers
                | .error _ => [] }

/-- `probe_nodes`, where the `i`-th task gets the responses `responses i`. -/
def probeNodes (nodeIds : List String) (responses : Nat → Responses) : List Probe :=
  nodeIds.zipIdx.filterMap fun x => probeNode x.1 (responses x.2)

structure ClusterTopology where
  leader : String
  followers : List String
deriving DecidableEq, Repr

/-- What one attempt meets: the responses in its two phases and the orders of its unordered collections. -/
structure Attempt where
  seedResponses : Nat → Responses
  peerResponses : Nat → Responses
  peerOrder : Shuffle String
  nodeOrder : Shuffle NodeData
  voteOrder : Shuffle (String × Nat)

/-- `discovered_peers`: the peers named by the seeds, other than the seeds. -/
def discoveredPeers (seedIds : List String) (seedResults : List Probe) : List String :=
  seedResults.foldl (fun peers p => p.peers.foldl (fun peers peer =>
    if seedIds.contains peer then peers else peers.insert peer) peers) []

/-- `nodes`: the data kept for each host. -/
def mergeNodes (results : List Probe) : AList fun _ : String => NodeData :=
  results.foldl (fun nodes p => nodes.insert p.host p.data) ∅

/-- The votes of the nodes that report a leader. -/
def countVotes (values : List NodeData) : AList fun _ : String => Nat :=
  values.foldl (fun votes node =>
    if node.leaderId = "" then votes
    else votes.insert node.leaderId ((votes.lookup node.leaderId).getD 0 + 1)) ∅

/-- The loop that sorts the nodes which follow `leaderId`. -/
def classify (leaderId : String) (values : List NodeData) : Option String × List String :=
  values.foldl (fun (leaderHost, followers) node =>
    if node.leaderId = leaderId then
      if node.health = "active_leader" then (some node.host, followers)
      else if node.health = "active_follower" then (leaderHost, followers ++ [node.host])
      else (leaderHost, followers)
    else (leaderHost, followers)) (none, [])

/-- The vote and the classification, over the nodes kept. -/
def electLeader (a : Attempt) (nodes : AList fun _ : String => NodeData) : Except RZError ClusterTopology :=
  if nodes.entries = [] then .error .noLeaderAvailable
  else
    let values := a.nodeOrder.run (nodes.entries.map (·.2))
    match maxByKey Prod.snd (a.voteOrder.run ((countVotes values).entries.map fun e => (e.1, e.2))) with
    | none => .error .noLeaderAvailable
    | some (leaderId, _) =>
      match classify leaderId values with
      | (none, _) => .error .noLeaderAvailable
      | (some leader, followers) => .ok { leader, followers }

/-- `discover_from_seeds` -/
def discoverFromSeeds (a : Attempt) (seedIds : List String) : Except RZError (ClusterTopology × List String) :=
  if seedIds = [] then .error (.validation "roomzin seed node list is empty")
  else
    let seedResults := probeNodes seedIds a.seedResponses
    let discovered := discoveredPeers seedIds seedResults
    let peerResults := if discovered = [] then [] else probeNodes (a.peerOrder.run discovered) a.peerResponses
    let observedIds := seedResults.map (·.nodeId) ++ peerResults.map (·.nodeId)
    (electLeader a (mergeNodes (seedResults ++ peerResults))).map fun topo => (topo, observedIds)

/-! ### `discover` -/

/-- What a call of `discover` meets: the attempt from the known seeds, the answer of RzID's
`fetch_shard_nodes` and the attempt from RzID's list, as far as it comes to them. -/
structure Encounter where
  known : Attempt
  rzid : Except RZError (List String)
  fallback : Attempt

/-- The result of a call of `discover`, the `known_node_ids` it leaves and whether it asked RzID. -/
structure Discovery where
  result : Except RZError ClusterTopology
  knownNodeIds : List String
  askedRzid : Bool

/-- `discover` from the fallback on. -/
def discoverFromRzid (x : Encounter) (knownNodeIds : List String) : Discovery :=
  match x.rzid with
  | .error e => { result := .error e, knownNodeIds, askedRzid := true }
  | .ok seedIds =>
    if seedIds = [] then
      { result := .error (.validation "roomzin seed node list is empty"), knownNodeIds, askedRzid := true }
    else
      match discoverFromSeeds x.fallback seedIds with
      | .error e => { result := .error e, knownNodeIds, askedRzid := true }
      | .ok (topo, observedIds) =>
        { result := .ok topo
          knownNodeIds := if observedIds = [] then knownNodeIds else observedIds
          askedRzid := true }

/-- `discover` -/
def discover (x : Encounter) (knownNodeIds : List String) : Discovery :=
  if knownNodeIds = [] then discoverFromRzid x knownNodeIds
  else
    match discoverFromSeeds x.known knownNodeIds with
    | .ok (topo, observedIds) =>
      { result := .ok topo
        knownNodeIds := if observedIds = [] then knownNodeIds else observedIds
        askedRzid := false }
    | .error _ => discoverFromRzid x knownNodeIds

/-- `known_node_ids` after a sequence of calls of `discover`. -/
def seedMemory (initialSeedIds : List String) (calls : List Encounter) : List String :=
  calls.foldl (fun knownNodeIds x => (discover x knownNodeIds).knownNodeIds) initialSeedIds

end RzBridge
