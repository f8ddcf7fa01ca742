import Mathlib.Algebra.Ring.Nat

/-!
# Configuration (`config.rs`)

The settings the modelled code reads, with their defaults. Instants and durations are natural
numbers of nanoseconds.
-/

namespace RzBridge

def nanosPerSec : Nat := 1000000000

structure Config where
  connPerRoomzinNode : Nat := 1
  maxActiveConns : Nat := 10000
  maxConnections : Nat := 10000
  timeoutSec : Nat := 2
  frameTimeoutSecs : Nat := 20
  idleTimeoutSecs : Nat := 90
  maxBufferSize : Nat := 262144
  maxFrameSize : Nat := 16384
deriving DecidableEq, Repr

namespace Config

def frameTimeout (cfg : Config) : Nat := cfg.frameTimeoutSecs * nanosPerSec

def idleTimeout (cfg : Config) : Nat := cfg.idleTimeoutSecs * nanosPerSec

/-- The age `next_follower_conn` and `next_leader_conn` pass to `cleanup`. -/
def cleanupAge (cfg : Config) : Nat := cfg.timeoutSec * 2 * nanosPerSec

/-- The capacity of a connection's send channel. -/
def sendCapacity (cfg : Config) : Nat := max cfg.maxActiveConns 2048

/-- `conn_per_roomzin_node as u32` -/
def connPerNode32 (cfg : Config) : Nat := cfg.connPerRoomzinNode % 2 ^ 32

end Config
end RzBridge
