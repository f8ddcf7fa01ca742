import RzBridge.Mux

/-!
# The read loop and its panics (`connection.rs`, `drain_frame_async`)

Indexing, slicing, `split_to` and the conversion of a slice to an array panic when they are out of range. Here
they are partial operations and `none` is the panic: `drainFrameChecked` and `shouldCloseChecked` are
`drain_frame_async` and the close decision written with them, and `stepChecked` is the multiplexer with
read loops that may panic.
-/

namespace RzBridge
open LittleEndian

/-- `xs[i..j]` -/
def sliceChecked (xs : Bytes) (i j : Nat) : Option Bytes :=
  if i ≤ j ∧ j ≤ xs.length then some (slice xs i j) else none

/-- `xs.split_to(n)` -/
def splitToChecked (xs : Bytes) (n : Nat) : Option (Bytes × Bytes) :=
  if n ≤ xs.length then some (xs.take n, xs.drop n) else none

/-- `xs.try_into().unwrap()`, to an array of `n` bytes. -/
def toArrayChecked (n : Nat) (xs : Bytes) : Option Bytes := if xs.length = n then some xs else none

/-- The part of `drain_frame_async` behind its last read. -/
def takeFrameChecked (clrId : UInt32) (n : Nat) (buf : Bytes) :
    Option (Except ProtocolError (Header × Bytes) × Bytes) := do
  let (fullFrame, buf) ← splitToChecked buf n
  let payload ← sliceChecked fullFrame 9 fullFrame.length
  if payload = [] then some (.error (.shortPayload "empty payload"), buf)
  else
    let statusLen ← payload[0]?
    if payload.length < 1 + statusLen.toNat + 2 then some (.error (.shortPayload "missing field count"), buf)
    else
      let fieldCnt ← toArrayChecked 2 (← sliceChecked payload (1 + statusLen.toNat) (1 + statusLen.toNat + 2))
      some (.ok ({ clrId, statusLen, fieldCnt := leVal fieldCnt }, fullFrame), buf)

/-- `drain_frame_async`, on the reads given. -/
def drainFrameChecked (reads : List Bytes) (buf : Bytes) :
    Option (Except ProtocolError (Header × Bytes) × List Bytes × Bytes) :=
  match fillTo 9 reads buf with
  | (false, reads, buf) => some (.error .shortFrame, reads, buf)
  | (true, reads, buf) => do
    let headerBytes ← sliceChecked buf 0 9
    let magic ← headerBytes[0]?
    if magic ≠ shardMagic then some (.error (.missingMagic magic), reads, buf)
    else
      let clrId ← toArrayChecked 4 (← sliceChecked headerBytes 1 5)
      let payloadLen ← toArrayChecked 4 (← sliceChecked headerBytes 5 9)
      let n := 9 + leVal payloadLen
      match fillTo n reads buf with
      | (false, reads, buf) => some (.error .shortFrame, reads, buf)
      | (true, reads, buf) => do
        let (result, buf) ← takeFrameChecked (u32FromLeBytes clrId) n buf
        some (result, reads, buf)

/-- `should_close`, as the read loop computes it. -/
def shouldCloseChecked (hdr : Header) (payload : Bytes) : Option Bool :=
  let fieldDataStart := 1 + hdr.statusLen.toNat + 2
  if payload.length ≥ fieldDataStart then do
    let status ← sliceChecked payload 1 (1 + hdr.statusLen.toNat)
    if status = [0x45, 0x52, 0x52, 0x4F, 0x52] then do
      let code ← sliceChecked payload fieldDataStart (fieldDataStart + 3)
      match fromUtf8 code with
      | some code => some (code = "308" ∨ code = "405" ∨ code = "503")
      | none => some false
    else some false
  else some false

/-! ### The steps of the read loop -/

namespace Mux

/-- `drain_frame_async` returns, with no more reads than it has made; the inner `none` is a panic. -/
def readerDrainChecked (m : Mux) (c : Nat) : Option (Option Mux) := do
  let conn ← m.conns[c]?
  guard (conn.reader = .reading ∧ drainStep conn.buf ≠ .needMore)
  match drainFrameChecked [] conn.buf with
  | none => some none
  | some (.error _, _, rest) => some (some (m.setConn c { conn with buf := rest, reader := .stop }))
  | some (.ok (hdr, frame), _, rest) =>
    some (some (m.setConn c
      { conn with
        buf := rest
        reader := .lookup hdr frame false
        received := conn.received ++ [(hdr, frame)] }))

/-- The close decision and `tx.send`; the inner `none` is a panic. -/
def readerDeliverChecked (m : Mux) (c : Nat) : Option (Option Mux) := do
  let conn ← m.conns[c]?
  let .deliver tok hdr frame := conn.reader | none
  match shouldCloseChecked hdr frame with
  | none => some none
  | some close =>
    let conn' := { conn with delivered := conn.delivered ++ [(conn.received.length - 1, tok)] }
    some (some ((m.setConn c
      (if close then { conn' with closed := true, reader := .stop }
        else { conn' with reader := .reading })).sendSender tok frame))

/-- A step of the multiplexer; the inner `none` is a panic of a read loop. -/
def stepChecked (cfg : Config) (m : Mux) : MuxLabel → Option (Option Mux)
  | .drain c => m.readerDrainChecked c
  | .deliver c => m.readerDeliverChecked c
  | l => (m.step cfg l).map some

end Mux
end RzBridge
