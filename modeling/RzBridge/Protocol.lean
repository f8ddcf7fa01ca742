import RzBridge.Lib.LittleEndian

/-!
# The wire protocol (`error.rs`, `protocol.rs`)

Backends speak *shard frames* `0xFF, clrid (4), len (4), payload`; the routers in front of the
bridge speak *router frames* `0xFE, len (4), seg_len (1), segment, is_write (1), shard frame`.
`drainFrameAsync` takes one shard frame off a backend stream and `tryDecodeRouter` one router frame
off the front of a client's buffer. A buffer or a stream chunk is a list of bytes, `usize` is `Nat`
and the 32-bit correlation ids are `UInt32`.
-/

namespace RzBridge
open LittleEndian

abbrev Bytes := List UInt8

/-- `RZError`, without the two variants that wrap a foreign error value. -/
inductive RZError
  | cancelled
  | auth (msg : String)
  | config (msg : String)
  | validation (msg : String)
  | parseError (msg : String)
  | system (msg : String)
  | noLeaderAvailable
  | noFollowerNodeAvailable
  | http (msg : String)
  | resolver (msg : String)
  | timeout
deriving DecidableEq, Repr

def routerMagic : UInt8 := 0xFE
def shardMagic : UInt8 := 0xFF
def keepaliveSegment : String := "__keepalive__"

/-- `xs[i..j]` -/
def slice (xs : Bytes) (i j : Nat) : Bytes := (xs.drop i).take (j - i)

/-- `u32::to_le_bytes` -/
def u32ToLeBytes (x : UInt32) : Bytes := leBytes 4 x.toNat

/-- `u32::from_le_bytes` -/
def u32FromLeBytes (bs : Bytes) : UInt32 := UInt32.ofNat (leVal bs)

/-- The errors of `ProtocolError` that `drain_frame_async` returns. -/
inductive ProtocolError
  | shortFrame
  | missingMagic (got : UInt8)
  | shortPayload (what : String)
deriving DecidableEq, Repr

/-- The decoded fixed part of a backend frame. -/
structure Header where
  clrId : UInt32
  statusLen : UInt8
  fieldCnt : Nat
deriving DecidableEq, Repr

/-! ### Backend frames -/

/-- The checks `drain_frame_async` makes on a complete frame, and the header it reads off it. -/
def parseHeader (fullFrame : Bytes) : Except ProtocolError Header :=
  match fullFrame.drop 9 with
  | [] => .error (.shortPayload "empty payload")
  | b :: payload =>
    if (b :: payload).length < 1 + b.toNat + 2 then .error (.shortPayload "missing field count")
    else .ok
      { clrId := u32FromLeBytes (slice fullFrame 1 5)
        statusLen := b
        fieldCnt := leVal (slice (b :: payload) (1 + b.toNat) (1 + b.toNat + 2)) }

/-- `while buf.len() < n { read_buf }`: the reader is the list of what its remaining reads return, an
empty read (or the end of the list) being end of stream or a read error. The flag is false when the
stream ended first. -/
def fillTo (n : Nat) : List Bytes → Bytes → Bool × List Bytes × Bytes
  | [], buf => (decide (n ≤ buf.length), [], buf)
  | r :: rs, buf =>
    if n ≤ buf.length then (true, r :: rs, buf)
    else if r = [] then (false, rs, buf)
    else fillTo n rs (buf ++ r)

/-- One call of `drain_frame_async`: its result, the reads left and the buffer it leaves behind. The
bytes returned are the whole frame, header included. -/
def drainFrameAsync (reads : List Bytes) (buf : Bytes) :
    Except ProtocolError (Header × Bytes) × List Bytes × Bytes :=
  match fillTo 9 reads buf with
  | (false, reads, buf) => (.error .shortFrame, reads, buf)
  | (true, reads, buf) =>
    if buf.headD 0 ≠ shardMagic then (.error (.missingMagic (buf.headD 0)), reads, buf)
    else
      match fillTo (9 + leVal (slice buf 5 9)) reads buf with
      | (false, reads, buf) => (.error .shortFrame, reads, buf)
      | (true, reads, buf) =>
        let n := 9 + leVal (slice buf 5 9)
        match parseHeader (buf.take n) with
        | .error e => (.error e, reads, buf.drop n)
        | .ok hdr => (.ok (hdr, buf.take n), reads, buf.drop n)

/-- Where a call of `drain_frame_async` stands on the bytes buffered so far. -/
inductive DrainStep
  | needMore
  | failed (e : ProtocolError) (rest : Bytes)
  | frame (hdr : Header) (fullFrame rest : Bytes)
deriving DecidableEq, Repr

/-- `drain_frame_async` between two reads: wait for more bytes, fail, or return a frame. -/
def drainStep (buf : Bytes) : DrainStep :=
  if buf.length < 9 then .needMore
  else if buf.headD 0 ≠ shardMagic then .failed (.missingMagic (buf.headD 0)) buf
  else
    let n := 9 + leVal (slice buf 5 9)
    if buf.length < n then .needMore
    else
      match parseHeader (buf.take n) with
      | .error e => .failed e (buf.drop n)
      | .ok hdr => .frame hdr (buf.take n) (buf.drop n)

/-- `prepend_header` -/
def prependHeader (clrId : UInt32) (payload : Bytes) : Bytes :=
  [shardMagic] ++ u32ToLeBytes clrId ++ leBytes 4 payload.length ++ payload

/-- `build_error_response` -/
def buildErrorResponse (clrid : UInt32) (errorCode : UInt8) : Bytes :=
  let msg : Bytes :=
    if errorCode = 1 then [0x34, 0x30, 0x34]       -- "404"
    else if errorCode = 2 then [0x35, 0x30, 0x33]  -- "503"
    else if errorCode = 3 then [0x34, 0x30, 0x38]  -- "408"
    else [0x35, 0x30, 0x30]                        -- "500"
  let payload : Bytes := [5] ++ [0x45, 0x52, 0x52, 0x4F, 0x52] ++ leBytes 2 1 ++ leBytes 2 1 ++ [1] ++
    leBytes 4 4 ++ leBytes 4 msg.length ++ msg
  [0xFF] ++ u32ToLeBytes clrid ++ leBytes 4 payload.length ++ payload

/-! ### Router frames -/

/-- The fields of `DecodeResult::Frame`. -/
structure RouterFrame where
  frameLen : Nat
  segment : String
  isWrite : Bool
  shardFrame : Bytes
  clridOffset : Nat
  originalClrid : UInt32
deriving DecidableEq, Repr

/-- `DecodeResult` -/
inductive DecodeResult
  | needMore
  | frame (f : RouterFrame)
  | error (e : RZError)
deriving DecidableEq, Repr

/-- `std::str::from_utf8` -/
def fromUtf8 (bs : Bytes) : Option String := String.fromUTF8? ⟨bs.toArray⟩

/-- `str::as_bytes` -/
def asBytes (s : String) : Bytes := s.toByteArray.data.toList

theorem fromUtf8_eq_some {bs : Bytes} {s : String} : fromUtf8 bs = some s ↔ bs = asBytes s := by
  unfold fromUtf8 String.fromUTF8?
  constructor
  · intro h
    split at h
    · rw [← Option.some.inj h]
      simp [asBytes, String.fromUTF8]
    · cases h
  · rintro rfl
    have hb : (⟨(asBytes s).toArray⟩ : ByteArray) = s.toByteArray := by simp [asBytes]
    rw [hb, dif_pos s.isValidUTF8]
    rfl

/-- `try_decode_router`. The conversion of `buf[1..5]` to an array, whose failure the source maps to
"bad length", cannot fail. -/
def tryDecodeRouter (buf : Bytes) : DecodeResult :=
  if buf.length < 5 then .needMore
  else if buf.headD 0 ≠ routerMagic then .error (.parseError "bad router magic")
  else
    let totalLen := leVal (slice buf 1 5)
    if totalLen > 16 * 1024 * 1024 then .error (.parseError "frame too large")
    else
      let frameLen := 5 + totalLen
      if buf.length < frameLen then .needMore
      else if totalLen < 2 then .error (.parseError "router total_len too small")
      else
        let segLen := (buf.getD 5 0).toNat
        let segStart := 6
        let isWritePos := segStart + segLen
        if isWritePos ≥ frameLen then .error (.parseError "segment length out of range")
        else
          match fromUtf8 (slice buf segStart (segStart + segLen)) with
          | none => .error (.parseError "segment not utf-8")
          | some segment =>
            let isWrite := buf.getD isWritePos 0 = 0x01
            let shardStart := isWritePos + 1
            if shardStart + 5 > frameLen ∨ buf.getD shardStart 0 ≠ shardMagic then
              .error (.parseError "missing shard magic")
            else
              .frame
                { frameLen
                  segment
                  isWrite
                  shardFrame := slice buf shardStart frameLen
                  clridOffset := shardStart + 1
                  originalClrid := u32FromLeBytes (slice buf (shardStart + 1) (shardStart + 5)) }

/-- `prepend_router_header`, the encoder of the tests. Its lengths are `u32`, as `leBytes 4` takes them. -/
def prependRouterHeader (segment : String) (isWrite : Bool) (clrid : UInt32) (payload : Bytes) : Bytes :=
  let shardFrameLen := 9 + payload.length
  let segmentLen := (asBytes segment).length
  let routerHeaderLen := 1 + segmentLen + 1
  [routerMagic] ++ leBytes 4 (routerHeaderLen + shardFrameLen) ++ [UInt8.ofNat segmentLen] ++ asBytes segment ++
    [if isWrite then 0x01 else 0x00] ++ [shardMagic] ++ u32ToLeBytes clrid ++ leBytes 4 payload.length ++ payload

/-- `find_next_router_magic` -/
def findNextRouterMagic (buf : Bytes) (start : Nat) : Option Nat :=
  ((buf.drop start).findIdx? (· = routerMagic)).map (start + ·)

/-! ### Shard frames as byte strings -/

/-- A complete shard frame carrying `id`: `0xFF ++ LE32(id) ++ LE32(n)` and then exactly `n` bytes. -/
def IsShardFrame (id : UInt32) (f : Bytes) : Prop :=
  ∃ payload : Bytes, payload.length < 2 ^ 32 ∧ f = prependHeader id payload

theorem length_prependHeader (id : UInt32) (payload : Bytes) :
    (prependHeader id payload).length = 9 + payload.length := by
  simp [prependHeader, u32ToLeBytes]; omega

/-- `shard_frame[1..5].copy_from_slice(&id.to_le_bytes())` -/
def setClrid (id : UInt32) (frame : Bytes) : Bytes := patch 1 (u32ToLeBytes id) frame

@[simp] theorem length_u32ToLeBytes (id : UInt32) : (u32ToLeBytes id).length = 4 := by
  simp [u32ToLeBytes]

theorem u32FromLeBytes_toLeBytes (id : UInt32) : u32FromLeBytes (u32ToLeBytes id) = id := by
  have hmod : id.toNat % 256 ^ 4 = id.toNat := Nat.mod_eq_of_lt id.toNat_lt
  rw [u32FromLeBytes, u32ToLeBytes, leVal_leBytes, hmod, UInt32.ofNat_toNat]

theorem slice_prependHeader_clrid (id : UInt32) (payload : Bytes) :
    slice (prependHeader id payload) 1 5 = u32ToLeBytes id := by
  have h4 : (u32ToLeBytes id).length = 4 := length_u32ToLeBytes id
  rw [prependHeader, slice, List.append_assoc, List.append_assoc, List.singleton_append, List.drop_succ_cons,
    List.drop_zero]
  exact List.take_left' h4

theorem setClrid_setClrid {id id' : UInt32} {f : Bytes} (h : 5 ≤ f.length) :
    setClrid id (setClrid id' f) = setClrid id f :=
  patch_patch (by simp) (by simpa using h)

theorem u32ToLeBytes_fromLeBytes {bs : Bytes} (h : bs.length = 4) :
    u32ToLeBytes (u32FromLeBytes bs) = bs := by
  have hlt : leVal bs < 2 ^ 32 := by have := leVal_lt bs; rw [h] at this; simpa using this
  rw [u32ToLeBytes, u32FromLeBytes, UInt32.toNat_ofNat_of_lt' hlt, ← h, leBytes_leVal]

end RzBridge
