import Fxmy.Common
import Fxmy.Lib.Block

/-!
# Framing (`fxmy_conn.c`, `fxmy_common.c`)

A message goes out in frames of at most `2 ^ 24 - 1` bytes, each behind a header of three bytes of
length and one of packet number.
-/

namespace Fxmy

/-- The largest body of a frame. -/
def maxFrame : Nat := (1 <<< 24) - 1

/-- `fxmy_reset_xfer_buffer` on the connection's buffer. -/
def resetXferBuffer : Prog PUnit := do
  Prog.fxmyFree (← get).conn.xferBuffer.memory
  Prog.setConn fun conn => { conn with xferBuffer := .empty }

/-! ## Sending -/

/-- The first loop of `fxmy_begin_send`, from `i` on: it adds up the size of the block and the number
of frames. -/
def countLoop (size i allocSize numPackets : Nat) : Nat × Nat :=
  if i < size then countLoop size (i + maxFrame) (allocSize + 4) (numPackets + 1)
  else (allocSize, numPackets)
termination_by size - i
decreasing_by
  have hframe : maxFrame = 16777215 := rfl
  omega

/-- The number of frames for `size` bytes, as the first loop of `fxmy_begin_send` counts them. -/
def numFrames (size : Nat) : Nat := (size + maxFrame - 1) / maxFrame

/-- The header of a frame. -/
def frameHeader (packetSize packetNumber : Nat) : List UInt8 :=
  [(packetSize &&& 0xFF).toUInt8, ((packetSize >>> 8) &&& 0xFF).toUInt8,
    ((packetSize >>> 16) &&& 0xFF).toUInt8, packetNumber.toUInt8]

/-- The writes of one turn of the second loop of `fxmy_begin_send`, in order. -/
def packetWrites (packetNumber packetSize dest : Nat) (src : List UInt8) :
    List (Nat × List UInt8) := [
  (dest, [(packetSize &&& 0xFF).toUInt8]),
  (dest + 1, [((packetSize >>> 8) &&& 0xFF).toUInt8]),
  (dest + 2, [((packetSize >>> 16) &&& 0xFF).toUInt8]),
  (dest + 3, [packetNumber.toUInt8]),
  (dest + 4, src.take packetSize)]

/-- The second loop of `fxmy_begin_send`, which writes the frames into the block from `dest` on.
Every frame carries the same packet number. -/
def frameLoop (packetNumber : Nat) : Nat → List UInt8 → Nat → List UInt8 → Nat →
    Except Stop (List UInt8)
  | 0, block, _, _, _ => .ok block
  | frames + 1, block, dest, src, size => do
    let packetSize := min maxFrame size
    if src.length < packetSize then .error .bytes
    else
      match Block.storeAll block (packetWrites packetNumber packetSize dest src) with
      | none => .error .bytes
      | some block =>
        frameLoop packetNumber frames block (dest + packetSize + 4) (src.drop packetSize)
          (size - packetSize)

/-- `fxmy_begin_send`. A buffer that is in use is left as it is, but the number is taken. -/
def beginSend (env : Env) (data : List UInt8) (size : Nat) : Prog PUnit := do
  let conn := (← get).conn
  let packetNumber := conn.packetNumber.toNat
  Prog.setConn fun conn => { conn with packetNumber := conn.packetNumber + 1 }
  if conn.xferBuffer.memory.isSome then pure ⟨⟩
  else do
    let allocSize := size + 4 * numFrames size
    Prog.stops (verify (numFrames size ≤ 256))
    Prog.countAlloc
    let fresh := (List.range allocSize).map env.garbage
    let block ← Prog.stops (frameLoop packetNumber (numFrames size) fresh 0 data size)
    Prog.setConn fun conn => { conn with xferBuffer := ⟨some block, allocSize, 0⟩ }

/-- The call of `send`: what it returns for a buffer. -/
def socketSend (env : Env) (block : List UInt8) : Prog Int := fun w =>
  .ok (env.sendReturns w.sent block) { w with sent := w.sent ++ [block] }

/-- `fxmy_send`. -/
def send (env : Env) (data : List UInt8) (size : Nat) : Prog Int := do
  beginSend env data size
  let buffer := (← get).conn.xferBuffer
  let block ← Prog.stops (Prog.deref buffer.memory)
  let bytesWritten ← socketSend env (block.take buffer.size)
  Prog.stops (verify (bytesWritten = buffer.size))
  resetXferBuffer
  pure 0

/-! ## Receiving -/

/-- The call of `recv`: at most `size` of the bytes that have arrived together. It returns 0 when
nothing is left and -1 on an error. -/
def socketRecv (size : Nat) : Prog (Int × List UInt8) := fun w =>
  match w.incoming with
  | [] => .ok (0, []) w
  | .failure :: arrivals => .ok (-1, []) { w with incoming := arrivals }
  | .data bytes :: arrivals =>
    let rest := bytes.drop size
    let left := if rest = [] then arrivals else .data rest :: arrivals
    .ok ((bytes.take size).length, bytes.take size) { w with incoming := left }

/-- The length in a frame's header. -/
def headerLength (header : List UInt8) : Nat :=
  (header.getD 0 0).toNat ||| ((header.getD 1 0).toNat <<< 8) ||| ((header.getD 2 0).toNat <<< 16)

/-- `fxmy_begin_recv`. The block it takes for the packet has one byte more than the packet. -/
def beginRecv (env : Env) : Prog PUnit := do
  let (rv, header) ← socketRecv 4
  Prog.stops (verify (rv = 4))
  let packetSize := headerLength header
  let packetNumber := (header.getD 3 0).toUInt32
  Prog.countAlloc
  Prog.setConn fun conn =>
    { conn with
      packetNumber := packetNumber + 1
      xferBuffer :=
        { conn.xferBuffer with
          memory := some ((List.range (packetSize + 1)).map env.garbage)
          size := packetSize } }

/-- `fxmy_recv`: the packet goes into the block, and a terminator behind it. -/
def recv (env : Env) : Prog Int := do
  beginRecv env
  let buffer := (← get).conn.xferBuffer
  let (bytesRead, bytes) ← socketRecv buffer.size
  Prog.stops (verify (bytesRead = buffer.size))
  let block := bytes ++ [0]
  Prog.setConn fun conn => { conn with xferBuffer := { conn.xferBuffer with memory := some block } }
  pure 0

/-! ## The handshake -/

/-- `handshake_packet`. -/
def handshakePacket : List UInt8 :=
  [0x0a, 0x35, 0x2e, 0x30, 0x2e, 0x30, 0,   -- protocol version, server version "5.0.0"
    1, 0, 0, 0,                             -- thread id
    0, 0, 0, 0, 0, 0, 0, 0,                 -- scramble
    0,
    0, 0x82,                                -- capabilities: the 4.1 protocol and authentication
    0,                                      -- language
    0, 0,                                   -- status
    0, 0,                                   -- capabilities, upper bytes
    8,                                      -- length of the scramble
    0, 0, 0, 0, 0, 0, 0, 0, 0, 0,
    0, 0, 0, 0, 0, 0,
    0, 0, 0, 0, 0, 0,                       -- plugin data
    0]                                      -- second part of the scramble

/-- `fxmy_send_handshake`. -/
def sendHandshake (env : Env) : Prog Int := send env handshakePacket handshakePacket.length

end Fxmy
