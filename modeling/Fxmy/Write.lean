import Fxmy.Common
import Fxmy.Lib.Block

/-!
# Writing a buffer (`fxmy_write.c`)

Each writer makes room, writes at the cursor and moves it. Fresh memory holds what `garbage` says.
-/

namespace Fxmy

section Write

variable (garbage : Nat → UInt8)

/-- `fxmy_realloc`: the block's bytes, and unwritten ones behind them. -/
def fxmyRealloc (memory : Option (List UInt8)) (size : Nat) : List UInt8 :=
  let old := (memory.getD []).take size
  old ++ (List.range (size - old.length)).map fun i => garbage (old.length + i)

/-- `fxmy_ensure_buffer_room`. The mask `~4095` rounds down to a multiple of 4096. -/
def ensureBufferRoom (buffer : XferBuffer) (size : Nat) : XferBuffer :=
  let headroom := buffer.size - buffer.cursor
  let newSize := (buffer.size + size + 4095) / 4096 * 4096
  if size < headroom then buffer
  else { buffer with memory := some (fxmyRealloc garbage buffer.memory newSize), size := newSize }

/-- Bytes written from `memory + cursor` on, and the cursor moved behind them. -/
def writeBytes (buffer : XferBuffer) (xs : List UInt8) : Except Stop XferBuffer :=
  match buffer.memory with
  | none => .error .null
  | some block =>
    match Block.store block buffer.cursor xs with
    | some block => .ok { buffer with memory := some block, cursor := buffer.cursor + xs.length }
    | none => .error .bytes

/-- The low `n` bytes of a value, lowest first. -/
def littleEndian (value : UInt64) : Nat → List UInt8
  | 0 => []
  | n + 1 => (value &&& 0xFF).toUInt8 :: littleEndian (value >>> 8) n

/-- `fxmy_serialize_lcb`. -/
def serializeLcb (buffer : XferBuffer) (value : UInt64) : Except Stop XferBuffer :=
  let buffer := ensureBufferRoom garbage buffer 9
  if value ≤ 250 then writeBytes buffer [value.toUInt8]
  else if value ≤ 0xFFFF then writeBytes buffer (252 :: littleEndian value 2)
  else if value ≤ 0xFFFFFF then writeBytes buffer (253 :: littleEndian value 3)
  else writeBytes buffer (254 :: littleEndian value 8)

/-- `fxmy_serialize_u16`. -/
def serializeU16 (buffer : XferBuffer) (value : UInt16) : Except Stop XferBuffer :=
  writeBytes (ensureBufferRoom garbage buffer 2) (littleEndian value.toUInt64 2)

/-- `fxmy_serialize_u8`. -/
def serializeU8 (buffer : XferBuffer) (value : UInt8) : Except Stop XferBuffer :=
  writeBytes (ensureBufferRoom garbage buffer 1) [value]

/-- `fxmy_serialize_terminated_string`; the string is given without its terminator. -/
def serializeTerminatedString (buffer : XferBuffer) (value : Option (List UInt8)) :
    Except Stop XferBuffer :=
  match value with
  | none => .ok buffer
  | some s => writeBytes (ensureBufferRoom garbage buffer (s.length + 1)) (s ++ [0])

/-- `fxmy_serialize_string`. -/
def serializeString (buffer : XferBuffer) (value : Option (List UInt8)) :
    Except Stop XferBuffer :=
  match value with
  | none => .ok buffer
  | some s => writeBytes (ensureBufferRoom garbage buffer s.length) s

end Write

end Fxmy
