import Fxmy.Common
import Fxmy.Lib.Block

/-!
# Reading the transfer buffer (`fxmy_read.c`)

Each reader takes the buffer and returns what it read together with the buffer, whose cursor has
moved. The cursor is checked against `size` by a `VERIFY`, in most readers after the bytes have
been read; `size` does not count the terminator that `fxmy_recv` puts behind the packet.
-/

namespace Fxmy

namespace XferBuffer

/-- The byte at an index of the buffer's block. -/
def byteAt (buffer : XferBuffer) (i : Nat) : Except Stop UInt8 :=
  match buffer.memory with
  | none => .error .null
  | some block =>
    match block[i]? with
    | some b => .ok b
    | none => .error .bytes

/-- `buffer->cursor += n`. -/
def advance (buffer : XferBuffer) (n : Nat) : XferBuffer := { buffer with cursor := buffer.cursor + n }

/-- `VERIFY(buffer->cursor <= buffer->size)`. -/
def verifyCursor (buffer : XferBuffer) : Except Stop Unit := verify (buffer.cursor ≤ buffer.size)

@[simp] theorem advance_memory (buffer : XferBuffer) (n : Nat) :
    (buffer.advance n).memory = buffer.memory := rfl

@[simp] theorem advance_size (buffer : XferBuffer) (n : Nat) :
    (buffer.advance n).size = buffer.size := rfl

@[simp] theorem advance_cursor (buffer : XferBuffer) (n : Nat) :
    (buffer.advance n).cursor = buffer.cursor + n := rfl

theorem advance_advance (buffer : XferBuffer) (m n : Nat) :
    (buffer.advance m).advance n = buffer.advance (m + n) := by
  simp only [advance, Nat.add_assoc]

end XferBuffer

/-- The number of bytes before the first zero: the loop of `strlen`. -/
def strlenLoop : List UInt8 → Except Stop Nat
  | [] => .error .bytes
  | b :: p => if b = 0 then .ok 0 else (· + 1) <$> strlenLoop p

theorem strlenLoop_append {s : List UInt8} (hs : 0 ∉ s) (rest : List UInt8) :
    strlenLoop (s ++ 0 :: rest) = .ok s.length := by
  induction s with
  | nil => exact if_pos rfl
  | cons b s ih =>
    have hb : b ≠ 0 := fun hb => hs (hb ▸ List.mem_cons_self)
    rw [List.cons_append, strlenLoop, if_neg hb, ih fun hmem => hs (List.mem_cons_of_mem b hmem)]
    rfl

/-- `strlen` of the string at an offset of the buffer's block. -/
def strlenAt (buffer : XferBuffer) (offset : Nat) : Except Stop Nat :=
  match buffer.memory with
  | none => .error .null
  | some block => strlenLoop (block.drop offset)

/-- `fxmy_read_u8`. -/
def readU8 (buffer : XferBuffer) : Except Stop (UInt8 × XferBuffer) := do
  let advanced := buffer.advance 1
  advanced.verifyCursor
  let b ← buffer.byteAt buffer.cursor
  .ok (b, advanced)

/-- `fxmy_read_u32`. -/
def readU32 (buffer : XferBuffer) : Except Stop (UInt32 × XferBuffer) := do
  let b0 ← buffer.byteAt buffer.cursor
  let b1 ← buffer.byteAt (buffer.cursor + 1)
  let b2 ← buffer.byteAt (buffer.cursor + 2)
  let b3 ← buffer.byteAt (buffer.cursor + 3)
  let value := b0.toUInt32 ||| (b1.toUInt32 <<< 8) ||| (b2.toUInt32 <<< 16) ||| (b3.toUInt32 <<< 24)
  let advanced := buffer.advance 4
  advanced.verifyCursor
  .ok (value, advanced)

/-- The bytes that `case 252` and the cases before it in `fxmy_read_lcb` read behind the prefix. -/
def readLcbBytes (buffer : XferBuffer) (n : Nat) : Except Stop Unit :=
  (List.range n).forM fun i => do
    let _ ← buffer.byteAt (buffer.cursor + 1 + i)
    pure ()

/-- `case 252` of `fxmy_read_lcb`, which falls through to the default case: the cursor moves on
and `value` is overwritten. -/
def readLcb252 (start buffer : XferBuffer) : Except Stop XferBuffer := do
  readLcbBytes start 2
  .ok ((buffer.advance 3).advance 1)

/-- `case 253`, which falls through to `case 252`. -/
def readLcb253 (start buffer : XferBuffer) : Except Stop XferBuffer := do
  readLcbBytes start 3
  readLcb252 start (buffer.advance 4)

/-- `case 254`, which falls through to `case 253`. -/
def readLcb254 (start buffer : XferBuffer) : Except Stop XferBuffer := do
  readLcbBytes start 8
  readLcb253 start (buffer.advance 9)

/-- The switch of `fxmy_read_lcb`. No case ends in a `break`, so each runs into the default case. -/
def readLcbSwitch (byte : UInt8) (buffer : XferBuffer) : Except Stop XferBuffer :=
  if byte = 254 then readLcb254 buffer buffer
  else if byte = 253 then readLcb253 buffer buffer
  else if byte = 252 then readLcb252 buffer buffer
  else .ok (buffer.advance 1)

/-- `fxmy_read_lcb`. The value is that of the default case, the prefix byte. -/
def readLcb (buffer : XferBuffer) : Except Stop (UInt64 × XferBuffer) := do
  let byte ← buffer.byteAt buffer.cursor
  let advanced ← readLcbSwitch byte buffer
  advanced.verifyCursor
  .ok (byte.toUInt64, advanced)

/-- `fxmy_read_lcs`. The bytes from the length prefix on are moved to the start of the buffer's block, not
into the memory that is returned, which keeps the zeros it was allocated with. -/
def readLcs (buffer : XferBuffer) : Except Stop (List UInt8 × XferBuffer) := do
  let (size, advanced) ← readLcb buffer
  let block ← Prog.deref buffer.memory
  match Block.move block 0 buffer.cursor size.toNat with
  | none => .error .bytes
  | some block => do
    let moved := { advanced.advance size.toNat with memory := some block }
    moved.verifyCursor
    .ok (List.replicate (size.toNat + 1) 0, moved)

/-- `fxmy_read_string`: a copy of the string at the cursor, with its terminator. -/
def readString (buffer : XferBuffer) : Except Stop (List UInt8 × XferBuffer) := do
  let length ← strlenAt buffer buffer.cursor
  let size := length + 1
  let block ← Prog.deref buffer.memory
  let advanced := buffer.advance size
  advanced.verifyCursor
  .ok ((block.drop buffer.cursor).take size, advanced)

/-- `fxmy_skip_string`. -/
def skipString (buffer : XferBuffer) : Except Stop XferBuffer := do
  let length ← strlenAt buffer buffer.cursor
  .ok (buffer.advance (length + 1))

/-- `fxmy_skip_lcs`. -/
def skipLcs (buffer : XferBuffer) : Except Stop XferBuffer := do
  let (size, buffer) ← readLcb buffer
  .ok (buffer.advance size.toNat)

end Fxmy
