import Fxmy.Verify.Lcb
import Fxmy.Verify.Writers

/-!
# Fields, written and read back

A reader returns what stands ahead of the cursor and moves behind it, so that fields come back in the
order in which they were written (`fields_roundTrip`). Only `fxmy_read_lcs` writes into the buffer: it
puts its copy there and returns zeros (`readsLcs_iff`).
-/

namespace Fxmy

open Exec

/-! ## Readers -/

/-- From the cursor on these bytes stand in the buffer, inside its size. -/
structure Ahead (buffer : XferBuffer) (bytes : List UInt8) : Prop where
  inside : buffer.cursor + bytes.length ≤ buffer.size
  ahead : bytes <+: (buffer.memory.getD []).drop buffer.cursor

namespace Ahead

variable {buffer : XferBuffer} {xs ys : List UInt8}

theorem advance (h : Ahead buffer (xs ++ ys)) : Ahead (buffer.advance xs.length) ys := by
  obtain ⟨hinside, rest, hrest⟩ := h
  rw [List.length_append, ← Nat.add_assoc] at hinside
  refine ⟨hinside, rest, ?_⟩
  rw [XferBuffer.advance_memory, XferBuffer.advance_cursor, ← List.drop_drop, ← hrest,
    List.append_assoc, List.drop_left]

/-- There is a block if there is anything in it. -/
theorem exists_block (h : Ahead buffer xs) (hne : xs ≠ []) : ∃ block rest,
    buffer.memory = some block ∧ block.drop buffer.cursor = xs ++ rest := by
  obtain ⟨-, rest, hrest⟩ := h
  cases hmemory : buffer.memory with
  | none =>
    rw [hmemory, Option.getD_none, List.drop_nil, List.append_eq_nil_iff] at hrest
    exact absurd hrest.1 hne
  | some block =>
    rw [hmemory, Option.getD_some] at hrest
    exact ⟨block, rest, rfl, hrest.symm⟩

theorem byteAt {b : UInt8} (h : Ahead buffer (b :: ys)) : buffer.byteAt buffer.cursor = .ok b := by
  obtain ⟨block, rest, hmemory, hdrop⟩ := h.exists_block (List.cons_ne_nil b ys)
  have hget : block[buffer.cursor]? = some b := by
    rw [← List.head?_drop, hdrop]
    rfl
  unfold XferBuffer.byteAt
  simp only [hmemory, hget]

theorem verifyCursor (h : Ahead buffer (xs ++ ys)) :
    (buffer.advance xs.length).verifyCursor = .ok () := by
  have hinside := h.inside
  rw [List.length_append] at hinside
  exact verify_eq_ok.mpr (decide_eq_true (by rw [XferBuffer.advance_cursor, XferBuffer.advance_size]; omega))

theorem readU8 {b : UInt8} (h : Ahead buffer ([b] ++ ys)) :
    readU8 buffer = .ok (b, buffer.advance 1) := by
  have hverify := h.verifyCursor
  rw [List.length_singleton] at hverify
  unfold Fxmy.readU8
  simp only
  rw [hverify, except_bind_ok, h.byteAt]
  rfl

/-- The terminator is found behind the string. -/
theorem strlenAt {s : List UInt8} (hs : 0 ∉ s) (h : Ahead buffer (s ++ [0] ++ ys)) :
    strlenAt buffer buffer.cursor = .ok s.length := by
  obtain ⟨block, rest, hmemory, hdrop⟩ := h.exists_block (by simp)
  unfold Fxmy.strlenAt
  rw [hmemory]
  simp only
  rw [hdrop, List.append_assoc, List.append_assoc, List.singleton_append, strlenLoop_append hs]

theorem skipString {s : List UInt8} (hs : 0 ∉ s) (h : Ahead buffer (s ++ [0] ++ ys)) :
    skipString buffer = .ok (buffer.advance (s ++ [0]).length) := by
  unfold Fxmy.skipString
  rw [h.strlenAt hs, except_bind_ok, List.length_append, List.length_singleton]

theorem readString {s : List UInt8} (hs : 0 ∉ s) (h : Ahead buffer (s ++ [0] ++ ys)) :
    readString buffer = .ok (s ++ [0], buffer.advance (s ++ [0]).length) := by
  obtain ⟨block, rest, hmemory, hdrop⟩ := h.exists_block (by simp)
  have hsize : s.length + 1 = (s ++ [0]).length := by simp
  have hcopy : (block.drop buffer.cursor).take (s ++ [0]).length = s ++ [0] := by
    rw [hdrop, List.append_assoc, List.take_left]
  unfold Fxmy.readString
  rw [h.strlenAt hs, except_bind_ok]
  simp only
  rw [hmemory, hsize, h.verifyCursor, Prog.deref, except_bind_ok, except_bind_ok, hcopy]

end Ahead

/-! ## Sequences of fields -/

/-- A byte, or a string without a NUL in it. -/
inductive Field where
  | byte (value : UInt8)
  | string (value : List UInt8) (nul_not_mem : 0 ∉ value)

/-- The call that writes a field. -/
def Field.write : Field → WriteCall
  | .byte value => .u8 value
  | .string value _ => .terminatedString (some value)

/-- The calls that read. -/
inductive ReadCall where
  | u8
  | string
  | skipString

/-- What a call returns besides the buffer. -/
inductive ReadResult where
  | byte (value : UInt8)
  | string (block : List UInt8)
  | skipped

/-- The call on a buffer. -/
def ReadCall.run (buffer : XferBuffer) : ReadCall → Except Stop (ReadResult × XferBuffer)
  | .u8 => do
    let (value, buffer) ← readU8 buffer
    .ok (.byte value, buffer)
  | .string => do
    let (block, buffer) ← readString buffer
    .ok (.string block, buffer)
  | .skipString => do
    let buffer ← Fxmy.skipString buffer
    .ok (.skipped, buffer)

/-- The calls in order. -/
def readAll : XferBuffer → List ReadCall → Except Stop (List ReadResult × XferBuffer)
  | buffer, [] => .ok ([], buffer)
  | buffer, call :: calls => do
    let (result, buffer) ← call.run buffer
    let (results, buffer) ← readAll buffer calls
    .ok (result :: results, buffer)

/-- The call that reads a field, or skips it if it is a string to be skipped. -/
def Field.read (skip : Bool) : Field → ReadCall
  | .byte _ => .u8
  | .string _ _ => if skip then .skipString else .string

/-- The field, as it is read. -/
def Field.result (skip : Bool) : Field → ReadResult
  | .byte value => .byte value
  | .string value _ => if skip then .skipped else .string (value ++ [0])

theorem Ahead.run {buffer : XferBuffer} {field : Field} {ys : List UInt8} (skip : Bool)
    (h : Ahead buffer (field.write.bytes ++ ys)) : (field.read skip).run buffer =
      .ok (field.result skip, buffer.advance field.write.bytes.length) := by
  cases field with
  | byte value =>
    rw [Field.read, ReadCall.run, h.readU8]
    rfl
  | string value hvalue =>
    cases skip with
    | true =>
      rw [Field.read, if_pos rfl, ReadCall.run, h.skipString hvalue]
      rfl
    | false =>
      rw [Field.read, if_neg Bool.false_ne_true, ReadCall.run, h.readString hvalue]
      rfl

theorem Ahead.readAll {buffer : XferBuffer} {plan : List (Field × Bool)}
    (h : Ahead buffer (plan.flatMap fun step => step.1.write.bytes)) :
    readAll buffer (plan.map fun step => step.1.read step.2) =
      .ok (plan.map fun step => step.1.result step.2,
        buffer.advance (plan.flatMap fun step => step.1.write.bytes).length) := by
  induction plan generalizing buffer with
  | nil => rfl
  | cons step plan ih =>
    rw [List.flatMap_cons] at h
    rw [List.map_cons, Fxmy.readAll, h.run, except_bind_ok]
    simp only
    rw [ih h.advance, List.flatMap_cons, List.length_append, XferBuffer.advance_advance]
    rfl

/-- What has been written stands ahead of the start. -/
theorem Holds.ahead {buffer : XferBuffer} {xs : List UInt8} (h : Holds buffer xs) :
    Ahead { buffer with cursor := 0 } xs where
  inside := by
    rw [Nat.zero_add, ← h.cursor]
    exact h.cursor_le
  ahead := h.written

/-- **Fields come back** as they were written, whichever strings are skipped: no read stops or touches
the bytes, and the reader ends where the writer did. -/
theorem fields_roundTrip (garbage : Nat → UInt8) (plan : List (Field × Bool)) :
    ∃ written, writeAll garbage .empty (plan.map fun step => step.1.write) = .ok written ∧
      readAll { written with cursor := 0 } (plan.map fun step => step.1.read step.2) =
        .ok (plan.map fun step => step.1.result step.2, written) := by
  obtain ⟨written, hwrite, hholds⟩ := holds_empty.writeAll garbage (plan.map fun step => step.1.write)
  rw [List.nil_append, List.flatMap_map] at hholds
  refine ⟨written, hwrite, ?_⟩
  rw [hholds.ahead.readAll, XferBuffer.advance, Nat.zero_add, ← hholds.cursor]

/-! ## Length-coded strings -/

/-- The copy of these bytes is returned with a terminator, and behind it the cursor has moved and
nothing else. -/
def ReadsLcs (buffer : XferBuffer) (bytes : List UInt8) : Prop :=
  readLcs buffer = .ok (bytes ++ [0], buffer.advance (bytes.length + 1))

/-- What `fxmy_read_lcs` does with a short string: the prefix and all bytes but the last are moved to
the start of the block, and zeros returned. -/
theorem readLcs_eq {buffer : XferBuffer} {n : UInt8} {bytes : List UInt8} (hn : n ≤ 250)
    (hbytes : bytes.length = n.toNat) (h : Ahead buffer (n :: bytes)) :
    ∃ block, buffer.memory = some block ∧ bytes.length ≤ block.length ∧
      readLcs buffer = .ok (List.replicate (bytes.length + 1) 0,
        { buffer.advance (bytes.length + 1) with
          memory := some ((n :: bytes).take bytes.length ++ block.drop bytes.length) }) := by
  obtain ⟨block, rest, hmemory, hdrop⟩ := h.exists_block (List.cons_ne_nil n bytes)
  have hlength := congrArg List.length hdrop
  rw [List.length_drop, List.length_append, List.length_cons] at hlength
  have hinside := h.inside
  rw [List.length_cons] at hinside
  have hsize : n.toUInt64.toNat = bytes.length := by rw [UInt8.toNat_toUInt64, hbytes]
  have hload : Block.load block buffer.cursor bytes.length = some ((n :: bytes).take bytes.length) := by
    rw [Block.load, if_pos (by omega), hdrop, List.take_append_of_le_length (by simp)]
  have hmove : Block.move block 0 buffer.cursor bytes.length =
      some ((n :: bytes).take bytes.length ++ block.drop bytes.length) := by
    have htaken : ((n :: bytes).take bytes.length).length = bytes.length := by simp
    rw [Block.move, hload, Option.bind_some, Block.store, htaken, Nat.zero_add, if_pos (by omega)]
    rfl
  refine ⟨block, hmemory, by omega, ?_⟩
  unfold readLcs
  rw [readLcb_byte h.byteAt hn (by omega), except_bind_ok]
  simp only [hsize]
  rw [hmemory, Prog.deref, except_bind_ok, hmove]
  have hverify (memory : Option (List UInt8)) :
      { buffer.advance (bytes.length + 1) with memory := memory }.verifyCursor = .ok () :=
    verify_eq_ok.mpr (decide_eq_true hinside)
  simp only [XferBuffer.advance_advance, Nat.add_comm 1]
  rw [hverify]
  rfl

/-- **When a length-coded string comes back** and the buffer stays as it is: the string is all zeros, and
the block starts with the prefix and these zeros already. -/
theorem readsLcs_iff {buffer : XferBuffer} {n : UInt8} {bytes : List UInt8} (hn : n ≤ 250)
    (hbytes : bytes.length = n.toNat) (h : Ahead buffer (n :: bytes)) : ReadsLcs buffer bytes ↔
      (∀ b ∈ bytes, b = 0) ∧ (n :: bytes).take bytes.length <+: buffer.memory.getD [] := by
  obtain ⟨block, hmemory, hle, heq⟩ := readLcs_eq hn hbytes h
  have htaken : ((n :: bytes).take bytes.length).length = bytes.length := by simp
  have hzeros : List.replicate (bytes.length + 1) 0 = bytes ++ [0] ↔ ∀ b ∈ bytes, b = 0 := by
    rw [eq_comm, List.eq_replicate_iff]
    simp [or_imp]
  have hkept : (n :: bytes).take bytes.length ++ block.drop bytes.length = block ↔
      (n :: bytes).take bytes.length <+: block := by
    constructor
    · exact fun heq => ⟨_, heq⟩
    · rintro ⟨rest, hrest⟩
      have hdrop : block.drop bytes.length = rest := by
        rw [← hrest]
        exact List.drop_left' htaken
      rw [hdrop, hrest]
  unfold ReadsLcs
  rw [heq, hmemory, Option.getD_some, Except.ok.injEq, Prod.mk.injEq, hzeros, ← hkept]
  refine and_congr_right fun _ => ?_
  constructor
  · intro hsame
    have hmem := congrArg XferBuffer.memory hsame
    rw [XferBuffer.advance_memory, hmemory] at hmem
    exact Option.some.inj hmem
  · intro hsame
    rw [hsame, ← hmemory]
    rfl

/-- A string of one character is not returned. -/
theorem one_char_not_read : ¬ ∀ (buffer : XferBuffer) (n : UInt8) (bytes : List UInt8), n ≤ 250 →
    bytes.length = n.toNat → Ahead buffer (n :: bytes) → ReadsLcs buffer bytes := by
  intro h
  cases h ⟨some [1, 97], 2, 0⟩ 1 [97] (by decide) rfl ⟨by decide, List.prefix_rfl⟩

/-- Two zeros behind their length, at the start of the block, are. -/
theorem zeros_read : ReadsLcs ⟨some [2, 0, 0], 3, 0⟩ [0, 0] :=
  (readsLcs_iff (n := 2) (by decide) rfl ⟨by decide, List.prefix_rfl⟩).mpr
    ⟨List.all_iff_forall_prop.mp (by decide), List.prefix_append [2, 0] [0]⟩

end Fxmy
