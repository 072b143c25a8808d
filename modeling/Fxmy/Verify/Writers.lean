import Fxmy.Verify.Write
import Mathlib.Algebra.Group.Nat.Defs
import Mathlib.Data.List.Forall2

/-!
# Writers in sequence

Each call of a writer appends the encoding of its argument (`WriteCall.Encodes`) and writes nowhere
else: what stands before the cursor and behind the new one is as it was, also when the block moves
(`Appends`). So any sequence of calls leaves the encodings in order (`writeAll_appends`).
-/

namespace Fxmy

open Exec

/-! ## Calls -/

/-- A call of a writer with its argument; a string is NULL or what stands before its terminator. -/
inductive WriteCall where
  | u8 (value : UInt8)
  | u16 (value : UInt16)
  | lcb (value : UInt64)
  | string (value : Option (List UInt8))
  | terminatedString (value : Option (List UInt8))

/-- The call on a buffer. -/
def WriteCall.run (garbage : Nat → UInt8) (buffer : XferBuffer) : WriteCall → Except Stop XferBuffer
  | .u8 value => serializeU8 garbage buffer value
  | .u16 value => serializeU16 garbage buffer value
  | .lcb value => serializeLcb garbage buffer value
  | .string value => serializeString garbage buffer value
  | .terminatedString value => serializeTerminatedString garbage buffer value

/-- The calls in order. -/
def writeAll (garbage : Nat → UInt8) : XferBuffer → List WriteCall → Except Stop XferBuffer
  | buffer, [] => .ok buffer
  | buffer, call :: calls => do
    let buffer ← call.run garbage buffer
    writeAll garbage buffer calls

/-! ## Encodings -/

/-- The number that bytes stand for, lowest byte first. -/
def littleEndianValue : List UInt8 → Nat
  | [] => 0
  | b :: bytes => b.toNat + 256 * littleEndianValue bytes

/-- The ways to write a number as a length-coded binary: a byte up to 250, or a prefix and two, three
or eight bytes. -/
inductive LcbForm (value : Nat) : List UInt8 → Prop where
  | byte (b : UInt8) : b.toNat = value → value ≤ 250 → LcbForm value [b]
  | prefixed (code : UInt8) (bytes : List UInt8) :
      (code, bytes.length) ∈ [((252 : UInt8), 2), (253, 3), (254, 8)] →
      littleEndianValue bytes = value → LcbForm value (code :: bytes)

/-- The encoding of a call's argument; a length-coded binary is written in the shortest form. -/
def WriteCall.Encodes (call : WriteCall) (bytes : List UInt8) : Prop :=
  match call with
  | .u8 value => bytes = [value]
  | .u16 value => bytes.length = 2 ∧ littleEndianValue bytes = value.toNat
  | .lcb value => LcbForm value.toNat bytes ∧
      ∀ other, LcbForm value.toNat other → bytes.length ≤ other.length
  | .string none => bytes = []
  | .string (some s) => bytes = s
  | .terminatedString none => bytes = []
  | .terminatedString (some s) => bytes = s ++ [0]

/-- The bytes that a call writes. -/
def WriteCall.bytes : WriteCall → List UInt8
  | .u8 value => [value]
  | .u16 value => littleEndian value.toUInt64 2
  | .lcb value => lcbBytes value
  | .string value => value.getD []
  | .terminatedString none => []
  | .terminatedString (some s) => s ++ [0]

theorem littleEndianValue_littleEndian (value : UInt64) (n : Nat) :
    littleEndianValue (littleEndian value n) = value.toNat % 256 ^ n := by
  induction n generalizing value with
  | zero => rw [Nat.pow_zero, Nat.mod_one]; rfl
  | succ n ih =>
    have hlow : (value &&& 0xFF).toUInt8.toNat = value.toNat % 256 := by
      rw [UInt64.toNat_toUInt8, UInt64.toNat_and]
      change (value.toNat &&& 255) % 256 = _
      rw [Nat.and_two_pow_sub_one_eq_mod value.toNat 8, Nat.mod_mod]
    have hhigh : (value >>> 8).toNat = value.toNat / 256 := by
      rw [UInt64.toNat_shiftRight, Nat.shiftRight_eq_div_pow]
      rfl
    rw [littleEndian, littleEndianValue, ih, hlow, hhigh, Nat.pow_succ', Nat.mod_mul]

theorem littleEndianValue_lt (bytes : List UInt8) : littleEndianValue bytes < 256 ^ bytes.length := by
  induction bytes with
  | nil => decide
  | cons b bytes ih =>
    have := b.toNat_lt
    rw [littleEndianValue, List.length_cons, Nat.pow_succ]
    omega

/-- A form is long enough for its number. -/
theorem LcbForm.length_bounds {value : Nat} {bytes : List UInt8} (h : LcbForm value bytes) :
    (bytes.length = 1 ∧ value ≤ 250) ∨ (bytes.length = 3 ∧ value ≤ 0xFFFF) ∨
      (bytes.length = 4 ∧ value ≤ 0xFFFFFF) ∨ bytes.length = 9 := by
  cases h with
  | byte b _ hle => exact .inl ⟨rfl, hle⟩
  | prefixed code bytes hmem hvalue =>
    have hlt := littleEndianValue_lt bytes
    have hlen : bytes.length = 2 ∨ bytes.length = 3 ∨ bytes.length = 8 := by
      simp only [List.mem_cons, Prod.mk.injEq, List.not_mem_nil, or_false] at hmem
      exact hmem.imp And.right (Or.imp And.right And.right)
    rw [List.length_cons]
    rcases hlen with hlen | hlen | hlen
    · rw [hlen, hvalue] at hlt
      exact .inr (.inl ⟨by omega, by omega⟩)
    · rw [hlen, hvalue] at hlt
      exact .inr (.inr (.inl ⟨by omega, by omega⟩))
    · exact .inr (.inr (.inr (by omega)))

/-- `fxmy_serialize_lcb` writes the shortest form. -/
theorem lcbBytes_shortest (value : UInt64) : LcbForm value.toNat (lcbBytes value) ∧
    ∀ other, LcbForm value.toNat other → (lcbBytes value).length ≤ other.length := by
  have hbound : value.toNat < 256 ^ 8 := value.toNat_lt
  have hform (code : UInt8) (n : Nat) (hmem : (code, n) ∈ [((252 : UInt8), 2), (253, 3), (254, 8)])
      (hfits : value.toNat < 256 ^ n) : LcbForm value.toNat (code :: littleEndian value n) := by
    refine .prefixed code _ (by rwa [length_littleEndian]) ?_
    rw [littleEndianValue_littleEndian, Nat.mod_eq_of_lt hfits]
  unfold lcbBytes
  split
  · next h =>
    simp only [UInt64.le_iff_toNat_le, UInt64.reduceToNat] at h
    refine ⟨.byte _ ?_ h, fun other hother => ?_⟩
    · rw [UInt64.toNat_toUInt8, Nat.mod_eq_of_lt (by omega)]
    · rw [List.length_singleton]
      have := hother.length_bounds
      omega
  next h₁ =>
  simp only [UInt64.le_iff_toNat_le, UInt64.reduceToNat] at h₁
  split
  · next h =>
    simp only [UInt64.le_iff_toNat_le, UInt64.reduceToNat] at h
    refine ⟨hform 252 2 (by decide) (by omega), fun other hother => ?_⟩
    rw [List.length_cons, length_littleEndian]
    have := hother.length_bounds
    omega
  next h₂ =>
  simp only [UInt64.le_iff_toNat_le, UInt64.reduceToNat] at h₂
  split
  · next h =>
    simp only [UInt64.le_iff_toNat_le, UInt64.reduceToNat] at h
    refine ⟨hform 253 3 (by decide) (by omega), fun other hother => ?_⟩
    rw [List.length_cons, length_littleEndian]
    have := hother.length_bounds
    omega
  · next h =>
    simp only [UInt64.le_iff_toNat_le, UInt64.reduceToNat] at h
    refine ⟨hform 254 8 (by decide) hbound, fun other hother => ?_⟩
    rw [List.length_cons, length_littleEndian]
    have := hother.length_bounds
    omega

theorem WriteCall.encodes_bytes (call : WriteCall) : call.Encodes call.bytes := by
  cases call with
  | u8 value => rfl
  | u16 value =>
    refine ⟨length_littleEndian _ 2, ?_⟩
    have := value.toNat_lt
    rw [WriteCall.bytes, littleEndianValue_littleEndian, UInt16.toNat_toUInt64]
    exact Nat.mod_eq_of_lt this
  | lcb value => exact lcbBytes_shortest value
  | string value => cases value <;> rfl
  | terminatedString value => cases value <;> rfl

/-! ## One call -/

/-- A call appended `bytes` and wrote nothing else: the block has grown by memory that nobody has
written, and only what is between the two cursors has changed. -/
structure Appends (garbage : Nat → UInt8) (before after : XferBuffer) (bytes : List UInt8) : Prop where
  cursor : after.cursor = before.cursor + bytes.length
  inside : after.cursor ≤ after.size
  size : (after.memory.getD []).length = after.size
  grown : before.size ≤ after.size
  kept : ∀ i, i < before.size → (i < before.cursor ∨ after.cursor ≤ i) →
    (after.memory.getD [])[i]? = (before.memory.getD [])[i]?
  unwritten : ∀ i, before.size ≤ i → after.cursor ≤ i → i < after.size →
    (after.memory.getD [])[i]? = some (garbage i)

section

variable (garbage : Nat → UInt8) {buffer : XferBuffer} {xs : List UInt8}

/-- A NULL string. -/
theorem Holds.appends_nil (h : Holds buffer xs) : Appends garbage buffer buffer [] where
  cursor := rfl
  inside := h.cursor_le
  size := h.size
  grown := Nat.le_refl _
  kept _ _ _ := rfl
  unwritten _ hle _ hlt := absurd hlt (Nat.not_lt_of_le hle)

/-- Making room leaves the old block in front of unwritten memory. -/
theorem Holds.getElem?_ensureBufferRoom (h : Holds buffer xs) (n i : Nat) :
    (i < buffer.size → ((Fxmy.ensureBufferRoom garbage buffer n).memory.getD [])[i]? =
      (buffer.memory.getD [])[i]?) ∧
    (buffer.size ≤ i → i < (Fxmy.ensureBufferRoom garbage buffer n).size →
      ((Fxmy.ensureBufferRoom garbage buffer n).memory.getD [])[i]? = some (garbage i)) := by
  unfold Fxmy.ensureBufferRoom
  simp only
  split
  · exact ⟨fun _ => rfl, fun hle hlt => absurd hlt (Nat.not_lt_of_le hle)⟩
  · have hold : (buffer.memory.getD []).take ((buffer.size + n + 4095) / 4096 * 4096) =
        buffer.memory.getD [] := List.take_of_length_le (by rw [h.size]; omega)
    rw [Option.getD_some, fxmyRealloc, hold]
    refine ⟨fun hlt => ?_, fun hle hlt => ?_⟩
    · rw [List.getElem?_append_left (by rwa [h.size])]
    · simp only at hlt
      rw [List.getElem?_append_right (by rwa [h.size]), h.size, List.getElem?_map,
        List.getElem?_range (by omega), Option.map_some, Nat.add_sub_cancel' hle]

theorem writeBytes_eq_ok {after : XferBuffer} {ys : List UInt8} (h : writeBytes buffer ys = .ok after) :
    ∃ block stored, buffer.memory = some block ∧ Block.store block buffer.cursor ys = some stored ∧
      after = { buffer with memory := some stored, cursor := buffer.cursor + ys.length } := by
  unfold writeBytes at h
  cases hmemory : buffer.memory with
  | none =>
    rw [hmemory] at h
    cases h
  | some block =>
    rw [hmemory] at h
    simp only at h
    cases hstore : Block.store block buffer.cursor ys with
    | none =>
      rw [hstore] at h
      cases h
    | some stored =>
      rw [hstore] at h
      cases h
      exact ⟨block, stored, rfl, hstore, rfl⟩

theorem ensureBufferRoom_cursor (buffer : XferBuffer) (n : Nat) :
    (ensureBufferRoom garbage buffer n).cursor = buffer.cursor := by
  unfold ensureBufferRoom
  simp only
  split <;> rfl

theorem size_le_ensureBufferRoom (n : Nat) :
    buffer.size ≤ (ensureBufferRoom garbage buffer n).size := by
  unfold ensureBufferRoom
  simp only
  split
  · exact Nat.le_refl _
  · simp only
    omega

/-- Room made and bytes written. -/
theorem Holds.appends (h : Holds buffer xs) {ys : List UInt8} {n : Nat} (hn : ys.length ≤ n) :
    ∃ after, Fxmy.writeBytes (Fxmy.ensureBufferRoom garbage buffer n) ys = .ok after ∧
      Holds after (xs ++ ys) ∧ Appends garbage buffer after ys := by
  obtain ⟨after, hwrite, hafter⟩ := h.append garbage hn
  refine ⟨after, hwrite, hafter, ?_⟩
  obtain ⟨block, stored, hmemory, hstore, rfl⟩ := writeBytes_eq_ok hwrite
  have hroom := h.getElem?_ensureBufferRoom garbage n
  rw [hmemory, Option.getD_some] at hroom
  have hcursor := ensureBufferRoom_cursor garbage buffer n
  refine ⟨?_, hafter.cursor_le, hafter.size, size_le_ensureBufferRoom garbage n, ?_, ?_⟩
  · simp only [hcursor]
  · intro i hlt hi
    simp only [Option.getD_some]
    rw [Block.getElem?_store hstore (by simpa [hcursor] using hi), (hroom i).1 hlt]
  · intro i hle hi hlt
    simp only [Option.getD_some]
    rw [Block.getElem?_store hstore (.inr hi), (hroom i).2 hle hlt]

/-- **What a call does**: it returns, with the bytes appended. -/
theorem Holds.run (h : Holds buffer xs) (call : WriteCall) :
    ∃ after, call.run garbage buffer = .ok after ∧ Holds after (xs ++ call.bytes) ∧
      Appends garbage buffer after call.bytes := by
  have hnull : ∃ after, (.ok buffer : Except Stop XferBuffer) = .ok after ∧ Holds after (xs ++ []) ∧
      Appends garbage buffer after [] :=
    ⟨buffer, rfl, by rwa [List.append_nil], h.appends_nil garbage⟩
  cases call with
  | u8 value => exact h.appends garbage (Nat.le_refl 1)
  | u16 value => exact h.appends garbage (Nat.le_of_eq (length_littleEndian _ 2))
  | lcb value =>
    rw [WriteCall.run, serializeLcb_eq]
    exact h.appends garbage (length_lcbBytes_le value)
  | string value =>
    cases value with
    | none => exact hnull
    | some s => exact h.appends garbage (Nat.le_refl _)
  | terminatedString value =>
    cases value with
    | none => exact hnull
    | some s => exact h.appends garbage (Nat.le_of_eq List.length_append)

/-! ## Any number of calls -/

theorem Holds.writeAll (h : Holds buffer xs) (calls : List WriteCall) :
    ∃ after, Fxmy.writeAll garbage buffer calls = .ok after ∧
      Holds after (xs ++ calls.flatMap WriteCall.bytes) := by
  induction calls generalizing buffer xs with
  | nil => exact ⟨buffer, rfl, by simpa using h⟩
  | cons call calls ih =>
    obtain ⟨between, hcall, hbetween, -⟩ := h.run garbage call
    obtain ⟨after, hcalls, hafter⟩ := ih hbetween
    refine ⟨after, ?_, by simpa [List.append_assoc] using hafter⟩
    rw [Fxmy.writeAll, hcall, except_bind_ok, hcalls]

end

/-- **The writers in sequence.** Whatever has been written, a call appends the encoding of its
argument and leaves the rest of the block alone, and the block starts with the encodings of all
arguments so far. -/
theorem writeAll_appends (garbage : Nat → UInt8) (calls : List WriteCall) (call : WriteCall) :
    ∃ before after encodings encoding,
      writeAll garbage .empty calls = .ok before ∧ call.run garbage before = .ok after ∧
      List.Forall₂ WriteCall.Encodes calls encodings ∧
      call.Encodes encoding ∧ Appends garbage before after encoding ∧
      (after.memory.getD []).take after.cursor = encodings.flatten ++ encoding := by
  obtain ⟨before, hbefore, hholds⟩ := holds_empty.writeAll garbage calls
  obtain ⟨after, hafter, hholds', happends⟩ := hholds.run garbage call
  refine ⟨before, after, calls.map WriteCall.bytes, call.bytes, hbefore, hafter, ?_,
    call.encodes_bytes, happends, ?_⟩
  · rw [List.forall₂_map_right_iff]
    exact List.forall₂_same.mpr fun call _ => call.encodes_bytes
  · rw [hholds'.cursor, ← List.flatMap_def]
    exact List.prefix_iff_eq_take.mp hholds'.written |>.symm

end Fxmy
