import Fxmy.Write
import Fxmy.Lib.Exec

/-!
# What the writers write

A buffer `Holds` the bytes written so far: they stand at the start of its block, up to the cursor.
Each writer appends its bytes, makes what room it needs and never stops.
-/

namespace Fxmy

/-- The buffer's cursor stands behind the bytes `xs` at the start of its block. -/
structure Holds (buffer : XferBuffer) (xs : List UInt8) : Prop where
  cursor : buffer.cursor = xs.length
  size : (buffer.memory.getD []).length = buffer.size
  written : xs <+: buffer.memory.getD []

theorem holds_empty : Holds .empty [] := ⟨rfl, rfl, List.nil_prefix⟩

theorem Holds.cursor_le {buffer : XferBuffer} {xs : List UInt8} (h : Holds buffer xs) :
    buffer.cursor ≤ buffer.size := by
  rw [h.cursor, ← h.size]
  exact h.written.length_le

section

variable (garbage : Nat → UInt8) {buffer : XferBuffer} {xs : List UInt8}

theorem length_fxmyRealloc (memory : Option (List UInt8)) (n : Nat) :
    (fxmyRealloc garbage memory n).length = n := by
  unfold fxmyRealloc
  simp only [List.length_append, List.length_map, List.length_range, List.length_take]
  omega

/-- Making room keeps what is written, and leaves a block with room for `n` bytes. -/
theorem Holds.ensureBufferRoom (h : Holds buffer xs) (n : Nat) :
    Holds (ensureBufferRoom garbage buffer n) xs ∧
      ∃ block, (ensureBufferRoom garbage buffer n).memory = some block ∧
        xs.length + n ≤ block.length := by
  have hcur := h.cursor_le
  have hxs := h.cursor
  unfold Fxmy.ensureBufferRoom
  simp only
  split
  · next hroom =>
    refine ⟨h, ?_⟩
    have hsize := h.size
    cases hm : buffer.memory with
    | none =>
      simp only [hm, Option.getD_none, List.length_nil] at hsize
      omega
    | some block =>
      simp only [hm, Option.getD_some] at hsize
      exact ⟨block, rfl, by omega⟩
  · have hlarge : buffer.size + n ≤ (buffer.size + n + 4095) / 4096 * 4096 := by omega
    refine ⟨⟨hxs, length_fxmyRealloc _ _ _, ?_⟩, _, rfl, ?_⟩
    · have hold : (buffer.memory.getD []).take ((buffer.size + n + 4095) / 4096 * 4096) =
          buffer.memory.getD [] := List.take_of_length_le (by rw [h.size]; omega)
      rw [Option.getD_some, fxmyRealloc, hold]
      exact h.written.trans (List.prefix_append _ _)
    · rw [length_fxmyRealloc]
      omega

/-- Bytes that fit are written at the cursor. -/
theorem Holds.writeBytes (h : Holds buffer xs) {block : List UInt8}
    (hm : buffer.memory = some block) {ys : List UInt8}
    (hroom : xs.length + ys.length ≤ block.length) :
    ∃ after, writeBytes buffer ys = .ok after ∧ Holds after (xs ++ ys) := by
  have hsize := h.size
  have hwritten := h.written
  rw [hm, Option.getD_some] at hsize hwritten
  obtain ⟨rest, rfl⟩ := hwritten
  have hstore : Block.store (xs ++ rest) buffer.cursor ys =
      some (xs ++ (ys ++ rest.drop ys.length)) := by
    rw [List.length_append] at hroom
    have := Block.store_mid xs (rest.take ys.length) (rest.drop ys.length) ys h.cursor
      (by rw [List.length_take]; omega)
    rwa [List.take_append_drop] at this
  refine ⟨⟨some (xs ++ (ys ++ rest.drop ys.length)), buffer.size, buffer.cursor + ys.length⟩, ?_,
    ⟨?_, ?_, ?_⟩⟩
  · unfold Fxmy.writeBytes
    simp only [hm, hstore]
  · rw [List.length_append, ← h.cursor]
  · have := Block.length_store hstore
    rw [Option.getD_some, this, hsize]
  · rw [Option.getD_some, ← List.append_assoc]
    exact List.prefix_append _ _

/-- Room for `n` bytes is room for `ys` if these are no more. -/
theorem Holds.append (h : Holds buffer xs) {ys : List UInt8} {n : Nat} (hn : ys.length ≤ n) :
    ∃ after, Fxmy.writeBytes (Fxmy.ensureBufferRoom garbage buffer n) ys = .ok after ∧
      Holds after (xs ++ ys) := by
  obtain ⟨h', block, hm, hroom⟩ := h.ensureBufferRoom garbage n
  exact h'.writeBytes hm (by omega)

theorem length_littleEndian (value : UInt64) (n : Nat) : (littleEndian value n).length = n := by
  induction n generalizing value with
  | zero => rfl
  | succ n ih => rw [littleEndian, List.length_cons, ih]

/-- The bytes of a length-coded binary: the value itself, or a prefix and the value's low bytes. -/
def lcbBytes (value : UInt64) : List UInt8 :=
  if value ≤ 250 then [value.toUInt8]
  else if value ≤ 0xFFFF then 252 :: littleEndian value 2
  else if value ≤ 0xFFFFFF then 253 :: littleEndian value 3
  else 254 :: littleEndian value 8

theorem length_lcbBytes_le (value : UInt64) : (lcbBytes value).length ≤ 9 := by
  unfold lcbBytes
  split
  · simp
  · split
    · simp [length_littleEndian]
    · split <;> simp [length_littleEndian]

theorem serializeLcb_eq (buffer : XferBuffer) (value : UInt64) :
    serializeLcb garbage buffer value =
      writeBytes (ensureBufferRoom garbage buffer 9) (lcbBytes value) := by
  unfold serializeLcb lcbBytes
  split
  · rfl
  · split
    · rfl
    · split <;> rfl

theorem Holds.serializeLcb (h : Holds buffer xs) (value : UInt64) :
    ∃ after, serializeLcb garbage buffer value = .ok after ∧ Holds after (xs ++ lcbBytes value) := by
  rw [serializeLcb_eq]
  exact h.append garbage (length_lcbBytes_le value)

theorem Holds.serializeU16 (h : Holds buffer xs) (value : UInt16) :
    ∃ after, serializeU16 garbage buffer value = .ok after ∧
      Holds after (xs ++ littleEndian value.toUInt64 2) :=
  h.append garbage (Nat.le_of_eq (length_littleEndian _ 2))

theorem Holds.serializeU8 (h : Holds buffer xs) (value : UInt8) :
    ∃ after, serializeU8 garbage buffer value = .ok after ∧ Holds after (xs ++ [value]) :=
  h.append garbage (Nat.le_refl 1)

/-- NULL is written as nothing. -/
theorem Holds.serializeString (h : Holds buffer xs) (value : Option (List UInt8)) :
    ∃ after, serializeString garbage buffer value = .ok after ∧
      Holds after (xs ++ value.getD []) := by
  cases value with
  | none =>
    rw [Option.getD_none, List.append_nil]
    exact ⟨buffer, rfl, h⟩
  | some s => exact h.append garbage (Nat.le_refl _)

end

end Fxmy
