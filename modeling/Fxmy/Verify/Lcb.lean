import Fxmy.Read
import Fxmy.Verify.Write

/-!
# Length-coded binaries, written and read back

`fxmy_read_lcb` moves the cursor past one byte, and past more behind each of its prefixes; its value
is the prefix. So a list of values comes back exactly if each of them is written as one byte
(`roundTrip_iff`).
-/

namespace Fxmy

/-- Values written in order, with the writer's cursor behind each. -/
def serializeLcbs (garbage : Nat → UInt8) :
    XferBuffer → List UInt64 → Except Stop (XferBuffer × List Nat)
  | buffer, [] => .ok (buffer, [])
  | buffer, value :: values => do
    let written ← serializeLcb garbage buffer value
    let (last, cursors) ← serializeLcbs garbage written values
    .ok (last, written.cursor :: cursors)

/-- As many values read, each with the reader's cursor behind it. -/
def readLcbs : XferBuffer → Nat → Except Stop (List (UInt64 × Nat))
  | _, 0 => .ok []
  | buffer, n + 1 => do
    let (value, buffer) ← readLcb buffer
    let rest ← readLcbs buffer n
    .ok ((value, buffer.cursor) :: rest)

/-- The values written into an empty buffer come back when it is read from cursor 0, and after each
the reader's cursor is where the writer's was. -/
def RoundTrip (garbage : Nat → UInt8) (values : List UInt64) : Prop :=
  ∃ buffer cursors, serializeLcbs garbage .empty values = .ok (buffer, cursors) ∧
    readLcbs { buffer with cursor := 0 } values.length = .ok (values.zip cursors)

/-! ## Writing -/

/-- The writer's cursors, from `cursor` on. -/
def lcbCursors (cursor : Nat) : List UInt64 → List Nat
  | [] => []
  | value :: values =>
    (cursor + (lcbBytes value).length) :: lcbCursors (cursor + (lcbBytes value).length) values

theorem serializeLcbs_eq (garbage : Nat → UInt8) (values : List UInt64) {buffer : XferBuffer}
    {xs : List UInt8} (h : Holds buffer xs) :
    ∃ last, serializeLcbs garbage buffer values = .ok (last, lcbCursors xs.length values) ∧
      Holds last (xs ++ values.flatMap lcbBytes) := by
  induction values generalizing buffer xs with
  | nil => exact ⟨buffer, rfl, by simpa using h⟩
  | cons value values ih =>
    obtain ⟨written, hw, hwritten⟩ := h.serializeLcb garbage value
    obtain ⟨last, hl, hlast⟩ := ih hwritten
    refine ⟨last, ?_, by simpa [List.append_assoc] using hlast⟩
    have hcur : lcbCursors xs.length (value :: values) =
        written.cursor :: lcbCursors (xs ++ lcbBytes value).length values := by
      rw [hwritten.cursor, List.length_append]
      rfl
    rw [hcur]
    unfold serializeLcbs
    rw [hw]
    change (do let (last, cursors) ← serializeLcbs garbage written values; _) = _
    rw [hl]
    rfl

/-! ## Reading -/

/-- How far `fxmy_read_lcb` moves the cursor for a first byte: each case runs into the ones below
it. -/
def lcbStep (byte : UInt8) : Nat :=
  if byte = 254 then 9 + 4 + 3 + 1 else if byte = 253 then 4 + 3 + 1
  else if byte = 252 then 3 + 1 else 1

theorem readLcb252_eq_ok {start buffer after : XferBuffer}
    (h : readLcb252 start buffer = .ok after) : after = buffer.advance (3 + 1) := by
  obtain ⟨_, -, h⟩ := Exec.except_bind_eq_ok.mp h
  cases h
  rfl

theorem readLcb253_eq_ok {start buffer after : XferBuffer}
    (h : readLcb253 start buffer = .ok after) : after = buffer.advance (4 + 3 + 1) := by
  obtain ⟨_, -, h⟩ := Exec.except_bind_eq_ok.mp h
  rw [readLcb252_eq_ok h]
  rfl

theorem readLcb254_eq_ok {start buffer after : XferBuffer}
    (h : readLcb254 start buffer = .ok after) : after = buffer.advance (9 + 4 + 3 + 1) := by
  obtain ⟨_, -, h⟩ := Exec.except_bind_eq_ok.mp h
  rw [readLcb253_eq_ok h]
  rfl

theorem readLcbSwitch_eq_ok {byte : UInt8} {buffer after : XferBuffer}
    (h : readLcbSwitch byte buffer = .ok after) : after = buffer.advance (lcbStep byte) := by
  unfold readLcbSwitch at h
  unfold lcbStep
  split at h
  · next h254 => rw [if_pos h254, readLcb254_eq_ok h]
  · next h254 =>
    rw [if_neg h254]
    split at h
    · next h253 => rw [if_pos h253, readLcb253_eq_ok h]
    · next h253 =>
      rw [if_neg h253]
      split at h
      · next h252 => rw [if_pos h252, readLcb252_eq_ok h]
      · next h252 =>
        rw [if_neg h252]
        cases h
        rfl

/-- What `fxmy_read_lcb` returns, whenever it returns. -/
theorem readLcb_eq_ok {buffer after : XferBuffer} {value : UInt64}
    (h : readLcb buffer = .ok (value, after)) :
    ∃ byte, buffer.byteAt buffer.cursor = .ok byte ∧ value = byte.toUInt64 ∧
      after = buffer.advance (lcbStep byte) := by
  obtain ⟨byte, hbyte, h⟩ := Exec.except_bind_eq_ok.mp h
  obtain ⟨advanced, hadv, h⟩ := Exec.except_bind_eq_ok.mp h
  obtain ⟨_, -, h⟩ := Exec.except_bind_eq_ok.mp h
  cases h
  exact ⟨byte, hbyte, rfl, readLcbSwitch_eq_ok hadv⟩

/-- A byte that is no prefix is read as it is. -/
theorem readLcb_byte {buffer : XferBuffer} {byte : UInt8}
    (hbyte : buffer.byteAt buffer.cursor = .ok byte) (hsmall : byte ≤ 250)
    (hroom : buffer.cursor + 1 ≤ buffer.size) :
    readLcb buffer = .ok (byte.toUInt64, buffer.advance 1) := by
  have h254 : byte ≠ 254 := by rintro rfl; exact absurd hsmall (by decide)
  have h253 : byte ≠ 253 := by rintro rfl; exact absurd hsmall (by decide)
  have h252 : byte ≠ 252 := by rintro rfl; exact absurd hsmall (by decide)
  have hswitch : readLcbSwitch byte buffer = .ok (buffer.advance 1) := by
    unfold readLcbSwitch
    rw [if_neg h254, if_neg h253, if_neg h252]
  have hv : (buffer.advance 1).verifyCursor = .ok () :=
    verify_eq_ok.mpr (decide_eq_true hroom)
  unfold readLcb
  rw [hbyte]
  simp only [bind, Except.bind, hswitch, hv]

/-- The bytes of a value beyond 250 start with a prefix that takes the reader too far. -/
theorem lcbStep_ne {value : UInt64} (h : ¬ value ≤ 250) :
    ∃ byte rest, lcbBytes value = byte :: rest ∧ lcbStep byte ≠ (lcbBytes value).length := by
  unfold lcbBytes
  rw [if_neg h]
  split
  · exact ⟨252, _, rfl, by rw [List.length_cons, length_littleEndian]; decide⟩
  · split
    · exact ⟨253, _, rfl, by rw [List.length_cons, length_littleEndian]; decide⟩
    · exact ⟨254, _, rfl, by rw [List.length_cons, length_littleEndian]; decide⟩

/-- A value of one byte is that byte. -/
theorem toUInt8_small {value : UInt64} (h : value ≤ 250) :
    value.toUInt8.toUInt64 = value ∧ value.toUInt8 ≤ 250 := by
  have hle : value.toNat ≤ 250 := UInt64.le_iff_toNat_le.mp h
  constructor
  · apply UInt64.toNat_inj.mp
    simp only [UInt8.toNat_toUInt64, UInt64.toNat_toUInt8]
    omega
  · rw [UInt8.le_iff_toNat_le]
    simp only [UInt64.toNat_toUInt8, UInt8.reduceToNat]
    omega

/-- Reading at a place where values were written gives them back exactly if all are small. -/
theorem readLcbs_iff {values : List UInt64} (pre rest : List UInt8) {buffer : XferBuffer}
    (hm : buffer.memory = some (pre ++ (values.flatMap lcbBytes ++ rest)))
    (hc : buffer.cursor = pre.length)
    (hs : (pre ++ (values.flatMap lcbBytes ++ rest)).length = buffer.size) :
    readLcbs buffer values.length = .ok (values.zip (lcbCursors pre.length values)) ↔
      ∀ value ∈ values, value ≤ 250 := by
  induction values generalizing pre buffer with
  | nil => simp [readLcbs]
  | cons value values ih =>
    rw [List.forall_mem_cons]
    by_cases hsmall : value ≤ 250
    · have hbytes : lcbBytes value = [value.toUInt8] := if_pos hsmall
      obtain ⟨hback, hle⟩ := toUInt8_small hsmall
      have hbyte : buffer.byteAt buffer.cursor = .ok value.toUInt8 := by
        unfold XferBuffer.byteAt
        rw [hm, hc]
        simp [hbytes]
      have hroom : buffer.cursor + 1 ≤ buffer.size := by
        rw [hc, ← hs]
        simp [hbytes]
      have hm' : (buffer.advance 1).memory =
          some (pre ++ [value.toUInt8] ++ (values.flatMap lcbBytes ++ rest)) := by
        simp [hm, hbytes]
      have hrest := ih (pre ++ [value.toUInt8]) hm' (by simp [hc]) (by simpa [hbytes] using hs)
      have hcur : lcbCursors pre.length (value :: values) =
          (buffer.advance 1).cursor :: lcbCursors (pre ++ [value.toUInt8]).length values := by
        simp [lcbCursors, hbytes, hc]
      rw [List.length_cons, readLcbs, readLcb_byte hbyte hle hroom, hcur, List.zip_cons_cons]
      simp only [hsmall, true_and, ← hrest, bind, Except.bind, hback]
      cases readLcbs (buffer.advance 1) values.length <;> simp
    · -- The reader's cursor is wrong after this value.
      refine iff_of_false (fun h => ?_) (fun h => hsmall h.1)
      obtain ⟨byte, tail, hbytes, hstep⟩ := lcbStep_ne hsmall
      obtain ⟨⟨v, after⟩, hread, h⟩ := Exec.except_bind_eq_ok.mp h
      obtain ⟨others, -, h⟩ := Exec.except_bind_eq_ok.mp h
      obtain ⟨byte', hbyte, -, rfl⟩ := readLcb_eq_ok hread
      obtain rfl : byte = byte' := by
        unfold XferBuffer.byteAt at hbyte
        rw [hm, hc] at hbyte
        simpa [hbytes] using hbyte
      simp only [lcbCursors, List.zip_cons_cons, Except.ok.injEq, List.cons.injEq, Prod.mk.injEq,
        XferBuffer.advance_cursor, hc] at h
      omega

/-! ## The round trip -/

/-- **A list of values comes back** exactly if none of them is above 250. -/
theorem roundTrip_iff (garbage : Nat → UInt8) (values : List UInt64) :
    RoundTrip garbage values ↔ ∀ value ∈ values, value ≤ 250 := by
  obtain ⟨last, hlast, hholds⟩ := serializeLcbs_eq garbage values holds_empty
  have hread : RoundTrip garbage values ↔
      readLcbs { last with cursor := 0 } values.length = .ok (values.zip (lcbCursors 0 values)) := by
    unfold RoundTrip
    rw [hlast]
    constructor
    · rintro ⟨buffer, cursors, h, hr⟩
      cases h
      exact hr
    · exact fun hr => ⟨_, _, rfl, hr⟩
  rw [hread]
  obtain ⟨rest, hrest⟩ := hholds.written
  rw [List.nil_append] at hrest
  cases hm : last.memory with
  | none =>
    -- Nothing was written.
    rw [hm, Option.getD_none, List.append_eq_nil_iff] at hrest
    cases values with
    | nil => simp [readLcbs]
    | cons value values =>
      have := congrArg List.length hrest.1
      have hpos : 0 < (lcbBytes value).length := by
        unfold lcbBytes
        split
        · simp
        · split
          · simp
          · split <;> simp
      simp only [List.flatMap_cons, List.length_append, List.length_nil] at this
      omega
  | some block =>
    have hsize := hholds.size
    rw [hm, Option.getD_some] at hrest hsize
    subst hrest
    exact readLcbs_iff [] rest (by simp) rfl hsize

/-- 300 is written as 252, 44, 1 and read as 252. -/
theorem lcb_300_lost : ¬ ∀ garbage values, RoundTrip garbage values := by
  intro h
  obtain ⟨buffer, cursors, hw, hr⟩ := h (fun _ => 0) [300]
  obtain ⟨last, hlast, -⟩ :=
    serializeLcbs_eq (fun _ => 0) [300] holds_empty
  rw [hw] at hlast
  cases hlast
  obtain ⟨⟨value, after⟩, hread, hr⟩ := Exec.except_bind_eq_ok.mp hr
  obtain ⟨others, -, hr⟩ := Exec.except_bind_eq_ok.mp hr
  obtain ⟨byte, -, hvalue, -⟩ := readLcb_eq_ok hread
  simp only [lcbCursors, List.zip_cons_cons, Except.ok.injEq, List.cons.injEq, Prod.mk.injEq] at hr
  have hbyte : byte.toNat < 256 := byte.toNat_lt
  have h300 : byte.toUInt64.toNat = 300 := by rw [← hvalue, hr.1.1]; rfl
  rw [UInt8.toNat_toUInt64] at h300
  omega

end Fxmy
