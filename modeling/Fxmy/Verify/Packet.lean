import Fxmy.Verify.Lcb
import Fxmy.Verify.Receiving

/-!
# Readers on a received packet

`fxmy_recv` leaves a packet with a NUL behind it (`recv_eq_ok`). On such a buffer every reader is
decided by the cursor and the packet: it reads at indices up to the packet's length or stops with
`Stop.bytes`, and its `VERIFY` compares the new cursor with that length.
-/

namespace Fxmy

/-- The transfer buffer with a packet in it and the cursor at `c`. -/
def received (packet : List UInt8) (c : Nat) : XferBuffer := ⟨some (packet ++ [0]), packet.length, c⟩

theorem recv_eq_ok {env : Env} {w w' : World} {rv : Int} (h : recv env w = .ok rv w') :
    ∃ packet c, w'.conn.xferBuffer = received packet c := by
  obtain ⟨-, packet, -, hw'⟩ := recv_receives h
  rw [hw']
  exact ⟨packet.body, w.conn.xferBuffer.cursor, rfl⟩

section Readers

variable (packet : List UInt8) (c : Nat)

theorem packet_getElem? {i : Nat} (hi : i ≤ packet.length) :
    (packet ++ [0])[i]? = some (packet.getD i 0) := by
  rcases Nat.lt_or_eq_of_le hi with h | rfl
  · rw [List.getElem?_append_left h, List.getD_eq_getElem?_getD, List.getElem?_eq_getElem h]
    rfl
  · simp

theorem byteAt_received (i : Nat) : (received packet c).byteAt i =
    if i ≤ packet.length then .ok (packet.getD i 0) else .error .bytes := by
  unfold XferBuffer.byteAt received
  by_cases hi : i ≤ packet.length
  · simp only [if_pos hi, packet_getElem? packet hi]
  · have : (packet ++ [0])[i]? = none := by
      rw [List.getElem?_eq_none_iff, List.length_append, List.length_singleton]
      omega
    simp only [if_neg hi, this]

theorem advance_received (n : Nat) : (received packet c).advance n = received packet (c + n) := rfl

theorem verifyCursor_received : (received packet c).verifyCursor =
    if c ≤ packet.length then .ok () else .error .abort := by
  unfold XferBuffer.verifyCursor verify received
  simp only [decide_eq_true_eq]

/-- The 32-bit value at an index, lowest byte first. -/
def u32At (i : Nat) : UInt32 :=
  (packet.getD i 0).toUInt32 ||| ((packet.getD (i + 1) 0).toUInt32 <<< 8) |||
    ((packet.getD (i + 2) 0).toUInt32 <<< 16) ||| ((packet.getD (i + 3) 0).toUInt32 <<< 24)

/-- The four bytes are read before the cursor is checked, so the terminator may be one of them. -/
theorem readU32_received : readU32 (received packet c) =
    if packet.length < c + 3 then .error .bytes
    else if packet.length < c + 4 then .error .abort
    else .ok (u32At packet c, received packet (c + 4)) := by
  have hcur : (received packet c).cursor = c := rfl
  unfold readU32
  simp only [hcur, byteAt_received, advance_received, verifyCursor_received]
  by_cases h3 : packet.length < c + 3
  · rw [if_pos h3]
    by_cases h0 : c ≤ packet.length
    · by_cases h1 : c + 1 ≤ packet.length
      · by_cases h2 : c + 2 ≤ packet.length
        · have : ¬ c + 3 ≤ packet.length := by omega
          simp [h0, h1, h2, this, bind, Except.bind]
        · simp [h0, h1, h2, bind, Except.bind]
      · simp [h0, h1, bind, Except.bind]
    · simp [h0, bind, Except.bind]
  · have h0 : c ≤ packet.length := by omega
    have h1 : c + 1 ≤ packet.length := by omega
    have h2 : c + 2 ≤ packet.length := by omega
    have h3' : c + 3 ≤ packet.length := by omega
    rw [if_neg h3]
    by_cases h4 : packet.length < c + 4
    · have : ¬ c + 4 ≤ packet.length := by omega
      simp [h0, h1, h2, h3', h4, this, bind, Except.bind]
    · have : c + 4 ≤ packet.length := by omega
      simp [h0, h1, h2, h3', h4, this, bind, Except.bind, u32At]

/-- The cursor is checked before the byte is read. -/
theorem readU8_received : readU8 (received packet c) =
    if packet.length < c + 1 then .error .abort
    else .ok (packet.getD c 0, received packet (c + 1)) := by
  have hcur : (received packet c).cursor = c := rfl
  unfold readU8
  simp only [hcur, byteAt_received, advance_received, verifyCursor_received]
  by_cases h : packet.length < c + 1
  · have : ¬ c + 1 ≤ packet.length := by omega
    simp [h, this, bind, Except.bind]
  · have h1 : c + 1 ≤ packet.length := by omega
    have h0 : c ≤ packet.length := by omega
    simp [h, h1, h0, bind, Except.bind]

/-! ## Strings -/

/-- The first NUL from index `i` on is at `u`; the terminator counts. -/
structure FirstNul (packet : List UInt8) (i u : Nat) : Prop where
  from_le : i ≤ u
  inside : u ≤ packet.length
  nul : packet.getD u 0 = 0
  before : ∀ j, i ≤ j → j < u → packet.getD j 0 ≠ 0

theorem FirstNul.unique {packet : List UInt8} {i u v : Nat} (hu : FirstNul packet i u)
    (hv : FirstNul packet i v) : u = v := by
  rcases Nat.lt_trichotomy u v with h | h | h
  · exact absurd hu.nul (hv.before u hu.from_le h)
  · exact h
  · exact absurd hv.nul (hu.before v hv.from_le h)

theorem strlenLoop_of_mem {l : List UInt8} (h : 0 ∈ l) :
    ∃ k, strlenLoop l = .ok k ∧ l[k]? = some 0 ∧ ∀ j < k, l[j]? ≠ some 0 := by
  obtain ⟨s, rest, rfl, hs⟩ := List.eq_append_cons_of_mem h
  refine ⟨s.length, strlenLoop_append hs rest, ?_, fun j hj hzero => ?_⟩
  · rw [List.getElem?_append_right (Nat.le_refl _), Nat.sub_self, List.getElem?_cons_zero]
  · rw [List.getElem?_append_left hj] at hzero
    exact hs (List.mem_of_getElem? hzero)

theorem strlenAt_received {i : Nat} (hi : i ≤ packet.length) :
    ∃ u, FirstNul packet i u ∧ strlenAt (received packet c) i = .ok (u - i) := by
  have hlen : packet.length < (packet ++ [0]).length := by simp
  have hmem : (0 : UInt8) ∈ (packet ++ [0]).drop i := by
    rw [List.drop_append_of_le_length hi]
    simp
  obtain ⟨k, hk, h0, hbefore⟩ := strlenLoop_of_mem hmem
  rw [List.getElem?_drop] at h0
  have hle : i + k ≤ packet.length := by
    have := (List.getElem?_eq_some_iff.mp h0).1
    simp only [List.length_append, List.length_singleton] at this
    omega
  refine ⟨i + k, ⟨Nat.le_add_right _ _, hle, ?_, ?_⟩, ?_⟩
  · rwa [packet_getElem? packet hle, Option.some.injEq] at h0
  · intro j hij hj
    have := hbefore (j - i) (by omega)
    rw [List.getElem?_drop, Nat.add_sub_cancel' hij, packet_getElem? packet (by omega)] at this
    simpa using this
  · rw [Nat.add_sub_cancel_left]
    exact hk

theorem strlenAt_received_beyond {i : Nat} (hi : packet.length < i) :
    strlenAt (received packet c) i = .error .bytes := by
  have hnil : (packet ++ [0]).drop i = [] := by
    rw [List.drop_eq_nil_iff]
    simp
    omega
  change strlenLoop ((packet ++ [0]).drop i) = _
  rw [hnil]
  rfl

theorem skipString_received {u : Nat} (hu : FirstNul packet c u) :
    skipString (received packet c) = .ok (received packet (u + 1)) := by
  obtain ⟨v, hv, hlen⟩ := strlenAt_received packet c (Nat.le_trans hu.from_le hu.inside)
  obtain rfl := hu.unique hv
  have hfrom := hu.from_le
  unfold skipString
  have hcur : (received packet c).cursor = c := rfl
  rw [hcur, hlen]
  change Except.ok (received packet (c + (u - c + 1))) = _
  rw [show c + (u - c + 1) = u + 1 by omega]

/-! ## Length-coded binaries -/

/-- How many bytes `fxmy_read_lcb` reads behind a first byte. -/
def lcbExtra (byte : UInt8) : Nat :=
  if byte = 254 then 8 else if byte = 253 then 3 else if byte = 252 then 2 else 0

theorem readLcbBytes_received (n : Nat) : readLcbBytes (received packet c) n =
    if n = 0 ∨ c + n ≤ packet.length then .ok () else .error .bytes := by
  have hforM : ∀ l : List Nat, (forM l fun i => do
      let _ ← (received packet c).byteAt ((received packet c).cursor + 1 + i)
      (pure () : Except Stop Unit)) =
        if ∀ i ∈ l, c + 1 + i ≤ packet.length then .ok () else .error .bytes := by
    intro l
    induction l with
    | nil => rfl
    | cons i l ih =>
      have hcur : (received packet c).cursor = c := rfl
      rw [List.forM_cons, ih, hcur, byteAt_received]
      simp only [List.forall_mem_cons]
      by_cases hi : c + 1 + i ≤ packet.length
      · simp [hi, bind, Except.bind, pure, Except.pure]
      · simp [hi, bind, Except.bind]
  rw [show readLcbBytes (received packet c) n = _ from hforM (List.range n)]
  congr 1
  simp only [List.mem_range, eq_iff_iff]
  constructor
  · intro h
    rcases Nat.eq_zero_or_pos n with h0 | hpos
    · exact .inl h0
    · have := h (n - 1) (by omega)
      exact .inr (by omega)
  · rintro (rfl | h) i hi
    · exact absurd hi (Nat.not_lt_zero i)
    · omega

theorem readLcb252_received (d : Nat) : readLcb252 (received packet c) (received packet d) =
    if c + 2 ≤ packet.length then .ok (received packet (d + 3 + 1)) else .error .bytes := by
  unfold readLcb252
  rw [readLcbBytes_received]
  by_cases h : c + 2 ≤ packet.length
  · simp [h, bind, Except.bind, advance_received]
  · simp [h, bind, Except.bind]

theorem readLcb253_received (d : Nat) : readLcb253 (received packet c) (received packet d) =
    if c + 3 ≤ packet.length then .ok (received packet (d + 4 + 3 + 1)) else .error .bytes := by
  unfold readLcb253
  rw [readLcbBytes_received]
  by_cases h : c + 3 ≤ packet.length
  · have h2 : c + 2 ≤ packet.length := by omega
    simp [h, h2, bind, Except.bind, advance_received, readLcb252_received]
  · simp [h, bind, Except.bind]

theorem readLcb254_received : readLcb254 (received packet c) (received packet c) =
    if c + 8 ≤ packet.length then .ok (received packet (c + 9 + 4 + 3 + 1)) else .error .bytes := by
  unfold readLcb254
  rw [readLcbBytes_received]
  by_cases h : c + 8 ≤ packet.length
  · have h3 : c + 3 ≤ packet.length := by omega
    simp [h, h3, bind, Except.bind, advance_received, readLcb253_received]
  · simp [h, bind, Except.bind]

/-- The switch moves the cursor once the bytes of its case are there. -/
theorem readLcbSwitch_received (byte : UInt8) : readLcbSwitch byte (received packet c) =
    if lcbExtra byte = 0 ∨ c + lcbExtra byte ≤ packet.length then
      .ok (received packet (c + lcbStep byte)) else .error .bytes := by
  unfold readLcbSwitch lcbExtra lcbStep
  by_cases b254 : byte = 254
  · simp [b254, readLcb254_received]
  by_cases b253 : byte = 253
  · simp [b253, readLcb253_received]
  by_cases b252 : byte = 252
  · simp [b252, readLcb252_received]
  · simp [b254, b253, b252, advance_received]

/-- The bytes behind the prefix are read before the cursor is checked, and the cursor moves further
than these bytes. -/
theorem readLcb_received : readLcb (received packet c) =
    if packet.length < c + lcbExtra (packet.getD c 0) then .error .bytes
    else if packet.length < c + lcbStep (packet.getD c 0) then .error .abort
    else .ok ((packet.getD c 0).toUInt64, received packet (c + lcbStep (packet.getD c 0))) := by
  have hcur : (received packet c).cursor = c := rfl
  unfold readLcb
  rw [hcur, byteAt_received]
  by_cases h0 : c ≤ packet.length
  · simp only [h0, if_true, bind, Except.bind, readLcbSwitch_received]
    by_cases hx : packet.length < c + lcbExtra (packet.getD c 0)
    · rw [if_pos hx, if_neg (by omega)]
    · rw [if_neg hx, if_pos (by omega)]
      simp only [verifyCursor_received]
      by_cases hs : packet.length < c + lcbStep (packet.getD c 0)
      · rw [if_pos hs, if_neg (by omega)]
      · rw [if_neg hs, if_pos (by omega)]
  · rw [if_neg h0, if_pos (by omega)]
    rfl

end Readers

end Fxmy
