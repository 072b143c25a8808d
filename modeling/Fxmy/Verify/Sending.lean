import Fxmy.Main
import Fxmy.Verify.Framing
import Fxmy.Verify.Write

/-!
# Sending a result

`fxmy_send_result` serialises one of two layouts and sends it in a frame of its own. The header byte
comes from the status in both; which layout it is, `column_count_error_code` decides
(`emits_ok`, `emits_error`). So the layout is the one for the status if the two are in step
(`emits_layout`).
-/

namespace Fxmy

open Exec

/-! ## Frames -/

/-- The frame for a payload. -/
def frame (packetNumber : UInt32) (payload : List UInt8) : List UInt8 :=
  frameHeader payload.length packetNumber.toNat ++ payload

/-- A payload that fits into one frame is sent as that. -/
theorem message_eq_frame (packetNumber : UInt32) {payload : List UInt8} (hpos : 0 < payload.length)
    (hmax : payload.length ≤ maxFrame) : message packetNumber payload = frame packetNumber payload := by
  have hone : numFrames payload.length = 1 := numFrames_eq_one hpos hmax
  have hnumber : packetNumber.toNat.toUInt8.toNat.toUInt8 = packetNumber.toNat.toUInt8 :=
    UInt8.ofNat_toNat
  unfold message packetize frame
  rw [hone]
  simp only [packetsOf, List.flatMap_cons, List.flatMap_nil, List.append_nil, Packet.bytes,
    frameHeader, List.take_of_length_le hmax, hnumber]

/-! ## Layouts -/

/-- The layout of a success: the affected rows, the insert id, no flags, no warnings. -/
def okLayout (conn : Connection) (status : Status) : List UInt8 :=
  0 :: (lcbBytes conn.affectedRows ++ (lcbBytes conn.insertId ++ ([0, 0] ++ ([0, 0] ++ status.message))))

/-- The layout of an error: the code, a `#` and the state. -/
def errorLayout (status : Status) : List UInt8 :=
  0xFF :: (littleEndian status.statusCode.toUInt64 2 ++
    (chars "#" ++ (status.sqlState.getD [] ++ status.message)))

theorem serializeOk_eq (garbage : Nat → UInt8) (conn : Connection) (status : Status) :
    ∃ buffer, serializeOk garbage conn status = .ok buffer ∧
      Holds buffer (status.header :: (okLayout conn status).tail) := by
  obtain ⟨b₁, h₁, hb₁⟩ := holds_empty.serializeU8 garbage status.header
  obtain ⟨b₂, h₂, hb₂⟩ := hb₁.serializeLcb garbage conn.affectedRows
  obtain ⟨b₃, h₃, hb₃⟩ := hb₂.serializeLcb garbage conn.insertId
  obtain ⟨b₄, h₄, hb₄⟩ := hb₃.serializeU16 garbage 0
  obtain ⟨b₅, h₅, hb₅⟩ := hb₄.serializeU16 garbage 0
  obtain ⟨b₆, h₆, hb₆⟩ := hb₅.serializeString garbage (some status.message)
  refine ⟨b₆, ?_, ?_⟩
  · unfold serializeOk
    rw [h₁, except_bind_ok, h₂, except_bind_ok, h₃, except_bind_ok, h₄, except_bind_ok, h₅,
      except_bind_ok, h₆]
  · simpa [okLayout, littleEndian] using hb₆

theorem serializeError_eq (garbage : Nat → UInt8) (status : Status) :
    ∃ buffer, serializeError garbage status = .ok buffer ∧
      Holds buffer (status.header :: (errorLayout status).tail) := by
  obtain ⟨b₁, h₁, hb₁⟩ := holds_empty.serializeU8 garbage status.header
  obtain ⟨b₂, h₂, hb₂⟩ := hb₁.serializeU16 garbage status.statusCode
  obtain ⟨b₃, h₃, hb₃⟩ := hb₂.serializeString garbage (some (chars "#"))
  obtain ⟨b₄, h₄, hb₄⟩ := hb₃.serializeString garbage status.sqlState
  obtain ⟨b₅, h₅, hb₅⟩ := hb₄.serializeString garbage (some status.message)
  refine ⟨b₅, ?_, ?_⟩
  · unfold serializeError
    rw [h₁, except_bind_ok, h₂, except_bind_ok, h₃, except_bind_ok, h₄, except_bind_ok, h₅]
  · simpa [errorLayout] using hb₅

/-- The layout for a status. -/
def layout (conn : Connection) (status : Status) : List UInt8 :=
  if status.succeeded then okLayout conn status else errorLayout status

/-! ## The result -/

/-- `fxmy_send_result` hands the socket one frame, with this payload. -/
def Emits (env : Env) (w : World) (payload : List UInt8) : Prop :=
  (final (sendResult env w)).sent = w.sent ++ [frame w.conn.packetNumber payload]

/-- What the temporary buffer holds is sent. -/
theorem emits_of_holds {env : Env} {w : World} {buffer : XferBuffer} {payload : List UInt8}
    (hbuffer : resultBuffer env.build env.garbage w.conn = .ok buffer) (hholds : Holds buffer payload)
    (hpos : 0 < payload.length) (hmax : payload.length ≤ maxFrame) : Emits env w payload := by
  obtain ⟨behind, hbehind⟩ := hholds.written
  unfold Emits sendResult
  rw [bind_of_ok (resetXferBuffer_eq w), bind_get]
  have hreset : resultBuffer env.build env.garbage { w.conn with xferBuffer := .empty } = .ok buffer :=
    hbuffer
  rw [hreset, bind_lift_ok, hholds.cursor, ← hbehind]
  refine (Keeps.final_bind (p := World.sent) (fun _ => .pure _) _).trans ?_
  rw [← message_eq_frame _ hpos hmax]
  exact send_sent env behind rfl (Nat.le_trans hmax (by decide))

theorem Emits.unique {env : Env} {w : World} {payload payload' : List UInt8}
    (h : Emits env w payload) (h' : Emits env w payload') : payload = payload' := by
  have hsent := h.symm.trans h'
  have hframe := List.singleton_inj.mp (List.append_cancel_left hsent)
  exact (List.append_inj hframe rfl).2

/-- The texts of the table are short. -/
theorem length_of_mem : ∀ s ∈ errorTable,
    s.message.length ≤ 7 ∧ (s.sqlState.getD []).length ≤ 5 := by decide

section

variable (env : Env) {w : World} {status : Status} (hstatus : w.conn.status = some status)
  (hmem : status ∈ errorTable)

include hstatus hmem

/-- The success layout is serialised under the status's header, whatever that is. -/
theorem resultBuffer_ok (hcode : w.conn.columnCountErrorCode = FXMY_OK) :
    ∃ buffer payload, resultBuffer env.build env.garbage w.conn = .ok buffer ∧ Holds buffer payload ∧
      payload = status.header :: (okLayout w.conn status).tail ∧ payload.length ≤ maxFrame := by
  obtain ⟨buffer, hserialize, hholds⟩ := serializeOk_eq env.garbage w.conn status
  refine ⟨buffer, _, ?_, hholds, rfl, ?_⟩
  · unfold resultBuffer
    rw [if_pos hcode, hstatus, Prog.deref, except_bind_ok, hserialize]
  · have hrows := length_lcbBytes_le w.conn.affectedRows
    have hid := length_lcbBytes_le w.conn.insertId
    have htext := (length_of_mem status hmem).1
    have hmax : maxFrame = 16777215 := rfl
    simp only [okLayout, List.length_cons, List.tail_cons, List.length_append, List.length_nil]
    omega

theorem emits_ok (hcode : w.conn.columnCountErrorCode = FXMY_OK) :
    Emits env w (status.header :: (okLayout w.conn status).tail) := by
  obtain ⟨buffer, _, hbuffer, hholds, rfl, hmax⟩ := resultBuffer_ok env hstatus hmem hcode
  exact emits_of_holds hbuffer hholds (Nat.succ_pos _) hmax

theorem emits_error (hcode : w.conn.columnCountErrorCode = FXMY_ERROR) :
    Emits env w (status.header :: (errorLayout status).tail) := by
  obtain ⟨buffer, hserialize, hholds⟩ := serializeError_eq env.garbage status
  refine emits_of_holds ?_ hholds (Nat.succ_pos _) ?_
  · have hne : ¬ w.conn.columnCountErrorCode = FXMY_OK := by
      rw [hcode]
      decide
    unfold resultBuffer
    rw [if_neg hne, if_pos hcode, hstatus, Prog.deref, except_bind_ok, hserialize]
  · have htext := length_of_mem status hmem
    have hmax : maxFrame = 16777215 := rfl
    have hmark : (chars "#" : List UInt8).length = 1 := rfl
    simp only [errorLayout, List.length_cons, List.tail_cons, List.length_append,
      length_littleEndian, hmark]
    omega

/-- **The layout agrees with the status** if `column_count_error_code` does. -/
theorem emits_layout
    (hcode : w.conn.columnCountErrorCode = FXMY_OK ∨ w.conn.columnCountErrorCode = FXMY_ERROR)
    (hstep : status.succeeded = false ↔ w.conn.columnCountErrorCode = FXMY_ERROR) :
    Emits env w (layout w.conn status) := by
  cases hsucc : status.succeeded with
  | true =>
    have hok := hcode.resolve_right fun h => by simpa [hsucc] using hstep.mpr h
    have hheader : status.header = 0 := by simpa [Status.succeeded] using hsucc
    have hemits := emits_ok env hstatus hmem hok
    rw [hheader] at hemits
    rw [layout, if_pos hsucc]
    exact hemits
  | false =>
    have hheader : status.header = 0xFF := (header_of_mem status hmem).resolve_left (by simp [hsucc])
    have hemits := emits_error env hstatus hmem (hstep.mp hsucc)
    rw [hheader] at hemits
    rw [layout, hsucc, if_neg Bool.false_ne_true]
    exact hemits

/-- A failure in the success layout is shorter or longer than the error layout. -/
theorem not_emits_layout (hcode : w.conn.columnCountErrorCode = FXMY_OK)
    (hrows : w.conn.affectedRows = 0) (hid : w.conn.insertId = 0) (hfailed : status.succeeded = false) :
    ¬ Emits env w (layout w.conn status) := by
  intro hemits
  have hstates : ∀ s ∈ errorTable, (s.sqlState.getD []).length ≠ 3 := by decide
  have hlen := congrArg List.length (hemits.unique (emits_ok env hstatus hmem hcode))
  have hzero : (lcbBytes 0).length = 1 := rfl
  have hmark : (chars "#" : List UInt8).length = 1 := rfl
  rw [layout, hfailed, if_neg Bool.false_ne_true] at hlen
  simp only [errorLayout, okLayout, hrows, hid, List.tail_cons, List.length_cons, List.length_append,
    length_littleEndian, hzero, hmark, List.length_nil] at hlen
  have := hstates status hmem
  omega

end

end Fxmy
