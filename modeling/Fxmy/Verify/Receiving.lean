import Fxmy.Verify.Framing

/-!
# Receiving a packet

`fxmy_recv` asks the socket for the header and for the body, each in one call, and aborts if a call
brings less. So a packet is delivered exactly if the stream is not cut within the header or within
the body (`recv_iff`). It takes one packet, so a message comes back only if it is one
(`roundTrip_recv_iff`).
-/

namespace Fxmy

open Exec Chunks

/-! ## The stream -/

/-- The bytes of a stream. -/
def arrived : List Arrival → List UInt8
  | [] => []
  | .data bytes :: arrivals => bytes ++ arrived arrivals
  | .failure :: arrivals => arrived arrivals

theorem arrived_pieces (pieces : List (List UInt8)) :
    arrived (pieces.map .data) = pieces.flatten := by
  induction pieces with
  | nil => rfl
  | cons p pieces ih => rw [List.map_cons, arrived, ih, List.flatten_cons]

/-- A call that brings all it was asked for takes it from the front of the stream. -/
theorem socketRecv_whole {size : Nat} {w w' : World} {rv : Int} {bytes : List UInt8}
    (h : socketRecv size w = .ok (rv, bytes) w') (hrv : rv = size) :
    bytes.length = size ∧ ∃ incoming, w' = { w with incoming := incoming } ∧
      arrived w.incoming = bytes ++ arrived incoming := by
  unfold socketRecv at h
  cases hincoming : w.incoming with
  | nil =>
    rw [hincoming] at h
    cases h
    exact ⟨by simpa [eq_comm] using hrv, [], by rw [← hincoming], rfl⟩
  | cons arrival arrivals =>
    rw [hincoming] at h
    cases arrival with
    | failure =>
      cases h
      omega
    | data bytes =>
      cases h
      refine ⟨by omega, _, rfl, ?_⟩
      split
      · next hrest =>
        have := List.take_append_drop size bytes
        rw [hrest, List.append_nil] at this
        rw [this, arrived]
      · rw [arrived, arrived, ← List.append_assoc, List.take_append_drop]

/-- A piece that is long enough is taken from. -/
theorem socketRecv_data {w : World} {front rest : List UInt8} {arrivals : List Arrival}
    (h : w.incoming = .data (front ++ rest) :: arrivals) :
    socketRecv front.length w = .ok (front.length, front)
      { w with incoming := if rest = [] then arrivals else .data rest :: arrivals } := by
  unfold socketRecv
  rw [h]
  simp only [List.take_left, List.drop_left]

/-- The header that was written for what is read from it. -/
theorem frameHeader_headerLength {header : List UInt8} (h : header.length = 4) :
    frameHeader (headerLength header) (header.getD 3 0).toNat = header := by
  rcases header with _ | ⟨b₀, _ | ⟨b₁, _ | ⟨b₂, _ | ⟨id, _ | ⟨_, _⟩⟩⟩⟩⟩ <;> cases h
  have h₀ := b₀.toNat_lt
  have h₁ := b₁.toNat_lt
  have h₂ := b₂.toNat_lt
  have hbyte (n : Nat) (b : UInt8) (hn : n % 256 = b.toNat) : (n &&& 0xFF).toUInt8 = b := by
    apply UInt8.toNat_inj.mp
    rw [Nat.and_two_pow_sub_one_eq_mod n 8, Nat.toUInt8, UInt8.toNat_ofNat', Nat.mod_mod, hn]
  have hid : id.toNat.toUInt8 = id := UInt8.ofNat_toNat
  rw [headerLength_eq]
  simp only [frameHeader, List.getD_cons_zero, List.getD_cons_succ, Nat.shiftRight_eq_div_pow]
  rw [hbyte _ b₀ (by omega), hbyte _ b₁ (by omega), hbyte _ b₂ (by omega), hid]

/-- The state after a packet has been received, with `incoming` still to come. -/
def World.receive (w : World) (packet : Packet) (incoming : List Arrival) : World := { w with
  conn := { w.conn with
    packetNumber := packet.id.toUInt32 + 1
    xferBuffer := { w.conn.xferBuffer with
      memory := some (packet.body ++ [0])
      size := packet.body.length } }
  incoming := incoming
  numAllocations := w.numAllocations + 1 }

/-- **What `fxmy_recv` receives** is a packet from the front of the stream. -/
theorem recv_receives {env : Env} {w w' : World} {rv : Int} (h : recv env w = .ok rv w') :
    rv = 0 ∧ ∃ packet : Packet, arrived w.incoming = packet.bytes ++ arrived w'.incoming ∧
      w' = w.receive packet w'.incoming := by
  obtain ⟨_, w₁, hbegin, h⟩ := bind_eq_ok.mp h
  obtain ⟨⟨rv₁, header⟩, w₂, hheader, hbegin⟩ := bind_eq_ok.mp hbegin
  obtain ⟨_, hverify, hbegin⟩ := bind_lift_eq_ok.mp hbegin
  rw [verify_eq_ok, decide_eq_true_eq] at hverify
  obtain ⟨hlen, between, rfl, hstream⟩ := socketRecv_whole hheader hverify
  rw [bind_modify] at hbegin
  cases hbegin
  rw [bind_get] at h
  obtain ⟨⟨bytesRead, body⟩, w₃, hbody, h⟩ := bind_eq_ok.mp h
  obtain ⟨_, hverify, h⟩ := bind_lift_eq_ok.mp h
  rw [verify_eq_ok, decide_eq_true_eq] at hverify
  obtain ⟨hbodyLen, after, rfl, hrest⟩ := socketRecv_whole hbody hverify
  cases h
  simp only at hbodyLen hrest
  refine ⟨rfl, ⟨header.getD 3 0, body, hbodyLen ▸ headerLength_le header⟩, ?_, ?_⟩
  · rw [hstream, hrest, Packet.bytes, ← List.append_assoc]
    simp only [hbodyLen, frameHeader_headerLength hlen]
  · simp only [World.receive, hbodyLen]

/-- A header that comes in more than one piece is not received. -/
theorem not_recv_of_header {env : Env} {w w' : World} {rv : Int} {header : List UInt8}
    (h : socketRecv 4 w = .ok (rv, header) w') (hrv : rv ≠ 4) : recv env w = .error .abort w' := by
  unfold recv beginRecv
  apply bind_of_error
  rw [bind_of_ok h]
  simp only
  rw [verify_eq_error.mpr ⟨decide_eq_false hrv, rfl⟩, bind_lift_error]
  rfl

section

variable (env : Env) {w : World} {packet : Packet} {between : List Arrival}
  (hheader : socketRecv 4 w =
    .ok (4, frameHeader packet.body.length packet.id.toNat) { w with incoming := between })

include hheader

theorem beginRecv_of_header : beginRecv env w = .ok ⟨⟩ { w with
    conn := { w.conn with
      packetNumber := packet.id.toUInt32 + 1
      xferBuffer := { w.conn.xferBuffer with
        memory := some ((List.range (packet.body.length + 1)).map env.garbage)
        size := packet.body.length } }
    incoming := between
    numAllocations := w.numAllocations + 1 } := by
  have hlength := headerLength_frameHeader packet.id.toNat packet.short
  have hid : packet.id.toNat.toUInt8 = packet.id := UInt8.ofNat_toNat
  have hnumber : (frameHeader packet.body.length packet.id.toNat).getD 3 0 = packet.id := hid
  unfold beginRecv
  rw [bind_of_ok hheader]
  simp only
  rw [verify_eq_ok (u := ()).mpr (decide_eq_true trivial), bind_lift_ok, bind_modify, hlength,
    hnumber]
  rfl

/-- A packet whose header and body come in one piece each is received. -/
theorem recv_of_body {after : List Arrival} (hbody : ∀ v : World, v.incoming = between →
      socketRecv packet.body.length v =
        .ok (packet.body.length, packet.body) { v with incoming := after }) :
    recv env w = .ok 0 (w.receive packet after) := by
  unfold recv
  rw [bind_of_ok (beginRecv_of_header env hheader), bind_get, bind_of_ok (hbody _ rfl)]
  simp only
  rw [verify_eq_ok (u := ()).mpr (decide_eq_true trivial), bind_lift_ok]
  rfl

/-- A body that comes in more than one piece is not received. -/
theorem not_recv_of_body (hbody : ∀ v : World, v.incoming = between →
      ∃ rv bytes w', socketRecv packet.body.length v = .ok (rv, bytes) w' ∧
        rv ≠ packet.body.length) :
    ∃ w', recv env w = .error .abort w' := by
  obtain ⟨w₁, hbegin, hbetween, hsize⟩ : ∃ w₁, beginRecv env w = .ok ⟨⟩ w₁ ∧
      w₁.incoming = between ∧ w₁.conn.xferBuffer.size = packet.body.length :=
    ⟨_, beginRecv_of_header env hheader, rfl, rfl⟩
  obtain ⟨rv, bytes, w', hrecv, hrv⟩ := hbody w₁ hbetween
  refine ⟨w', ?_⟩
  unfold recv
  rw [bind_of_ok hbegin, bind_get, hsize, bind_of_ok hrecv]
  simp only
  rw [verify_eq_error.mpr ⟨decide_eq_false hrv, rfl⟩, bind_lift_error]
  rfl

end

/-! ## Pieces -/

/-- A call is served from one piece; the pieces behind it stay as they are. -/
theorem socketRecv_uncut {pieces : List (List UInt8)} {front rest : List UInt8}
    (hne : ∀ p ∈ pieces, p ≠ []) (hstream : pieces.flatten = front ++ rest)
    (h : ∀ i, CutAt pieces i → 0 < i → front.length ≤ i) :
    ∃ later, (∀ p ∈ later, p ≠ []) ∧ later.flatten = rest ∧
      (∀ i, 0 < i → (CutAt later i ↔ CutAt pieces (front.length + i))) ∧
      ∀ w : World, w.incoming = pieces.map .data →
        socketRecv front.length w = .ok (front.length, front)
          { w with incoming := later.map .data } := by
  cases pieces with
  | nil =>
    obtain ⟨rfl, rfl⟩ := List.append_eq_nil_iff.mp hstream.symm
    refine ⟨[], fun _ h => (nomatch h), rfl, fun i _ => ?_, fun w hincoming => ?_⟩
    · rw [List.length_nil, Nat.zero_add]
    · cases w
      cases hincoming
      rfl
  | cons p pieces =>
    have hpos : 0 < p.length := List.length_pos_iff.mpr (hne p List.mem_cons_self)
    have hle : front.length ≤ p.length :=
      h p.length (cutAt_cons.mpr (.inr ⟨0, cutAt_zero pieces, rfl⟩)) hpos
    rw [List.flatten_cons] at hstream
    obtain ⟨q, rfl⟩ : front <+: p :=
      List.prefix_of_prefix_length_le (List.prefix_append _ _) (hstream ▸ List.prefix_append _ _) hle
    rw [List.append_assoc, List.append_cancel_left_eq] at hstream
    have hlater : ∀ p ∈ pieces, p ≠ [] := fun p hp => hne p (List.mem_cons_of_mem _ hp)
    by_cases hq : q = []
    · subst hq
      refine ⟨pieces, hlater, hstream, fun i hi => ?_, fun w hw => socketRecv_data hw⟩
      rw [List.append_nil, cutAt_cons]
      constructor
      · exact fun h => .inr ⟨i, h, rfl⟩
      · rintro (hzero | ⟨j, hj, hij⟩)
        · omega
        · rwa [Nat.add_left_cancel hij]
    · refine ⟨q :: pieces, List.forall_mem_cons.mpr ⟨hq, hlater⟩, hstream,
        fun i hi => (cutAt_append hi).symm, fun w hw => ?_⟩
      have hrecv := socketRecv_data hw
      rwa [if_neg hq] at hrecv

/-- A call that asks for bytes on both sides of a cut gets too few. -/
theorem socketRecv_cut (w : World) {pieces : List (List UInt8)} {i : Nat} (size : Nat)
    (hincoming : w.incoming = pieces.map .data) (h : CutAt pieces i) (hpos : 0 < i)
    (hi : i < size) : ∃ rv bytes w', socketRecv size w = .ok (rv, bytes) w' ∧ rv ≠ size := by
  unfold socketRecv
  rw [hincoming]
  cases pieces with
  | nil =>
    obtain ⟨k, hk⟩ := h
    rw [List.take_nil, List.flatten_nil, List.length_nil] at hk
    omega
  | cons p pieces =>
    refine ⟨_, _, _, rfl, ?_⟩
    rcases cutAt_cons.mp h with hzero | ⟨j, -, hij⟩
    · omega
    · rw [List.length_take]
      omega

/-! ## Delivery -/

section

variable (env : Env) {w : World} {packet : Packet} {rest : List UInt8}
  (s : Segmentation (packet.bytes ++ rest)) (hincoming : w.incoming = s.pieces.map .data)

include hincoming

/-- A packet that is cut behind the header or not at all is received. -/
theorem recv_of_uncut (h : ∀ i, CutAt s.pieces i → 0 < i → i < packet.bytes.length → i = 4) :
    ∃ last : List (List UInt8), last.flatten = rest ∧
      recv env w = .ok 0 (w.receive packet (last.map .data)) := by
  have hlen := packet.length_bytes
  have hstream : s.pieces.flatten =
      frameHeader packet.body.length packet.id.toNat ++ (packet.body ++ rest) := by
    rw [s.flatten, Packet.bytes, List.append_assoc]
  have huncut : ∀ i, CutAt s.pieces i → 0 < i → 4 ≤ i := by
    intro i hi hpos
    have := h i hi hpos
    omega
  obtain ⟨later, hne, hlater, hcuts, hheader⟩ := socketRecv_uncut s.nonempty hstream huncut
  have huncut' : ∀ i, CutAt later i → 0 < i → packet.body.length ≤ i := by
    intro i hi hpos
    have := h (4 + i) ((hcuts i hpos).mp hi) (by omega)
    omega
  obtain ⟨last, -, hlast, -, hbody⟩ := socketRecv_uncut hne hlater huncut'
  exact ⟨last, hlast, recv_of_body env (hheader w hincoming) hbody⟩

/-- A packet that is cut elsewhere is not. -/
theorem not_recv_of_cut {i : Nat} (hi : CutAt s.pieces i) (hpos : 0 < i)
    (hlt : i < packet.bytes.length) (hne : i ≠ 4) : ∃ w', recv env w = .error .abort w' := by
  rw [packet.length_bytes] at hlt
  have hstream : s.pieces.flatten =
      frameHeader packet.body.length packet.id.toNat ++ (packet.body ++ rest) := by
    rw [s.flatten, Packet.bytes, List.append_assoc]
  by_cases hcut : ∃ i, CutAt s.pieces i ∧ 0 < i ∧ i < 4
  · obtain ⟨i, hi, hpos, hlt⟩ := hcut
    obtain ⟨rv, header, w', hheader, hrv⟩ := socketRecv_cut w 4 hincoming hi hpos hlt
    exact ⟨w', not_recv_of_header hheader hrv⟩
  · have huncut : ∀ i, CutAt s.pieces i → 0 < i → 4 ≤ i := fun i hi hpos =>
      Nat.le_of_not_lt fun hlt => hcut ⟨i, hi, hpos, hlt⟩
    obtain ⟨later, -, -, hcuts, hheader⟩ := socketRecv_uncut s.nonempty hstream huncut
    have h4 := huncut i hi hpos
    rw [← Nat.add_sub_cancel' h4] at hi
    apply not_recv_of_body env (hheader w hincoming)
    exact fun v hv => socketRecv_cut v _ hv ((hcuts (i - 4) (by omega)).mpr hi) (by omega) (by omega)

end

/-- `fxmy_recv` returns with the packet in the buffer, a NUL behind it, the number for the reply, and
`rest` still to come. -/
def Delivers (env : Env) (w : World) (packet : Packet) (rest : List UInt8) : Prop :=
  ∃ w', recv env w = .ok 0 w' ∧ w'.conn.xferBuffer.memory = some (packet.body ++ [0]) ∧
    w'.conn.xferBuffer.size = packet.body.length ∧
    w'.conn.packetNumber = packet.id.toUInt32 + 1 ∧ arrived w'.incoming = rest

/-- **A packet is delivered** exactly if its bytes are cut behind the header or not at all. -/
theorem recv_iff (env : Env) (w : World) (packet : Packet) (rest : List UInt8)
    (s : Segmentation (packet.bytes ++ rest)) :
    Delivers env { w with incoming := s.pieces.map .data } packet rest ↔
      ∀ i, CutAt s.pieces i → 0 < i → i < packet.bytes.length → i = 4 := by
  have hincoming : ({ w with incoming := s.pieces.map .data } : World).incoming =
      s.pieces.map .data := rfl
  constructor
  · rintro ⟨w', hok, -⟩ i hi hpos hlt
    apply Decidable.byContradiction
    intro hne
    obtain ⟨w₁, herror⟩ := not_recv_of_cut env s hincoming hi hpos hlt hne
    rw [herror] at hok
    cases hok
  · intro h
    obtain ⟨last, hlast, hrecv⟩ := recv_of_uncut env s hincoming h
    exact ⟨_, hrecv, rfl, rfl, rfl, (arrived_pieces last).trans hlast⟩

/-- The command `COM_QUERY` with a text of one byte. -/
def queryPacket : Packet := ⟨0, [3, 0x61], by decide⟩

/-- A packet whose last byte comes later is not delivered. -/
theorem late_byte_not_delivered : ∃ s : Segmentation (queryPacket.bytes ++ []),
    ¬ Delivers (.benign obliging) { World.fresh [] [] with incoming := s.pieces.map .data }
      queryPacket [] := by
  let s : Segmentation (queryPacket.bytes ++ []) := ⟨[[2, 0, 0, 0, 3], [0x61]], by simp, rfl⟩
  have hcut : CutAt s.pieces 5 := ⟨1, rfl⟩
  refine ⟨s, ?_⟩
  rintro ⟨w', hok, -⟩
  obtain ⟨w₁, herror⟩ := not_recv_of_cut (.benign obliging)
    (w := { World.fresh [] [] with incoming := s.pieces.map .data }) s rfl hcut
    (by decide) (by decide) (by decide)
  rw [herror] at hok
  cases hok

/-! ## A message -/

/-- A payload that `fxmy_recv` gives back: it is in the buffer, a NUL behind it, and the stream is
used up. -/
def ComesBack (env : Env) (w : World) (payload : List UInt8) : Prop :=
  ∃ w', recv env w = .ok 0 w' ∧ w'.conn.xferBuffer.memory = some (payload ++ [0]) ∧
    arrived w'.incoming = []

/-- An empty payload is sent as nothing. -/
theorem not_comesBack_nil (env : Env) {w : World} (h : w.incoming = [.data []])
    (payload : List UInt8) : ¬ ComesBack env w payload := by
  rintro ⟨w', hok, -⟩
  have hheader : socketRecv 4 w = .ok (0, []) { w with incoming := [] } := by
    unfold socketRecv
    rw [h]
    rfl
  rw [not_recv_of_header hheader (by decide)] at hok
  cases hok

/-- The first packet of a message is received, and the others are still to come. -/
theorem recv_message (env : Env) {w : World} {packet : Packet} {packets : List Packet}
    (h : w.incoming = [.data ((packet :: packets).flatMap Packet.bytes)]) :
    ∃ incoming, arrived incoming = packets.flatMap Packet.bytes ∧
      recv env w = .ok 0 (w.receive packet incoming) := by
  have hne : packet.bytes ++ packets.flatMap Packet.bytes ≠ [] := by
    intro hnil
    have := congrArg List.length hnil
    rw [List.length_append, packet.length_bytes, List.length_nil] at this
    omega
  have hone : ∀ i, CutAt (Segmentation.one hne).pieces i → 0 < i → i < packet.bytes.length →
      i = 4 := by
    intro i hi hpos hlt
    rcases cutAt_singleton.mp hi with hzero | htotal
    · omega
    · rw [List.length_append] at htotal
      omega
  obtain ⟨last, hlast, hrecv⟩ := recv_of_uncut env (Segmentation.one hne) h hone
  exact ⟨_, (arrived_pieces last).trans hlast, hrecv⟩

theorem comesBack_message_iff (env : Env) {w : World} (packetNumber : UInt32) (payload : List UInt8)
    (h : w.incoming = [.data (message packetNumber payload)]) :
    ComesBack env w payload ↔ 0 < payload.length ∧ payload.length ≤ maxFrame := by
  have hlen := length_packetize packetNumber payload
  have hflatten := flatten_packetize packetNumber payload
  unfold message at h
  cases hpackets : packetize packetNumber payload with
  | nil =>
    rw [hpackets] at h hflatten
    refine iff_of_false (not_comesBack_nil env h payload) fun hpos => ?_
    rw [← hflatten] at hpos
    exact absurd hpos.1 (Nat.lt_irrefl 0)
  | cons packet packets =>
    rw [hpackets] at h hflatten hlen
    rw [List.map_cons, List.flatten_cons] at hflatten
    obtain ⟨incoming, hincoming, hrecv⟩ := recv_message env h
    constructor
    · rintro ⟨w', hok, hmemory, -⟩
      rw [hrecv] at hok
      cases hok
      have hbody : packet.body = payload :=
        List.append_cancel_right (Option.some.inj hmemory)
      refine ⟨?_, hbody ▸ packet.short⟩
      apply Nat.pos_of_ne_zero
      intro hzero
      rw [hzero] at hlen
      cases hlen
    · rintro ⟨hpos, hshort⟩
      rw [numFrames_eq_one hpos hshort, List.length_cons] at hlen
      obtain rfl : packets = [] := List.eq_nil_of_length_eq_zero (by omega)
      rw [List.map_nil, List.flatten_nil, List.append_nil] at hflatten
      refine ⟨_, hrecv, ?_, hincoming⟩
      simp only [World.receive, hflatten]

/-- **What `fxmy_send` sends, `fxmy_recv` receives** exactly if it is one packet. -/
theorem send_comesBack_iff (env env' : Env) (w : World) (payload behind : List UInt8)
    (hfree : w.conn.xferBuffer.memory = none) (hmax : payload.length ≤ 256 * maxFrame)
    (hsocket : ∀ block, env.sendReturns w.sent block = block.length) :
    ∃ w' stream, send env (payload ++ behind) payload.length w = .ok 0 w' ∧
      w'.sent = w.sent ++ [stream] ∧
      ∀ r : World, r.incoming = [.data stream] →
        (ComesBack env' r payload ↔ 0 < payload.length ∧ payload.length ≤ maxFrame) := by
  obtain ⟨w', hsend, hsent⟩ := send_of_taken env behind hfree hmax hsocket
  exact ⟨w', _, hsend, hsent, fun r hr => comesBack_message_iff env' _ payload hr⟩

/-- Three bytes come back. -/
theorem send_comesBack_three : ∃ w' stream,
    send (.benign obliging) [1, 2, 3] 3 (World.fresh [] []) = .ok 0 w' ∧ w'.sent = [stream] ∧
      ComesBack (.benign obliging) (World.fresh [] [.data stream]) [1, 2, 3] := by
  obtain ⟨w', stream, hsend, hsent, hback⟩ := send_comesBack_iff (.benign obliging)
    (.benign obliging) (World.fresh [] []) [1, 2, 3] [] rfl (by decide) fun _ => rfl
  exact ⟨w', stream, hsend, hsent, (hback (World.fresh [] [.data stream]) rfl).mpr (by decide)⟩

/-- A payload of 16 MB does not come back: its first packet does. -/
theorem long_payload_lost : ∃ w' stream,
    send (.benign obliging) (List.replicate (2 ^ 24) 0) (2 ^ 24) (World.fresh [] []) = .ok 0 w' ∧
      w'.sent = [stream] ∧
      ¬ ComesBack (.benign obliging) (World.fresh [] [.data stream]) (List.replicate (2 ^ 24) 0) := by
  obtain ⟨hlen, hframe, hmax⟩ := long_payload
  obtain ⟨w', hsend, hsent⟩ :=
    send_of_taken (.benign obliging) (w := World.fresh [] []) [] rfl hmax fun _ => rfl
  rw [List.append_nil, hlen] at hsend
  refine ⟨w', _, hsend, hsent, fun hback => ?_⟩
  have hshort := ((comesBack_message_iff (.benign obliging) 0 _ rfl).mp hback).2
  rw [hlen] at hshort
  exact absurd hframe (Nat.not_lt_of_le hshort)

end Fxmy
