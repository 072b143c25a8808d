import Fxmy.Conn
import Fxmy.Lib.Chunks

/-!
# Frames

`fxmy_begin_send` cuts a payload into packets of at most `maxFrame` bytes and fills a block of just
the right size with them: its writes follow one another from the start of the block to its end
(`tiles_frameWrites`), and what they leave parses as the packets (`parsePackets_bytes`). All of them
carry one number, so the numbers of a message count up only if it is one packet.
-/

namespace Fxmy

open Exec Chunks

/-! ## Packets -/

/-- A packet on the wire. -/
structure Packet where
  id : UInt8
  body : List UInt8
  short : body.length ≤ maxFrame

/-- The length of the body, lowest byte first, the number and the body. -/
def Packet.bytes (packet : Packet) : List UInt8 :=
  frameHeader packet.body.length packet.id.toNat ++ packet.body

theorem length_frameHeader (size packetNumber : Nat) : (frameHeader size packetNumber).length = 4 :=
  rfl

theorem Packet.length_bytes (packet : Packet) : packet.bytes.length = packet.body.length + 4 := by
  rw [bytes, List.length_append, length_frameHeader, Nat.add_comm]

theorem headerLength_eq (header : List UInt8) : headerLength header =
    (header.getD 0 0).toNat + (header.getD 1 0).toNat * 256 + (header.getD 2 0).toNat * 65536 := by
  have h₀ := (header.getD 0 0).toNat_lt
  have h₁ := (header.getD 1 0).toNat_lt
  unfold headerLength
  rw [Nat.or_comm _ (_ <<< 8), ← Nat.shiftLeft_add_eq_or_of_lt h₀, Nat.or_comm,
    ← Nat.shiftLeft_add_eq_or_of_lt (by rw [Nat.shiftLeft_eq]; omega)]
  simp only [Nat.shiftLeft_eq]
  omega

theorem headerLength_le (header : List UInt8) : headerLength header ≤ maxFrame := by
  have hframe : maxFrame = 16777215 := rfl
  have h₀ := (header.getD 0 0).toNat_lt
  have h₁ := (header.getD 1 0).toNat_lt
  have h₂ := (header.getD 2 0).toNat_lt
  rw [headerLength_eq, hframe]
  omega

/-- The receiver reads the length that the sender wrote. -/
theorem headerLength_frameHeader {size : Nat} (packetNumber : Nat) (h : size ≤ maxFrame) :
    headerLength (frameHeader size packetNumber) = size := by
  have hframe : maxFrame = 16777215 := rfl
  have hbyte (n : Nat) : (n &&& 0xFF).toUInt8.toNat = n % 256 := by
    rw [Nat.and_two_pow_sub_one_eq_mod n 8, Nat.toUInt8, UInt8.toNat_ofNat', Nat.mod_mod]
  rw [headerLength_eq]
  simp only [frameHeader, List.getD_cons_zero, List.getD_cons_succ, hbyte, Nat.shiftRight_eq_div_pow]
  omega

/-- The packets of a stream that is nothing else. -/
def parsePackets (bytes : List UInt8) : Option (List Packet) :=
  match bytes with
  | [] => some []
  | b₀ :: b₁ :: b₂ :: id :: rest =>
    let size := headerLength [b₀, b₁, b₂, id]
    if size ≤ rest.length then
      (parsePackets (rest.drop size)).map fun packets =>
        ⟨id, rest.take size,
          Nat.le_trans (List.length_take_le _ _) (headerLength_le [b₀, b₁, b₂, id])⟩ :: packets
    else none
  | _ => none
termination_by bytes.length
decreasing_by
  simp only [List.length_drop, List.length_cons]
  omega

theorem parsePackets_append (packet : Packet) (rest : List UInt8) :
    parsePackets (packet.bytes ++ rest) = (parsePackets rest).map (packet :: ·) := by
  obtain ⟨id, body, hshort⟩ := packet
  have hlength : headerLength (frameHeader body.length id.toNat) = body.length :=
    headerLength_frameHeader id.toNat hshort
  have hid : id.toNat.toUInt8 = id := UInt8.ofNat_toNat
  unfold frameHeader at hlength
  rw [hid] at hlength
  simp only [Packet.bytes, frameHeader, List.cons_append, List.nil_append]
  rw [parsePackets]
  simp only [hid, hlength, List.length_append, Nat.le_add_right, if_true, List.take_left,
    List.drop_left]

/-- Where a packet ends, it says itself. -/
theorem Packet.eq_of_append {packet packet' : Packet} {rest rest' : List UInt8}
    (h : packet.bytes ++ rest = packet'.bytes ++ rest') : packet = packet' := by
  simp only [Packet.bytes, List.append_assoc] at h
  obtain ⟨hheader, hbody⟩ := List.append_inj h rfl
  have hlen : packet.body.length = packet'.body.length := by
    rw [← headerLength_frameHeader packet.id.toNat packet.short, hheader,
      headerLength_frameHeader _ packet'.short]
  have hid : packet.id = packet'.id := by
    have hlast := congrArg (·.getD 3 0) hheader
    simpa [frameHeader] using hlast
  cases packet
  cases packet'
  simp only at hid
  obtain rfl := (List.append_inj hbody hlen).1
  rw [hid]

/-- Packets parse as what they are. -/
theorem parsePackets_bytes (packets : List Packet) :
    parsePackets (packets.flatMap Packet.bytes) = some packets := by
  induction packets with
  | nil =>
    unfold parsePackets
    rfl
  | cons packet packets ih =>
    rw [List.flatMap_cons, parsePackets_append, ih]
    rfl

/-- The packets for a payload, all of one number. -/
def packetsOf (number : UInt8) : Nat → List UInt8 → List Packet
  | 0, _ => []
  | frames + 1, payload =>
    ⟨number, payload.take maxFrame, List.length_take_le _ _⟩ ::
      packetsOf number frames (payload.drop maxFrame)

theorem bodies_packetsOf (number : UInt8) (frames : Nat) (payload : List UInt8) :
    (packetsOf number frames payload).map (·.body) =
      (List.replicate frames maxFrame).splitLengths payload := by
  induction frames generalizing payload with
  | zero => rfl
  | succ frames ih => rw [packetsOf, List.map_cons, ih, List.replicate_succ, List.splitLengths_cons]

theorem length_packetsOf (number : UInt8) (frames : Nat) (payload : List UInt8) :
    (packetsOf number frames payload).length = frames := by
  have := congrArg List.length (bodies_packetsOf number frames payload)
  rwa [List.length_map, List.length_splitLengths, List.length_replicate] at this

theorem id_of_mem_packetsOf {number : UInt8} {frames : Nat} {payload : List UInt8} {packet : Packet}
    (h : packet ∈ packetsOf number frames payload) : packet.id = number := by
  induction frames generalizing payload with
  | zero => cases h
  | succ frames ih =>
    rcases List.mem_cons.mp h with rfl | h
    · rfl
    · exact ih h

/-! ## The first loop -/

theorem numFrames_of_pos {size : Nat} (h : 0 < size) :
    numFrames size = numFrames (size - maxFrame) + 1 := by
  have hframe : maxFrame = 16777215 := rfl
  unfold numFrames
  rw [hframe]
  omega

theorem numFrames_eq_one {size : Nat} (hpos : 0 < size) (hmax : size ≤ maxFrame) :
    numFrames size = 1 := by
  have hframe : maxFrame = 16777215 := rfl
  unfold numFrames
  rw [hframe] at hmax ⊢
  omega

/-- The frames are enough for the payload, and no fewer would be. -/
theorem numFrames_bounds (size : Nat) :
    size ≤ numFrames size * maxFrame ∧ numFrames size * maxFrame < size + maxFrame := by
  have hframe : maxFrame = 16777215 := rfl
  unfold numFrames
  rw [hframe]
  omega

theorem countLoop_eq (size i allocSize numPackets : Nat) :
    countLoop size i allocSize numPackets =
      (allocSize + 4 * numFrames (size - i), numPackets + numFrames (size - i)) := by
  induction i, allocSize, numPackets using countLoop.induct size with
  | case1 i allocSize numPackets hlt ih =>
    rw [countLoop, if_pos hlt, ih, numFrames_of_pos (Nat.sub_pos_of_lt hlt), Nat.sub_sub]
    exact Prod.ext (by simp only; omega) (by simp only; omega)
  | case2 i allocSize numPackets hge =>
    have hzero : numFrames 0 = 0 := rfl
    rw [countLoop, if_neg hge, Nat.sub_eq_zero_of_le (Nat.le_of_not_lt hge), hzero]
    rfl

/-! ## The second loop -/

/-- The writes of the second loop. -/
def frameWrites (packetNumber : Nat) : Nat → Nat → List UInt8 → Nat → List (Nat × List UInt8)
  | 0, _, _, _ => []
  | frames + 1, dest, src, size =>
    let packetSize := min maxFrame size
    packetWrites packetNumber packetSize dest src ++
      frameWrites packetNumber frames (dest + packetSize + 4) (src.drop packetSize)
        (size - packetSize)

theorem tiles_packetWrites (packetNumber packetSize dest : Nat) (src : List UInt8) :
    Block.Tiles dest (packetWrites packetNumber packetSize dest src) :=
  ⟨rfl, rfl, rfl, rfl, rfl, trivial⟩

theorem contents_packetWrites (packetNumber packetSize dest : Nat) (src : List UInt8) :
    Block.contents (packetWrites packetNumber packetSize dest src) =
      frameHeader packetSize packetNumber ++ src.take packetSize := by
  simp [Block.contents, packetWrites, frameHeader]

/-- The loop does its writes. -/
theorem frameLoop_eq_storeAll (packetNumber frames : Nat) (block : List UInt8) (dest : Nat)
    {src : List UInt8} {size : Nat} (h : size ≤ src.length) :
    (frameLoop packetNumber frames block dest src size).toOption =
      Block.storeAll block (frameWrites packetNumber frames dest src size) := by
  induction frames generalizing block dest src size with
  | zero => rfl
  | succ frames ih =>
    have hread : ¬ src.length < min maxFrame size := by omega
    have hrest : size - min maxFrame size ≤ (src.drop (min maxFrame size)).length := by
      rw [List.length_drop]
      omega
    unfold frameLoop frameWrites
    simp only [if_neg hread]
    rw [Block.storeAll_append]
    cases Block.storeAll block (packetWrites packetNumber (min maxFrame size) dest src) with
    | none => rfl
    | some block => exact ih block _ hrest

theorem tiles_frameWrites (packetNumber frames dest : Nat) {src : List UInt8} {size : Nat}
    (h : size ≤ src.length) : Block.Tiles dest (frameWrites packetNumber frames dest src size) := by
  induction frames generalizing dest src size with
  | zero => trivial
  | succ frames ih =>
    have hrest : size - min maxFrame size ≤ (src.drop (min maxFrame size)).length := by
      rw [List.length_drop]
      omega
    unfold frameWrites
    refine (tiles_packetWrites _ _ _ _).append ?_
    have hlen : (Block.contents (packetWrites packetNumber (min maxFrame size) dest src)).length =
        min maxFrame size + 4 := by
      rw [contents_packetWrites, List.length_append, length_frameHeader, List.length_take]
      omega
    rw [hlen]
    exact ih _ hrest

/-- What the writes leave is the packets for the payload. -/
theorem contents_frameWrites (packetNumber frames dest : Nat) (payload behind : List UInt8) :
    Block.contents (frameWrites packetNumber frames dest (payload ++ behind) payload.length) =
      (packetsOf packetNumber.toUInt8 frames payload).flatMap Packet.bytes := by
  induction frames generalizing dest payload with
  | zero => rfl
  | succ frames ih =>
    have hsize : (payload.take maxFrame).length = min maxFrame payload.length := List.length_take
    have htake : (payload ++ behind).take (min maxFrame payload.length) = payload.take maxFrame := by
      rw [List.take_append_of_le_length (Nat.min_le_right _ _), List.take_eq_take_iff]
      omega
    have hdrop : (payload ++ behind).drop (min maxFrame payload.length) =
        payload.drop maxFrame ++ behind := by
      rw [List.drop_append_of_le_length (Nat.min_le_right _ _)]
      apply congrArg (· ++ behind)
      rcases Nat.le_total maxFrame payload.length with h | h
      · rw [Nat.min_eq_left h]
      · rw [Nat.min_eq_right h, List.drop_length, List.drop_eq_nil_of_le h]
    have hrest : payload.length - min maxFrame payload.length = (payload.drop maxFrame).length := by
      rw [List.length_drop]
      omega
    have hnumber : packetNumber.toUInt8.toNat.toUInt8 = packetNumber.toUInt8 := UInt8.ofNat_toNat
    have hheader (size : Nat) :
        frameHeader size packetNumber.toUInt8.toNat = frameHeader size packetNumber := by
      unfold frameHeader
      rw [hnumber]
    unfold frameWrites packetsOf
    rw [Block.contents_append, contents_packetWrites, htake, hdrop, hrest, ih, List.flatMap_cons,
      Packet.bytes, hsize, hheader]

/-! ## Messages -/

/-- The packets that a payload is sent in. -/
def packetize (packetNumber : UInt32) (payload : List UInt8) : List Packet :=
  packetsOf packetNumber.toNat.toUInt8 (numFrames payload.length) payload

/-- The bytes that are sent for a payload. -/
def message (packetNumber : UInt32) (payload : List UInt8) : List UInt8 :=
  (packetize packetNumber payload).flatMap Packet.bytes

theorem length_packetize (packetNumber : UInt32) (payload : List UInt8) :
    (packetize packetNumber payload).length = numFrames payload.length := length_packetsOf _ _ _

theorem id_of_mem_packetize {packetNumber : UInt32} {payload : List UInt8} {packet : Packet}
    (h : packet ∈ packetize packetNumber payload) : packet.id = packetNumber.toNat.toUInt8 :=
  id_of_mem_packetsOf h

theorem packed_packetize (packetNumber : UInt32) (payload : List UInt8) :
    Packed maxFrame ((packetize packetNumber payload).map (·.body)) := by
  obtain ⟨hle, hlt⟩ := numFrames_bounds payload.length
  rw [packetize, bodies_packetsOf]
  exact packed_splitLengths hle hlt

theorem flatten_packetize (packetNumber : UInt32) (payload : List UInt8) :
    ((packetize packetNumber payload).map (·.body)).flatten = payload := by
  rw [packetize, bodies_packetsOf]
  apply List.flatten_splitLengths
  rw [List.sum_replicate_nat]
  exact (numFrames_bounds payload.length).1

theorem length_flatMap_bytes (packets : List Packet) : (packets.flatMap Packet.bytes).length =
    (packets.map (·.body)).flatten.length + 4 * packets.length := by
  induction packets with
  | nil => rfl
  | cons packet packets ih =>
    rw [List.flatMap_cons, List.length_append, ih, Packet.length_bytes, List.map_cons,
      List.flatten_cons, List.length_append, List.length_cons]
    omega

theorem length_message (packetNumber : UInt32) (payload : List UInt8) :
    (message packetNumber payload).length = payload.length + 4 * numFrames payload.length := by
  rw [message, length_flatMap_bytes, flatten_packetize, length_packetize]

/-- The writes of the second loop for a payload, which stands in front of `behind`. -/
theorem contents_message (packetNumber : UInt32) (payload behind : List UInt8) :
    Block.contents (frameWrites packetNumber.toNat (numFrames payload.length) 0 (payload ++ behind)
      payload.length) = message packetNumber payload :=
  contents_frameWrites _ _ _ _ _

/-- The block is filled, whatever it held. -/
theorem frameLoop_message (packetNumber : UInt32) (payload behind : List UInt8) (block : List UInt8)
    (hlen : block.length = payload.length + 4 * numFrames payload.length) :
    frameLoop packetNumber.toNat (numFrames payload.length) block 0 (payload ++ behind)
      payload.length = .ok (message packetNumber payload) := by
  have hsize : payload.length ≤ (payload ++ behind).length := by
    rw [List.length_append]
    omega
  have htiles := tiles_frameWrites packetNumber.toNat (numFrames payload.length) 0 hsize
  have hstore := htiles.storeAll_eq_some (b := block) (by rw [contents_message, length_message, hlen])
  rw [← frameLoop_eq_storeAll _ _ _ _ hsize, contents_message] at hstore
  cases h : frameLoop packetNumber.toNat (numFrames payload.length) block 0 (payload ++ behind)
      payload.length with
  | error e =>
    rw [h] at hstore
    cases hstore
  | ok block =>
    rw [h] at hstore
    cases hstore
    rfl

theorem resetXferBuffer_eq (w : World) : resetXferBuffer w = .ok ⟨⟩ { w with
    conn := { w.conn with xferBuffer := .empty }
    numAllocations :=
      if w.conn.xferBuffer.memory.isSome then w.numAllocations - 1 else w.numAllocations } := by
  unfold resetXferBuffer
  rw [bind_get, Prog.bind_fxmyFree]
  cases w.conn.xferBuffer.memory <;> rfl

theorem bind_socketSend {α : Type} (env : Env) (block : List UInt8) (f : Int → Prog α) (w : World) :
    (socketSend env block >>= f) w =
      f (env.sendReturns w.sent block) { w with sent := w.sent ++ [block] } := rfl

theorem numFrames_le {size : Nat} (h : size ≤ 256 * maxFrame) : numFrames size ≤ 256 := by
  have hframe : maxFrame = 16777215 := rfl
  unfold numFrames
  rw [hframe] at h ⊢
  omega

section

variable (env : Env) {w : World} {payload : List UInt8} (behind : List UInt8)
  (hfree : w.conn.xferBuffer.memory = none) (hmax : payload.length ≤ 256 * maxFrame)

include hfree hmax

theorem beginSend_eq : beginSend env (payload ++ behind) payload.length w = .ok ⟨⟩ { w with
    conn := { w.conn with
      packetNumber := w.conn.packetNumber + 1
      xferBuffer := ⟨some (message w.conn.packetNumber payload),
        (message w.conn.packetNumber payload).length, 0⟩ }
    numAllocations := w.numAllocations + 1 } := by
  have hloop := frameLoop_message w.conn.packetNumber payload behind
    ((List.range (payload.length + 4 * numFrames payload.length)).map env.garbage)
    (by rw [List.length_map, List.length_range])
  unfold beginSend
  rw [bind_get, bind_modify, hfree]
  simp only [Option.isSome_none, Bool.false_eq_true, if_false]
  rw [verify_eq_ok (u := ()).mpr (decide_eq_true (numFrames_le hmax)), bind_lift_ok, bind_modify,
    hloop, bind_lift_ok, length_message]
  rfl

/-- A payload is sent as one message, if the socket takes it whole, and the buffer is free again. -/
theorem send_eq : send env (payload ++ behind) payload.length w =
    let block := message w.conn.packetNumber payload
    let sent := { w with
      conn := { w.conn with
        packetNumber := w.conn.packetNumber + 1
        xferBuffer := ⟨some block, block.length, 0⟩ }
      sent := w.sent ++ [block]
      numAllocations := w.numAllocations + 1 }
    if env.sendReturns w.sent block = block.length then
      .ok 0 { sent with
        conn := { sent.conn with xferBuffer := .empty }
        numAllocations := w.numAllocations }
    else .error .abort sent := by
  unfold send
  rw [bind_of_ok (beginSend_eq env behind hfree hmax), bind_get]
  simp only [Prog.deref, bind_lift_ok, List.take_length]
  rw [bind_socketSend]
  simp only
  split
  · next hsent =>
    rw [verify_eq_ok (u := ()).mpr (decide_eq_true hsent), bind_lift_ok,
      bind_of_ok (resetXferBuffer_eq _)]
    simp only [Option.isSome_some, if_true, Int.add_sub_cancel]
    rfl
  · next hsent =>
    rw [verify_eq_error.mpr ⟨decide_eq_false hsent, rfl⟩, bind_lift_error]
    rfl

/-- What has been sent has been sent as one message, and the buffer is free again. -/
theorem send_returns {rv : Int} {w' : World}
    (h : send env (payload ++ behind) payload.length w = .ok rv w') : w' = { w with
      conn := { w.conn with packetNumber := w.conn.packetNumber + 1, xferBuffer := .empty }
      sent := w.sent ++ [message w.conn.packetNumber payload] } := by
  rw [send_eq env behind hfree hmax] at h
  simp only at h
  split at h
  · cases h
    rfl
  · cases h

/-- A socket that takes the message has it sent. -/
theorem send_of_taken
    (h : ∀ block : List UInt8, env.sendReturns w.sent block = (block.length : Int)) :
    ∃ w', send env (payload ++ behind) payload.length w = .ok 0 w' ∧
      w'.sent = w.sent ++ [message w.conn.packetNumber payload] := by
  have hsend := send_eq env behind hfree hmax
  simp only at hsend
  rw [if_pos (h _)] at hsend
  exact ⟨_, hsend, rfl⟩

theorem send_sent : (final (send env (payload ++ behind) payload.length w)).sent =
    w.sent ++ [message w.conn.packetNumber payload] := by
  rw [send_eq env behind hfree hmax]
  simp only
  split <;> rfl

/-- What `fxmy_begin_send` makes, as the client reads it. -/
theorem beginSend_packets : ∃ w', beginSend env (payload ++ behind) payload.length w = .ok ⟨⟩ w' ∧
    w'.conn.xferBuffer.memory = some (message w.conn.packetNumber payload) ∧
    parsePackets (message w.conn.packetNumber payload) =
      some (packetize w.conn.packetNumber payload) ∧
    w'.conn.packetNumber = w.conn.packetNumber + 1 :=
  ⟨_, beginSend_eq env behind hfree hmax, rfl, parsePackets_bytes _, rfl⟩

end

/-- **A payload is framed.** The block has the size that the first loop adds up, the second loop
writes each of its bytes once, and it parses as packets that carry the payload and are all full but
the last. -/
theorem beginSend_framed (env : Env) (w : World) (payload behind : List UInt8)
    (hfree : w.conn.xferBuffer.memory = none) (hmax : payload.length ≤ 256 * maxFrame) :
    ∃ block packets writes w', beginSend env (payload ++ behind) payload.length w = .ok ⟨⟩ w' ∧
      w'.conn.xferBuffer = ⟨some block, block.length, 0⟩ ∧
      countLoop payload.length 0 payload.length 0 = (block.length, packets.length) ∧
      writes = frameWrites w.conn.packetNumber.toNat packets.length 0 (payload ++ behind)
        payload.length ∧
      Block.indices writes = List.range block.length ∧
      (∀ fresh, fresh.length = block.length → Block.storeAll fresh writes = some block) ∧
      parsePackets block = some packets ∧ Packed maxFrame (packets.map (·.body)) ∧
      (packets.map (·.body)).flatten = payload := by
  have hsize : payload.length ≤ (payload ++ behind).length := by
    rw [List.length_append]
    omega
  have htiles := tiles_frameWrites w.conn.packetNumber.toNat (numFrames payload.length) 0 hsize
  have hcontents := contents_message w.conn.packetNumber payload behind
  rw [← length_packetize w.conn.packetNumber] at htiles hcontents
  refine ⟨message w.conn.packetNumber payload, packetize w.conn.packetNumber payload, _, _,
    beginSend_eq env behind hfree hmax, rfl, ?_, rfl, ?_, fun fresh hfresh => ?_, parsePackets_bytes _,
    packed_packetize _ _, flatten_packetize _ _⟩
  · rw [countLoop_eq, length_message, length_packetize, Nat.sub_zero, Nat.zero_add]
  · rw [htiles.indices, hcontents, List.range_eq_range']
  · rw [htiles.storeAll_eq_some (by rw [hcontents, hfresh]), hcontents]

/-- Three bytes are framed. -/
theorem beginSend_framed_three : ∃ block packets w',
    beginSend (.benign obliging) [1, 2, 3] 3 (World.fresh [] []) = .ok ⟨⟩ w' ∧
      w'.conn.xferBuffer.memory = some block ∧ parsePackets block = some packets ∧
      (packets.map (·.body)).flatten = [1, 2, 3] := by
  obtain ⟨block, packets, _, w', hsend, hbuffer, -, -, -, -, hparse, -, hflatten⟩ :=
    beginSend_framed (.benign obliging) (World.fresh [] []) [1, 2, 3] [] rfl (by decide)
  exact ⟨block, packets, w', hsend, congrArg XferBuffer.memory hbuffer, hparse, hflatten⟩

/-! ## Numbers -/

/-- The packets of a message are numbered from the connection's number on, modulo 256, and the
connection goes on with the number behind the last. -/
structure CountsUp (start : UInt32) (packets : List Packet) (next : UInt32) : Prop where
  consecutive : ∀ i (h : i < packets.length), packets[i].id = (start.toNat + i).toUInt8
  distinct : (packets.map (·.id)).Nodup
  next : next = start + packets.length.toUInt32

theorem CountsUp.one (start : UInt32) {packet : Packet} (h : packet.id = start.toNat.toUInt8) :
    CountsUp start [packet] (start + 1) where
  consecutive i hi := by
    rw [List.length_singleton] at hi
    obtain rfl : i = 0 := by omega
    exact h
  distinct := List.pairwise_singleton _ _
  next := rfl

/-- Two packets of a message carry the same number. -/
theorem not_countsUp {payload : List UInt8} (start next : UInt32) (h : maxFrame < payload.length) :
    ¬ CountsUp start (packetize start payload) next := by
  intro hcounts
  have hlen : 2 ≤ (packetize start payload).length := by
    have hframe : maxFrame = 16777215 := rfl
    rw [length_packetize, numFrames, hframe]
    omega
  have hid := fun packet (hmem : packet ∈ packetize start payload) => id_of_mem_packetize hmem
  have hdistinct := hcounts.distinct
  generalize packetize start payload = packets at hlen hid hdistinct
  rcases packets with _ | ⟨first, _ | ⟨second, rest⟩⟩
  · cases hlen
  · simp at hlen
  · have hfirst := hid first (by simp)
    have hsecond := hid second (by simp)
    simp [hfirst, hsecond] at hdistinct

/-- **The numbers of a message count up** exactly if the payload fits into one packet. -/
theorem beginSend_countsUp_iff (env : Env) (w : World) (payload behind : List UInt8)
    (hfree : w.conn.xferBuffer.memory = none) (hpos : 0 < payload.length)
    (hmax : payload.length ≤ 256 * maxFrame) :
    ∃ block packets w', beginSend env (payload ++ behind) payload.length w = .ok ⟨⟩ w' ∧
      w'.conn.xferBuffer.memory = some block ∧ parsePackets block = some packets ∧
      (CountsUp w.conn.packetNumber packets w'.conn.packetNumber ↔ payload.length ≤ maxFrame) := by
  obtain ⟨w', hsend, hblock, hparse, hnext⟩ := beginSend_packets env behind hfree hmax
  refine ⟨_, _, w', hsend, hblock, hparse, ?_, fun hshort => ?_⟩
  · intro hcounts
    exact Nat.le_of_not_lt fun hlong => not_countsUp _ _ hlong hcounts
  · have hlen : (packetize w.conn.packetNumber payload).length = 1 := by
      rw [length_packetize, numFrames_eq_one hpos hshort]
    obtain ⟨packet, hpacket⟩ := List.length_eq_one_iff.mp hlen
    have hid : packet.id = w.conn.packetNumber.toNat.toUInt8 :=
      id_of_mem_packetize (hpacket ▸ List.mem_singleton_self packet)
    rw [hpacket, hnext]
    exact .one _ hid

/-- A payload of three bytes goes out under the number 0. -/
theorem beginSend_countsUp_three : ∃ block packets w',
    beginSend (.benign obliging) [1, 2, 3] 3 (World.fresh [] []) = .ok ⟨⟩ w' ∧
      w'.conn.xferBuffer.memory = some block ∧ parsePackets block = some packets ∧
      CountsUp 0 packets w'.conn.packetNumber := by
  obtain ⟨block, packets, w', hsend, hblock, hparse, hcounts⟩ :=
    beginSend_countsUp_iff (.benign obliging) (World.fresh [] []) [1, 2, 3] [] rfl (by decide)
      (by decide)
  exact ⟨block, packets, w', hsend, hblock, hparse, hcounts.mpr (by decide)⟩

/-- A payload of 16 MB is too long for one packet. -/
theorem long_payload : (List.replicate (2 ^ 24) (0 : UInt8)).length = 2 ^ 24 ∧
    maxFrame < 2 ^ 24 ∧ (List.replicate (2 ^ 24) (0 : UInt8)).length ≤ 256 * maxFrame := by
  have hlen : (List.replicate (2 ^ 24) (0 : UInt8)).length = 2 ^ 24 := List.length_replicate
  have hframe : maxFrame = 16777215 := rfl
  rw [hlen, hframe]
  decide

/-- A payload of 16 MB is split, and both of its packets carry the number 0. -/
theorem split_packets_same_number : ∃ block packets w',
    beginSend (.benign obliging) (List.replicate (2 ^ 24) 0) (2 ^ 24) (World.fresh [] []) =
        .ok ⟨⟩ w' ∧
      w'.conn.xferBuffer.memory = some block ∧ parsePackets block = some packets ∧
      ¬ CountsUp 0 packets w'.conn.packetNumber := by
  obtain ⟨hlen, hframe, hmax⟩ := long_payload
  obtain ⟨w', hsend, hblock, hparse, -⟩ :=
    beginSend_packets (.benign obliging) (w := World.fresh [] []) [] rfl hmax
  rw [List.append_nil, hlen] at hsend
  exact ⟨_, _, w', hsend, hblock, hparse, not_countsUp 0 _ (by rw [hlen]; exact hframe)⟩

end Fxmy
