import Fxmy.MainTransfer
import Fxmy.Verify.Receiving

/-!
# Transfers over a run

Whatever room the socket has from event to event, `fxmy_send` of the epoll server hands it the buffer
once and in order, and is done with the last byte; the one thing that it does not stand is a socket
without room, since `write` does not return `EAGAIN` but -1 (`sends_eq`). `fxmy_recv` puts a packet
together from pieces that are cut anywhere but in the header (`recvs_iff`). A client that closes before
the packet is complete is never noticed (`recvs_unfinished`).
-/

namespace Fxmy

open Exec Chunks

namespace Transfer

/-! ## Sending -/

/-- The first `c` bytes of the block have been sent. -/
def sending (block : List UInt8) (incoming : List Arrival) (c : Nat) : Transfer :=
  ⟨⟨some block, block.length, c⟩, block.take c, incoming⟩

/-- The block has been sent. -/
def sent (block : List UInt8) (incoming : List Arrival) : Transfer :=
  ⟨.empty, block, incoming⟩

variable {block : List UInt8} (incoming : List Arrival) {c : Nat}

theorem bytesLeft_sending (hc : c < block.length) :
    bytesLeft (sending block incoming c).buffer = .ok (block.drop c) := by
  have hroom : c + (block.length - c) ≤ block.length := by omega
  have hall : (block.drop c).take (block.length - c) = block.drop c :=
    List.take_of_length_le (Nat.le_of_eq List.length_drop)
  unfold bytesLeft sending Block.load
  simp only [Prog.deref, except_bind_ok]
  rw [if_pos hroom, hall]

theorem bind_write_some {α : Type} (n : Nat) (bytes : List UInt8) (f : Int → Task α) (t : Transfer) :
    (write (some n) bytes >>= f) t =
      f (bytes.take n).length { t with written := t.written ++ bytes.take n } := rfl

theorem allowed_natCast (n : Nat) : verify (allowed n) = .ok () := by
  have hpos : decide ((n : Int) ≥ 0) = true := decide_eq_true (Int.natCast_nonneg n)
  unfold allowed
  rw [hpos]
  rfl

/-- What a call checks before it writes. -/
theorem verify_sending (hc : c < block.length) :
    verify (xferInProgress (sending block incoming c).buffer) = .ok () ∧
      verify (0 < (sending block incoming c).buffer.size) = .ok () ∧
      verify ((sending block incoming c).buffer.cursor < (sending block incoming c).buffer.size) =
        .ok () :=
  ⟨rfl, verify_eq_ok.mpr (decide_eq_true (Nat.zero_lt_of_lt hc)),
    verify_eq_ok.mpr (decide_eq_true hc)⟩

/-- One call, where the socket has room. -/
theorem send_some (hc : c < block.length) (n : Nat) : send (some n) (sending block incoming c) =
    if block.length ≤ c + n then .ok 1 (sent block incoming)
    else .ok 0 (sending block incoming (c + n)) := by
  obtain ⟨hused, hsize, hcursor⟩ := verify_sending incoming hc
  have htake : block.take c ++ (block.drop c).take n = block.take (c + n) := List.take_add.symm
  have hlen : ((block.drop c).take n).length = min n (block.length - c) := by
    rw [List.length_take, List.length_drop]
  unfold send
  rw [bind_get, hused, bind_lift_ok, hsize, bind_lift_ok, hcursor, bind_lift_ok,
    bytesLeft_sending incoming hc, bind_lift_ok, bind_write_some, allowed_natCast, bind_lift_ok,
    if_pos (Int.natCast_nonneg _), hlen]
  change finishSend ⟨some block, block.length, c + min n (block.length - c)⟩
    ⟨_, block.take c ++ (block.drop c).take n, incoming⟩ = _
  unfold finishSend
  rw [htake]
  by_cases hlast : block.length ≤ c + n
  · have hall : block.length = c + min n (block.length - c) := by omega
    rw [if_pos hall, if_pos hlast, bind_modify, List.take_of_length_le hlast]
    rfl
  · have hmore : min n (block.length - c) = n := by omega
    have hleft : ¬ block.length = c + n := by omega
    rw [hmore, if_neg hleft, if_neg hlast, bind_modify]
    rfl

/-- One call, where it has none: the server aborts. -/
theorem send_none (hc : c < block.length) :
    send none (sending block incoming c) = .error .abort (sending block incoming c) := by
  obtain ⟨hused, hsize, hcursor⟩ := verify_sending incoming hc
  unfold send
  rw [bind_get, hused, bind_lift_ok, hsize, bind_lift_ok, hcursor, bind_lift_ok,
    bytesLeft_sending incoming hc, bind_lift_ok]
  rfl

/-- The room that the socket has from event to event, up to the first with none. -/
def roomBefore : List (Option Nat) → Nat
  | some n :: rooms => n + roomBefore rooms
  | _ => 0

/-- The calls from a cursor within the block on. -/
theorem sends_sending (rooms : List (Option Nat)) (hc : c < block.length) :
    sends rooms (sending block incoming c) =
      if block.length ≤ c + roomBefore rooms then .ok 1 (sent block incoming)
      else if none ∈ rooms then .error .abort (sending block incoming (c + roomBefore rooms))
      else .ok 0 (sending block incoming (c + roomBefore rooms)) := by
  induction rooms generalizing c with
  | nil =>
    have hzero : roomBefore [] = 0 := rfl
    rw [hzero, Nat.add_zero, if_neg (Nat.not_le.mpr hc), if_neg List.not_mem_nil]
    rfl
  | cons room rooms ih =>
    rw [sends]
    cases room with
    | none =>
      have hzero : roomBefore (none :: rooms) = 0 := rfl
      rw [bind_of_error (send_none incoming hc), hzero, Nat.add_zero, if_neg (Nat.not_le.mpr hc),
        if_pos List.mem_cons_self]
    | some n =>
      have hmem : none ∈ some n :: rooms ↔ none ∈ rooms := by simp
      have hsend := send_some incoming hc n
      rw [roomBefore, ← Nat.add_assoc, if_congr hmem rfl rfl]
      by_cases hlast : block.length ≤ c + n
      · rw [if_pos hlast] at hsend
        rw [bind_of_ok hsend, if_pos (by decide), if_pos (by omega)]
        rfl
      · rw [if_neg hlast] at hsend
        rw [bind_of_ok hsend, if_neg (by decide), ih (Nat.not_le.mp hlast)]

/-- **The epoll server sends** a buffer in order and in as many calls as it takes: the call that hands
over its last byte returns 1 and frees it. A call that the socket has no room for aborts. -/
theorem sends_eq (hne : block ≠ []) (rooms : List (Option Nat)) :
    sends rooms (sending block incoming 0) =
      if block.length ≤ roomBefore rooms then .ok 1 (sent block incoming)
      else if none ∈ rooms then .error .abort (sending block incoming (roomBefore rooms))
      else .ok 0 (sending block incoming (roomBefore rooms)) := by
  have hsends := sends_sending incoming rooms (List.length_pos_iff.mpr hne)
  rwa [Nat.zero_add] at hsends

/-- The handshake goes out in two calls. -/
theorem sends_handshake :
    sends [some 40, some 40] (sending handshakePacket [] 0) = .ok 1 (sent handshakePacket []) := by
  rw [sends_eq [] (by decide)]
  exact if_pos (by decide)

/-! ## Receiving -/

section

variable (garbage : Nat → UInt8) (body written : List UInt8)

/-- The first `c` bytes of the body have been received. -/
def receiving (c : Nat) (pieces : List (List UInt8)) : Transfer where
  buffer :=
    ⟨some (body.take c ++ ((List.range body.length).map garbage).drop c), body.length, c⟩
  written := written
  incoming := pieces.map .data

/-- The body has been received. -/
def received (pieces : List (List UInt8)) : Transfer :=
  ⟨⟨some body, body.length, body.length⟩, written, pieces.map .data⟩

theorem receiving_all (pieces : List (List UInt8)) :
    receiving garbage body written body.length pieces = received body written pieces := by
  have hnone : ((List.range body.length).map garbage).drop body.length = [] := by
    apply List.drop_eq_nil_of_le
    rw [List.length_map, List.length_range]
  unfold receiving received
  rw [hnone, List.take_length, List.append_nil]

variable {garbage body written} {c : Nat}

/-- The next bytes of the body go behind those that are there. -/
theorem fill_receiving {k : Nat} (hk : c + k ≤ body.length) (pieces : List (List UInt8)) :
    fill (receiving garbage body written c pieces).buffer ((body.drop c).take k) =
      .ok { (receiving garbage body written (c + k) pieces).buffer with cursor := c } := by
  have hc : c = (body.take c).length := by
    rw [List.length_take]
    omega
  have hlen : ((body.drop c).take k).length = k := by
    rw [List.length_take, List.length_drop]
    omega
  have hroom : ((body.drop c).take k).length ≤
      (((List.range body.length).map garbage).drop c).length := by
    rw [hlen, List.length_drop, List.length_map, List.length_range]
    omega
  have hstore := Block.store_behind (body.take c) (((List.range body.length).map garbage).drop c)
    ((body.drop c).take k) hc
  rw [if_pos hroom, hlen, List.drop_drop, ← List.append_assoc, ← List.take_add] at hstore
  unfold fill receiving
  simp only [Prog.deref, except_bind_ok]
  rw [hstore]

/-- A call for a packet of which the next `k` bytes are read. -/
theorem recv_receiving {k : Nat} (hk : c + k ≤ body.length) {pieces later : List (List UInt8)}
    (hread : read (body.length - c) (receiving garbage body written c pieces) =
      .ok (k, (body.drop c).take k) (receiving garbage body written c later)) :
    recv garbage (receiving garbage body written c pieces) =
      .ok (if body.length = c + k then 1 else 0)
        (receiving garbage body written (c + k) later) := by
  have hstart : startRecv garbage (receiving garbage body written c pieces) =
      .ok ⟨⟩ (receiving garbage body written c pieces) := rfl
  change read ((receiving garbage body written c pieces).buffer.size -
    (receiving garbage body written c pieces).buffer.cursor) _ = _ at hread
  unfold recv
  rw [bind_of_ok hstart, bind_get, bind_of_ok hread]
  simp only
  rw [fill_receiving hk pieces, bind_lift_ok, allowed_natCast, bind_lift_ok, bind_modify]
  rfl

/-- Nothing is read for a packet that is complete. -/
theorem recv_complete (pieces : List (List UInt8)) :
    recv garbage (receiving garbage body written body.length pieces) =
      .ok 1 (received body written pieces) := by
  have hread : read (body.length - body.length) (receiving garbage body written body.length pieces) =
      .ok ((0 : Nat), (body.drop body.length).take 0)
        (receiving garbage body written body.length pieces) := by
    unfold read
    rw [if_pos (Nat.sub_self _)]
    rfl
  rw [recv_receiving (Nat.le_refl _) hread, Nat.add_zero, if_pos rfl, receiving_all]

/-- A call that is done is the last one. -/
theorem recvs_of_done {t t' : Transfer} (h : recv garbage t = .ok 1 t') (calls : Nat) :
    recvs garbage (calls + 1) t = .ok 1 t' := by
  rw [recvs, bind_of_ok h, if_pos (by decide)]
  rfl

/-- Behind a call that is not done the others go on. -/
theorem recvs_of_more {t t' : Transfer} (h : recv garbage t = .ok 0 t') (calls : Nat) :
    recvs garbage (calls + 1) t = recvs garbage calls t' := by
  rw [recvs, bind_of_ok h, if_neg (by decide)]

variable (garbage written) in
/-- A piece that does not go beyond the packet is read whole. -/
theorem recv_piece {p : List UInt8} (hp : p ≠ []) (hfront : p <+: body.drop c)
    (pieces : List (List UInt8)) :
    recv garbage (receiving garbage body written c (p :: pieces)) =
      .ok (if body.length = c + p.length then 1 else 0)
        (receiving garbage body written (c + p.length) pieces) := by
  have hpos : 0 < p.length := List.length_pos_iff.mpr hp
  have hle : p.length ≤ body.length - c := by
    have := hfront.length_le
    rwa [List.length_drop] at this
  apply recv_receiving (by omega)
  have hnone : p.drop (body.length - c) = [] := List.drop_eq_nil_of_le hle
  unfold read receiving
  rw [if_neg (by omega)]
  simp only [List.map_cons, List.take_of_length_le hle, hnone, if_pos,
    ← List.prefix_iff_eq_take.mp hfront]

/-- Of a piece that goes beyond the packet what is missing is read. -/
theorem recv_beyond (hc : c < body.length) {rest : List UInt8} (hrest : rest ≠ [])
    (pieces : List (List UInt8)) :
    recv garbage (receiving garbage body written c ((body.drop c ++ rest) :: pieces)) =
      .ok 1 (received body written (rest :: pieces)) := by
  have hlen : (body.drop c).length = body.length - c := List.length_drop
  have hall : c + (body.length - c) = body.length := by omega
  have hread : read (body.length - c)
      (receiving garbage body written c ((body.drop c ++ rest) :: pieces)) =
      .ok ((body.length - c : Nat), (body.drop c).take (body.length - c))
        (receiving garbage body written c (rest :: pieces)) := by
    unfold read receiving
    rw [if_neg (by omega), ← hlen]
    simp only [List.map_cons, List.take_left, List.drop_left, List.take_length, if_neg hrest]
  rw [recv_receiving (Nat.le_of_eq hall) hread, hall, if_pos rfl, receiving_all]

/-- The pieces of a packet that is not complete, and what follows it: the calls come to its end. -/
theorem recvs_receiving {pieces : List (List UInt8)} (hne : ∀ p ∈ pieces, p ≠ []) {rest : List UInt8}
    (hc : c < body.length) (hstream : pieces.flatten = body.drop c ++ rest) :
    ∃ calls later, later.flatten = rest ∧
      recvs garbage (calls + 1) (receiving garbage body written c pieces) =
        .ok 1 (received body written later) := by
  induction pieces generalizing c with
  | nil =>
    have hlen := congrArg List.length hstream
    rw [List.length_append, List.length_drop, List.flatten_nil, List.length_nil] at hlen
    omega
  | cons p pieces ih =>
    obtain ⟨hp, hne⟩ := List.forall_mem_cons.mp hne
    rw [List.flatten_cons] at hstream
    rcases append_eq_append_cases hstream with ⟨more, hmore, hpieces⟩ | ⟨more, hne', rfl, hrest⟩
    · have hpiece := recv_piece garbage written hp ⟨more, hmore.symm⟩ pieces
      have hdrop : body.drop (c + p.length) = more := by
        rw [← List.drop_drop, hmore, List.drop_left]
      have hlen := congrArg List.length hmore
      rw [List.length_drop, List.length_append] at hlen
      by_cases hlast : body.length = c + p.length
      · rw [if_pos hlast, ← hlast, receiving_all] at hpiece
        obtain rfl : more = [] := List.eq_nil_of_length_eq_zero (by omega)
        exact ⟨0, pieces, hpieces, recvs_of_done hpiece 0⟩
      · rw [if_neg hlast] at hpiece
        obtain ⟨calls, later, hlater, hcalls⟩ :=
          ih hne (show c + p.length < body.length by omega) (hdrop ▸ hpieces)
        exact ⟨calls + 1, later, hlater, (recvs_of_more hpiece _).trans hcalls⟩
    · exact ⟨0, more :: pieces, hrest.symm, recvs_of_done (recv_beyond hc hne' pieces) 0⟩

/-- Where the stream ends within a packet the calls go on without end. -/
theorem recvs_truncated {pieces : List (List UInt8)} (hne : ∀ p ∈ pieces, p ≠ [])
    (hc : c < body.length) {rest : List UInt8} (hrest : rest ≠ [])
    (hstream : body.drop c = pieces.flatten ++ rest) (calls : Nat) :
    ∃ t, recvs garbage calls (receiving garbage body written c pieces) = .ok 0 t := by
  induction calls generalizing c pieces with
  | zero => exact ⟨_, rfl⟩
  | succ calls ih =>
    cases pieces with
    | nil =>
      have hread : read (body.length - c) (receiving garbage body written c []) =
          .ok ((0 : Nat), (body.drop c).take 0) (receiving garbage body written c []) := by
        unfold read
        rw [if_neg (by omega)]
        rfl
      have hpiece := recv_receiving hc.le hread
      rw [Nat.add_zero, if_neg hc.ne'] at hpiece
      rw [recvs_of_more hpiece]
      exact ih hne hc hstream
    | cons p pieces =>
      obtain ⟨hp, hne⟩ := List.forall_mem_cons.mp hne
      rw [List.flatten_cons, List.append_assoc] at hstream
      have hdrop : body.drop (c + p.length) = pieces.flatten ++ rest := by
        rw [← List.drop_drop, hstream, List.drop_left]
      have hlen := congrArg List.length hdrop
      have hpos := List.length_pos_iff.mpr hrest
      rw [List.length_drop, List.length_append] at hlen
      have hpiece := recv_piece garbage written hp ⟨_, hstream.symm⟩ pieces
      rw [if_neg (by omega)] at hpiece
      rw [recvs_of_more hpiece]
      exact ih hne (by omega) hdrop

end

/-! ## From the header on -/

section

variable (garbage : Nat → UInt8) (written : List UInt8)

/-- The socket gives what it would give the thread server, if it is asked for anything. -/
theorem read_of_socketRecv {size : Nat} (hsize : size ≠ 0) {w w' : World} {r : Int × List UInt8}
    (h : socketRecv size w = .ok r w') :
    read size (sent written w.incoming) = .ok r (sent written w'.incoming) := by
  unfold socketRecv at h
  unfold read sent
  rw [if_neg hsize]
  cases hincoming : w.incoming with
  | nil =>
    rw [hincoming] at h
    cases h
    simp only [hincoming]
  | cons arrival arrivals =>
    rw [hincoming] at h
    cases arrival with
    | data bytes =>
      cases h
      rfl
    | failure =>
      cases h
      rfl

/-- A header that comes in more than one piece is not received. -/
theorem recv_header_cut {pieces : List (List UInt8)} {i : Nat} (h : CutAt pieces i) (hpos : 0 < i)
    (hi : i < 4) : ∃ t, recv garbage (sent written (pieces.map .data)) = .error .abort t := by
  obtain ⟨rv, header, w', hheader, hrv⟩ := socketRecv_cut
    { World.fresh [] [] with incoming := pieces.map .data } 4 rfl h hpos hi
  have hread : read 4 (sent written (pieces.map .data)) =
      .ok (rv, header) (sent written w'.incoming) := read_of_socketRecv written (by decide) hheader
  have hrv : rv ≠ 4 := hrv
  have hstart : startRecv garbage (sent written (pieces.map .data)) =
      beginRecv garbage (sent written (pieces.map .data)) := rfl
  refine ⟨sent written w'.incoming, ?_⟩
  unfold recv
  apply bind_of_error
  rw [hstart, beginRecv, bind_of_ok hread]
  simp only
  rw [verify_eq_error.mpr ⟨decide_eq_false hrv, rfl⟩, bind_lift_error]
  rfl

/-- A header that comes in one piece starts a packet. -/
theorem recv_header {packet : Packet} {rest : List UInt8} {pieces : List (List UInt8)}
    (hne : ∀ p ∈ pieces, p ≠ [])
    (hstream : pieces.flatten = frameHeader packet.body.length packet.id.toNat ++ rest)
    (huncut : ∀ i, CutAt pieces i → 0 < i → 4 ≤ i) :
    ∃ later, (∀ p ∈ later, p ≠ []) ∧ later.flatten = rest ∧
      recv garbage (sent written (pieces.map .data)) =
        recv garbage (receiving garbage packet.body written 0 later) := by
  obtain ⟨later, hlater, hrest, -, hheader⟩ := socketRecv_uncut hne hstream huncut
  have hread : read 4 (sent written (pieces.map .data)) =
      .ok (4, frameHeader packet.body.length packet.id.toNat) (sent written (later.map .data)) :=
    read_of_socketRecv written (Nat.succ_ne_zero 3)
      (hheader { World.fresh [] [] with incoming := pieces.map .data } rfl)
  have hlength := headerLength_frameHeader packet.id.toNat packet.short
  have hstart : startRecv garbage (sent written (pieces.map .data)) =
      .ok ⟨⟩ (receiving garbage packet.body written 0 later) := by
    change beginRecv garbage (sent written (pieces.map .data)) = _
    rw [beginRecv, bind_of_ok hread]
    simp only
    rw [verify_eq_ok (u := ()).mpr (decide_eq_true trivial), bind_lift_ok, hlength]
    change EStateM.Result.ok _ (Transfer.mk ⟨_, 0 + packet.body.length, 0⟩ _ _) = _
    rw [Nat.zero_add]
    rfl
  refine ⟨later, hlater, hrest, ?_⟩
  rw [recv, bind_of_ok hstart]
  rfl

/-- The calls from the start on are those for the packet. -/
theorem recvs_header {packet : Packet} {rest : List UInt8} {pieces : List (List UInt8)}
    (hne : ∀ p ∈ pieces, p ≠ [])
    (hstream : pieces.flatten = frameHeader packet.body.length packet.id.toNat ++ rest)
    (huncut : ∀ i, CutAt pieces i → 0 < i → 4 ≤ i) :
    ∃ later, (∀ p ∈ later, p ≠ []) ∧ later.flatten = rest ∧
      ∀ calls, recvs garbage (calls + 1) (sent written (pieces.map .data)) =
        recvs garbage (calls + 1) (receiving garbage packet.body written 0 later) := by
  obtain ⟨later, hlater, hrest, hrecv⟩ := recv_header garbage written hne hstream huncut
  refine ⟨later, hlater, hrest, fun calls => ?_⟩
  rw [recvs]
  change EStateM.bind _ _ _ = EStateM.bind _ _ _
  unfold EStateM.bind
  rw [hrecv]

/-- **The epoll server receives** a packet exactly if its header is not cut: the calls for it come to
an end with the body in the buffer and what follows unread. -/
theorem recvs_iff (packet : Packet) (rest : List UInt8) (s : Segmentation (packet.bytes ++ rest)) :
    (∃ calls later, later.flatten = rest ∧
      recvs garbage calls (sent written (s.pieces.map .data)) =
        .ok 1 (received packet.body written later)) ↔
      ∀ i, CutAt s.pieces i → 0 < i → 4 ≤ i := by
  constructor
  · rintro ⟨calls, later, -, hcalls⟩ i hi hpos
    apply Nat.le_of_not_lt
    intro hlt
    cases calls with
    | zero => cases hcalls
    | succ calls =>
      obtain ⟨t, herror⟩ := recv_header_cut garbage written hi hpos hlt
      rw [recvs, bind_of_error herror] at hcalls
      cases hcalls
  · intro huncut
    have hstream : s.pieces.flatten =
        frameHeader packet.body.length packet.id.toNat ++ (packet.body ++ rest) := by
      rw [s.flatten, Packet.bytes, List.append_assoc]
    obtain ⟨pieces, hne, hpieces, hcalls⟩ :=
      recvs_header garbage written s.nonempty hstream huncut
    by_cases hempty : packet.body = []
    · rw [hempty] at hcalls hpieces
      refine ⟨1, pieces, hpieces, ?_⟩
      rw [hempty]
      exact (hcalls 0).trans (recvs_of_done (recv_complete pieces) 0)
    · obtain ⟨calls, later, hlater, hdone⟩ :=
        recvs_receiving hne (List.length_pos_iff.mpr hempty) hpieces
      exact ⟨calls + 1, later, hlater, (hcalls calls).trans hdone⟩

/-- **A client that closes** within the body of a packet is not noticed: the server calls `fxmy_recv`
for it without end. -/
theorem recvs_unfinished (packet : Packet) {front missing : List UInt8}
    (hpacket : packet.bytes = front ++ missing) (hmissing : missing ≠ []) (s : Segmentation front)
    (huncut : ∀ i, CutAt s.pieces i → 0 < i → 4 ≤ i) (hfront : 4 ≤ front.length) (calls : Nat) :
    ∃ t, recvs garbage calls (sent written (s.pieces.map .data)) = .ok 0 t := by
  cases calls with
  | zero => exact ⟨_, rfl⟩
  | succ calls =>
    have hlen : (frameHeader packet.body.length packet.id.toNat).length ≤ front.length := hfront
    have hstream : packet.bytes =
        frameHeader packet.body.length packet.id.toNat ++ packet.body := rfl
    obtain ⟨body, rfl⟩ := List.prefix_of_prefix_length_le ⟨_, hstream.symm⟩ ⟨_, hpacket.symm⟩ hlen
    rw [hstream, List.append_assoc, List.append_cancel_left_eq] at hpacket
    obtain ⟨later, hne, hlater, hcalls⟩ :=
      recvs_header garbage written s.nonempty s.flatten huncut
    rw [hcalls]
    have hbody : packet.body.drop 0 = later.flatten ++ missing := by
      rw [hlater]
      exact hpacket
    have hshort : 0 < packet.body.length := by
      rw [hpacket, List.length_append]
      have := List.length_pos_iff.mpr hmissing
      omega
    exact recvs_truncated hne hshort hmissing hbody (calls + 1)

end

/-- A command whose last byte never comes. -/
theorem recvs_unfinished_query : ∃ t, recvs (fun _ => 0) 12
    (sent handshakePacket [.data [2, 0, 0, 0], .data [3]]) = .ok 0 t := by
  let s : Segmentation ([2, 0, 0, 0, 3] : List UInt8) := ⟨[[2, 0, 0, 0], [3]], by decide, rfl⟩
  have hpacket : queryPacket.bytes = [2, 0, 0, 0, 3] ++ [0x61] := rfl
  apply recvs_unfinished (fun _ => 0) handshakePacket queryPacket hpacket (List.cons_ne_nil _ _) s
  · intro i hi hpos
    rcases cutAt_cons.mp hi with hzero | ⟨j, -, rfl⟩
    · omega
    · exact Nat.le_add_right 4 j
  · exact Nat.le_succ 4

end Transfer

end Fxmy
