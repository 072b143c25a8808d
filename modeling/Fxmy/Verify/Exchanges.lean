import Fxmy.Verify.Receiving
import Fxmy.Verify.Results

/-!
# The exchanges of a run

The client's packets are answered one by one (`worker_converses`). `fxmy_begin_send` leaves a buffer
that is in use as it is, and `fxmy_recv` leaves it in use, so that the answer is the result rests on
`fxmy_send_result`, which frees the buffer first (`reply_sends`). The answer's number is the one that
`fxmy_recv` took from the packet: no command changes it (`line_unserved`).
-/

namespace Fxmy

open Exec

/-! ## The line -/

/-- The connection's end of the line: the number of the next packet, what is still to come from the
client and what was sent to it. -/
def World.line (w : World) : UInt32 × List Arrival × List (List UInt8) :=
  (w.conn.packetNumber, w.incoming, w.sent)

theorem line_unserved : Unserved World.line :=
  ⟨⟨⟨fun _ _ => rfl, fun _ _ => rfl⟩, fun _ _ => rfl⟩, fun _ _ _ _ _ => rfl, fun _ _ => rfl,
    fun _ _ => rfl⟩

/-- `packet` was taken from the stream between `w` and `w'`, and nothing sent. -/
structure Takes (w : World) (packet : Packet) (w' : World) : Prop where
  arrived : arrived w.incoming = packet.bytes ++ arrived w'.incoming
  number : w'.conn.packetNumber = packet.id.toUInt32 + 1
  sent : w'.sent = w.sent

theorem takes_receive {w : World} {packet : Packet} {incoming : List Arrival}
    (h : arrived w.incoming = packet.bytes ++ arrived incoming) :
    Takes w packet (w.receive packet incoming) := ⟨h, rfl, rfl⟩

/-- What leaves the line alone changes nothing about it. -/
theorem Takes.trans_line {w w₁ w₂ : World} {packet : Packet} (h : Takes w packet w₁)
    (hline : w₂.line = w₁.line) : Takes w packet w₂ := by
  obtain ⟨hnumber, hincoming, hsent⟩ : w₂.conn.packetNumber = w₁.conn.packetNumber ∧
      w₂.incoming = w₁.incoming ∧ w₂.sent = w₁.sent := by
    simpa [World.line] using hline
  exact ⟨hincoming ▸ h.arrived, hnumber.trans h.number, hsent.trans h.sent⟩

/-! ## Sending -/

/-- `payload` is what `fxmy_send_result` serialises into its temporary buffer. -/
def Serialises (env : Env) (w : World) (payload : List UInt8) : Prop :=
  ∃ buffer, resultBuffer env.build env.garbage w.conn = .ok buffer ∧
    payload = (buffer.memory.getD []).take buffer.cursor

/-- `answer` was sent between `w` and `w'`, and nothing taken. -/
structure Gives (w : World) (answer : Packet) (w' : World) : Prop where
  number : answer.id = w.conn.packetNumber.toNat.toUInt8
  sent : w'.sent = w.sent ++ [answer.bytes]
  incoming : w'.incoming = w.incoming

theorem bytes_eq_frame (packetNumber : UInt32) {payload : List UInt8}
    (hmax : payload.length ≤ maxFrame) :
    (⟨packetNumber.toNat.toUInt8, payload, hmax⟩ : Packet).bytes = frame packetNumber payload := by
  have hnumber : packetNumber.toNat.toUInt8.toNat.toUInt8 = packetNumber.toNat.toUInt8 :=
    UInt8.ofNat_toNat
  unfold Packet.bytes frame frameHeader
  rw [hnumber]

/-- A payload that fits into one packet is sent as that, if the buffer is free. -/
theorem send_gives {env : Env} {w w' : World} {rv : Int} {payload behind : List UInt8}
    (hfree : w.conn.xferBuffer.memory = none) (hpos : 0 < payload.length)
    (hmax : payload.length ≤ maxFrame)
    (h : send env (payload ++ behind) payload.length w = .ok rv w') :
    Gives w ⟨w.conn.packetNumber.toNat.toUInt8, payload, hmax⟩ w' := by
  rw [send_returns env behind hfree (Nat.le_trans hmax (by decide)) h, message_eq_frame _ hpos hmax,
    ← bytes_eq_frame _ hmax]
  exact ⟨rfl, rfl, rfl⟩

/-- A result that is sent has a status. -/
theorem reply_status {env : Env} {w w' : World} (hcode : w.conn.columnCountErrorCode = FXMY_OK)
    (h : reply env w = .ok ⟨⟩ w') : ∃ status, w.conn.status = some status := by
  cases hstatus : w.conn.status with
  | some status => exact ⟨status, rfl⟩
  | none =>
    obtain ⟨buffer, _, _, hbuffer, -⟩ := reply_returns h
    unfold resultBuffer at hbuffer
    rw [if_pos hcode, hstatus] at hbuffer
    cases hbuffer

/-- **A result is sent** as one packet, and what the receive left in the buffer is not. -/
theorem reply_sends {env : Env} {w w' : World} (hmem : ∀ s, w.conn.status = some s → s ∈ errorTable)
    (hcode : w.conn.columnCountErrorCode = FXMY_OK) (h : reply env w = .ok ⟨⟩ w') :
    ∃ answer, Gives w answer w' ∧ Serialises env w answer.body := by
  obtain ⟨status, hstatus⟩ := reply_status hcode h
  obtain ⟨buffer, payload, hbuffer, hholds, hpayload, hmax⟩ :=
    resultBuffer_ok env hstatus (hmem status hstatus) hcode
  have hpos : 0 < payload.length := by
    rw [hpayload]
    exact Nat.succ_pos _
  obtain ⟨behind, hbehind⟩ := hholds.written
  obtain ⟨_, rv, blocks, hsame, hsend⟩ := reply_returns h
  rw [hbuffer] at hsame
  cases hsame
  rw [hholds.cursor, ← hbehind] at hsend
  have hgives := send_gives rfl hpos hmax hsend
  refine ⟨_, ⟨rfl, hgives.sent, hgives.incoming⟩, buffer, hbuffer, ?_⟩
  rw [← hbehind, hholds.cursor, List.take_left]

/-! ## Packets -/

/-- The server's first packet. -/
def greeting : Packet := ⟨0, handshakePacket, by decide⟩

/-- The packet of `COM_QUIT`. -/
def Packet.Quits (packet : Packet) : Prop := packet.body.head? = some 1

/-- The client quits with `COM_QUIT`, and only with it. -/
theorem handleCommand_quits {env : Env} {w w' : World} {rv : Int} {command : UInt8}
    {ptr : List UInt8} {size : Nat} (hstatus : w.conn.status = some statusOk)
    (h : handleCommand env (command :: ptr) size w = .ok rv w') :
    rv = -1 ∧ command = 1 ∨ rv = 0 ∧ command ≠ 1 := by
  have hcode : Command.ofByte command = some .quit → command = 1 := by
    intro hquit
    have hone : ∀ n < Command.all.length, Command.all[n]? = some .quit → n = 1 := by decide
    exact UInt8.toNat_inj.mp (hone _ (List.getElem?_eq_some_iff.mp hquit).1 hquit)
  have hstays {c : Command} (hcommand : Command.ofByte command = some c) (hc : c ≠ .quit) :
      command ≠ 1 := by
    rintro rfl
    exact hc (Option.some.inj hcommand.symm)
  obtain ⟨_, _, hmemory, hcases⟩ := handleCommand_returns h
  cases hmemory
  rcases hcases with ⟨hquit, hrv, -⟩ | ⟨hcommand, h⟩ | ⟨hcommand, h⟩ | ⟨hcommand, h⟩
  · exact .inl ⟨hrv, hcode hquit⟩
  · exact .inr ⟨(handleInitDb_outcome h).1, hstays hcommand nofun⟩
  · exact .inr ⟨(handleQuery_outcome hstatus h).1, hstays hcommand nofun⟩
  · exact .inr ⟨(handleSetOption_outcome hstatus h).1, hstays hcommand nofun⟩

/-- A command is taken from the stream and changes nothing else about the line. -/
theorem handleCommandPacket_takes {env : Env} {w w' : World} {rv : Int}
    (hstatus : w.conn.status = some statusOk) (h : handleCommandPacket env w = .ok rv w') :
    ∃ packet, Takes w packet w' ∧ (rv = -1 ∧ packet.Quits ∨ rv = 0 ∧ ¬ packet.Quits) := by
  obtain ⟨packet, incoming, hstream, -, hcommand⟩ := handleCommandPacket_returns h
  have hline := (handleCommand_keeps line_unserved env _ _).of_ok hcommand
  refine ⟨packet, (takes_receive hstream).trans_line hline, ?_⟩
  unfold Packet.Quits
  cases hbody : packet.body with
  | nil =>
    rw [hbody] at hcommand
    cases hcommand
  | cons command ptr =>
    rw [hbody] at hcommand
    simpa using handleCommand_quits (by exact hstatus) hcommand

/-- The start greets the client and takes the auth packet. -/
theorem workerStart_takes {env : Env} {connectionString : List FxmyChar} {incoming : List Arrival}
    {w : World} (h : workerStart env (World.fresh connectionString incoming) = .ok ⟨⟩ w) :
    ∃ packet : Packet, arrived incoming = packet.bytes ++ arrived w.incoming ∧
      w.conn.packetNumber = packet.id.toUInt32 + 1 ∧ w.sent = [greeting.bytes] := by
  obtain ⟨packet, rest, rv, w₁, hstream, hparse, rfl⟩ := workerStart_returns h
  have hline := (parseAuthPacket_keeps line_unserved env).of_ok hparse
  have htakes := (takes_receive (w := (World.fresh connectionString incoming).greet env)
    hstream).trans_line hline
  refine ⟨packet, htakes.arrived, htakes.number, htakes.sent.trans ?_⟩
  have hgreeting : message 0 handshakePacket = greeting.bytes :=
    (message_eq_frame 0 (by decide) greeting.short).trans (bytes_eq_frame 0 greeting.short).symm
  exact congrArg (fun bytes => [bytes]) hgreeting

/-! ## Histories -/

/-- A packet of the client, the state in which `fxmy_send_result` is called for it, and the packet
that is sent. -/
structure Exchange where
  request : Packet
  state : World
  answer : Packet

/-- The answer is the result, under the number behind that of the request. -/
structure Exchange.Answered (env : Env) (e : Exchange) : Prop where
  number : e.answer.id = e.request.id + 1
  result : Serialises env e.state e.answer.body

/-- The worker goes from `w₀` through the states of the exchanges to one in which it waits. -/
inductive Passes (env : Env) (w₀ : World) : List Exchange → World → Prop where
  | start {e : Exchange} {w : World} : workerStart env w₀ = .ok ⟨⟩ e.state →
      reply env e.state = .ok ⟨⟩ w → Passes env w₀ [e] w
  | next {es : List Exchange} {w : World} {e : Exchange} {w₁ w' : World} : Passes env w₀ es w →
      handleCommandPacket env w = .ok 0 e.state → reply env e.state = .ok ⟨⟩ w₁ →
      resetTransientState env w₁ = .ok ⟨⟩ w' → Passes env w₀ (es ++ [e]) w'

theorem Passes.waits {env : Env} {w₀ w : World} {es : List Exchange} (h : Passes env w₀ es w) :
    Waits env w₀ w := by
  induction h with
  | start hstart hreply => exact .start hstart hreply
  | next _ hcommand hreply hreset ih => exact .next ih hcommand hreply hreset

/-- What a run has done when the worker waits in `w`. -/
structure History (env : Env) (w₀ : World) (auth : Exchange) (commands : List Exchange) (w : World) :
    Prop where
  passes : Passes env w₀ (auth :: commands) w
  answered : ∀ e ∈ auth :: commands, e.Answered env
  stays : ∀ e ∈ commands, ¬ e.request.Quits
  arrived : arrived w₀.incoming =
    (auth :: commands).flatMap (·.request.bytes) ++ arrived w.incoming
  sent : w.sent = greeting.bytes :: (auth :: commands).map (·.answer.bytes)

/-- The number behind a packet's, modulo 256. -/
theorem toUInt8_number (id : UInt8) : (id.toUInt32 + 1).toNat.toUInt8 = id + 1 := by
  apply UInt8.toNat_inj.mp
  have hlt := id.toNat_lt
  rw [UInt8.toNat_add, Nat.toUInt8, UInt8.toNat_ofNat', UInt32.toNat_add, UInt8.toNat_toUInt32]
  change (id.toNat + 1) % 2 ^ 32 % 2 ^ 8 = (id.toNat + 1) % 2 ^ 8
  omega

theorem Exchange.answered_of {env : Env} {e : Exchange} {w' : World}
    (hnumber : e.state.conn.packetNumber = e.request.id.toUInt32 + 1)
    (hgives : Gives e.state e.answer w') (hresult : Serialises env e.state e.answer.body) :
    e.Answered env := by
  refine ⟨?_, hresult⟩
  rw [hgives.number, hnumber, toUInt8_number]

section

variable {env : Env} {connectionString : List FxmyChar} {incoming : List Arrival} {w w' : World}

/-- The result of a step is sent. -/
theorem Sends.gives (h : Sends env (World.fresh connectionString incoming) w)
    (hreply : reply env w = .ok ⟨⟩ w') :
    ∃ answer, Gives w answer w' ∧ Serialises env w answer.body := by
  apply reply_sends ?_ (congrArg (·.1) h.counters_eq) hreply
  cases h with
  | start hstart => exact (start_outcome hstart).mem
  | command hwaits hcommand => exact (hwaits.outcome hcommand).mem

/-- The history at the first command. -/
theorem history_start (hstart : workerStart env (World.fresh connectionString incoming) = .ok ⟨⟩ w)
    (hreply : reply env w = .ok ⟨⟩ w') :
    ∃ auth, History env (World.fresh connectionString incoming) auth [] w' := by
  obtain ⟨packet, hstream, hnumber, hsent⟩ := workerStart_takes hstart
  obtain ⟨answer, hgives, hresult⟩ := (Sends.start hstart).gives hreply
  refine ⟨⟨packet, w, answer⟩, .start hstart hreply, ?_, ?_, ?_, ?_⟩
  · exact List.forall_mem_singleton.mpr (Exchange.answered_of hnumber hgives hresult)
  · exact fun _ h => nomatch h
  · rw [hgives.incoming, List.flatMap_singleton]
    exact hstream
  · rw [hgives.sent, hsent]
    rfl

/-- One more exchange. -/
theorem History.next {w₁ w₂ : World} {auth : Exchange} {commands : List Exchange}
    (h : History env (World.fresh connectionString incoming) auth commands w)
    (hcommand : handleCommandPacket env w = .ok 0 w₁) (hreply : reply env w₁ = .ok ⟨⟩ w₂)
    (hreset : resetTransientState env w₂ = .ok ⟨⟩ w') :
    ∃ e, History env (World.fresh connectionString incoming) auth (commands ++ [e]) w' := by
  have hwaits := h.passes.waits
  obtain ⟨packet, htakes, hquit⟩ := handleCommandPacket_takes hwaits.idle.status hcommand
  obtain ⟨answer, hgives, hresult⟩ := (Sends.command hwaits hcommand).gives hreply
  have hstays : ¬ packet.Quits := by
    rcases hquit with ⟨hrv, -⟩ | ⟨-, hstays⟩
    · cases hrv
    · exact hstays
  have hline : w'.incoming = w₂.incoming ∧ w'.sent = w₂.sent := by
    obtain rfl := resetTransientState_returns hreset
    exact ⟨rfl, rfl⟩
  refine ⟨⟨packet, w₁, answer⟩, h.passes.next hcommand hreply hreset, ?_, ?_, ?_, ?_⟩
  · rw [← List.cons_append, List.forall_mem_append, List.forall_mem_singleton]
    exact ⟨h.answered, Exchange.answered_of htakes.number hgives hresult⟩
  · rw [List.forall_mem_append, List.forall_mem_singleton]
    exact ⟨h.stays, hstays⟩
  · rw [h.arrived, htakes.arrived, hline.1, hgives.incoming, ← List.cons_append,
      List.flatMap_append, List.append_assoc, List.flatMap_singleton]
  · rw [hline.2, hgives.sent, htakes.sent, h.sent, ← List.cons_append, List.map_append]
    rfl

/-- The loop adds an exchange for each of its turns, until the client quits. -/
theorem History.loop {n : Nat} {quit : Bool} {auth : Exchange} {commands : List Exchange}
    (h : History env (World.fresh connectionString incoming) auth commands w)
    (hloop : workerLoop env n w = .ok quit w') :
    ∃ commands' last, History env (World.fresh connectionString incoming) auth commands' last ∧
      (quit = false ∧ w' = last ∧ commands'.length = commands.length + n ∨
        quit = true ∧ handleCommandPacket env last = .ok (-1) w') := by
  induction n generalizing w commands with
  | zero =>
    cases hloop
    exact ⟨commands, _, h, .inl ⟨rfl, rfl, rfl⟩⟩
  | succ n ih =>
    rcases workerLoop_succ h.passes.waits.idle.status hloop with ⟨rfl, hcommand⟩ |
      ⟨w₁, w₂, w₃, hcommand, hreply, hreset, hrest⟩
    · exact ⟨commands, w, h, .inr ⟨rfl, hcommand⟩⟩
    · obtain ⟨e, hnext⟩ := h.next hcommand hreply hreset
      obtain ⟨commands', last, hlast, hend⟩ := ih hnext hrest
      refine ⟨commands', last, hlast, hend.imp_left ?_⟩
      rintro ⟨hquit, hstate, hlen⟩
      refine ⟨hquit, hstate, ?_⟩
      rw [hlen, List.length_append, List.length_singleton, Nat.add_assoc, Nat.add_comm 1]

end

/-- `COM_QUIT` takes its packet and ends the loop; nothing is sent for it. -/
structure Hangs (w : World) (w' : World) : Prop where
  quits : ∃ packet : Packet, packet.Quits ∧ arrived w.incoming = packet.bytes ++ arrived w'.incoming
  sent : w'.sent = w.sent
  done : w'.conn.done = true

/-- **Each packet of the client is answered by one of the server's**, with the result under the next
number, until the client quits. A run that goes on has answered a command in each turn of its loop. -/
theorem worker_converses {env : Env} {connectionString : List FxmyChar} {incoming : List Arrival}
    {w' : World} (h : worker env (World.fresh connectionString incoming) = .ok ⟨⟩ w') :
    ∃ auth commands w, History env (World.fresh connectionString incoming) auth commands w ∧
      (w' = w ∧ commands.length = env.fuel ∨ Hangs w w') := by
  unfold worker at h
  obtain ⟨_, w₁, hstart, h⟩ := bind_eq_ok.mp h
  obtain ⟨_, w₂, hreply, h⟩ := bind_eq_ok.mp h
  obtain ⟨quit, w₃, hloop, h⟩ := bind_eq_ok.mp h
  obtain ⟨auth, hhistory⟩ := history_start hstart hreply
  obtain ⟨commands, w, hlast, hend⟩ := hhistory.loop hloop
  refine ⟨auth, commands, w, hlast, ?_⟩
  rcases hend with ⟨rfl, hw₃, hlen⟩ | ⟨rfl, hquit⟩
  · rw [if_neg Bool.false_ne_true] at h
    cases h
    exact .inl ⟨hw₃, by simpa using hlen⟩
  · right
    obtain ⟨packet, htakes, hrv⟩ := handleCommandPacket_takes hlast.passes.waits.idle.status hquit
    have hquits : packet.Quits := by
      rcases hrv with ⟨-, hquits⟩ | ⟨hrv, -⟩
      · exact hquits
      · cases hrv
    rw [if_pos rfl, bind_get] at h
    obtain ⟨odbc, -, h⟩ := bind_lift_eq_ok.mp h
    rw [Prog.bind_odbcCall] at h
    obtain ⟨_, -, h⟩ := bind_lift_eq_ok.mp h
    rw [Prog.bind_odbcCall] at h
    obtain ⟨_, -, h⟩ := bind_lift_eq_ok.mp h
    rw [Prog.bind_odbcCall] at h
    obtain ⟨_, -, h⟩ := bind_lift_eq_ok.mp h
    cases h
    exact ⟨⟨packet, hquits, htakes.arrived⟩, htakes.sent, rfl⟩

/-- A client that authenticates, turns multiple statements off under the number 255 and quits. -/
def setOptionAndQuit : List Arrival := [
  .data (frameHeader 36 1),
  .data ([0, 0x82, 0, 0, 0, 0, 0, 1, 8] ++ List.replicate 23 0 ++ [0x73, 0x61, 0, 0]),
  .data (frameHeader 3 255),
  .data [27, 1, 0],
  .data (frameHeader 1 0),
  .data [1]]

/-- Its packets are answered until it quits. -/
theorem setOptionAndQuit_converses : ∃ auth commands w w',
    worker (.benign obliging) (World.fresh [] setOptionAndQuit) = .ok ⟨⟩ w' ∧
      History (.benign obliging) (World.fresh [] setOptionAndQuit) auth commands w ∧
      (w' = w ∧ commands.length = 16 ∨ Hangs w w') := by
  obtain ⟨w', h⟩ : ∃ w', worker (.benign obliging) (World.fresh [] setOptionAndQuit) = .ok ⟨⟩ w' :=
    value_eq_some.mp (by decide +kernel)
  obtain ⟨auth, commands, w, hhistory, hend⟩ := worker_converses h
  exact ⟨auth, commands, w, w', h, hhistory, hend⟩

end Fxmy
