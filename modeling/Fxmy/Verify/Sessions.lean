import Fxmy.Verify.Requests
import Fxmy.Verify.PacketReads
import Mathlib.Algebra.GroupWithZero.Nat

/-!
# A connection is a session

Whenever the worker waits for a command, its record, its dialogue with the driver and the blocks it
has lost are those of the requests it has served (`Waits.resting`).
-/

namespace Fxmy

open Exec Dialogue

/-! ## One result -/

/-- The result is sent, and the connection's buffer is free again. -/
theorem reply_state {env : Env} {w w' : World} (hmem : ∀ s, w.conn.status = some s → s ∈ errorTable)
    (hcode : w.conn.columnCountErrorCode = FXMY_OK) (h : reply env w = .ok ⟨⟩ w') :
    ∃ status, w.conn.status = some status ∧ w' = { w with
      conn := { w.conn with packetNumber := w.conn.packetNumber + 1, xferBuffer := .empty }
      sent := w.sent ++
        [message w.conn.packetNumber (status.header :: (okLayout w.conn status).tail)]
      numAllocations := if w.conn.xferBuffer.memory.isSome then w.numAllocations - 1
        else w.numAllocations } := by
  obtain ⟨status, hstatus⟩ := reply_status hcode h
  refine ⟨status, hstatus, ?_⟩
  obtain ⟨buffer, payload, hbuffer, hholds, hpayload, hmax⟩ :=
    resultBuffer_ok env hstatus (hmem status hstatus) hcode
  obtain ⟨behind, hbehind⟩ := hholds.written
  unfold reply sendResult at h
  obtain ⟨_, _, hresult, h⟩ := bind_eq_ok.mp h
  obtain ⟨-, rfl⟩ := lift_eq_ok.mp h
  rw [bind_of_ok (resetXferBuffer_eq w), bind_get] at hresult
  obtain ⟨sent, hsent, hresult⟩ := bind_lift_eq_ok.mp hresult
  obtain rfl : sent = buffer := Except.ok.inj (hsent.symm.trans hbuffer)
  obtain ⟨rv, _, hsend, hresult⟩ := bind_eq_ok.mp hresult
  cases hresult
  rw [hholds.cursor, ← hbehind] at hsend
  have hstate := send_returns env behind rfl (Nat.le_trans hmax (by decide)) hsend
  rw [hpayload] at hstate
  exact hstate

/-! ## Sessions -/

/-- The calls that a worker has made for its requests, after those of its start. -/
inductive Conversation (env : Env) (dbc : Handle) (connectionString : List FxmyChar) :
    List Request → List OdbcCall → Prop where
  | start : Conversation env dbc connectionString [] (startCalls env)
  | next {requests : List Request} {calls : List OdbcCall} {r : Request} {talk : Talk}
      {calls' : List OdbcCall} : Conversation env dbc connectionString requests calls →
      Serving env dbc connectionString calls r talk → Talks env.odbc calls talk calls' →
      Conversation env dbc connectionString (requests ++ [r]) calls'

/-- The worker has served the requests, from the settings of the auth packet on. -/
structure Session (env : Env) (connectionString : List FxmyChar) (settings : Settings)
    (requests : List Request) (w : World) : Prop where
  settings : w.settings = requests.foldl Settings.after settings
  conversation : Conversation env (connectionHandle env) connectionString requests w.calls
  lost : w.lost = (requests.map Request.lost).sum
  fixed : w.fixed = (some ⟨environmentHandle env, connectionHandle env⟩, connectionString, false)

section

variable {env : Env} {connectionString : List FxmyChar} {settings : Settings}
  {requests : List Request} {w w' : World}

theorem Session.databaseHandle_eq (h : Session env connectionString settings requests w) :
    databaseHandle w.conn = .ok (connectionHandle env) := by
  have hodbc : w.conn.odbc = some ⟨environmentHandle env, connectionHandle env⟩ :=
    congrArg Prod.fst h.fixed
  unfold databaseHandle
  rw [hodbc]
  rfl

theorem Session.connectionString_eq (h : Session env connectionString settings requests w) :
    w.conn.connectionString = connectionString := congrArg (·.2.1) h.fixed

/-- A packet in the buffer belongs to the session, if the buffer was free. -/
theorem Session.receive (h : Session env connectionString settings requests w)
    (hfree : w.conn.xferBuffer.memory = none) (packet : Packet) (incoming : List Arrival) :
    Session env connectionString settings requests (w.receive packet incoming) := by
  refine ⟨h.settings, h.conversation, ?_, h.fixed⟩
  rw [← h.lost]
  unfold World.lost World.receive
  rw [hfree]
  simp only [Option.isSome_some, Option.isSome_none, if_true, Bool.false_eq_true, if_false]
  omega

/-- One more request. -/
theorem Session.serve {r : Request} (h : Session env connectionString settings requests w)
    (hserved : Served env (connectionHandle env) w r w') (hfixed : w'.fixed = w.fixed) :
    Session env connectionString settings (requests ++ [r]) w' := by
  obtain ⟨talk, hserving, htalks⟩ := hserved.talk
  rw [h.connectionString_eq] at hserving
  refine ⟨?_, h.conversation.next hserving htalks, ?_, hfixed.trans h.fixed⟩
  · rw [hserved.settings, h.settings, List.foldl_append]
    rfl
  · rw [hserved.lost, h.lost, List.map_append, List.sum_append]
    simp

/-- Sending the result frees the buffer and leaves the session. -/
theorem Session.reply (h : Session env connectionString settings requests w)
    (hmem : ∀ s, w.conn.status = some s → s ∈ errorTable)
    (hcode : w.conn.columnCountErrorCode = FXMY_OK) (hreply : reply env w = .ok ⟨⟩ w') :
    Session env connectionString settings requests w' ∧ w'.conn.xferBuffer.memory = none := by
  obtain ⟨status, -, rfl⟩ := reply_state hmem hcode hreply
  refine ⟨⟨h.settings, h.conversation, ?_, h.fixed⟩, rfl⟩
  rw [← h.lost]
  unfold World.lost XferBuffer.empty
  cases w.conn.xferBuffer.memory with
  | none => rfl
  | some block =>
    simp only [Option.isSome_some, Option.isSome_none, if_true, Bool.false_eq_true, if_false]
    omega

theorem Session.reset (h : Session env connectionString settings requests w)
    (hreset : resetTransientState env w = .ok ⟨⟩ w') :
    Session env connectionString settings requests w' ∧
      w'.conn.xferBuffer.memory = w.conn.xferBuffer.memory := by
  obtain rfl := resetTransientState_returns hreset
  exact ⟨⟨h.settings, h.conversation, h.lost, h.fixed⟩, rfl⟩

/-- What the auth packet sets, and the request for its database. -/
theorem session_start {incoming : List Arrival}
    (h : workerStart env (World.fresh connectionString incoming) = .ok ⟨⟩ w) :
    ∃ (packet : Packet) (settings : Settings) (first : List Request),
      arrived incoming = packet.bytes ++ arrived w.incoming ∧
      packet.auth env = some (settings, first) ∧
      Session env connectionString settings first w := by
  obtain ⟨packet, rest, rv, w₁, hstream, hparse, rfl⟩ := workerStart_returns h
  obtain ⟨flags, size, charset, buffer, conn, hfields, rfl, hcases⟩ := parseAuthPacket_returns hparse
  have hline := (parseAuthPacket_keeps line_unserved env).of_ok hparse
  have hincoming : w₁.incoming = rest := congrArg (·.2.1) hline
  have hfields' : parseAuthFields (received packet.body 0) = .ok (flags, size, charset, buffer) :=
    hfields
  obtain ⟨_, d, -, -, rfl, -⟩ := parseAuthFields_eq_ok (flags, size, charset) hfields'
  have hauth : packet.auth env = if flags &&& CLIENT_CONNECT_WITH_DB ≠ 0 then
      (parseAuthDatabase env.build (received packet.body d)).toOption.map fun database =>
        ((⟨flags, size, charset.toUInt32, none, 0⟩ : Settings), [.useDatabase database])
      else some (⟨flags, size, charset.toUInt32, none, 0⟩, []) := by
    have hfirst : parseAuthFields ⟨some (packet.body ++ [0]), packet.body.length, 0⟩ =
        .ok (flags, size, charset, received packet.body d) := hfields'
    unfold Packet.auth
    rw [hfirst]
  refine ⟨packet, ⟨flags, size, charset.toUInt32, none, 0⟩, ?_⟩
  rw [hauth]
  rcases hcases with ⟨hflag, database, hdatabase, hconnect⟩ | ⟨hflag, -, rfl⟩
  · refine ⟨[.useDatabase database], ?_, ?_, ?_⟩
    · exact hincoming ▸ hstream
    · rw [if_pos hflag, hdatabase]
      rfl
    · obtain ⟨talk, hserving, hasks⟩ := connect_serving rfl rfl hconnect
      have hsettings := (connect_keeps settings_unanswered env).of_ok hconnect
      have hfixed := (connect_keeps fixed_unserved.toUnanswered env).of_ok hconnect
      have hrecord := (connect_keeps record_unanswered env).of_ok hconnect
      refine ⟨hsettings, Conversation.start.next hserving hasks.talks, ?_, hfixed⟩
      change w₁.lost = _
      rw [lost_of_record hrecord, hasks.blocks]
      rfl
  · refine ⟨[], hincoming ▸ hstream, if_neg (not_not_intro hflag), ?_⟩
    exact ⟨rfl, .start, rfl, rfl⟩

/-! ## Runs -/

/-- The record's status is one of the table's, and the counters those of a success. -/
theorem Sends.status_mem {incoming : List Arrival}
    (h : Sends env (World.fresh connectionString incoming) w) :
    (∀ s, w.conn.status = some s → s ∈ errorTable) ∧ w.conn.columnCountErrorCode = FXMY_OK := by
  refine ⟨?_, congrArg (·.1) h.counters_eq⟩
  cases h with
  | start hstart => exact (start_outcome hstart).mem
  | command hwaits hcommand => exact (hwaits.outcome hcommand).mem

/-- The fields of a session that hold while the worker waits for a command. -/
structure Resting (env : Env) (connectionString : List FxmyChar) (auth : Packet)
    (commands : List Packet) (w : World) : Prop where
  exists_session : ∃ settings first requests, auth.auth env = some (settings, first) ∧
    commands.map (Packet.request env) = requests.map some ∧
    Session env connectionString settings (first ++ requests) w
  free : w.conn.xferBuffer.memory = none

theorem resting_start {incoming : List Arrival} {packet : Packet}
    (hstart : workerStart env (World.fresh connectionString incoming) = .ok ⟨⟩ w)
    (hstream : arrived incoming = packet.bytes ++ arrived w.incoming)
    (hreply : reply env w = .ok ⟨⟩ w') : Resting env connectionString packet [] w' := by
  obtain ⟨packet', settings, first, hstream', hauth, hsession⟩ := session_start hstart
  obtain rfl : packet = packet' := Packet.eq_of_append (hstream.symm.trans hstream')
  obtain ⟨hmem, hcode⟩ := (Sends.start hstart).status_mem
  obtain ⟨hkept, hfree⟩ := hsession.reply hmem hcode hreply
  exact ⟨⟨settings, first, [], hauth, rfl, (List.append_nil first).symm ▸ hkept⟩, hfree⟩

theorem Resting.next {incoming : List Arrival} {auth packet : Packet} {commands : List Packet}
    {w₁ w₂ : World} (h : Resting env connectionString auth commands w)
    (hwaits : Waits env (World.fresh connectionString incoming) w)
    (hcommand : handleCommandPacket env w = .ok 0 w₁)
    (hstream : arrived w.incoming = packet.bytes ++ arrived w₁.incoming)
    (hreply : reply env w₁ = .ok ⟨⟩ w₂) (hreset : resetTransientState env w₂ = .ok ⟨⟩ w') :
    Resting env connectionString auth (commands ++ [packet]) w' := by
  obtain ⟨settings, first, requests, hauth, hrequests, hsession⟩ := h.exists_session
  obtain ⟨packet', rest, hstream', -, hhandle⟩ := handleCommandPacket_returns hcommand
  have hline := (handleCommand_keeps line_unserved env _ _).of_ok hhandle
  have hfixed := (handleCommand_keeps fixed_unserved env _ _).of_ok hhandle
  have hincoming : w₁.incoming = rest := congrArg (·.2.1) hline
  obtain rfl : packet = packet' := by
    rw [hincoming] at hstream
    exact Packet.eq_of_append (hstream.symm.trans hstream')
  have hreceived := hsession.receive h.free packet rest
  have hstatus := hwaits.idle.status
  rcases handleCommand_served hreceived.databaseHandle_eq (by exact hstatus) hhandle with
    ⟨hrv, -⟩ | ⟨-, r, hrequest, hserved⟩
  · cases hrv
  · obtain ⟨hmem, hcode⟩ := (Sends.command hwaits hcommand).status_mem
    obtain ⟨hkept, hfree⟩ := (hreceived.serve hserved hfixed).reply hmem hcode hreply
    obtain ⟨hlast, hsame⟩ := hkept.reset hreset
    refine ⟨⟨settings, first, requests ++ [r], hauth, ?_, ?_⟩, hsame.trans hfree⟩
    · rw [List.map_append, hrequests, List.map_append, List.map_singleton, List.map_singleton]
      exact congrArg (fun x => requests.map some ++ [x]) hrequest
    · rw [← List.append_assoc]
      exact hlast

/-- **Whenever the worker waits for a command**, it has served the packets of the stream so far. -/
theorem Waits.resting {incoming : List Arrival}
    (h : Waits env (World.fresh connectionString incoming) w) : ∃ auth commands,
      arrived incoming = (auth :: commands).flatMap Packet.bytes ++ arrived w.incoming ∧
      Resting env connectionString auth commands w := by
  induction h with
  | start hstart hreply =>
    obtain ⟨packet, hstream, -, -⟩ := workerStart_takes hstart
    have hresting := resting_start hstart hstream hreply
    obtain ⟨hmem, hcode⟩ := (Sends.start hstart).status_mem
    obtain ⟨status, -, rfl⟩ := reply_state hmem hcode hreply
    refine ⟨packet, [], ?_, hresting⟩
    rw [List.flatMap_singleton]
    exact hstream
  | @next w w₁ w₂ w' hwaits hcommand hreply hreset ih =>
    obtain ⟨auth, commands, hall, hresting⟩ := ih
    obtain ⟨packet, htakes, -⟩ := handleCommandPacket_takes hwaits.idle.status hcommand
    have hnext := hresting.next hwaits hcommand htakes.arrived hreply hreset
    obtain ⟨hmem, hcode⟩ := (Sends.command hwaits hcommand).status_mem
    obtain ⟨status, -, rfl⟩ := reply_state hmem hcode hreply
    obtain rfl := resetTransientState_returns hreset
    refine ⟨auth, commands ++ [packet], ?_, hnext⟩
    rw [hall, htakes.arrived, ← List.cons_append, List.flatMap_append, List.append_assoc,
      List.flatMap_singleton]

end

end Fxmy
