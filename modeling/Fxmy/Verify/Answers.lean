import Fxmy.Verify.Conversations
import Fxmy.Verify.Told

/-!
# The worker is a session

What the client is sent and what the driver is asked is a transcript of the session in
`Fxmy.Requests` (`waits_transcript`), at every moment of a run.
-/

namespace Fxmy

open Exec Dialogue

section

variable {env : Env} {w w' : World} {rv : Int} {dbc : Handle}

/-! ## Success -/

/-- A query succeeds if its request does, or is answered without a look at the driver. -/
theorem queryRequest_succeeds {query : List FxmyChar} {r : Request}
    (hdbc : databaseHandle w.conn = .ok dbc) (h : queryRequest env.ctype query = some r) :
    QuerySucceeds env w query ↔
      r.overlooked = true ∨ r.Succeeds env dbc w.conn.connectionString w.calls := by
  unfold queryRequest at h
  unfold QuerySucceeds
  cases hbranch : queryBranch env.ctype query with
  | error fault =>
    rw [hbranch] at h
    cases h
  | ok branch =>
    rw [hbranch] at h
    simp only at h ⊢
    cases branch with
    | setNames =>
      simp only at h
      split at h
      · cases h
        exact iff_of_true trivial (.inr trivial)
      · cases h
    | describe =>
      obtain ⟨text, htext, rfl⟩ := Option.map_eq_some_iff.mp h
      obtain ⟨buffer, hbuffer, htext⟩ := except_bind_eq_ok.mp (eq_ok_of_toOption htext)
      unfold DescribeSucceeds
      rw [hbuffer]
      simp only [Except.ok.injEq, exists_eq_left', Request.overlooked, Bool.false_eq_true, false_or]
      exact execSucceeds_iff env (fun _ => .addressOf) hdbc htext
    | showTables =>
      obtain ⟨text, -, rfl⟩ := Option.map_eq_some_iff.mp h
      exact iff_of_true trivial (.inl rfl)
    | statement =>
      simp only at h ⊢
      unfold StatementSucceeds
      cases htranslate : translate env.ctype query with
      | error fault =>
        rw [htranslate] at h
        cases h
      | ok translated =>
        rw [htranslate] at h
        cases translated with
        | none =>
          cases h
          simp [Request.Succeeds, Request.overlooked]
        | some statement =>
          obtain ⟨text, htext, rfl⟩ := Option.map_eq_some_iff.mp h
          simp only [Except.ok.injEq, Option.some.injEq, exists_eq_left', Request.overlooked,
            Bool.false_eq_true, false_or]
          exact execSucceeds_iff env id hdbc (eq_ok_of_toOption htext)

/-- What a packet asks for succeeds if its request does, or is answered without a look at the
driver. -/
theorem request_succeeds {memory : List UInt8} {size : Nat} {r : Request}
    (hdbc : databaseHandle w.conn = .ok dbc) (h : request env memory size = some r) :
    CommandSucceeds env w memory size ↔
      r.overlooked = true ∨ r.Succeeds env dbc w.conn.connectionString w.calls := by
  unfold request at h
  unfold CommandSucceeds
  cases memory with
  | nil => cases h
  | cons command ptr =>
    simp only at h ⊢
    cases hcommand : Command.ofByte command with
    | none =>
      rw [hcommand] at h
      cases h
    | some c =>
      rw [hcommand] at h
      cases c with
      | quit =>
        cases h
        exact iff_of_true trivial (.inr trivial)
      | initDb =>
        obtain ⟨database, hdatabase, rfl⟩ := Option.map_eq_some_iff.mp h
        simp only [eq_ok_of_toOption hdatabase, Except.ok.injEq, exists_eq_left', ConnectSucceeds,
          hdbc, Request.overlooked, Bool.false_eq_true, false_or]
        exact Iff.rfl
      | query =>
        obtain ⟨query, hdecoded, hquery⟩ := Option.bind_eq_some_iff.mp h
        simp only [eq_ok_of_toOption hdecoded, Except.ok.injEq, exists_eq_left']
        exact queryRequest_succeeds hdbc hquery
      | setOption =>
        simp only at h
        split at h
        · cases h
          exact iff_of_true trivial (.inr trivial)
        · cases h
      | _ => cases h

/-- Without a debugger only a statement that fails is answered. -/
theorem handleCommand_statement {memory : List UInt8} {size : Nat} {text : List FxmyChar}
    (hbuild : env.build.debugger = false) (hrequest : request env memory size = some (.statement text))
    (h : handleCommand env memory size w = .ok rv w') : failed w'.conn.status = .ok true := by
  obtain ⟨command, ptr, rfl, hcases⟩ := handleCommand_returns h
  unfold request at hrequest
  rcases hcases with ⟨hcommand, -, -⟩ | ⟨hcommand, -⟩ | ⟨hcommand, h⟩ | ⟨hcommand, -⟩
  · simp [hcommand] at hrequest
  · simp [hcommand] at hrequest
  · simp only [hcommand] at hrequest
    obtain ⟨query, hdecoded, hwide⟩ := handleQuery_returns h
    obtain ⟨branch, hbranch, hcases⟩ := handleWideQuery_returns hwide
    rw [hdecoded] at hrequest
    change queryRequest env.ctype query = _ at hrequest
    unfold queryRequest at hrequest
    rw [hbranch] at hrequest
    rcases hcases with ⟨rfl, -⟩ | ⟨rfl, -⟩ | ⟨rfl, -⟩ | ⟨rfl, hrefused, -⟩ | ⟨rfl, statement, -, h⟩
    · simp only at hrequest
      split at hrequest
      · cases hrequest
      · cases hrequest
    · simp at hrequest
    · simp at hrequest
    · simp [hrefused] at hrequest
    · exact execStatement_failed hbuild h
  · simp only [hcommand] at hrequest
    split at hrequest
    · cases hrequest
    · cases hrequest

/-- The status behind a command is one that its request may be answered with. -/
theorem handleCommand_replies {memory : List UInt8} {size : Nat} {r : Request} {status : Status}
    (hdbc : databaseHandle w.conn = .ok dbc) (hbefore : w.conn.status = some statusOk)
    (hrequest : request env memory size = some r) (h : handleCommand env memory size w = .ok 0 w')
    (hstatus : w'.conn.status = some status) :
    Replies env dbc w.conn.connectionString w.calls r status := by
  have houtcome : Outcome (CommandSucceeds env w memory size) (some status) := by
    rcases handleCommand_outcome hbefore h with hquits | ⟨-, houtcome⟩
    · cases hquits
    · exact hstatus ▸ houtcome
  obtain ⟨hlisted, hsucceeds⟩ := Outcome.some_iff.mp houtcome
  refine ⟨hlisted, hsucceeds.trans (request_succeeds hdbc hrequest), ?_⟩
  rintro hbuild text rfl
  have hfailed := handleCommand_statement hbuild hrequest h
  rw [hstatus] at hfailed
  simpa [failed] using hfailed

/-! ## Answers -/

/-- With the counters of a success, the result is the packet that the session gives. -/
theorem reply_answers {packet : Packet} (hmem : ∀ s, w.conn.status = some s → s ∈ errorTable)
    (hcounters : w.counters = (0, 0, 0)) (hnumber : w.conn.packetNumber = packet.id.toUInt32 + 1)
    (h : reply env w = .ok ⟨⟩ w') : ∃ status, w.conn.status = some status ∧
      w'.sent = w.sent ++ [answerBytes packet status] ∧ w'.calls = w.calls ∧
      w'.settings = w.settings := by
  have hcode : w.conn.columnCountErrorCode = FXMY_OK := congrArg (·.1) hcounters
  have hrows : w.conn.affectedRows = 0 := congrArg (·.2.1) hcounters
  have hid : w.conn.insertId = 0 := congrArg (·.2.2) hcounters
  obtain ⟨status, hstatus, rfl⟩ := reply_state hmem hcode h
  refine ⟨status, hstatus, ?_, rfl, rfl⟩
  obtain ⟨_, _, -, -, rfl, hmax⟩ := resultBuffer_ok env hstatus (hmem status hstatus) hcode
  have hbody : status.header :: (okLayout w.conn status).tail =
      status.header :: (List.replicate 6 0 ++ status.message) := by
    unfold okLayout
    rw [hrows, hid]
    rfl
  have hpos : 0 < (status.header :: (okLayout w.conn status).tail).length := Nat.succ_pos _
  rw [hbody] at hmax hpos ⊢
  apply congrArg (fun bytes => w.sent ++ [bytes])
  rw [message_eq_frame _ hpos hmax, ← bytes_eq_frame _ hmax, hnumber]
  unfold Packet.bytes answerBytes
  simp only [toUInt8_number]

end

/-! ## Runs -/

section

variable {env : Env} {connectionString : List FxmyChar} {w w' : World}

/-- What the line and the driver have seen when the worker waits for a command. -/
structure Spoken (env : Env) (connectionString : List FxmyChar) (incoming : List Arrival)
    (auth : Packet) (settings : Settings) (first : List Request) (served : List (Packet × Status))
    (w : World) : Prop where
  arrived : arrived incoming =
    (auth :: served.map Prod.fst).flatMap Packet.bytes ++ arrived w.incoming
  authenticated : auth.auth env = some (settings, first)
  transcript : ∃ calls, Conversation env (connectionHandle env) connectionString first calls ∧
    Transcript env (connectionHandle env) connectionString
      (first.foldl Settings.after settings, calls) served (w.settings, w.calls)
  sent : w.sent = greeting.bytes :: answerBytes auth statusOk ::
    served.map fun x => answerBytes x.1 x.2

theorem spoken_start {incoming : List Arrival}
    (hstart : workerStart env (World.fresh connectionString incoming) = .ok ⟨⟩ w)
    (hreply : reply env w = .ok ⟨⟩ w') : ∃ auth settings first,
      Spoken env connectionString incoming auth settings first [] w' := by
  obtain ⟨auth, settings, first, hstream, hauth, hsession⟩ := session_start hstart
  obtain ⟨packet, hstream', hnumber, hsent⟩ := workerStart_takes hstart
  obtain rfl : auth = packet := Packet.eq_of_append (hstream.symm.trans hstream')
  obtain ⟨hmem, hcode⟩ := (Sends.start hstart).status_mem
  obtain ⟨status, hstatus, hanswer, hcalls, hsettings⟩ :=
    reply_answers hmem (Sends.start hstart).counters_eq hnumber hreply
  obtain rfl : statusOk = status :=
    Option.some.inj ((workerStart_idle hstart).status.symm.trans hstatus)
  have hincoming : w'.incoming = w.incoming := by
    obtain ⟨_, -, rfl⟩ := reply_state hmem hcode hreply
    rfl
  refine ⟨auth, settings, first, ?_, hauth, ⟨w.calls, hsession.conversation, ?_⟩, ?_⟩
  · rw [hincoming, List.map_nil, List.flatMap_singleton]
    exact hstream
  · rw [hsettings, hcalls, hsession.settings]
    exact .nil _
  · rw [hanswer, hsent]
    rfl

/-- One more command is served and answered. -/
theorem Spoken.next {incoming : List Arrival} {auth : Packet} {settings : Settings}
    {first : List Request} {served : List (Packet × Status)} {w₁ w₂ : World}
    (h : Spoken env connectionString incoming auth settings first served w)
    (hwaits : Waits env (World.fresh connectionString incoming) w)
    (hcommand : handleCommandPacket env w = .ok 0 w₁) (hreply : reply env w₁ = .ok ⟨⟩ w₂)
    (hreset : resetTransientState env w₂ = .ok ⟨⟩ w') : ∃ x,
      Spoken env connectionString incoming auth settings first (served ++ [x]) w' := by
  obtain ⟨_, _, -, hresting⟩ := hwaits.resting
  obtain ⟨_, _, _, -, -, hsession⟩ := hresting.exists_session
  obtain ⟨packet, rest, hstream, -, hhandle⟩ := handleCommandPacket_returns hcommand
  obtain ⟨hdbc, hstring⟩ := And.intro hsession.databaseHandle_eq hsession.connectionString_eq
  have hidle := hwaits.idle.status
  have htakes := (takes_receive hstream).trans_line
    ((handleCommand_keeps line_unserved env _ _).of_ok hhandle)
  -- The request is served from where its packet has been received.
  obtain ⟨r, hrequest, hserved⟩ : ∃ r, packet.request env = some r ∧
      Served env (connectionHandle env) (w.receive packet rest) r w₁ := by
    rcases handleCommand_served (by exact hdbc) (by exact hidle) hhandle with ⟨hrv, -⟩ | ⟨-, h⟩
    · cases hrv
    · exact h
  obtain ⟨talk, hserving, htalks⟩ := hserved.talk
  obtain ⟨hmem, hcode⟩ := (Sends.command hwaits hcommand).status_mem
  obtain ⟨status, hstatus, hanswer, hcalls, hsettings⟩ :=
    reply_answers hmem (Sends.command hwaits hcommand).counters_eq htakes.number hreply
  have hreplies := handleCommand_replies (by exact hdbc) (by exact hidle) hrequest hhandle hstatus
  have hafter : w₂.incoming = w₁.incoming := by
    obtain ⟨_, -, rfl⟩ := reply_state hmem hcode hreply
    rfl
  obtain rfl := resetTransientState_returns hreset
  obtain ⟨calls, hfirst, htranscript⟩ := h.transcript
  refine ⟨(packet, status), ?_, h.authenticated, ⟨calls, hfirst, ?_⟩, ?_⟩
  · change _ = _ ++ Fxmy.arrived w₂.incoming
    rw [h.arrived, htakes.arrived, hafter, List.map_append, ← List.cons_append,
      List.flatMap_append, List.append_assoc]
    simp
  · change Transcript _ _ _ _ _ (w₂.settings, w₂.calls)
    rw [hsettings, hcalls, hserved.settings]
    exact htranscript.snoc hrequest (hstring ▸ hreplies) (hstring ▸ hserving) htalks
  · change w₂.sent = _
    rw [hanswer, htakes.sent, h.sent, List.map_append]
    rfl

/-- The invariant of the loop. -/
theorem Waits.spoken {incoming : List Arrival}
    (h : Waits env (World.fresh connectionString incoming) w) : ∃ auth settings first served,
      Spoken env connectionString incoming auth settings first served w := by
  induction h with
  | start hstart hreply =>
    obtain ⟨auth, settings, first, hspoken⟩ := spoken_start hstart hreply
    exact ⟨auth, settings, first, [], hspoken⟩
  | next hwaits hcommand hreply hreset ih =>
    obtain ⟨auth, settings, first, served, hspoken⟩ := ih
    obtain ⟨x, hnext⟩ := hspoken.next hwaits hcommand hreply hreset
    exact ⟨auth, settings, first, served ++ [x], hnext⟩

end

end Fxmy
