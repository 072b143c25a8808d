import Fxmy.Verify.Asking
import Fxmy.Verify.Receiving
import Fxmy.Verify.Results

/-!
# What the client is told

A failure of the driver is told if the status that is sent is an error. Each handler decides for
itself whether it keeps the status it was given: DESCRIBE keeps that of the execution and drops that
of the rows, SHOW TABLES drops the execution's, and the worker overwrites what connecting left for
the auth packet. So which failures are told is read off the packet and the driver's answers
(`failures_told_iff`).
-/

namespace Fxmy

open Exec Dialogue

/-! ## Failures -/

/-- The calls that a step stands or falls with. -/
def OdbcCall.Attempts : OdbcCall → Prop
  | .driverConnect _ _ => True
  | .execDirect _ _ => True
  | _ => False

/-- `SQLDriverConnect` or `SQLExecDirect` failed. -/
def Failure (x : OdbcCall × OdbcReply) : Prop := x.1.Attempts ∧ x.2.Failed

/-- If something failed in the dialogue, or nothing was found although a table was asked for, the
status is an error. -/
def Tells (build : Build) (describing : Prop) (talk : Talk) (status : Option Status) : Prop :=
  (∃ x ∈ talk, Failure x) ∨ describing ∧ (∃ x ∈ talk, FindsNothing build x) →
    failed status = .ok true

/-- The status that is made of the answer is an error, and not NULL. -/
def OdbcReply.Fails (reply : OdbcReply) (type : HandleType) (handle : Handle) : Prop :=
  ¬ reply.Succeeds type handle ∧
    (reply.returnCode = SQL_NO_DATA ∨ reply.diagnostics type handle ≠ [])

theorem OdbcReply.failed_of_not_succeeds {reply : OdbcReply} {type : HandleType} {handle : Handle}
    (h : ¬ reply.Succeeds type handle) : reply.Failed :=
  ⟨fun hsuccess => h (.inl hsuccess), fun hinfo => h (.inr (.inl hinfo))⟩

/-- A failure without records leaves NULL. -/
theorem verifyAndLogOdbc_isSome {build : Build} {reply : OdbcReply} {type : HandleType}
    {handle : Handle} {status : Option Status} (hnot : ¬ reply.Succeeds type handle)
    (h : verifyAndLogOdbc build reply type handle = .ok status) : status.isSome = true ↔
      reply.returnCode = SQL_NO_DATA ∨ reply.diagnostics type handle ≠ [] := by
  obtain ⟨hsuccess, hinfo⟩ := OdbcReply.failed_of_not_succeeds hnot
  unfold verifyAndLogOdbc at h
  rw [if_neg hsuccess] at h
  by_cases hcode : reply.returnCode = SQL_NO_DATA
  · rw [if_pos hcode] at h
    cases h
    exact iff_of_true rfl (.inl hcode)
  · rw [if_neg hcode] at h
    obtain ⟨sqlStatus, hread, h⟩ := except_bind_eq_ok.mp h
    rw [if_neg hinfo] at h
    cases h
    rcases readDiagnostics_eq_ok hread with ⟨hnil, rfl⟩ | ⟨native, hlast, s, -, rfl⟩
    · exact iff_of_false Bool.false_ne_true fun h => h.elim hcode (absurd hnil)
    · refine iff_of_true rfl (.inr fun hnil => ?_)
      rw [hnil] at hlast
      cases hlast

theorem verifyAndLogOdbc_fails {build : Build} {reply : OdbcReply} {type : HandleType}
    {handle : Handle} {status : Option Status}
    (h : verifyAndLogOdbc build reply type handle = .ok status) :
    failed status = .ok true ↔ reply.Fails type handle := by
  have houtcome := verifyAndLogOdbc_outcome h
  by_cases hsucceeds : reply.Succeeds type handle
  · refine iff_of_false (fun hfailed => ?_) fun hfails => hfails.1 hsucceeds
    exact Bool.false_ne_true ((houtcome.of_failed hfailed).mpr hsucceeds).symm
  · have hsome := verifyAndLogOdbc_isSome hsucceeds h
    cases status with
    | none => exact iff_of_false (fun hfailed => nomatch hfailed) fun hfails => nomatch hsome.mpr hfails.2
    | some s =>
      have hs : s.succeeded = false :=
        eq_false_of_ne_true (mt (Outcome.some_iff.mp houtcome).2.mp hsucceeds)
      exact iff_of_true (by rw [failed, hs]; rfl) ⟨hsucceeds, hsome.mp rfl⟩

/-! ## Dialogues -/

theorem exists_failure_statement (env : Env) (calls : List OdbcCall) (dbc : Handle)
    (text : List FxmyChar) (rest : Talk) :
    (∃ x ∈ statementTalk env calls dbc text ++ rest, Failure x) ↔
      (executed env calls dbc text).Failed ∨ ∃ x ∈ rest, Failure x := by
  simp [statementTalk, Failure, OdbcCall.Attempts]

theorem not_failure_free {type : HandleType} {handle : Handle} {freed : OdbcReply} :
    ¬ ∃ x ∈ ([(.freeHandle type handle, freed)] : Talk), Failure x := by
  simp [Failure, OdbcCall.Attempts]

theorem not_failure_fetches {handle : Handle} {rows : Talk}
    (h : ∀ x ∈ rows, x.1 = .fetch handle) : ¬ ∃ x ∈ rows, Failure x := by
  rintro ⟨x, hx, hattempts, -⟩
  rw [h x hx] at hattempts
  exact hattempts

theorem exists_failure_connect {dbc : Handle} {connectionString : List FxmyChar} {reply : OdbcReply}
    (talk : Talk) (h : reply.Failed) :
    ∃ x ∈ (.driverConnect dbc connectionString, reply) :: talk, Failure x :=
  ⟨_, List.mem_cons_self, trivial, h⟩

section

variable {build : Build} {describing : Prop} {talk : Talk} {status : Option Status}

/-- Without an error, nothing may have failed and nothing may be missing. -/
theorem tells_success_iff (h : failed status ≠ .ok true) : Tells build describing talk status ↔
    (¬ ∃ x ∈ talk, Failure x) ∧ ¬ (describing ∧ ∃ x ∈ talk, FindsNothing build x) := by
  unfold Tells
  rw [imp_iff_not h, not_or]

/-- A failure needs an error. -/
theorem tells_failure_iff (h : ∃ x ∈ talk, Failure x) :
    Tells build describing talk status ↔ failed status = .ok true :=
  ⟨fun htells => htells (.inl h), fun hfailed _ => hfailed⟩

end

/-! ## Connecting -/

/-- `SQLDriverConnect` does not fail, or both it and the USE statement leave an error. -/
def ConnectTells (env : Env) (w : World) (database : List FxmyChar) : Prop :=
  ∃ dbc call, databaseHandle w.conn = .ok dbc ∧ call = .driverConnect dbc w.conn.connectionString ∧
    (¬ (env.odbc w.calls call).Failed ∨
      ¬ (env.odbc w.calls call).Succeeds .dbc dbc ∧ ∃ text, useText (some database) = .ok text ∧
        (executed env (w.calls ++ [call]) dbc text).Fails .stmt
          (statementHandle env (w.calls ++ [call]) dbc))

section

variable {env : Env} {w w' : World} {rv : Int}

/-- A connection fails with `SQLDriverConnect`. -/
theorem connect_failure (h : connect env w = .ok rv w') :
    ∃ dbc talk, databaseHandle w.conn = .ok dbc ∧ Asks env w talk 0 w' ∧
      ((∃ x ∈ talk, Failure x) ↔
        (env.odbc w.calls (.driverConnect dbc w.conn.connectionString)).Failed) ∧
      ¬ ∃ x ∈ talk, FindsNothing env.build x := by
  obtain ⟨dbc, _, talk, hdbc, rfl, hasks, hcases⟩ := connect_asks h
  refine ⟨dbc, _, hdbc, hasks, ?_, ?_⟩
  · rcases hcases with ⟨-, rfl, -⟩ | ⟨hnot, -⟩
    · simp [Failure, OdbcCall.Attempts]
    · have hfailed := OdbcReply.failed_of_not_succeeds hnot
      exact iff_of_true (exists_failure_connect _ hfailed) hfailed
  · rcases hcases with ⟨-, rfl, -⟩ | ⟨-, _, _, -, -, rfl, -⟩
    · simp [FindsNothing]
    · simp [FindsNothing, statementTalk]

theorem connect_tells {database : List FxmyChar} (hdatabase : w.conn.database = some database)
    (h : connect env w = .ok rv w') : ∃ talk, Asks env w talk 0 w' ∧
      ∀ describing, Tells env.build describing talk w'.conn.status ↔ ConnectTells env w database := by
  obtain ⟨dbc, _, talk, hdbc, rfl, hasks, hcases⟩ := connect_asks h
  refine ⟨_, hasks, fun describing => ?_⟩
  unfold ConnectTells
  rw [hdbc]
  simp only [Except.ok.injEq]
  rcases hcases with ⟨hsucceeds, rfl, hstatus⟩ | ⟨hnot, text, freed, htext, -, rfl, hstatus⟩
  · have hsuccess : failed w'.conn.status ≠ .ok true := by
      intro hfailed
      cases hs : w'.conn.status with
      | none => rw [hs] at hfailed; cases hfailed
      | some s =>
        rw [hs, succeeded, Except.ok.injEq] at hstatus
        rw [hs, failed, hstatus] at hfailed
        cases hfailed
    rw [tells_success_iff hsuccess]
    simp [Failure, OdbcCall.Attempts, FindsNothing, hsucceeds]
  · have hfailed := OdbcReply.failed_of_not_succeeds hnot
    rw [tells_failure_iff (exists_failure_connect _ hfailed), verifyAndLogOdbc_fails hstatus,
      ← hdatabase, htext]
    simp [hfailed, hnot]

/-! ## Queries -/

/-- `SQLExecDirect` fails on the text of a block. -/
def ExecFails (env : Env) (w : World) (block : List FxmyChar) : Prop :=
  ∃ dbc text, databaseHandle w.conn = .ok dbc ∧ stringText block = .ok text ∧
    (executed env w.calls dbc text).Failed

/-- DESCRIBE does not succeed, and the procedure of SHOW TABLES does not fail. -/
def QueryTells (env : Env) (w : World) (query : List FxmyChar) : Prop :=
  match queryBranch env.ctype query with
  | .ok .describe => ¬ DescribeSucceeds env w query
  | .ok .showTables => ¬ ∃ buffer, showTablesText env.ctype query = .ok buffer ∧ ExecFails env w buffer
  | _ => True

/-- A table that is not found is reported as a success. -/
theorem describe_tells {query : List FxmyChar} (h : describe env query w = .ok rv w') :
    ∃ talk, Asks env w talk 0 w' ∧
      (Tells env.build True talk w'.conn.status ↔ ¬ DescribeSucceeds env w query) := by
  obtain ⟨-, houtcome⟩ := describe_outcome h
  obtain ⟨dbc, text, rest, hasks, hcases⟩ := describe_asks h
  refine ⟨_, hasks, ?_⟩
  rcases hcases with ⟨hfailed, -⟩ | ⟨hfailed, rows, freed, rfl, x, hx, hfinds⟩
  · refine iff_of_true (fun _ => hfailed) ?_
    exact mt (houtcome.of_failed hfailed).mpr (by decide)
  · refine iff_of_false (fun htells => ?_) (not_not_intro ((houtcome.of_failed hfailed).mp rfl))
    have htold := htells (.inr ⟨trivial, x, by simp [hx], hfinds⟩)
    rw [hfailed] at htold
    cases htold

theorem showTables_tells {query : List FxmyChar} (hstatus : w.conn.status = some statusOk)
    (h : showTables env query w = .ok rv w') : ∃ talk, Asks env w talk 0 w' ∧
      (Tells env.build False talk w'.conn.status ↔
        ¬ ∃ buffer, showTablesText env.ctype query = .ok buffer ∧ ExecFails env w buffer) := by
  obtain ⟨-, houtcome⟩ := showTables_outcome hstatus h
  obtain ⟨buffer, dbc, text, rest, hbuffer, hdbc, htext, -, hasks, hcases⟩ := showTables_asks h
  refine ⟨_, hasks, ?_⟩
  have hsuccess : failed w'.conn.status ≠ .ok true := by
    intro hfailed
    cases (houtcome.of_failed hfailed).mpr trivial
  have hrest : ¬ ∃ x ∈ rest, Failure x := by
    rcases hcases with hfetches | ⟨freed, rfl⟩
    · exact not_failure_fetches hfetches
    · exact not_failure_free
  rw [tells_success_iff hsuccess, exists_failure_statement, hbuffer]
  simp [hrest, ExecFails, hdbc, htext]

/-- Without a debugger only a statement that fails is answered. -/
theorem execStatement_failed {statement : List FxmyChar} (hbuild : env.build.debugger = false)
    (h : execStatement env statement w = .ok rv w') : failed w'.conn.status = .ok true := by
  obtain ⟨-, dbc, text, status, kept, -, -, -, -, hkept, rfl⟩ := execStatement_returns h
  rcases hkept with ⟨hfailed, rfl⟩ | ⟨-, hdebugger, -⟩
  · exact hfailed
  · cases hbuild.symm.trans hdebugger

theorem handleWideQuery_tells {query : List FxmyChar} (hbuild : env.build.debugger = false)
    (hstatus : w.conn.status = some statusOk) (h : handleWideQuery env query w = .ok rv w') :
    ∃ talk blocks, Asks env w talk blocks w' ∧
      (Tells env.build (queryBranch env.ctype query = .ok .describe) talk w'.conn.status ↔
        QueryTells env w query) := by
  obtain ⟨branch, hbranch, hcases⟩ := handleWideQuery_returns h
  unfold QueryTells
  rw [hbranch]
  simp only [Except.ok.injEq]
  rcases hcases with ⟨rfl, -, rfl⟩ | ⟨rfl, h⟩ | ⟨rfl, h⟩ | ⟨rfl, -, -, rfl⟩ | ⟨rfl, statement, -, h⟩
  · refine ⟨[], 0, ⟨.nil _, (Int.add_zero _).symm⟩, iff_of_true ?_ trivial⟩
    simp [Tells]
  · obtain ⟨talk, hasks, htells⟩ := describe_tells h
    exact ⟨talk, 0, hasks, by simpa using htells⟩
  · obtain ⟨talk, hasks, htells⟩ := showTables_tells hstatus h
    exact ⟨talk, 0, hasks, by simpa using htells⟩
  · exact ⟨[], 0, ⟨.nil _, (Int.add_zero _).symm⟩, iff_of_true (fun _ => rfl) trivial⟩
  · obtain ⟨dbc, text, freed, hasks⟩ := execStatement_asks h
    exact ⟨_, _, hasks, iff_of_true (fun _ => execStatement_failed hbuild h) trivial⟩

/-! ## Commands -/

/-- The bytes of a packet ask to describe a table. -/
def Describes (env : Env) (memory : List UInt8) (size : Nat) : Prop :=
  ∃ command ptr query, memory = command :: ptr ∧ Command.ofByte command = some .query ∧
    decodeQuery env.build ptr (size - 1) = .ok query ∧ queryBranch env.ctype query = .ok .describe

theorem describes_iff {env : Env} {command : UInt8} {ptr : List UInt8} {query : List FxmyChar}
    {size : Nat} (hcommand : Command.ofByte command = some .query)
    (hdecoded : decodeQuery env.build ptr (size - 1) = .ok query) :
    Describes env (command :: ptr) size ↔ queryBranch env.ctype query = .ok .describe := by
  constructor
  · intro h
    obtain ⟨_, _, _, hmemory, -, hdecoded', hbranch⟩ := h
    cases hmemory
    rw [hdecoded] at hdecoded'
    cases hdecoded'
    exact hbranch
  · exact fun hbranch => ⟨command, ptr, query, rfl, hcommand, hdecoded, hbranch⟩

/-- What the bytes of a packet ask for is told if it fails. -/
def CommandTells (env : Env) (w : World) (memory : List UInt8) (size : Nat) : Prop :=
  match memory with
  | [] => True
  | command :: ptr =>
    match Command.ofByte command with
    | some .initDb => ∃ database,
        fstrfromchar env.build (List.replicate (size - 1 + 1) nul) ptr (size - 1) = .ok database ∧
          ConnectTells env w database
    | some .query => ∃ query, decodeQuery env.build ptr (size - 1) = .ok query ∧ QueryTells env w query
    | _ => True

theorem handleInitDb_tells {ptr : List UInt8} {size : Nat}
    (h : handleInitDb env ptr size w = .ok rv w') : ∃ talk, Talks env.odbc w.calls talk w'.calls ∧
      ∀ describing, Tells env.build describing talk w'.conn.status ↔ ∃ database,
        fstrfromchar env.build (List.replicate (size + 1) nul) ptr size = .ok database ∧
          ConnectTells env w database := by
  obtain ⟨database, blocks, hdatabase, hconnect⟩ := handleInitDb_returns h
  obtain ⟨talk, hasks, htells⟩ := connect_tells rfl hconnect
  rw [hdatabase]
  simp only [Except.ok.injEq, exists_eq_left']
  exact ⟨talk, hasks.talks, htells⟩

theorem handleQuery_tells {query : List UInt8} {size : Nat} (hbuild : env.build.debugger = false)
    (hstatus : w.conn.status = some statusOk) (h : handleQuery env query size w = .ok rv w') :
    ∃ talk wideQuery, decodeQuery env.build query size = .ok wideQuery ∧
      Talks env.odbc w.calls talk w'.calls ∧
      (Tells env.build (queryBranch env.ctype wideQuery = .ok .describe) talk w'.conn.status ↔
        QueryTells env w wideQuery) := by
  obtain ⟨wideQuery, hdecoded, hwide⟩ := handleQuery_returns h
  obtain ⟨talk, _, hasks, htells⟩ := handleWideQuery_tells hbuild (by exact hstatus) hwide
  exact ⟨talk, wideQuery, hdecoded, hasks.talks, htells⟩

theorem handleCommand_tells {memory : List UInt8} {size : Nat} (hbuild : env.build.debugger = false)
    (hstatus : w.conn.status = some statusOk) (h : handleCommand env memory size w = .ok 0 w') :
    ∃ talk, Talks env.odbc w.calls talk w'.calls ∧
      (Tells env.build (Describes env memory size) talk w'.conn.status ↔
        CommandTells env w memory size) := by
  obtain ⟨command, ptr, rfl, hcases⟩ := handleCommand_returns h
  simp only [CommandTells]
  rcases hcases with ⟨-, hquit, -⟩ | ⟨hcommand, h⟩ | ⟨hcommand, h⟩ | ⟨hcommand, h⟩
  · cases hquit
  · rw [hcommand]
    obtain ⟨talk, htalks, htells⟩ := handleInitDb_tells h
    exact ⟨talk, htalks, htells _⟩
  · obtain ⟨talk, query, hdecoded, htalks, htells⟩ := handleQuery_tells hbuild hstatus h
    refine ⟨talk, htalks, ?_⟩
    rw [describes_iff hcommand hdecoded, htells, hcommand]
    simp only [hdecoded, Except.ok.injEq, exists_eq_left']
  · rw [hcommand]
    obtain ⟨-, off, rfl⟩ := handleSetOption_returns h
    exact ⟨[], .nil _, iff_of_true (by simp [Tells]) trivial⟩

end

/-! ## Packets -/

/-- The next packet of the stream is one of `P`. -/
def NextPacket (w : World) (P : Packet → Prop) : Prop :=
  ∃ packet rest, arrived w.incoming = packet.bytes ++ rest ∧ P packet

theorem nextPacket_iff {w : World} {packet : Packet} {rest : List UInt8} {P : Packet → Prop}
    (h : arrived w.incoming = packet.bytes ++ rest) : NextPacket w P ↔ P packet := by
  constructor
  · intro hnext
    obtain ⟨packet', rest', hstream, hpacket⟩ := hnext
    rwa [Packet.eq_of_append (h.symm.trans hstream)]
  · exact fun hpacket => ⟨packet, rest, h, hpacket⟩

/-- What failed between `w` and `w'` shows in the status. -/
def Told (env : Env) (w w' : World) : Prop :=
  Tells env.build (NextPacket w fun packet => Describes env (packet.body ++ [0]) packet.body.length)
    (asked env w w') w'.conn.status

/-- The auth packet asks for a database. -/
def AsksForDatabase (packet : Packet) : Prop :=
  ∃ flags size charset buffer, parseAuthFields ⟨some (packet.body ++ [0]), packet.body.length, 0⟩ =
    .ok (flags, size, charset, buffer) ∧ flags &&& CLIENT_CONNECT_WITH_DB ≠ 0

section

variable {env : Env} {w w' : World}

theorem handleCommandPacket_told_iff (hbuild : env.build.debugger = false)
    (hstatus : w.conn.status = some statusOk) (h : handleCommandPacket env w = .ok 0 w') :
    Told env w w' ↔
      NextPacket w fun packet => CommandTells env w (packet.body ++ [0]) packet.body.length := by
  obtain ⟨packet, incoming, hstream, -, hcommand⟩ := handleCommandPacket_returns h
  obtain ⟨talk, htalks, htells⟩ := handleCommand_tells hbuild (by exact hstatus) hcommand
  have hasked : asked env w w' = talk := htalks.answered_eq
  unfold Told
  rw [nextPacket_iff hstream, nextPacket_iff hstream, hasked]
  exact htells

/-- The auth packet connects if it asks for a database. -/
theorem parseAuthPacket_failure {packet : Packet} {rv : Int}
    (hmemory : w.conn.xferBuffer.memory = some (packet.body ++ [0]))
    (hsize : w.conn.xferBuffer.size = packet.body.length)
    (h : parseAuthPacket env w = .ok rv w') :
    ∃ dbc talk, (AsksForDatabase packet → databaseHandle w.conn = .ok dbc) ∧
      Talks env.odbc w.calls talk w'.calls ∧
      ((∃ x ∈ talk, Failure x) ↔ AsksForDatabase packet ∧
        (env.odbc w.calls (.driverConnect dbc w.conn.connectionString)).Failed) ∧
      ¬ ∃ x ∈ talk, FindsNothing env.build x := by
  obtain ⟨flags, size, charset, buffer, _, hfields, rfl, hcases⟩ := parseAuthPacket_returns h
  have hfields : parseAuthFields ⟨some (packet.body ++ [0]), packet.body.length, 0⟩ =
      .ok (flags, size, charset, buffer) := by
    rw [← hmemory, ← hsize]
    exact hfields
  have hasks : AsksForDatabase packet ↔ flags &&& CLIENT_CONNECT_WITH_DB ≠ 0 := by
    unfold AsksForDatabase
    rw [hfields]
    simp
  rcases hcases with ⟨hdatabase, database, -, hconnect⟩ | ⟨hzero, -, rfl⟩
  · obtain ⟨dbc, talk, hdbc, htalk, hfailure, hfinds⟩ := connect_failure hconnect
    refine ⟨dbc, talk, fun _ => hdbc, htalk.talks, ?_, hfinds⟩
    rw [hfailure]
    exact (and_iff_right (hasks.mpr hdatabase)).symm
  · have hnot : ¬ AsksForDatabase packet := fun h => hasks.mp h hzero
    refine ⟨.null, [], fun h => absurd h hnot, .nil _, ?_, by simp⟩
    simp [hnot]

end

/-! ## The start -/

/-- The auth packet asks for no database, or `SQLDriverConnect` does not fail. -/
def StartTells (env : Env) (w : World) : Prop :=
  ¬ (NextPacket w AsksForDatabase ∧ (env.odbc (startCalls env)
    (.driverConnect (connectionHandle env) w.conn.connectionString)).Failed)

/-- The worker overwrites what connecting left. -/
theorem workerStart_told_iff {env : Env} {connectionString : List FxmyChar} {incoming : List Arrival}
    {w : World} (h : workerStart env (World.fresh connectionString incoming) = .ok ⟨⟩ w) :
    Told env (World.fresh connectionString incoming) w ↔
      StartTells env (World.fresh connectionString incoming) := by
  obtain ⟨packet, rest, rv, w₁, hstream, hparse, rfl⟩ := workerStart_returns h
  obtain ⟨dbc, talk, hdbc, htalks, hfailure, hfinds⟩ := parseAuthPacket_failure rfl rfl hparse
  have hstart : Talks env.odbc [] (answered env.odbc [] (startCalls env)) (startCalls env) :=
    .cons (.cons (.cons (.nil _)))
  have hasked : asked env (World.fresh connectionString incoming) (w₁.report (some statusOk)) =
      answered env.odbc [] (startCalls env) ++ talk := (hstart.append htalks).answered_eq
  have hstream : arrived (World.fresh connectionString incoming).incoming = _ := hstream
  have hfailed : failed (w₁.report (some statusOk)).conn.status ≠ .ok true := nofun
  unfold Told StartTells
  rw [hasked, tells_success_iff hfailed, nextPacket_iff hstream, nextPacket_iff hstream]
  have hstartFailure : ¬ ∃ x ∈ answered env.odbc [] (startCalls env), Failure x := by
    simp [answered, startCalls, Failure, OdbcCall.Attempts]
  have hstartFinds : ¬ ∃ x ∈ answered env.odbc [] (startCalls env), FindsNothing env.build x := by
    simp [answered, startCalls, FindsNothing]
  simp only [List.mem_append, or_and_right, exists_or, hstartFailure, hstartFinds, hfailure, hfinds,
    false_or, and_false, not_false_eq_true, and_true]
  apply not_congr
  apply and_congr_right
  intro hdatabase
  obtain rfl : connectionHandle env = dbc := Except.ok.inj (hdbc hdatabase)
  rfl

/-! ## Runs -/

/-- The steps of a run that are answered, from the state before the step to the one in which
`fxmy_send_result` is called. -/
inductive Step (env : Env) (w₀ : World) : World → World → Prop where
  | start {w : World} : workerStart env w₀ = .ok ⟨⟩ w → Step env w₀ w₀ w
  | command {w w' : World} : Waits env w₀ w → handleCommandPacket env w = .ok 0 w' → Step env w₀ w w'

/-- **The failures of a run are told** exactly if its first step and each of its commands tells them.
Without a debugger a `__debugbreak` ends the run. -/
theorem failures_told_iff (env : Env) (hbuild : env.build.debugger = false)
    (connectionString : List FxmyChar) (incoming : List Arrival) :
    let w₀ := World.fresh connectionString incoming
    (∀ w w', Step env w₀ w w' → Told env w w') ↔
      (∀ w, workerStart env w₀ = .ok ⟨⟩ w → StartTells env w₀) ∧
      ∀ w w', Waits env w₀ w → handleCommandPacket env w = .ok 0 w' →
        NextPacket w fun packet => CommandTells env w (packet.body ++ [0]) packet.body.length := by
  refine ⟨fun htold => ⟨?_, ?_⟩, ?_⟩
  · intro w hstart
    exact (workerStart_told_iff hstart).mp (htold _ _ (.start hstart))
  · intro w w' hwaits hcommand
    exact (handleCommandPacket_told_iff hbuild hwaits.idle.status hcommand).mp
      (htold _ _ (.command hwaits hcommand))
  · rintro ⟨hstarts, hcommands⟩ w w' hstep
    cases hstep with
    | start hstart => exact (workerStart_told_iff hstart).mpr (hstarts _ hstart)
    | command hwaits hcommand =>
      exact (handleCommandPacket_told_iff hbuild hwaits.idle.status hcommand).mpr
        (hcommands _ _ hwaits hcommand)

/-- The run of a client that selects a database. -/
theorem failures_told_selecting :
    (∀ w w', Step (.benign obliging) (World.fresh [] selectDatabase) w w' →
      Told (.benign obliging) w w') ↔
      (∀ w, workerStart (.benign obliging) (World.fresh [] selectDatabase) = .ok ⟨⟩ w →
        StartTells (.benign obliging) (World.fresh [] selectDatabase)) ∧
      ∀ w w', Waits (.benign obliging) (World.fresh [] selectDatabase) w →
        handleCommandPacket (.benign obliging) w = .ok 0 w' → NextPacket w fun packet =>
          CommandTells (.benign obliging) w (packet.body ++ [0]) packet.body.length :=
  failures_told_iff (.benign obliging) rfl [] selectDatabase

/-- A driver that finds no row. -/
def emptyDatabase (calls : List OdbcCall) (call : OdbcCall) : OdbcReply :=
  match call with
  | .fetch _ => ⟨SQL_NO_DATA, .null, fun _ _ => []⟩
  | _ => obliging calls call

/-- The command `DESCRIBE t`. -/
def describePacket : Packet := ⟨0, 3 :: chars "DESCRIBE t", by decide⟩

/-- A client that authenticates as `sa` without a database and then asks for the columns of `t`. -/
def describeTable : List Arrival := [
  .data (frameHeader 36 1),
  .data ([0, 0x82, 0, 0, 0, 0, 0, 1, 8] ++ List.replicate 23 0 ++ [0x73, 0x61, 0, 0]),
  .data (frameHeader describePacket.body.length 0),
  .data describePacket.body]

/-- That there is no table `t` is not told. -/
theorem missing_table_not_told :
    ∃ w w', Step (.benign emptyDatabase) (World.fresh [] describeTable) w w' ∧
      ¬ Told (.benign emptyDatabase) w w' := by
  obtain ⟨w₃, hrun⟩ : ∃ w₃, (do
      workerStart (.benign emptyDatabase)
      reply (.benign emptyDatabase)
      let w ← get
      let rv ← handleCommandPacket (.benign emptyDatabase)
      let w' ← get
      pure (rv, arrived w.incoming, (w'.calls.drop w.calls.length).contains (.fetch (.given 1)),
        w'.conn.status) : Prog (Int × List UInt8 × Bool × Option Status))
      (World.fresh [] describeTable) = .ok (0, describePacket.bytes, true, some statusOk) w₃ :=
    value_eq_some.mp (by decide +kernel)
  obtain ⟨_, w₁, hstart, hrun⟩ := bind_eq_ok.mp hrun
  obtain ⟨_, w, hreply, hrun⟩ := bind_eq_ok.mp hrun
  rw [bind_get] at hrun
  obtain ⟨rv, w', hcommand, hrun⟩ := bind_eq_ok.mp hrun
  rw [bind_get] at hrun
  injection hrun with hvalue
  simp only [Prod.mk.injEq] at hvalue
  obtain ⟨rfl, hstream, hfetch, hstatus⟩ := hvalue
  refine ⟨w, w', .command (.start hstart hreply) hcommand, fun htold => ?_⟩
  have hdecoded : decodeQuery (Env.benign emptyDatabase).build (chars "DESCRIBE t" ++ [0])
      (describePacket.body.length - 1) = .ok (chars "DESCRIBE t" ++ [nul]) :=
    eq_ok_of_toOption (by decide +kernel)
  have hbranch : queryBranch (Env.benign emptyDatabase).ctype (chars "DESCRIBE t" ++ [nul]) =
      .ok .describe := eq_ok_of_toOption (by decide +kernel)
  have hdescribes : Describes (.benign emptyDatabase) (describePacket.body ++ [0])
      describePacket.body.length := ⟨3, _, _, rfl, by decide, hdecoded, hbranch⟩
  obtain ⟨earlier, hmem⟩ := exists_mem_answered emptyDatabase w.calls
    (List.contains_iff_mem.mp hfetch)
  have hfinds : FindsNothing (Env.benign emptyDatabase).build
      (.fetch (.given 1), emptyDatabase earlier (.fetch (.given 1))) := ⟨.given 1, _, rfl, rfl, rfl⟩
  have hfailed := htold (.inr ⟨⟨describePacket, [], by rw [hstream, List.append_nil], hdescribes⟩,
    _, hmem, hfinds⟩)
  rw [hstatus] at hfailed
  cases hfailed

end Fxmy
