import Fxmy.Main
import Fxmy.Verify.Receiving

/-!
# Where the functions return

For each function that asks ODBC for something: the answers it has gone on with and the state it
returns in, case by case. What is said of a status, of a dialogue or of a balance is read off these
lemmas, so that none of it unfolds a function again.
-/

namespace Fxmy

open Exec

/-! ## Steps -/

/-- One more call to ODBC. -/
def World.ask (w : World) (call : OdbcCall) : World := { w with calls := w.calls ++ [call] }

/-- Another status. -/
def World.report (w : World) (status : Option Status) : World :=
  { w with conn := { w.conn with status := status } }

/-- More blocks, or fewer. -/
def World.count (w : World) (blocks : Int) : World :=
  { w with numAllocations := w.numAllocations + blocks }

theorem count_count (w : World) (m n : Int) : (w.count m).count n = w.count (m + n) := by
  unfold World.count
  rw [Int.add_assoc]

/-- The handle that the driver gives out for a statement, after the calls so far. -/
def statementHandle (env : Env) (calls : List OdbcCall) (dbc : Handle) : Handle :=
  (env.odbc calls (.allocHandle .stmt dbc)).handle

/-- The answer to a text that is executed on a new statement handle. -/
def executed (env : Env) (calls : List OdbcCall) (dbc : Handle) (text : List FxmyChar) : OdbcReply :=
  env.odbc (calls ++ [.allocHandle .stmt dbc]) (.execDirect (statementHandle env calls dbc) text)

/-- A text is executed on a new statement handle. -/
def World.execute (w : World) (env : Env) (dbc : Handle) (text : List FxmyChar) : World :=
  (w.ask (.allocHandle .stmt dbc)).ask (.execDirect (statementHandle env w.calls dbc) text)

section

variable {env : Env} {w w' : World}

theorem fxmyFree_returns {α : Type} {block : Option α} {u : PUnit}
    (h : Prog.fxmyFree block w = .ok u w') : w' = w.count (if block.isSome then -1 else 0) := by
  cases block with
  | none =>
    cases h
    simp [World.count]
  | some a =>
    cases h
    rfl

/-! ## Statements -/

/-- The handle is kept where the execution succeeds, and released where it fails. -/
theorem exec_returns {query : List FxmyChar} {result : Option Status × Handle}
    (h : exec env query w = .ok result w') :
    ∃ dbc text, databaseHandle w.conn = .ok dbc ∧ stringText query = .ok text ∧
      verifyOdbc env.build (env.odbc w.calls (.allocHandle .stmt dbc)) .dbc dbc = .ok () ∧
      verifyAndLogOdbc env.build (executed env w.calls dbc text) .stmt .addressOf = .ok result.1 ∧
      (failed result.1 = .ok false ∧ result.2 = statementHandle env w.calls dbc ∧
          w' = w.execute env dbc text ∨
        failed result.1 = .ok true ∧ result.2 = .null ∧
          w' = (w.execute env dbc text).ask (.freeHandle .stmt (statementHandle env w.calls dbc))) := by
  unfold exec at h
  rw [bind_get] at h
  obtain ⟨dbc, hdbc, h⟩ := bind_lift_eq_ok.mp h
  rw [Prog.bind_odbcCall] at h
  obtain ⟨_, halloc, h⟩ := bind_lift_eq_ok.mp h
  obtain ⟨text, htext, h⟩ := bind_lift_eq_ok.mp h
  rw [Prog.bind_odbcCall] at h
  obtain ⟨status, hstatus, h⟩ := bind_lift_eq_ok.mp h
  obtain ⟨b, hb, h⟩ := bind_lift_eq_ok.mp h
  cases b with
  | true =>
    rw [if_pos rfl, Prog.bind_odbcCall] at h
    obtain ⟨_, -, h⟩ := bind_lift_eq_ok.mp h
    cases h
    exact ⟨dbc, text, hdbc, htext, halloc, hstatus, .inr ⟨hb, rfl, rfl⟩⟩
  | false =>
    rw [if_neg Bool.false_ne_true] at h
    cases h
    exact ⟨dbc, text, hdbc, htext, halloc, hstatus, .inl ⟨hb, rfl, rfl⟩⟩

/-- Only a failure is kept; a success breaks into the debugger. -/
theorem execStatement_returns {statement : List FxmyChar} {rv : Int}
    (h : execStatement env statement w = .ok rv w') :
    rv = 0 ∧ ∃ dbc text status kept, databaseHandle w.conn = .ok dbc ∧
      stringText statement = .ok text ∧
      verifyOdbc env.build (env.odbc w.calls (.allocHandle .stmt dbc)) .dbc dbc = .ok () ∧
      verifyAndLogOdbc env.build (executed env w.calls dbc text) .stmt
        (statementHandle env w.calls dbc) = .ok status ∧
      (failed status = .ok true ∧ kept = status ∨
        failed status = .ok false ∧ env.build.debugger = true ∧ kept = w.conn.status) ∧
      w' = (((w.execute env dbc text).report kept).ask
        (.freeHandle .stmt (statementHandle env w.calls dbc))).count (-1) := by
  unfold execStatement at h
  rw [bind_get] at h
  obtain ⟨dbc, hdbc, h⟩ := bind_lift_eq_ok.mp h
  rw [Prog.bind_odbcCall] at h
  obtain ⟨_, halloc, h⟩ := bind_lift_eq_ok.mp h
  obtain ⟨text, htext, h⟩ := bind_lift_eq_ok.mp h
  rw [Prog.bind_odbcCall] at h
  obtain ⟨status, hstatus, h⟩ := bind_lift_eq_ok.mp h
  obtain ⟨_, w₁, hset, h⟩ := bind_eq_ok.mp h
  rw [Prog.bind_odbcCall] at h
  obtain ⟨_, -, h⟩ := bind_lift_eq_ok.mp h
  rw [Prog.bind_fxmyFree] at h
  cases h
  unfold statementStatus at hset
  obtain ⟨b, hb, hset⟩ := bind_lift_eq_ok.mp hset
  cases b with
  | true =>
    rw [if_pos rfl] at hset
    cases hset
    exact ⟨rfl, dbc, text, status, _, hdbc, htext, halloc, hstatus, .inl ⟨hb, rfl⟩, rfl⟩
  | false =>
    rw [if_neg Bool.false_ne_true] at hset
    obtain ⟨hbreak, rfl⟩ := lift_eq_ok.mp hset
    have hdebugger : env.build.debugger = true := by
      unfold debugbreak at hbreak
      split at hbreak
      · assumption
      · cases hbreak
    exact ⟨rfl, dbc, text, status, _, hdbc, htext, halloc, hstatus, .inr ⟨hb, hdebugger, rfl⟩, rfl⟩

/-! ## Connecting -/

/-- The USE statement is executed where the connection is not made. -/
theorem connect_returns {rv : Int} (h : connect env w = .ok rv w') :
    rv = 0 ∧ ∃ dbc call status, databaseHandle w.conn = .ok dbc ∧
      call = .driverConnect dbc w.conn.connectionString ∧
      verifyAndLogOdbc env.build (env.odbc w.calls call) .dbc dbc = .ok status ∧
      (succeeded status = .ok true ∧ w' = (w.ask call).report status ∨
        succeeded status = .ok false ∧ ∃ text used, useText w.conn.database = .ok text ∧
          verifyOdbc env.build (env.odbc (w.ask call).calls (.allocHandle .stmt dbc)) .dbc dbc =
            .ok () ∧
          verifyAndLogOdbc env.build (executed env (w.ask call).calls dbc text) .stmt
            (statementHandle env (w.ask call).calls dbc) = .ok used ∧
          w' = (((w.ask call).execute env dbc text).ask
            (.freeHandle .dbc (statementHandle env (w.ask call).calls dbc))).report used) := by
  unfold connect at h
  rw [bind_get] at h
  obtain ⟨dbc, hdbc, h⟩ := bind_lift_eq_ok.mp h
  rw [bind_get] at h
  rw [Prog.bind_odbcCall] at h
  obtain ⟨status, hstatus, h⟩ := bind_lift_eq_ok.mp h
  rw [bind_modify] at h
  obtain ⟨b, hb, h⟩ := bind_lift_eq_ok.mp h
  cases b with
  | true =>
    rw [if_pos rfl] at h
    cases h
    exact ⟨rfl, dbc, _, status, hdbc, rfl, hstatus, .inl ⟨hb, rfl⟩⟩
  | false =>
    rw [if_neg Bool.false_ne_true, bind_get] at h
    obtain ⟨text, htext, h⟩ := bind_lift_eq_ok.mp h
    rw [Prog.bind_odbcCall] at h
    obtain ⟨_, halloc, h⟩ := bind_lift_eq_ok.mp h
    rw [Prog.bind_odbcCall] at h
    obtain ⟨used, hused, h⟩ := bind_lift_eq_ok.mp h
    rw [bind_modify] at h
    rw [Prog.bind_odbcCall] at h
    obtain ⟨_, -, h⟩ := bind_lift_eq_ok.mp h
    cases h
    exact ⟨rfl, dbc, _, status, hdbc, rfl, hstatus, .inr ⟨hb, text, used, htext, halloc, hused, rfl⟩⟩

/-! ## Queries -/

theorem describe_returns {query : List FxmyChar} {rv : Int} (h : describe env query w = .ok rv w') :
    rv = 0 ∧ ∃ buffer status handle w₁, describeText env.ctype query = .ok buffer ∧
      exec env buffer (w.count 1) = .ok (status, handle) w₁ ∧
      (failed status = .ok true ∧ w' = (w₁.report status).count (-1) ∨
        failed status = .ok false ∧
          ∃ w₂, describeRows env handle env.fuel (w₁.report status) = .ok ⟨⟩ w₂ ∧
            w' = (w₂.ask (.freeHandle .stmt handle)).count (-1)) := by
  unfold describe at h
  rw [bind_modify] at h
  obtain ⟨buffer, hbuffer, h⟩ := bind_lift_eq_ok.mp h
  obtain ⟨⟨status, handle⟩, w₁, hexec, h⟩ := bind_eq_ok.mp h
  simp only at h
  rw [bind_modify] at h
  obtain ⟨b, hb, h⟩ := bind_lift_eq_ok.mp h
  cases b with
  | true =>
    rw [if_pos rfl, Prog.bind_fxmyFree] at h
    cases h
    exact ⟨rfl, buffer, status, handle, w₁, hbuffer, hexec, .inl ⟨hb, rfl⟩⟩
  | false =>
    rw [if_neg Bool.false_ne_true] at h
    obtain ⟨_, w₂, hrows, h⟩ := bind_eq_ok.mp h
    rw [bind_get] at h
    obtain ⟨_, -, h⟩ := bind_lift_eq_ok.mp h
    rw [Prog.bind_odbcCall] at h
    obtain ⟨_, -, h⟩ := bind_lift_eq_ok.mp h
    rw [Prog.bind_fxmyFree] at h
    cases h
    exact ⟨rfl, buffer, status, handle, w₁, hbuffer, hexec, .inr ⟨hb, w₂, hrows, rfl⟩⟩

/-- The wildcard of SHOW TABLES. -/
def likeWildcard (start stop : Option (List FxmyChar)) : Except Fault (Option (List FxmyChar)) :=
  match start, stop with
  | some start, some stop => some <$> wildcardCopy start stop
  | _, _ => .ok none

/-- The block that SHOW TABLES executes. -/
def showTablesText (ct : Ctype FxmyChar) (query : List FxmyChar) : Except Fault (List FxmyChar) := do
  let (start, stop) ← likeLoop ct (some query) (query.length + 1)
  let wildcard ← likeWildcard start stop
  let formatted ← showTablesFormat wildcard
  snprintf (List.replicate (formatted.length + 1) nul) formatted.length formatted

theorem copyWildcard_returns {start stop wildcard : Option (List FxmyChar)}
    (h : copyWildcard start stop w = .ok wildcard w') : likeWildcard start stop = .ok wildcard ∧
      w' = w.count (if wildcard.isSome then 1 else 0) := by
  have hnone : ∀ {w w' : World}, (pure none : Prog (Option (List FxmyChar))) w = .ok wildcard w' →
      .ok none = (.ok wildcard : Except Fault _) ∧
        w' = w.count (if wildcard.isSome then 1 else 0) := by
    rintro _ _ ⟨⟩
    simp [World.count]
  unfold copyWildcard at h
  cases start with
  | none => exact hnone h
  | some start =>
    cases stop with
    | none => exact hnone h
    | some stop =>
      obtain ⟨_, -, h⟩ := bind_lift_eq_ok.mp h
      rw [bind_modify] at h
      obtain ⟨copied, hcopied, h⟩ := bind_lift_eq_ok.mp h
      cases h
      refine ⟨?_, rfl⟩
      simp only [likeWildcard, hcopied]
      rfl

/-- A row that is fetched breaks into the debugger. -/
theorem showTablesRows_returns {handle : Handle} {u : PUnit}
    (h : showTablesRows env handle w = .ok u w') :
    handle = .null ∧ w' = w ∨
      handle ≠ .null ∧ ∃ kept, (kept = some statusOk ∨ kept = w.conn.status) ∧
        w' = (w.ask (.fetch handle)).report kept := by
  unfold showTablesRows at h
  split at h
  · next hnull =>
    cases h
    exact .inl ⟨hnull, rfl⟩
  · next hgiven =>
    rw [Prog.bind_odbcCall] at h
    obtain ⟨_, -, h⟩ := bind_lift_eq_ok.mp h
    obtain ⟨b, -, h⟩ := bind_lift_eq_ok.mp h
    cases b with
    | true =>
      rw [if_pos rfl, getStatus_ok, bind_lift_ok] at h
      cases h
      exact .inr ⟨hgiven, _, .inl rfl, rfl⟩
    | false =>
      rw [if_neg Bool.false_ne_true] at h
      obtain ⟨-, rfl⟩ := lift_eq_ok.mp h
      exact .inr ⟨hgiven, _, .inr rfl, rfl⟩

/-- The status of the execution is dropped, and so is its handle where it succeeds. -/
theorem showTables_returns {query : List FxmyChar} {rv : Int} (h : showTables env query w = .ok rv w') :
    rv = 0 ∧ ∃ buffer status handle blocks w₁ w₂, showTablesText env.ctype query = .ok buffer ∧
      exec env buffer (w.count blocks) = .ok (status, handle) w₁ ∧
      showTablesRows env handle w₁ = .ok ⟨⟩ w₂ ∧ w' = w₂.count (-blocks) := by
  unfold showTables at h
  obtain ⟨⟨start, stop⟩, hlike, h⟩ := bind_lift_eq_ok.mp h
  simp only at h
  obtain ⟨wildcard, w₁, hcopy, h⟩ := bind_eq_ok.mp h
  obtain ⟨hwildcard, rfl⟩ := copyWildcard_returns hcopy
  obtain ⟨formatted, hformatted, h⟩ := bind_lift_eq_ok.mp h
  rw [bind_modify] at h
  obtain ⟨buffer, hbuffer, h⟩ := bind_lift_eq_ok.mp h
  obtain ⟨⟨status, handle⟩, w₂, hexec, h⟩ := bind_eq_ok.mp h
  obtain ⟨_, w₃, hrows, h⟩ := bind_eq_ok.mp h
  obtain ⟨_, w₄, hfree, h⟩ := bind_eq_ok.mp h
  rw [Prog.bind_fxmyFree] at h
  cases h
  have htext : showTablesText env.ctype query = .ok buffer := by
    unfold showTablesText
    rw [hlike, except_bind_ok]
    simp only
    rw [hwildcard, except_bind_ok, hformatted, except_bind_ok, hbuffer]
  refine ⟨rfl, buffer, status, handle, (if wildcard.isSome then 1 else 0) + 1, w₂, w₃, htext, ?_,
    hrows, ?_⟩
  · rw [← count_count]
    exact hexec
  · have hblocks : (if wildcard.isSome then -1 else 0) + -1 =
        -((if wildcard.isSome then 1 else 0) + 1 : Int) := by
      cases wildcard <;> rfl
    rw [fxmyFree_returns hfree, ← hblocks, ← count_count]
    rfl

/-- A query is dispatched; a LIMIT may be refused. -/
theorem handleWideQuery_returns {wideQuery : List FxmyChar} {rv : Int}
    (h : handleWideQuery env wideQuery w = .ok rv w') :
    ∃ branch, queryBranch env.ctype wideQuery = .ok branch ∧
      (branch = .setNames ∧ rv = 0 ∧ w' = w ∨
        branch = .describe ∧ describe env wideQuery w = .ok rv w' ∨
        branch = .showTables ∧ showTables env wideQuery w = .ok rv w' ∨
        branch = .statement ∧ translate env.ctype wideQuery = .ok none ∧ rv = 0 ∧
          w' = w.report (some statusDefault) ∨
        branch = .statement ∧ ∃ statement, translate env.ctype wideQuery = .ok (some statement) ∧
          execStatement env statement w = .ok rv w') := by
  unfold handleWideQuery at h
  obtain ⟨branch, hbranch, h⟩ := bind_lift_eq_ok.mp h
  refine ⟨branch, hbranch, ?_⟩
  cases branch with
  | setNames =>
    obtain ⟨_, -, h⟩ := bind_lift_eq_ok.mp h
    obtain ⟨_, -, h⟩ := bind_lift_eq_ok.mp h
    cases h
    exact .inl ⟨rfl, rfl, rfl⟩
  | describe => exact .inr (.inl ⟨rfl, h⟩)
  | showTables => exact .inr (.inr (.inl ⟨rfl, h⟩))
  | statement =>
    simp only at h
    rw [translateCounted_eq] at h
    obtain ⟨statement, htranslate, h⟩ := bind_lift_eq_ok.mp h
    cases statement with
    | none =>
      simp only at h
      rw [getStatus_default, bind_lift_ok] at h
      cases h
      exact .inr (.inr (.inr (.inl ⟨rfl, htranslate, rfl, rfl⟩)))
    | some statement => exact .inr (.inr (.inr (.inr ⟨rfl, statement, htranslate, h⟩)))

theorem handleQuery_returns {query : List UInt8} {size : Nat} {rv : Int}
    (h : handleQuery env query size w = .ok rv w') :
    ∃ wideQuery, decodeQuery env.build query size = .ok wideQuery ∧
      handleWideQuery env wideQuery (w.count 1) = .ok rv w' := by
  unfold handleQuery at h
  rw [bind_modify] at h
  obtain ⟨wideQuery, hdecoded, h⟩ := bind_lift_eq_ok.mp h
  exact ⟨wideQuery, hdecoded, h⟩

/-! ## Commands -/

theorem handleInitDb_returns {ptr : List UInt8} {size : Nat} {rv : Int}
    (h : handleInitDb env ptr size w = .ok rv w') : ∃ database blocks,
      fstrfromchar env.build (List.replicate (size + 1) nul) ptr size = .ok database ∧
      connect env { w.count blocks with conn := { w.conn with database := some database } } =
        .ok rv w' := by
  unfold handleInitDb at h
  rw [bind_get] at h
  obtain ⟨_, w₁, hfree, h⟩ := bind_eq_ok.mp h
  obtain rfl := fxmyFree_returns hfree
  rw [bind_modify] at h
  obtain ⟨database, hdatabase, h⟩ := bind_lift_eq_ok.mp h
  rw [bind_modify] at h
  refine ⟨database, (if w.conn.database.isSome then -1 else 0) + 1, hdatabase, ?_⟩
  rw [← count_count]
  exact h

theorem handleSetOption_returns {ptr : List UInt8} {rv : Int}
    (h : handleSetOption ptr w = .ok rv w') : rv = 0 ∧ ∃ off,
      w' = { w with conn := { w.conn with multiStatementsOff := off } } := by
  unfold handleSetOption at h
  split at h
  · cases h
    exact ⟨rfl, _, rfl⟩
  · cases h

/-- The commands that are served. -/
theorem handleCommand_returns {memory : List UInt8} {size : Nat} {rv : Int}
    (h : handleCommand env memory size w = .ok rv w') :
    ∃ command ptr, memory = command :: ptr ∧
      (Command.ofByte command = some .quit ∧ rv = -1 ∧ w' = w ∨
        Command.ofByte command = some .initDb ∧ handleInitDb env ptr (size - 1) w = .ok rv w' ∨
        Command.ofByte command = some .query ∧ handleQuery env ptr (size - 1) w = .ok rv w' ∨
        Command.ofByte command = some .setOption ∧ handleSetOption ptr w = .ok rv w') := by
  unfold handleCommand at h
  cases memory with
  | nil => cases h
  | cons command ptr =>
    refine ⟨command, ptr, rfl, ?_⟩
    simp only at h
    cases hcommand : Command.ofByte command with
    | none =>
      rw [hcommand] at h
      cases h
    | some c =>
      rw [hcommand] at h
      cases c with
      | quit =>
        cases h
        exact .inl ⟨rfl, rfl, rfl⟩
      | initDb => exact .inr (.inl ⟨rfl, h⟩)
      | query => exact .inr (.inr (.inl ⟨rfl, h⟩))
      | setOption => exact .inr (.inr (.inr ⟨rfl, h⟩))
      | _ => cases h

/-- A command is read off the packet that was received. -/
theorem handleCommandPacket_returns {rv : Int} (h : handleCommandPacket env w = .ok rv w') :
    ∃ (packet : Packet) (incoming : List Arrival),
      arrived w.incoming = packet.bytes ++ arrived incoming ∧
      recv env w = .ok 0 (w.receive packet incoming) ∧
      handleCommand env (packet.body ++ [0]) packet.body.length (w.receive packet incoming) =
        .ok rv w' := by
  unfold handleCommandPacket at h
  obtain ⟨_, w₁, hrecv, h⟩ := bind_eq_ok.mp h
  obtain ⟨rfl, packet, hstream, hreceived⟩ := recv_receives hrecv
  generalize w₁.incoming = incoming at hstream hreceived
  subst hreceived
  rw [bind_get] at h
  obtain ⟨memory, hmemory, h⟩ := bind_lift_eq_ok.mp h
  cases hmemory
  exact ⟨packet, incoming, hstream, hrecv, h⟩

/-- The auth packet is read, and the database connected to if it asks for one. -/
theorem parseAuthPacket_returns {rv : Int} (h : parseAuthPacket env w = .ok rv w') :
    ∃ flags size charset buffer conn,
      parseAuthFields w.conn.xferBuffer = .ok (flags, size, charset, buffer) ∧
      conn = { w.conn with
        xferBuffer := buffer
        clientFlags := flags
        maxPacketSize := size
        charset := charset.toUInt32 } ∧
      (flags &&& CLIENT_CONNECT_WITH_DB ≠ 0 ∧
          (∃ database, parseAuthDatabase env.build buffer = .ok database ∧
            connect env { w.count 1 with conn := { conn with database := some database } } =
              .ok rv w') ∨
        flags &&& CLIENT_CONNECT_WITH_DB = 0 ∧ rv = 0 ∧ w' = { w with conn := conn }) := by
  unfold parseAuthPacket at h
  obtain ⟨b, w₁, hparse, h⟩ := bind_eq_ok.mp h
  unfold parseAuth at hparse
  rw [bind_get] at hparse
  obtain ⟨⟨flags, size, charset, buffer⟩, hfields, hparse⟩ := bind_lift_eq_ok.mp hparse
  simp only at hparse
  rw [bind_modify] at hparse
  refine ⟨flags, size, charset, buffer, _, hfields, rfl, ?_⟩
  by_cases hdatabase : flags &&& CLIENT_CONNECT_WITH_DB ≠ 0
  · rw [if_pos hdatabase, bind_modify] at hparse
    obtain ⟨database, hread, hparse⟩ := bind_lift_eq_ok.mp hparse
    rw [bind_modify] at hparse
    cases hparse
    rw [if_pos rfl] at h
    exact .inl ⟨hdatabase, database, hread, h⟩
  · rw [if_neg hdatabase] at hparse
    cases hparse
    rw [if_neg Bool.false_ne_true] at h
    cases h
    exact .inr ⟨not_not.mp hdatabase, rfl, rfl⟩

/-! ## Results -/

/-- The buffer is freed, and the result sent from a temporary one. -/
theorem reply_returns (h : reply env w = .ok ⟨⟩ w') : ∃ buffer rv blocks,
    resultBuffer env.build env.garbage w.conn = .ok buffer ∧
    send env (buffer.memory.getD []) buffer.cursor
      { w.count blocks with conn := { w.conn with xferBuffer := .empty } } = .ok rv w' := by
  unfold reply sendResult at h
  obtain ⟨_, _, hresult, h⟩ := bind_eq_ok.mp h
  obtain ⟨-, rfl⟩ := lift_eq_ok.mp h
  obtain ⟨_, w₁, hreset, hresult⟩ := bind_eq_ok.mp hresult
  unfold resetXferBuffer at hreset
  rw [bind_get] at hreset
  obtain ⟨_, w₂, hfree, hreset⟩ := bind_eq_ok.mp hreset
  obtain rfl := fxmyFree_returns hfree
  cases hreset
  rw [bind_get] at hresult
  obtain ⟨buffer, hbuffer, hresult⟩ := bind_lift_eq_ok.mp hresult
  obtain ⟨rv, _, hsend, hresult⟩ := bind_eq_ok.mp hresult
  cases hresult
  exact ⟨buffer, rv, _, hbuffer, hsend⟩

theorem resetTransientState_returns (h : resetTransientState env w = .ok ⟨⟩ w') : w' = { w with
    conn := { w.conn with
      columnCountErrorCode := 0
      affectedRows := 0
      insertId := 0
      status := some statusOk } } := by
  unfold resetTransientState at h
  rw [getStatus_ok, bind_lift_ok] at h
  cases h
  rfl

end

/-! ## The start -/

/-- The environment handle that a worker gets. -/
def environmentHandle (env : Env) : Handle := (env.odbc [] (.allocHandle .env .null)).handle

/-- The calls by which a worker gets its handles. -/
def startCalls (env : Env) : List OdbcCall :=
  [.allocHandle .env .null, .setEnvAttr (environmentHandle env), .allocHandle .dbc (environmentHandle env)]

/-- The connection handle that a worker gets. -/
def connectionHandle (env : Env) : Handle :=
  (env.odbc [.allocHandle .env .null, .setEnvAttr (environmentHandle env)]
    (.allocHandle .dbc (environmentHandle env))).handle

/-- The worker has got its handles and sent the handshake. -/
def World.greet (w : World) (env : Env) : World := { w with
  conn := { w.conn with
    odbc := some ⟨environmentHandle env, connectionHandle env⟩
    packetNumber := w.conn.packetNumber + 1
    xferBuffer := .empty }
  calls := startCalls env
  sent := w.sent ++ [message w.conn.packetNumber handshakePacket] }

/-- Whatever the auth packet leaves for a status is overwritten. -/
theorem workerStart_returns {env : Env} {connectionString : List FxmyChar} {incoming : List Arrival}
    {w : World} (h : workerStart env (World.fresh connectionString incoming) = .ok ⟨⟩ w) :
    ∃ (packet : Packet) (rest : List Arrival) (rv : Int) (w₁ : World),
      arrived incoming = packet.bytes ++ arrived rest ∧
      parseAuthPacket env
        (((World.fresh connectionString incoming).greet env).receive packet rest) = .ok rv w₁ ∧
      w = w₁.report (some statusOk) := by
  unfold workerStart at h
  rw [bind_modify, Prog.bind_odbcCall] at h
  obtain ⟨_, -, h⟩ := bind_lift_eq_ok.mp h
  rw [Prog.bind_odbcCall] at h
  obtain ⟨_, -, h⟩ := bind_lift_eq_ok.mp h
  rw [Prog.bind_odbcCall] at h
  obtain ⟨_, -, h⟩ := bind_lift_eq_ok.mp h
  rw [bind_modify] at h
  obtain ⟨_, w₁, hsend, h⟩ := bind_eq_ok.mp h
  rw [sendHandshake, ← List.append_nil handshakePacket] at hsend
  have hgreeted : w₁ = (World.fresh connectionString incoming).greet env :=
    send_returns env [] rfl (by decide) hsend
  obtain ⟨_, -, h⟩ := bind_lift_eq_ok.mp h
  obtain ⟨rv, w₂, hauth, h⟩ := bind_eq_ok.mp h
  obtain ⟨_, w₃, hrecv, hparse⟩ := bind_eq_ok.mp hauth
  obtain ⟨-, packet, hstream, hreceived⟩ := recv_receives hrecv
  rw [hgreeted] at hstream hreceived
  rw [hreceived] at hparse
  refine ⟨packet, w₃.incoming, rv, w₂, hstream, hparse, ?_⟩
  obtain ⟨_, -, h⟩ := bind_lift_eq_ok.mp h
  rw [bind_get] at h
  obtain ⟨_, -, h⟩ := bind_lift_eq_ok.mp h
  obtain ⟨_, -, h⟩ := bind_lift_eq_ok.mp h
  rw [getStatus_ok, bind_lift_ok] at h
  cases h
  rfl

end Fxmy
