import Fxmy.Verify.Answers

/-!
# Requests are answered

What a request needs of the driver is `Answerable`: a status for the answer to the statement that is
executed for it and, without a debugger, a failure where it is a general statement. With a socket that
takes what it is given and a driver that keeps its handles and has no rows, a waiting worker answers
the next packet exactly if its request is answerable (`answers_next_iff`), and a client whose requests
all are can quit (`worker_quits`).
-/

namespace Fxmy

open Exec Dialogue

/-- The driver is not asked to connect or about a statement. -/
def OdbcCall.Manages : OdbcCall → Prop
  | .driverConnect _ _ => False
  | .execDirect _ _ => False
  | .fetch _ => False
  | _ => True

/-- The socket takes every buffer whole. The driver gives out and takes back handles, and a statement
leaves no rows. -/
structure Cooperates (env : Env) : Prop where
  takes : ∀ sent block, env.sendReturns sent block = block.length
  manages : ∀ calls call, call.Manages → (env.odbc calls call).returnCode = SQL_SUCCESS
  empty : ∀ calls statement, (env.odbc calls (.fetch statement)).returnCode = SQL_NO_DATA

/-- A status is found for the driver's answer. -/
def Reports (env : Env) (reply : OdbcReply) (type : HandleType) (handle : Handle)
    (status : Status) : Prop :=
  verifyAndLogOdbc env.build reply type handle = .ok (some status)

/-- What the request needs of the driver to be answered, after the calls so far. -/
def Request.Answerable (env : Env) (dbc : Handle) (connectionString : List FxmyChar)
    (calls : List OdbcCall) : Request → Prop
  | .quit => False
  | .useDatabase database =>
    let call := .driverConnect dbc connectionString
    ∃ status, Reports env (env.odbc calls call) .dbc dbc status ∧
      (status.succeeded = true ∨ ∃ text used, useText (some database) = .ok text ∧
        Reports env (executed env (calls ++ [call]) dbc text) .stmt
          (statementHandle env (calls ++ [call]) dbc) used)
  | .describe text => ∃ status, Reports env (executed env calls dbc text) .stmt .addressOf status
  | .showTables text => ∃ status, Reports env (executed env calls dbc text) .stmt .addressOf status
  | .statement text => ∃ status,
    Reports env (executed env calls dbc text) .stmt (statementHandle env calls dbc) status ∧
      (status.succeeded = false ∨ env.build.debugger = true)
  | _ => True

section

variable {env : Env} {w : World} {dbc : Handle}

theorem databaseHandle_status (conn : Connection) (status : Option Status) :
    databaseHandle { conn with status := status } = databaseHandle conn := rfl

theorem Cooperates.verifyOdbc_eq (h : Cooperates env) (calls : List OdbcCall) (call : OdbcCall)
    (hcall : call.Manages) (type : HandleType) (handle : Handle) :
    verifyOdbc env.build (env.odbc calls call) type handle = .ok () := by
  unfold verifyOdbc verifyAndLogOdbc
  rw [if_pos (h.manages calls call hcall), getStatus_ok]
  rfl

theorem Cooperates.verifyOdbc_alloc (h : Cooperates env) (calls : List OdbcCall)
    (kind : HandleType) (input : Handle) (type : HandleType) (handle : Handle) :
    verifyOdbc env.build (env.odbc calls (.allocHandle kind input)) type handle = .ok () :=
  h.verifyOdbc_eq calls (.allocHandle kind input) trivial type handle

theorem Cooperates.verifyOdbc_setEnvAttr (h : Cooperates env) (calls : List OdbcCall)
    (environment : Handle) (type : HandleType) (handle : Handle) :
    verifyOdbc env.build (env.odbc calls (.setEnvAttr environment)) type handle = .ok () :=
  h.verifyOdbc_eq calls (.setEnvAttr environment) trivial type handle

theorem Cooperates.verifyOdbc_disconnect (h : Cooperates env) (calls : List OdbcCall)
    (connection : Handle) (type : HandleType) (handle : Handle) :
    verifyOdbc env.build (env.odbc calls (.disconnect connection)) type handle = .ok () :=
  h.verifyOdbc_eq calls (.disconnect connection) trivial type handle

theorem Cooperates.verifyOdbc_free (h : Cooperates env) (calls : List OdbcCall)
    (kind : HandleType) (freed : Handle) (type : HandleType) (handle : Handle) :
    verifyOdbc env.build (env.odbc calls (.freeHandle kind freed)) type handle = .ok () :=
  h.verifyOdbc_eq calls (.freeHandle kind freed) trivial type handle

theorem Cooperates.verifyAndLogOdbc_fetch (h : Cooperates env) (calls : List OdbcCall)
    (statement : Handle) (type : HandleType) (handle : Handle) : ∃ status,
      verifyAndLogOdbc env.build (env.odbc calls (.fetch statement)) type handle = .ok (some status) ∧
        emptySet (some status) = .ok true := by
  have hne : (env.odbc calls (.fetch statement)).returnCode ≠ SQL_SUCCESS := by
    rw [h.empty calls statement]
    decide
  unfold verifyAndLogOdbc
  rw [if_neg hne, if_pos (h.empty calls statement)]
  exact ⟨_, rfl, rfl⟩

/-! ## Queries -/

/-- A text is executed, and its handle kept or released. -/
theorem exec_answers (hcooperates : Cooperates env) {query text : List FxmyChar} {status : Status}
    (hdbc : databaseHandle w.conn = .ok dbc) (htext : stringText query = .ok text)
    (hstatus : Reports env (executed env w.calls dbc text) .stmt .addressOf status) :
    ∃ handle w', exec env query w = .ok (some status, handle) w' ∧ w'.conn = w.conn := by
  unfold exec
  rw [bind_get, hdbc, bind_lift_ok, Prog.bind_odbcCall, hcooperates.verifyOdbc_alloc, bind_lift_ok,
    htext, bind_lift_ok, Prog.bind_odbcCall]
  unfold Reports executed statementHandle at hstatus
  rw [hstatus, bind_lift_ok, failed, bind_lift_ok]
  cases status.succeeded with
  | true => exact ⟨_, _, rfl, rfl⟩
  | false =>
    rw [Bool.not_false, if_pos rfl, Prog.bind_odbcCall, hcooperates.verifyOdbc_free, bind_lift_ok]
    exact ⟨_, _, rfl, rfl⟩

theorem describeRows_answers (hcooperates : Cooperates env) (handle : Handle) {fuel : Nat}
    (hfuel : 0 < fuel) (w : World) : describeRows env handle fuel w = .ok ⟨⟩ (w.ask (.fetch handle)) := by
  obtain ⟨status, hstatus, hempty⟩ := hcooperates.verifyAndLogOdbc_fetch w.calls handle .stmt handle
  cases fuel with
  | zero => cases hfuel
  | succ fuel =>
    unfold describeRows
    rw [Prog.bind_odbcCall, hstatus, bind_lift_ok, hempty, bind_lift_ok, if_pos rfl]
    rfl

theorem describe_answers (hcooperates : Cooperates env) (hfuel : 0 < env.fuel)
    {query buffer text : List FxmyChar} {status : Status} (hdbc : databaseHandle w.conn = .ok dbc)
    (hbuffer : describeText env.ctype query = .ok buffer) (htext : stringText buffer = .ok text)
    (hstatus : Reports env (executed env w.calls dbc text) .stmt .addressOf status) :
    ∃ w', describe env query w = .ok 0 w' ∧ w'.conn.status = some status := by
  obtain ⟨handle, w₁, hexec, hconn⟩ := exec_answers
    (w := { w with numAllocations := w.numAllocations + 1 }) hcooperates hdbc htext hstatus
  unfold describe
  rw [bind_modify, hbuffer, bind_lift_ok, bind_of_ok hexec]
  simp only
  rw [bind_modify, failed, bind_lift_ok]
  cases status.succeeded with
  | false => exact ⟨_, rfl, rfl⟩
  | true =>
    rw [Bool.not_true, if_neg Bool.false_ne_true,
      bind_of_ok (describeRows_answers hcooperates handle hfuel _), bind_get]
    simp only [World.ask]
    rw [databaseHandle_status, hconn, hdbc, bind_lift_ok, Prog.bind_odbcCall,
      hcooperates.verifyOdbc_free, bind_lift_ok]
    exact ⟨_, rfl, rfl⟩

/-- The token behind LIKE ends behind its start. -/
theorem likeLoop_length_le {ct : Ctype FxmyChar} {str : Option (List FxmyChar)} {fuel : Nat}
    {start stop : List FxmyChar} (h : likeLoop ct str fuel = .ok (some start, some stop)) :
    stop.length ≤ start.length := by
  have htoken : ∀ {p : Option (List FxmyChar)},
      fnextToken ct p = .ok (some start, some stop) → stop.length ≤ start.length := by
    intro p h
    cases p with
    | none => cases h
    | some p =>
      rcases fnextToken_eq_ok h with ⟨hnone, -⟩ | ⟨t, q, -, -, hstart, hstop⟩
      · cases hnone
      · cases hstart
        cases hstop
        rw [List.length_append]
        exact Nat.le_add_left _ _
  induction fuel generalizing str with
  | zero => cases h
  | succ fuel ih =>
    unfold likeLoop at h
    obtain ⟨⟨first, behind⟩, -, h⟩ := except_bind_eq_ok.mp h
    simp only at h
    split at h
    · obtain ⟨order, -, h⟩ := except_bind_eq_ok.mp h
      split at h
      · exact htoken h
      · exact ih h
    · cases h

/-- The wildcard is copied. -/
theorem copyWildcard_answers {start stop wildcard : Option (List FxmyChar)}
    {fuel : Nat} {str : Option (List FxmyChar)} (hlike : likeLoop env.ctype str fuel = .ok (start, stop))
    (hwildcard : likeWildcard start stop = .ok wildcard) :
    ∃ w', copyWildcard start stop w = .ok wildcard w' ∧ w'.conn = w.conn ∧ w'.calls = w.calls := by
  unfold copyWildcard
  unfold likeWildcard at hwildcard
  cases start with
  | none =>
    cases hwildcard
    exact ⟨w, rfl, rfl, rfl⟩
  | some start =>
    cases stop with
    | none =>
      cases hwildcard
      exact ⟨w, rfl, rfl, rfl⟩
    | some stop =>
      have hle : stop.length ≤ start.length := likeLoop_length_le hlike
      simp only at hwildcard ⊢
      rw [verify_eq_ok (u := ()).mpr (decide_eq_true hle), bind_lift_ok, bind_modify]
      cases hcopy : wildcardCopy start stop with
      | error fault =>
        rw [hcopy] at hwildcard
        cases hwildcard
      | ok copy =>
        rw [hcopy] at hwildcard
        cases hwildcard
        exact ⟨_, rfl, rfl, rfl⟩

theorem showTablesRows_answers (hcooperates : Cooperates env) (handle : Handle)
    (hidle : w.conn.status = some statusOk) : ∃ w', showTablesRows env handle w = .ok ⟨⟩ w' ∧
      w'.conn.status = some statusOk := by
  obtain ⟨status, hstatus, hempty⟩ := hcooperates.verifyAndLogOdbc_fetch w.calls handle .stmt handle
  unfold showTablesRows
  by_cases hnull : handle = .null
  · rw [if_pos hnull]
    exact ⟨w, rfl, hidle⟩
  · rw [if_neg hnull, Prog.bind_odbcCall, hstatus, bind_lift_ok, hempty, bind_lift_ok, if_pos rfl,
      getStatus_ok, bind_lift_ok]
    exact ⟨_, rfl, rfl⟩

theorem showTables_answers (hcooperates : Cooperates env) {query buffer text : List FxmyChar}
    {status : Status} (hdbc : databaseHandle w.conn = .ok dbc)
    (hidle : w.conn.status = some statusOk)
    (hbuffer : showTablesText env.ctype query = .ok buffer) (htext : stringText buffer = .ok text)
    (hstatus : Reports env (executed env w.calls dbc text) .stmt .addressOf status) :
    ∃ w', showTables env query w = .ok 0 w' ∧ w'.conn.status = some statusOk := by
  unfold showTablesText at hbuffer
  obtain ⟨⟨start, stop⟩, hlike, hbuffer⟩ := except_bind_eq_ok.mp hbuffer
  obtain ⟨wildcard, hwildcard, hbuffer⟩ := except_bind_eq_ok.mp hbuffer
  obtain ⟨formatted, hformatted, hprinted⟩ := except_bind_eq_ok.mp hbuffer
  obtain ⟨w₁, hcopy, hconn, hcalls⟩ := copyWildcard_answers (w := w) hlike hwildcard
  obtain ⟨handle, w₂, hexec, hkept⟩ := exec_answers
    (w := { w₁ with numAllocations := w₁.numAllocations + 1 }) hcooperates (by exact hconn ▸ hdbc)
    htext (by exact hcalls ▸ hstatus)
  have hidle' : w₂.conn.status = some statusOk := by
    rw [hkept]
    exact hconn ▸ hidle
  obtain ⟨w₃, hrows, hlast⟩ := showTablesRows_answers hcooperates handle hidle'
  unfold showTables
  rw [hlike, bind_lift_ok]
  simp only
  rw [bind_of_ok hcopy, hformatted, bind_lift_ok, bind_modify, hprinted, bind_lift_ok,
    bind_of_ok hexec]
  simp only
  rw [bind_of_ok hrows, Prog.bind_fxmyFree, Prog.bind_fxmyFree]
  cases wildcard with
  | none => exact ⟨_, rfl, hlast⟩
  | some wildcard => exact ⟨_, rfl, hlast⟩

theorem execStatement_answers (hcooperates : Cooperates env) {statement text : List FxmyChar}
    {status : Status} (hdbc : databaseHandle w.conn = .ok dbc)
    (hidle : w.conn.status = some statusOk) (htext : stringText statement = .ok text)
    (hstatus : Reports env (executed env w.calls dbc text) .stmt (statementHandle env w.calls dbc)
      status)
    (hfails : status.succeeded = false ∨ env.build.debugger = true) :
    ∃ w' status, execStatement env statement w = .ok 0 w' ∧ w'.conn.status = some status := by
  have hset : ∀ v : World, v.conn.status = some statusOk → ∃ v' kept,
      statementStatus env (some status) v = .ok ⟨⟩ v' ∧ v'.conn.status = some kept := by
    intro v hv
    unfold statementStatus
    rw [failed, bind_lift_ok]
    cases hsucceeded : status.succeeded with
    | false => exact ⟨_, _, rfl, rfl⟩
    | true =>
      have hdebugger := hfails.resolve_left (by simp [hsucceeded])
      rw [Bool.not_true, if_neg Bool.false_ne_true, debugbreak, if_pos hdebugger]
      exact ⟨v, _, rfl, hv⟩
  have hreports := hstatus
  unfold Reports executed statementHandle at hreports
  obtain ⟨v, kept, hkept, hlast⟩ := hset (w.execute env dbc text) hidle
  unfold execStatement
  rw [bind_get, hdbc, bind_lift_ok, Prog.bind_odbcCall, hcooperates.verifyOdbc_alloc, bind_lift_ok,
    htext, bind_lift_ok, Prog.bind_odbcCall, hreports, bind_lift_ok]
  change ∃ w' status', (statementStatus env (some status) >>= _) (w.execute env dbc text) = _ ∧ _
  rw [bind_of_ok hkept, Prog.bind_odbcCall, hcooperates.verifyOdbc_free, bind_lift_ok,
    Prog.bind_fxmyFree]
  exact ⟨_, _, rfl, hlast⟩

theorem handleWideQuery_answers (hcooperates : Cooperates env) (hfuel : 0 < env.fuel)
    {query : List FxmyChar} {r : Request} (hdbc : databaseHandle w.conn = .ok dbc)
    (hidle : w.conn.status = some statusOk) (hrequest : queryRequest env.ctype query = some r)
    (h : r.Answerable env dbc w.conn.connectionString w.calls) :
    ∃ w' status, handleWideQuery env query w = .ok 0 w' ∧ w'.conn.status = some status := by
  unfold queryRequest at hrequest
  unfold handleWideQuery
  cases hbranch : queryBranch env.ctype query with
  | error fault =>
    rw [hbranch] at hrequest
    cases hrequest
  | ok branch =>
    rw [hbranch] at hrequest
    rw [bind_lift_ok]
    cases branch with
    | setNames =>
      simp only at hrequest ⊢
      split at hrequest
      · next hmentions =>
        rw [hmentions, bind_lift_ok]
        exact ⟨w, _, rfl, hidle⟩
      · cases hrequest
    | describe =>
      obtain ⟨text, htext, rfl⟩ := Option.map_eq_some_iff.mp hrequest
      obtain ⟨buffer, hbuffer, htext⟩ := except_bind_eq_ok.mp (eq_ok_of_toOption htext)
      obtain ⟨status, hstatus⟩ := h
      obtain ⟨w', hok, hlast⟩ := describe_answers hcooperates hfuel hdbc hbuffer htext hstatus
      exact ⟨w', status, hok, hlast⟩
    | showTables =>
      obtain ⟨text, htext, rfl⟩ := Option.map_eq_some_iff.mp hrequest
      obtain ⟨buffer, hbuffer, htext⟩ := except_bind_eq_ok.mp (eq_ok_of_toOption htext)
      obtain ⟨status, hstatus⟩ := h
      obtain ⟨w', hok, hlast⟩ := showTables_answers hcooperates hdbc hidle hbuffer htext hstatus
      exact ⟨w', statusOk, hok, hlast⟩
    | statement =>
      simp only at hrequest ⊢
      rw [translateCounted_eq]
      cases htranslate : translate env.ctype query with
      | error fault =>
        rw [htranslate] at hrequest
        cases hrequest
      | ok translated =>
        rw [htranslate] at hrequest
        rw [bind_lift_ok]
        cases translated with
        | none =>
          simp only
          rw [getStatus_default, bind_lift_ok]
          exact ⟨_, _, rfl, rfl⟩
        | some statement =>
          obtain ⟨text, htext, rfl⟩ := Option.map_eq_some_iff.mp hrequest
          obtain ⟨status, hstatus, hfails⟩ := h
          exact execStatement_answers hcooperates hdbc hidle (eq_ok_of_toOption htext) hstatus hfails

/-! ## Commands -/

theorem connect_answers (hcooperates : Cooperates env) {database : List FxmyChar}
    (hdbc : databaseHandle w.conn = .ok dbc) (hdatabase : w.conn.database = some database)
    (h : (Request.useDatabase database).Answerable env dbc w.conn.connectionString w.calls) :
    ∃ w' status, connect env w = .ok 0 w' ∧ w'.conn.status = some status := by
  obtain ⟨status, hstatus, hcases⟩ := h
  unfold Reports at hstatus hcases
  unfold connect
  rw [bind_get, hdbc, bind_lift_ok, bind_get, Prog.bind_odbcCall, hstatus, bind_lift_ok, bind_modify,
    succeeded, bind_lift_ok]
  by_cases hsucceeded : status.succeeded = true
  · rw [if_pos hsucceeded]
    exact ⟨_, _, rfl, rfl⟩
  · obtain ⟨text, used, htext, hused⟩ := hcases.resolve_left hsucceeded
    unfold executed statementHandle at hused
    rw [if_neg hsucceeded, bind_get]
    simp only
    rw [hdatabase, htext, bind_lift_ok, Prog.bind_odbcCall, hcooperates.verifyOdbc_alloc,
      bind_lift_ok, Prog.bind_odbcCall, hused, bind_lift_ok, bind_modify, Prog.bind_odbcCall,
      hcooperates.verifyOdbc_free, bind_lift_ok]
    exact ⟨_, _, rfl, rfl⟩

/-- **A command is answered** if its request is answerable. -/
theorem handleCommand_answers (hcooperates : Cooperates env) (hfuel : 0 < env.fuel)
    {memory : List UInt8} {size : Nat} {r : Request} (hdbc : databaseHandle w.conn = .ok dbc)
    (hidle : w.conn.status = some statusOk) (hrequest : request env memory size = some r)
    (h : r.Answerable env dbc w.conn.connectionString w.calls) :
    ∃ w' status, handleCommand env memory size w = .ok 0 w' ∧ w'.conn.status = some status := by
  unfold request at hrequest
  unfold handleCommand
  cases memory with
  | nil => cases hrequest
  | cons command ptr =>
    simp only at hrequest ⊢
    cases hcommand : Command.ofByte command with
    | none =>
      rw [hcommand] at hrequest
      cases hrequest
    | some c =>
      rw [hcommand] at hrequest
      cases c with
      | quit =>
        cases hrequest
        exact h.elim
      | initDb =>
        obtain ⟨database, hdatabase, rfl⟩ := Option.map_eq_some_iff.mp hrequest
        simp only
        unfold handleInitDb
        rw [bind_get, Prog.bind_fxmyFree, bind_modify, eq_ok_of_toOption hdatabase, bind_lift_ok,
          bind_modify]
        cases hbefore : w.conn.database with
        | none => exact connect_answers hcooperates (by exact hdbc) rfl h
        | some before => exact connect_answers hcooperates (by exact hdbc) rfl h
      | query =>
        obtain ⟨query, hdecoded, hquery⟩ := Option.bind_eq_some_iff.mp hrequest
        simp only
        unfold handleQuery
        rw [bind_modify, eq_ok_of_toOption hdecoded, bind_lift_ok]
        exact handleWideQuery_answers hcooperates hfuel hdbc hidle hquery h
      | setOption =>
        simp only at hrequest ⊢
        split at hrequest
        · exact ⟨_, _, rfl, hidle⟩
        · cases hrequest
      | _ => cases hrequest

/-! ## What a command that is answered has needed -/

/-- A status that is asked whether it failed is there. -/
theorem exists_of_failed {status : Option Status} {b : Bool} (h : failed status = .ok b) :
    ∃ s, status = some s ∧ s.succeeded = !b := by
  cases status with
  | none => cases h
  | some s =>
    cases h
    exact ⟨s, rfl, (Bool.not_not _).symm⟩

theorem exec_answered {query : List FxmyChar} {result : Option Status × Handle} {w' : World}
    {text : List FxmyChar} (hdbc : databaseHandle w.conn = .ok dbc)
    (htext : stringText query = .ok text) (h : exec env query w = .ok result w') :
    ∃ status, Reports env (executed env w.calls dbc text) .stmt .addressOf status := by
  obtain ⟨dbc', text', hdbc', htext', -, hstatus, hcases⟩ := exec_returns h
  obtain rfl : dbc = dbc' := Except.ok.inj (hdbc.symm.trans hdbc')
  obtain rfl : text = text' := Except.ok.inj (htext.symm.trans htext')
  obtain ⟨b, hb⟩ : ∃ b, failed result.1 = .ok b := by
    rcases hcases with ⟨hb, -⟩ | ⟨hb, -⟩
    · exact ⟨_, hb⟩
    · exact ⟨_, hb⟩
  obtain ⟨status, hsome, -⟩ := exists_of_failed hb
  refine ⟨status, ?_⟩
  unfold Reports
  rw [hstatus, hsome]

theorem handleWideQuery_answered {query : List FxmyChar} {r : Request} {rv : Int} {w' : World}
    (hdbc : databaseHandle w.conn = .ok dbc) (hrequest : queryRequest env.ctype query = some r)
    (h : handleWideQuery env query w = .ok rv w') :
    r.Answerable env dbc w.conn.connectionString w.calls := by
  obtain ⟨branch, hbranch, hcases⟩ := handleWideQuery_returns h
  unfold queryRequest at hrequest
  rw [hbranch] at hrequest
  rcases hcases with ⟨rfl, -, -⟩ | ⟨rfl, h⟩ | ⟨rfl, h⟩ | ⟨rfl, hrefused, -, -⟩ |
    ⟨rfl, statement, htranslate, h⟩
  · simp only at hrequest
    split at hrequest
    · cases hrequest
      trivial
    · cases hrequest
  · obtain ⟨text, htext, rfl⟩ := Option.map_eq_some_iff.mp hrequest
    obtain ⟨buffer, hbuffer, htext⟩ := except_bind_eq_ok.mp (eq_ok_of_toOption htext)
    obtain ⟨-, buffer', status, handle, w₁, hbuffer', hexec, -⟩ := describe_returns h
    obtain rfl : buffer = buffer' := Except.ok.inj (hbuffer.symm.trans hbuffer')
    exact exec_answered (w := w.count 1) hdbc htext hexec
  · obtain ⟨text, htext, rfl⟩ := Option.map_eq_some_iff.mp hrequest
    obtain ⟨buffer, hbuffer, htext⟩ := except_bind_eq_ok.mp (eq_ok_of_toOption htext)
    obtain ⟨-, buffer', status, handle, blocks, w₁, w₂, hbuffer', hexec, -⟩ := showTables_returns h
    obtain rfl : buffer = buffer' := Except.ok.inj (hbuffer.symm.trans hbuffer')
    exact exec_answered (w := w.count blocks) hdbc htext hexec
  · simp only at hrequest
    rw [hrefused] at hrequest
    cases hrequest
    trivial
  · simp only at hrequest
    rw [htranslate] at hrequest
    obtain ⟨text, htext, rfl⟩ := Option.map_eq_some_iff.mp hrequest
    obtain ⟨-, dbc', text', status, kept, hdbc', htext', -, hstatus, hfails, -⟩ :=
      execStatement_returns h
    obtain rfl : dbc = dbc' := Except.ok.inj (hdbc.symm.trans hdbc')
    obtain rfl : text = text' := Except.ok.inj ((eq_ok_of_toOption htext).symm.trans htext')
    rcases hfails with ⟨hfailed, -⟩ | ⟨hfailed, hdebugger, -⟩
    · obtain ⟨s, rfl, hs⟩ := exists_of_failed hfailed
      exact ⟨s, hstatus, .inl hs⟩
    · obtain ⟨s, rfl, hs⟩ := exists_of_failed hfailed
      exact ⟨s, hstatus, .inr hdebugger⟩

theorem connect_answered {database : List FxmyChar} {rv : Int} {w' : World} {status : Status}
    (hdbc : databaseHandle w.conn = .ok dbc) (hdatabase : w.conn.database = some database)
    (h : connect env w = .ok rv w') (hstatus : w'.conn.status = some status) :
    (Request.useDatabase database).Answerable env dbc w.conn.connectionString w.calls := by
  obtain ⟨-, dbc', call, connected, hdbc', rfl, hconnected, hcases⟩ := connect_returns h
  obtain rfl : dbc = dbc' := Except.ok.inj (hdbc.symm.trans hdbc')
  have hsome : ∃ s, connected = some s := by
    cases connected with
    | none =>
      rcases hcases with ⟨hcase, -⟩ | ⟨hcase, -⟩
      · cases hcase
      · cases hcase
    | some s => exact ⟨s, rfl⟩
  obtain ⟨s, rfl⟩ := hsome
  refine ⟨s, hconnected, ?_⟩
  rcases hcases with ⟨hsucceeded, -⟩ | ⟨-, text, used, htext, -, hused, rfl⟩
  · exact .inl (Except.ok.inj hsucceeded)
  · obtain rfl : used = some status := hstatus
    exact .inr ⟨text, status, hdatabase ▸ htext, hused⟩

theorem handleCommand_answered {memory : List UInt8} {size : Nat} {r : Request} {w' : World}
    {status : Status} (hdbc : databaseHandle w.conn = .ok dbc)
    (hrequest : request env memory size = some r) (h : handleCommand env memory size w = .ok 0 w')
    (hstatus : w'.conn.status = some status) :
    r.Answerable env dbc w.conn.connectionString w.calls := by
  obtain ⟨command, ptr, rfl, hcases⟩ := handleCommand_returns h
  unfold request at hrequest
  rcases hcases with ⟨-, hrv, -⟩ | ⟨hcommand, h⟩ | ⟨hcommand, h⟩ | ⟨hcommand, -⟩
  · cases hrv
  · simp only [hcommand] at hrequest
    obtain ⟨database, hdatabase, rfl⟩ := Option.map_eq_some_iff.mp hrequest
    obtain ⟨database', blocks, hdatabase', hconnect⟩ := handleInitDb_returns h
    obtain rfl : database = database' :=
      Except.ok.inj ((eq_ok_of_toOption hdatabase).symm.trans hdatabase')
    have hanswerable := connect_answered (by exact hdbc) rfl hconnect hstatus
    exact hanswerable
  · simp only [hcommand] at hrequest
    obtain ⟨query, hdecoded, hquery⟩ := Option.bind_eq_some_iff.mp hrequest
    obtain ⟨query', hdecoded', hwide⟩ := handleQuery_returns h
    obtain rfl : query = query' := Except.ok.inj ((eq_ok_of_toOption hdecoded).symm.trans hdecoded')
    exact handleWideQuery_answered (w := w.count 1) hdbc hquery hwide
  · simp only [hcommand] at hrequest
    split at hrequest
    · cases hrequest
      trivial
    · cases hrequest

/-! ## One turn -/

/-- A payload is sent where the socket takes it. -/
theorem Cooperates.send_eq (hcooperates : Cooperates env) {payload : List UInt8}
    (behind : List UInt8) (hfree : w.conn.xferBuffer.memory = none)
    (hmax : payload.length ≤ 256 * maxFrame) :
    send env (payload ++ behind) payload.length w = .ok 0 { w with
      conn := { w.conn with packetNumber := w.conn.packetNumber + 1, xferBuffer := .empty }
      sent := w.sent ++ [message w.conn.packetNumber payload] } := by
  rw [Fxmy.send_eq env behind hfree hmax]
  simp only
  rw [if_pos (hcooperates.takes _ _)]

/-- A result goes out. -/
theorem reply_answers_of (hcooperates : Cooperates env) {status : Status}
    (hstatus : w.conn.status = some status) (hmem : status ∈ errorTable)
    (hcode : w.conn.columnCountErrorCode = FXMY_OK) : ∃ w', reply env w = .ok ⟨⟩ w' := by
  obtain ⟨buffer, payload, hbuffer, hholds, -, hmax⟩ := resultBuffer_ok env hstatus hmem hcode
  obtain ⟨behind, hbehind⟩ := hholds.written
  have hsame : resultBuffer env.build env.garbage { w.conn with xferBuffer := .empty } = .ok buffer :=
    hbuffer
  obtain ⟨w', hresult⟩ : ∃ w', sendResult env w = .ok 0 w' := by
    unfold sendResult
    rw [bind_of_ok (resetXferBuffer_eq w), bind_get, hsame, bind_lift_ok, hholds.cursor, ← hbehind,
      bind_of_ok (hcooperates.send_eq behind rfl (Nat.le_trans hmax (by decide)))]
    exact ⟨_, rfl⟩
  refine ⟨w', ?_⟩
  unfold reply
  rw [bind_of_ok hresult]
  rfl

variable {connectionString : List FxmyChar} {incoming : List Arrival}

/-- A packet that is delivered is the one that the state holds. -/
theorem Delivers.recv_eq {packet : Packet} {rest : List UInt8} (h : Delivers env w packet rest) :
    ∃ after, recv env w = .ok 0 (w.receive packet after) := by
  obtain ⟨w', hrecv, hmemory, -, hnumber, -⟩ := h
  obtain ⟨-, packet', -, hstate⟩ := recv_receives hrecv
  generalize w'.incoming = after at hstate
  subst hstate
  have hbody : packet'.body = packet.body :=
    List.append_cancel_right (Option.some.inj hmemory)
  have hid : packet'.id = packet.id := by
    have hsame : packet'.id.toUInt32 + 1 = packet.id.toUInt32 + 1 := hnumber
    have hlt := packet.id.toNat_lt
    have hlt' := packet'.id.toNat_lt
    have hnat := congrArg UInt32.toNat hsame
    rw [UInt32.toNat_add, UInt32.toNat_add, UInt8.toNat_toUInt32, UInt8.toNat_toUInt32] at hnat
    apply UInt8.toNat_inj.mp
    change (packet'.id.toNat + 1) % 2 ^ 32 = (packet.id.toNat + 1) % 2 ^ 32 at hnat
    omega
  obtain ⟨id, body, short⟩ := packet
  obtain ⟨id', body', short'⟩ := packet'
  cases hbody
  cases hid
  exact ⟨after, hrecv⟩

theorem handleCommandPacket_eq {packet : Packet} {after : List Arrival}
    (hrecv : recv env w = .ok 0 (w.receive packet after)) : handleCommandPacket env w =
      handleCommand env (packet.body ++ [0]) packet.body.length (w.receive packet after) := by
  unfold handleCommandPacket
  rw [bind_of_ok hrecv, bind_get]
  rfl

/-- A turn of the loop answers a request that is answerable. -/
theorem Waits.answer (hcooperates : Cooperates env) (hfuel : 0 < env.fuel)
    (hwaits : Waits env (World.fresh connectionString incoming) w) {packet : Packet}
    {after : List Arrival} {r : Request} (hrecv : recv env w = .ok 0 (w.receive packet after))
    (hrequest : packet.request env = some r)
    (hanswerable : r.Answerable env (connectionHandle env) connectionString w.calls) :
    ∃ w', Waits env (World.fresh connectionString incoming) w' ∧ w'.incoming = after ∧
      ∀ n, workerLoop env (n + 1) w = workerLoop env n w' := by
  obtain ⟨_, _, -, hresting⟩ := hwaits.resting
  obtain ⟨_, _, _, -, -, hsession⟩ := hresting.exists_session
  obtain ⟨hdbc, hstring⟩ := And.intro hsession.databaseHandle_eq hsession.connectionString_eq
  have hidle := hwaits.idle.status
  obtain ⟨w₁, status, hhandle, hstatus⟩ := handleCommand_answers (w := w.receive packet after)
    hcooperates hfuel (by exact hdbc) (by exact hidle) hrequest (by exact hstring ▸ hanswerable)
  have hcommand := (handleCommandPacket_eq hrecv).trans hhandle
  obtain ⟨hmem, hcode⟩ := (Sends.command hwaits hcommand).status_mem
  obtain ⟨w₂, hreply⟩ := reply_answers_of hcooperates hstatus (hmem status hstatus) hcode
  obtain ⟨w', hreset⟩ : ∃ w', resetTransientState env w₂ = .ok ⟨⟩ w' := by
    unfold resetTransientState
    rw [getStatus_ok, bind_lift_ok]
    exact ⟨_, rfl⟩
  refine ⟨w', .next hwaits hcommand hreply hreset, ?_, fun n => ?_⟩
  · have hline := (handleCommand_keeps line_unserved env _ _).of_ok hhandle
    obtain ⟨_, -, rfl⟩ := reply_state hmem hcode hreply
    obtain rfl := resetTransientState_returns hreset
    exact congrArg (·.2.1) hline
  · rw [workerLoop, bind_of_ok hcommand, if_pos rfl, bind_of_ok hreply, bind_of_ok hreset]

/-- **A waiting worker answers the next packet** exactly if it has a request that is answerable, after
the calls so far. -/
theorem answers_next_iff (hcooperates : Cooperates env) (hfuel : 0 < env.fuel)
    (hwaits : Waits env (World.fresh connectionString incoming) w) {packet : Packet}
    {rest : List UInt8} (hdelivers : Delivers env w packet rest) :
    (∃ w', workerLoop env 1 w = .ok false w') ↔ ∃ r, packet.request env = some r ∧
      r.Answerable env (connectionHandle env) connectionString w.calls := by
  obtain ⟨after, hrecv⟩ := hdelivers.recv_eq
  constructor
  · rintro ⟨w', hloop⟩
    obtain ⟨_, _, -, hresting⟩ := hwaits.resting
    obtain ⟨_, _, _, -, -, hsession⟩ := hresting.exists_session
    obtain ⟨hdbc, hstring⟩ := And.intro hsession.databaseHandle_eq hsession.connectionString_eq
    have hidle := hwaits.idle.status
    rcases workerLoop_succ hidle hloop with ⟨hquit, -⟩ | ⟨w₁, w₂, w₃, hcommand, hreply, -, -⟩
    · cases hquit
    · have hcode := (Sends.command hwaits hcommand).status_mem.2
      obtain ⟨status, hstatus⟩ := reply_status hcode hreply
      rw [handleCommandPacket_eq hrecv] at hcommand
      rcases handleCommand_served (by exact hdbc) (by exact hidle) hcommand with
        ⟨hrv, -⟩ | ⟨-, r, hrequest, -⟩
      · cases hrv
      · have hanswerable := handleCommand_answered (by exact hdbc) hrequest hcommand hstatus
        exact ⟨r, hrequest, hstring ▸ hanswerable⟩
  · intro h
    obtain ⟨r, hrequest, hanswerable⟩ := h
    obtain ⟨w', -, -, hloop⟩ :=
      hwaits.answer hcooperates hfuel hrecv hrequest hanswerable
    exact ⟨w', hloop 0⟩

end

/-- A driver that finds no table and has no rows. -/
def rowless (calls : List OdbcCall) : OdbcCall → OdbcReply
  | .fetch _ => ⟨SQL_NO_DATA, .null, fun _ _ => []⟩
  | call => unknownObject calls call

theorem cooperates_rowless : Cooperates (.benign rowless) where
  takes _ _ := rfl
  manages _ call hcall := by
    cases call with
    | driverConnect => exact hcall.elim
    | execDirect => exact hcall.elim
    | fetch => exact hcall.elim
    | _ => rfl
  empty _ _ := rfl

/-- `SELECT 1 LIMIT 2`, as a packet. -/
def selectPacket : Packet := ⟨0, 3 :: chars "SELECT 1 LIMIT 2", by decide⟩

/-- The worker of a client that selects some rows waits for the statement, which is delivered. -/
theorem exists_waits_select : ∃ w rest, Waits (.benign rowless) (World.fresh [] selectAndQuit) w ∧
    Delivers (.benign rowless) w selectPacket rest := by
  have hrun : (match workerStart (.benign rowless) (World.fresh [] selectAndQuit) with
      | .ok _ w₁ => match reply (.benign rowless) w₁ with
        | .ok _ w => match recv (.benign rowless) w with
          | .ok rv w' => decide (rv = 0 ∧
              w'.conn.xferBuffer.memory = some (selectPacket.body ++ [0]) ∧
              w'.conn.xferBuffer.size = selectPacket.body.length ∧
              w'.conn.packetNumber = selectPacket.id.toUInt32 + 1)
          | .error _ _ => false
        | .error _ _ => false
      | .error _ _ => false) = true := by decide +kernel
  split at hrun
  · next w₁ hstart =>
    split at hrun
    · next w hreply =>
      split at hrun
      · next rv w' hrecv =>
        obtain ⟨rfl, hmemory, hsize, hnumber⟩ := of_decide_eq_true hrun
        exact ⟨w, arrived w'.incoming, .start hstart hreply, w', hrecv, hmemory, hsize, hnumber, rfl⟩
      · cases hrun
    · cases hrun
  · cases hrun

/-- It asks for a statement, which fails. -/
theorem selectPacket_request : ∃ text,
    selectPacket.request (.benign rowless) = some (.statement text) ∧
      ∀ dbc connectionString calls,
        (Request.statement text).Answerable (.benign rowless) dbc connectionString calls := by
  refine ⟨chars "SELECT TOP  2 1 ", by decide +kernel, fun _ _ _ => ?_⟩
  exact ⟨_, rfl, .inl rfl⟩

/-- The statement is answered, with an error. -/
theorem answers_next_select : ∃ w, Waits (.benign rowless) (World.fresh [] selectAndQuit) w ∧
    ∃ w', workerLoop (.benign rowless) 1 w = .ok false w' := by
  obtain ⟨w, rest, hwaits, hdelivers⟩ := exists_waits_select
  obtain ⟨text, hrequest, hanswerable⟩ := selectPacket_request
  refine ⟨w, hwaits, ?_⟩
  apply (answers_next_iff cooperates_rowless (by decide) hwaits hdelivers).mpr
  exact ⟨_, hrequest, hanswerable _ _ _⟩

end Fxmy
