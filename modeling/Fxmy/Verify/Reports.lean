import Fxmy.Verify.Told
import Fxmy.Verify.Translate

/-!
# What the callers are told of an answer

`fxmy_verify_and_log_odbc` returns the status of the last record, so what it returns for a failed call
is NULL without records and may be a success with them (`reported_iff`).
-/

namespace Fxmy

open Exec

/-- The return code is none of the three that `fxmy_verify_and_log_odbc` knows. -/
def OdbcReply.Errs (reply : OdbcReply) : Prop :=
  reply.returnCode ≠ SQL_SUCCESS ∧ reply.returnCode ≠ SQL_SUCCESS_WITH_INFO ∧
    reply.returnCode ≠ SQL_NO_DATA

/-- The status that is made of the answer is not NULL, and an error if the call failed. -/
def Reported (build : Build) (reply : OdbcReply) (type : HandleType) (handle : Handle) : Prop :=
  ∃ s, verifyAndLogOdbc build reply type handle = .ok (some s) ∧ (reply.Errs → s.header ≠ 0)

/-! ## Under a debugger -/

theorem getStatus_total (ndebug : Bool) (native : Int) :
    ∃ s, getStatus ⟨ndebug, true⟩ native = .ok s := by
  unfold getStatus
  cases tableEntry native with
  | some s => exact ⟨s, rfl⟩
  | none => exact ⟨_, rfl⟩

theorem readDiagnostics_total (ndebug : Bool) (before : Option Status) (records : List Int) :
    ∃ status, readDiagnostics ⟨ndebug, true⟩ before records = .ok status := by
  induction records generalizing before with
  | nil => exact ⟨before, rfl⟩
  | cons native records ih =>
    obtain ⟨s, hs⟩ := getStatus_total ndebug native
    rw [readDiagnostics, hs, except_bind_ok]
    exact ih (some s)

theorem verifyAndLogOdbc_total (ndebug : Bool) (reply : OdbcReply) (type : HandleType)
    (handle : Handle) : ∃ status, verifyAndLogOdbc ⟨ndebug, true⟩ reply type handle = .ok status := by
  obtain ⟨status, hread⟩ := readDiagnostics_total ndebug none (reply.diagnostics type handle)
  unfold verifyAndLogOdbc
  split
  · exact ⟨_, rfl⟩
  · split
    · exact ⟨_, rfl⟩
    · rw [hread, except_bind_ok]
      split
      · exact ⟨_, rfl⟩
      · exact ⟨status, rfl⟩

/-! ## Failed calls -/

theorem Status.header_ne_zero {s : Status} : s.header ≠ 0 ↔ failed (some s) = .ok true := by
  simp [failed, Status.succeeded]

/-- A failed call is an error if its last record is one. -/
theorem OdbcReply.Errs.fails_iff {reply : OdbcReply} (h : reply.Errs) (type : HandleType)
    (handle : Handle) : reply.Fails type handle ↔
      ∃ native ∈ (reply.diagnostics type handle).getLast?, native ∉ fineCodes := by
  obtain ⟨hsuccess, hinfo, hnoData⟩ := h
  unfold OdbcReply.Fails OdbcReply.Succeeds
  cases hlast : (reply.diagnostics type handle).getLast? with
  | none => simp [List.getLast?_eq_none_iff.mp hlast, hnoData]
  | some native =>
    have hne : reply.diagnostics type handle ≠ [] := by
      intro hnil
      rw [hnil] at hlast
      cases hlast
    simp [hsuccess, hinfo, hnoData, hne]

/-- NULL comes of a failed call only. -/
theorem verifyAndLogOdbc_errs {build : Build} {reply : OdbcReply} {type : HandleType}
    {handle : Handle} (h : verifyAndLogOdbc build reply type handle = .ok none) : reply.Errs := by
  have hnot : ¬ reply.Succeeds type handle := fun hsucceeds => by
    obtain ⟨s, hs, -⟩ := (verifyAndLogOdbc_outcome h).succeeds_iff.mpr hsucceeds
    cases hs
  obtain ⟨hsuccess, hinfo⟩ := OdbcReply.failed_of_not_succeeds hnot
  refine ⟨hsuccess, hinfo, fun hnoData => ?_⟩
  cases (verifyAndLogOdbc_isSome hnot h).mpr (.inl hnoData)

/-- **When a failed call is reported**: its last record has a native error that is reported as an
error, be it by the default entry. -/
theorem reported_iff (ndebug : Bool) (reply : OdbcReply) (type : HandleType) (handle : Handle) :
    Reported ⟨ndebug, true⟩ reply type handle ↔
      (reply.Errs →
        ∃ native ∈ (reply.diagnostics type handle).getLast?, native ∉ fineCodes) := by
  obtain ⟨status, hstatus⟩ := verifyAndLogOdbc_total ndebug reply type handle
  have hreported : Reported ⟨ndebug, true⟩ reply type handle ↔
      ∃ s, status = some s ∧ (reply.Errs → failed (some s) = .ok true) := by
    simp only [Reported, hstatus, Except.ok.injEq, Status.header_ne_zero]
  rw [hreported]
  cases status with
  | none =>
    have herrs := verifyAndLogOdbc_errs hstatus
    refine iff_of_false (by simp) fun h => ?_
    cases (verifyAndLogOdbc_fails hstatus).mpr ((herrs.fails_iff type handle).mpr (h herrs))
  | some s =>
    simp only [Option.some.injEq, exists_eq_left']
    refine forall_congr' fun herrs => ?_
    rw [verifyAndLogOdbc_fails hstatus, herrs.fails_iff]

/-- `SQL_ERROR`, as `sql.h` has it. -/
def SQL_ERROR : Int := -1

/-- A failed call without records leaves NULL, and one with the record of a changed database behind
that of its error a success. -/
theorem failure_not_reported :
    ¬ Reported ⟨true, true⟩ ⟨SQL_ERROR, .null, fun _ _ => []⟩ .stmt (.given 1) ∧
      ¬ Reported ⟨true, true⟩ ⟨SQL_ERROR, .null, fun _ _ => [208, 5701]⟩ .stmt (.given 1) := by
  constructor
  · rintro ⟨s, h, -⟩
    cases h
  · rintro ⟨s, h, herror⟩
    cases h
    exact herror ⟨by decide, by decide, by decide⟩ rfl

/-! ## Executing -/

/-- A failed call leaves the record of an error, and records can be read only through the handle of
the call. -/
structure OdbcReply.Diagnosed (reply : OdbcReply) (type : HandleType) (handle : Handle) : Prop where
  leaves : reply.Errs → ∃ native ∈ reply.diagnostics type handle, ∃ s, tableEntry native = some s ∧
    s.succeeded = false
  only : ∀ other, other ≠ handle → ∀ type, reply.diagnostics type other = []

/-- A query that `fxmy_exec` hands to `SQLExecDirect`: the connection has its handle, and the driver
gives out one for the statement. -/
structure Execution (env : Env) where
  world : World
  dbc : Handle
  block : List FxmyChar
  text : List FxmyChar
  connected : databaseHandle world.conn = .ok dbc
  allocated :
    verifyOdbc env.build (env.odbc world.calls (.allocHandle .stmt dbc)) .dbc dbc = .ok ()
  terminated : stringText block = .ok text
  given : statementHandle env world.calls dbc ≠ .addressOf

/-- Without records to read. -/
theorem verifyAndLogOdbc_unrecorded {build : Build} {reply : OdbcReply} {type : HandleType}
    {handle : Handle} (h : reply.diagnostics type handle = []) :
    verifyAndLogOdbc build reply type handle = .ok
      (if reply.Failed then
        if reply.returnCode = SQL_NO_DATA then tableEntry FXMY_ERROR_NO_DATA else none
      else some statusOk) := by
  unfold verifyAndLogOdbc
  by_cases hsuccess : reply.returnCode = SQL_SUCCESS
  · rw [if_pos hsuccess, if_neg fun hfailed => hfailed.1 hsuccess]
    rfl
  rw [if_neg hsuccess]
  by_cases hnoData : reply.returnCode = SQL_NO_DATA
  · have hfailed : reply.Failed := ⟨hsuccess, by rw [hnoData]; decide⟩
    rw [if_pos hnoData, if_pos hfailed, if_pos hnoData]
    rfl
  rw [if_neg hnoData, h, readDiagnostics, except_bind_ok]
  by_cases hinfo : reply.returnCode = SQL_SUCCESS_WITH_INFO
  · rw [if_pos hinfo, if_neg fun hfailed => hfailed.2 hinfo]
    rfl
  · have hfailed : reply.Failed := ⟨hsuccess, hinfo⟩
    rw [if_neg hinfo, if_pos hfailed, if_neg hnoData]

namespace Execution

variable {env : Env} (e : Execution env)

/-- The statement's handle. -/
def handle : Handle := statementHandle env e.world.calls e.dbc

/-- The answer of `SQLExecDirect`. -/
def reply : OdbcReply := executed env e.world.calls e.dbc e.text

/-- The state behind the execution. -/
def after : World := e.world.execute env e.dbc e.text

/-- The answer to the release of the handle, where it comes next. -/
def released : OdbcReply := env.odbc e.after.calls (.freeHandle .stmt e.handle)

/-- A failure leaves an error, and neither a handle nor a pointer to one; a success leaves both. -/
def Reports : Prop := ∃ status handle w, exec env e.block e.world = .ok (status, handle) w ∧
  (e.reply.Failed → failed status = .ok true ∧ handle = .null ∧
    w.calls = (e.after.ask (.freeHandle .stmt e.handle)).calls) ∧
  (¬ e.reply.Failed → succeeded status = .ok true ∧ handle = e.handle ∧ w.calls = e.after.calls)

/-- What is left to do behind the execution. -/
theorem exec_eq : exec env e.block e.world = (do
    let status ← Prog.stops (verifyAndLogOdbc env.build e.reply .stmt .addressOf)
    if ← Prog.stops (failed status) then do
      let freed ← Prog.odbcCall env (.freeHandle .stmt e.handle)
      Prog.stops (verifyOdbc env.build freed .dbc e.dbc)
      pure (status, .null)
    else pure (status, e.handle) : Prog (Option Status × Handle)) e.after := by
  unfold exec
  rw [bind_get, e.connected, bind_lift_ok, Prog.bind_odbcCall, e.allocated, bind_lift_ok,
    e.terminated, bind_lift_ok, Prog.bind_odbcCall]
  rfl

/-- The records are asked for with the address of the handle, so that there are none. -/
theorem status_eq (h : e.reply.Diagnosed .stmt e.handle) :
    verifyAndLogOdbc env.build e.reply .stmt .addressOf = .ok
      (if e.reply.Failed then
        if e.reply.returnCode = SQL_NO_DATA then tableEntry FXMY_ERROR_NO_DATA else none
      else some statusOk) :=
  verifyAndLogOdbc_unrecorded (h.only _ (Ne.symm e.given) _)

theorem reports_of_not_failed (h : e.reply.Diagnosed .stmt e.handle) (hfailed : ¬ e.reply.Failed) :
    e.Reports := by
  unfold Reports
  rw [e.exec_eq, e.status_eq h, if_neg hfailed, bind_lift_ok]
  exact ⟨_, _, _, rfl, fun h => absurd h hfailed, fun _ => ⟨rfl, rfl, rfl⟩⟩

/-- NULL is read through. -/
theorem not_reports_of_null (h : e.reply.Diagnosed .stmt e.handle) (hfailed : e.reply.Failed)
    (hnoData : e.reply.returnCode ≠ SQL_NO_DATA) : ¬ e.Reports := by
  unfold Reports
  rw [e.exec_eq, e.status_eq h, if_pos hfailed, if_neg hnoData, bind_lift_ok]
  rintro ⟨_, _, _, hexec, -⟩
  cases hexec

/-- With nothing to do the handle is released. -/
theorem reports_noData_iff (h : e.reply.Diagnosed .stmt e.handle) (hfailed : e.reply.Failed)
    (hnoData : e.reply.returnCode = SQL_NO_DATA) :
    e.Reports ↔ verifyOdbc env.build e.released .dbc e.dbc = .ok () := by
  have hfail : failed (tableEntry FXMY_ERROR_NO_DATA) = .ok true := rfl
  unfold Reports
  rw [e.exec_eq, e.status_eq h, if_pos hfailed, if_pos hnoData, bind_lift_ok, hfail, bind_lift_ok,
    if_pos rfl, Prog.bind_odbcCall]
  change (∃ status handle w, (Prog.stops (verifyOdbc env.build e.released .dbc e.dbc) >>=
    fun _ => pure (tableEntry FXMY_ERROR_NO_DATA, Handle.null)) _ = .ok (status, handle) w ∧ _) ↔ _
  cases verifyOdbc env.build e.released .dbc e.dbc with
  | ok u =>
    exact iff_of_true ⟨_, _, _, rfl, fun _ => ⟨rfl, rfl, rfl⟩, fun hnot => absurd hfailed hnot⟩ rfl
  | error stop =>
    refine iff_of_false ?_ nofun
    rintro ⟨_, _, _, hexec, -⟩
    cases hexec

/-- **When an execution is reported**: it succeeds, or finds nothing to do and its handle can be
released. -/
theorem reports_iff (h : e.reply.Diagnosed .stmt e.handle) : e.Reports ↔
    ¬ e.reply.Failed ∨ e.reply.returnCode = SQL_NO_DATA ∧
      verifyOdbc env.build e.released .dbc e.dbc = .ok () := by
  by_cases hfailed : e.reply.Failed
  · have hor (p : Prop) : ¬ e.reply.Failed ∨ p ↔ p := or_iff_right (not_not.mpr hfailed)
    rw [hor]
    by_cases hnoData : e.reply.returnCode = SQL_NO_DATA
    · rw [e.reports_noData_iff h hfailed hnoData, and_iff_right hnoData]
    · exact iff_of_false (e.not_reports_of_null h hfailed hnoData) fun hp => hnoData hp.1
  · exact iff_of_true (e.reports_of_not_failed h hfailed) (.inl hfailed)

/-- A driver that is obliging up to the execution. -/
def answering (reply : Handle → OdbcReply) (calls : List OdbcCall) : OdbcCall → OdbcReply
  | .execDirect statement _ => reply statement
  | call => obliging calls call

/-- `SELECT 1` on a connection whose driver executes nothing but answers. -/
def select (reply : Handle → OdbcReply) : Execution (Env.benign (answering reply)) where
  world := { World.fresh [] [] with
    conn := { Connection.fresh [] with odbc := some ⟨.given 1, .given 1⟩ } }
  dbc := .given 1
  block := cstring "SELECT 1"
  text := chars "SELECT 1"
  connected := rfl
  allocated := rfl
  terminated := rfl
  given := nofun

/-- The answer for a table that does not exist. -/
def unknownObject (statement : Handle) : OdbcReply :=
  ⟨SQL_ERROR, .null, fun _ handle => if handle = statement then [208] else []⟩

theorem diagnosed_unknownObject : (unknownObject (.given 1)).Diagnosed .stmt (.given 1) where
  leaves _ := ⟨208, by decide, statusDefault, rfl, rfl⟩
  only other hother _ := if_neg hother

/-- The record of an unknown table is not found, and the NULL is read through. -/
theorem unknownObject_not_reported :
    ¬ ∀ (env : Env) (e : Execution env), e.reply.Diagnosed .stmt e.handle → e.Reports := by
  intro h
  obtain ⟨_, _, _, hexec, -⟩ := h _ (select unknownObject) diagnosed_unknownObject
  cases hexec

theorem select_reported : (select fun _ => obliging [] (.fetch .null)).Reports :=
  ((select _).reports_iff ⟨fun herrs => absurd rfl herrs.1, fun _ _ _ => rfl⟩).mpr
    (.inl fun hfailed => hfailed.1 rfl)

end Execution

/-! ## Connecting -/

/-- A connection for which `fxmy_connect` is called, with a name of a database whose USE statement has
room in its buffer. -/
structure Connecting (env : Env) where
  world : World
  dbc : Handle
  block : List FxmyChar
  name : List FxmyChar
  connected : databaseHandle world.conn = .ok dbc
  database : world.conn.database = some block
  terminated : stringText block = .ok name
  fits : (chars "USE " ++ name ++ chars ";").length < 4096

namespace Connecting

variable {env : Env} (c : Connecting env)

/-- The USE statement. -/
def use : List FxmyChar := chars "USE " ++ c.name ++ chars ";"

/-- The call of `SQLDriverConnect`. -/
def call : OdbcCall := .driverConnect c.dbc c.world.conn.connectionString

/-- Its answer. -/
def reply : OdbcReply := env.odbc c.world.calls c.call

/-- The state that `fxmy_connect` returns or stops in. -/
def after : World := final (connect env c.world)

/-- The database is selected once the connection is made, and only then; a statement handle is
released as one. -/
structure Selects : Prop where
  uses : ¬ c.reply.Failed → c.after.handed = c.world.handed ++ [c.use] ∧
    ∃ calls statement, calls ++ [.execDirect statement c.use] <+: c.after.calls ∧
      verifyAndLogOdbc env.build (env.odbc calls (.execDirect statement c.use)) .stmt statement =
        .ok c.after.conn.status
  fails : c.reply.Failed → ∃ w, connect env c.world = .ok 0 w ∧ w.handed = c.world.handed ∧
    failed w.conn.status = .ok true
  releases : ∀ calls, calls ++ [.allocHandle .stmt c.dbc] <+: c.after.calls →
    c.world.calls.length ≤ calls.length →
    .freeHandle .stmt (statementHandle env calls c.dbc) ∈ c.after.calls

/-- Once the connection is made nothing is executed. -/
theorem after_handed (h : ¬ c.reply.Failed) : c.after.handed = c.world.handed := by
  have hsucceeds : c.reply.Succeeds .dbc c.dbc :=
    not_not.mp fun hnot => h (OdbcReply.failed_of_not_succeeds hnot)
  have hasked : (c.world.ask c.call).handed = c.world.handed :=
    @odbcCall_keeps_handed env c.call rfl c.world
  unfold after connect
  rw [bind_get, c.connected, bind_lift_ok, bind_get, Prog.bind_odbcCall]
  change (final ((Prog.stops (verifyAndLogOdbc env.build c.reply .dbc c.dbc) >>= _)
    (c.world.ask c.call))).handed = _
  cases hstatus : verifyAndLogOdbc env.build c.reply .dbc c.dbc with
  | error e => exact hasked
  | ok status =>
    obtain ⟨s, rfl, hs⟩ := (verifyAndLogOdbc_outcome hstatus).succeeds_iff.mpr hsucceeds
    rw [bind_lift_ok, bind_modify, succeeded, hs, bind_lift_ok, if_pos rfl]
    exact hasked

/-- **Connecting selects no database**: the test of `FXMY_SUCCEEDED` is the wrong way round. -/
theorem not_selects : ¬ c.Selects := by
  intro h
  have hlength (w : World) (text : List FxmyChar) : w.handed ≠ w.handed ++ [text] := by
    intro heq
    have := congrArg List.length heq
    rw [List.length_append, List.length_singleton] at this
    omega
  by_cases hfailed : c.reply.Failed
  · obtain ⟨w, hconnect, hnothing, hstatus⟩ := h.fails hfailed
    obtain ⟨-, _, _, status, -, rfl, -, hcases⟩ := connect_returns hconnect
    rcases hcases with ⟨hsucceeded, rfl⟩ | ⟨-, text, used, -, -, -, rfl⟩
    · -- The status that is left is a success.
      cases status with
      | none => cases hsucceeded
      | some s =>
        rw [succeeded, Except.ok.injEq] at hsucceeded
        simp [World.report, failed, hsucceeded] at hstatus
    · refine hlength c.world text (hnothing.symm.trans ?_)
      simp only [World.handed, World.report, World.ask, World.execute, List.filterMap_append,
        List.append_assoc]
      rfl
  · obtain ⟨huses, -⟩ := h.uses hfailed
    rw [c.after_handed hfailed] at huses
    exact hlength _ _ huses

/-- The connection is made, and the database `db` is not selected. -/
theorem db_not_selected : ¬ ∀ (env : Env) (c : Connecting env), c.Selects := by
  intro h
  let connection : Connection := { Connection.fresh [] with
    odbc := some ⟨.given 1, .given 1⟩
    database := some (cstring "db") }
  let c : Connecting (Env.benign obliging) := {
    world := { World.fresh [] [] with conn := connection }
    dbc := .given 1
    block := cstring "db"
    name := chars "db"
    connected := rfl
    database := rfl
    terminated := rfl
    fits := by decide }
  have huses := ((h _ c).uses (by decide)).1
  exact absurd huses (by decide)

end Connecting

end Fxmy
