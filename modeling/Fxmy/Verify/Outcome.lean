import Fxmy.Verify.Frames
import Fxmy.Verify.Returns

/-!
# What a command makes of the status

A command that is answered leaves the driver's last word on it in the connection's status, or the
status it found there, which is that of `FXMY_OK`. `Succeeds` reads off the packet and the driver's
answers whether that is a success (`handleCommandPacket_outcome`).
-/

namespace Fxmy

open Exec

/-! ## Answers -/

/-- The native errors that the table reports as a success. -/
def fineCodes : List Int := [0, 5701, 5703]

/-- The driver reports a success, or its last record is no error. -/
def OdbcReply.Succeeds (reply : OdbcReply) (type : HandleType) (handle : Handle) : Prop :=
  reply.returnCode = SQL_SUCCESS ∨ reply.returnCode = SQL_SUCCESS_WITH_INFO ∨
    reply.returnCode ≠ SQL_NO_DATA ∧
      ∃ native ∈ (reply.diagnostics type handle).getLast?, native ∈ fineCodes

/-- A status of the table, or NULL, that is a success exactly if `succeeds`. -/
structure Outcome (succeeds : Prop) (status : Option Status) : Prop where
  mem : ∀ s, status = some s → s ∈ errorTable
  succeeds_iff : (∃ s, status = some s ∧ s.succeeded = true) ↔ succeeds

theorem Outcome.congr {p q : Prop} {status : Option Status} (h : Outcome p status) (hpq : p ↔ q) :
    Outcome q status := ⟨h.mem, h.succeeds_iff.trans hpq⟩

theorem Outcome.some_iff {p : Prop} {s : Status} :
    Outcome p (some s) ↔ s ∈ errorTable ∧ (s.succeeded = true ↔ p) := by
  constructor
  · intro h
    refine ⟨h.mem s rfl, Iff.trans ?_ h.succeeds_iff⟩
    simp
  · rintro ⟨hmem, hiff⟩
    refine ⟨?_, Iff.trans ?_ hiff⟩
    · rintro _ ⟨⟩
      exact hmem
    · simp

theorem outcome_statusOk : Outcome True (some statusOk) :=
  Outcome.some_iff.mpr ⟨List.mem_cons_self, by simp [succeeded_statusOk]⟩

/-- What `FXMY_SUCCEEDED` says of an outcome. -/
theorem Outcome.of_succeeded {p : Prop} {status : Option Status} {b : Bool} (h : Outcome p status)
    (hb : succeeded status = .ok b) : b = true ↔ p := by
  cases status with
  | none => cases hb
  | some s =>
    cases hb
    exact (Outcome.some_iff.mp h).2

/-- What `FXMY_FAILED` says of an outcome. -/
theorem Outcome.of_failed {p : Prop} {status : Option Status} {b : Bool} (h : Outcome p status)
    (hb : failed status = .ok b) : b = false ↔ p := by
  cases status with
  | none => cases hb
  | some s =>
    cases hb
    rw [Bool.not_eq_false']
    exact (Outcome.some_iff.mp h).2

theorem tableEntry_outcome {native : Int} {s : Status} (h : tableEntry native = some s) :
    Outcome (native ∈ fineCodes) (some s) := by
  have htable : ∀ s ∈ errorTable, s.succeeded = true ↔ s.nativeErrorCode ∈ fineCodes := by decide
  have hmem := List.mem_of_find?_eq_some h
  have hcode : s.nativeErrorCode = native := by simpa using List.find?_some h
  refine Outcome.some_iff.mpr ⟨hmem, ?_⟩
  rw [htable s hmem, hcode]

theorem getStatus_outcome {build : Build} {native : Int} {s : Status}
    (h : getStatus build native = .ok s) : Outcome (native ∈ fineCodes) (some s) := by
  unfold getStatus at h
  cases hentry : tableEntry native with
  | some entry =>
    rw [hentry] at h
    cases h
    exact tableEntry_outcome hentry
  | none =>
    -- A code that the table lacks is no fine one, and neither is the default.
    rw [hentry] at h
    obtain ⟨⟨⟩, -, h⟩ := except_bind_eq_ok.mp h
    have hfine : ∀ native ∈ fineCodes, tableEntry native ≠ none := by decide
    have hdefault : FXMY_ERROR_DEFAULT ∉ fineCodes := by decide
    cases h
    refine (tableEntry_outcome (Option.some_get _).symm).congr (iff_of_false hdefault ?_)
    exact fun hmem => hfine native hmem hentry

theorem getStatus_map_outcome {build : Build} {native : Int} {status : Option Status}
    (h : some <$> getStatus build native = .ok status) : Outcome (native ∈ fineCodes) status := by
  cases hs : getStatus build native with
  | ok s =>
    rw [hs] at h
    cases h
    exact getStatus_outcome hs
  | error e =>
    rw [hs] at h
    cases h

theorem readDiagnostics_eq_ok {build : Build} {before status : Option Status} {records : List Int}
    (h : readDiagnostics build before records = .ok status) :
    records = [] ∧ status = before ∨
      ∃ native ∈ records.getLast?, ∃ s, getStatus build native = .ok s ∧ status = some s := by
  induction records generalizing before with
  | nil =>
    cases h
    exact .inl ⟨rfl, rfl⟩
  | cons native records ih =>
    obtain ⟨s, hs, h⟩ := except_bind_eq_ok.mp h
    right
    rcases ih h with ⟨rfl, rfl⟩ | ⟨last, hlast, hstatus⟩
    · exact ⟨native, rfl, s, hs, rfl⟩
    · refine ⟨last, ?_, hstatus⟩
      rw [Option.mem_def] at hlast ⊢
      rw [List.getLast?_cons, hlast, Option.getD_some]

theorem readDiagnostics_outcome {build : Build} {records : List Int} {status : Option Status}
    (h : readDiagnostics build none records = .ok status) :
    Outcome (∃ native ∈ records.getLast?, native ∈ fineCodes) status := by
  rcases readDiagnostics_eq_ok h with ⟨rfl, rfl⟩ | ⟨native, hlast, s, hs, rfl⟩
  · exact ⟨by simp, by simp⟩
  · apply (getStatus_outcome hs).congr
    rw [Option.mem_def] at hlast
    simp [hlast]

/-- **The status that is made of an answer** is a success exactly if the answer is. -/
theorem verifyAndLogOdbc_outcome {build : Build} {reply : OdbcReply} {type : HandleType}
    {handle : Handle} {status : Option Status}
    (h : verifyAndLogOdbc build reply type handle = .ok status) :
    Outcome (reply.Succeeds type handle) status := by
  have hnoData : SQL_NO_DATA ≠ SQL_SUCCESS ∧ SQL_NO_DATA ≠ SQL_SUCCESS_WITH_INFO := by decide
  unfold verifyAndLogOdbc at h
  by_cases hsuccess : reply.returnCode = SQL_SUCCESS
  · rw [if_pos hsuccess] at h
    exact (getStatus_map_outcome h).congr (iff_of_true (by decide) (.inl hsuccess))
  rw [if_neg hsuccess] at h
  by_cases hnone : reply.returnCode = SQL_NO_DATA
  · rw [if_pos hnone] at h
    refine (getStatus_map_outcome h).congr (iff_of_false (by decide) ?_)
    intro h
    rcases h with h | h | ⟨h, -⟩
    · exact hsuccess h
    · exact hnoData.2 (hnone.symm.trans h)
    · exact h hnone
  rw [if_neg hnone] at h
  obtain ⟨sqlStatus, hread, h⟩ := except_bind_eq_ok.mp h
  by_cases hinfo : reply.returnCode = SQL_SUCCESS_WITH_INFO
  · rw [if_pos hinfo] at h
    exact (getStatus_map_outcome h).congr (iff_of_true (by decide) (.inr (.inl hinfo)))
  · rw [if_neg hinfo] at h
    cases h
    apply (readDiagnostics_outcome hread).congr
    simp [OdbcReply.Succeeds, hsuccess, hnone, hinfo]

/-- The driver gives out a handle for a statement. With a debugger attached the program goes on where
it does not, with whatever is in the variable. -/
def GivesOut (env : Env) (calls : List OdbcCall) (dbc : Handle) : Prop :=
  env.build.debugger = false → (env.odbc calls (.allocHandle .stmt dbc)).Succeeds .dbc dbc

/-- A program that goes on has been given its handle. -/
theorem givesOut_of_verifyOdbc {env : Env} {calls : List OdbcCall} {dbc : Handle}
    (h : verifyOdbc env.build (env.odbc calls (.allocHandle .stmt dbc)) .dbc dbc = .ok ()) :
    GivesOut env calls dbc := by
  intro hbuild
  unfold verifyOdbc at h
  obtain ⟨status, hstatus, h⟩ := except_bind_eq_ok.mp h
  obtain ⟨b, hb, h⟩ := except_bind_eq_ok.mp h
  cases b with
  | true =>
    rw [if_pos rfl, debugbreak, hbuild] at h
    cases h
  | false => exact ((verifyAndLogOdbc_outcome hstatus).of_failed hb).mp rfl

/-! ## Executing -/

/-- Executing the text of a block succeeds, by the records read through a handle that may depend on
the statement's. -/
def ExecSucceeds (env : Env) (w : World) (block : List FxmyChar) (through : Handle → Handle) : Prop :=
  ∃ dbc text, databaseHandle w.conn = .ok dbc ∧ stringText block = .ok text ∧
    (executed env w.calls dbc text).Succeeds .stmt (through (statementHandle env w.calls dbc))

/-- Connecting succeeds, or else the USE statement does. -/
def ConnectSucceeds (env : Env) (w : World) (database : List FxmyChar) : Prop :=
  ∃ dbc, databaseHandle w.conn = .ok dbc ∧
    ((env.odbc w.calls (.driverConnect dbc w.conn.connectionString)).Succeeds .dbc dbc ∨
      ∃ text, useText (some database) = .ok text ∧
        (executed env (w.calls ++ [.driverConnect dbc w.conn.connectionString]) dbc text).Succeeds
          .stmt
          (statementHandle env (w.calls ++ [.driverConnect dbc w.conn.connectionString]) dbc))

theorem execSucceeds_iff (env : Env) (through : Handle → Handle) {w : World}
    {block text : List FxmyChar} {dbc : Handle} (hdbc : databaseHandle w.conn = .ok dbc)
    (htext : stringText block = .ok text) : ExecSucceeds env w block through ↔
      (executed env w.calls dbc text).Succeeds .stmt
        (through (statementHandle env w.calls dbc)) := by
  unfold ExecSucceeds
  rw [hdbc, htext]
  simp

section

variable {env : Env} {w w' : World} {rv : Int}

theorem exec_outcome {query : List FxmyChar} {result : Option Status × Handle}
    (h : exec env query w = .ok result w') :
    Outcome (ExecSucceeds env w query fun _ => .addressOf) result.1 := by
  obtain ⟨dbc, text, hdbc, htext, -, hstatus, -⟩ := exec_returns h
  apply (verifyAndLogOdbc_outcome hstatus).congr
  exact (execSucceeds_iff env (fun _ => .addressOf) hdbc htext).symm

theorem connect_outcome {database : List FxmyChar} (hdatabase : w.conn.database = some database)
    (h : connect env w = .ok rv w') :
    rv = 0 ∧ Outcome (ConnectSucceeds env w database) w'.conn.status := by
  obtain ⟨rfl, dbc, _, status, hdbc, rfl, hstatus, hcases⟩ := connect_returns h
  have houtcome := verifyAndLogOdbc_outcome hstatus
  refine ⟨rfl, ?_⟩
  rcases hcases with ⟨hsucceeded, rfl⟩ | ⟨hsucceeded, text, used, htext, -, hused, rfl⟩
  · have hsucceeds := (houtcome.of_succeeded hsucceeded).mp rfl
    exact houtcome.congr (iff_of_true hsucceeds ⟨dbc, hdbc, .inl hsucceeds⟩)
  · have hnot := mt (houtcome.of_succeeded hsucceeded).mpr Bool.false_ne_true
    refine (verifyAndLogOdbc_outcome hused).congr ?_
    unfold ConnectSucceeds
    rw [hdbc, ← hdatabase, htext]
    simp only [Except.ok.injEq, exists_eq_left', hnot, false_or]
    rfl

/-! ## Queries -/

/-- DESCRIBE succeeds if its procedure does. Its records are read through the address of the handle. -/
def DescribeSucceeds (env : Env) (w : World) (query : List FxmyChar) : Prop :=
  ∃ buffer, describeText env.ctype query = .ok buffer ∧ ExecSucceeds env w buffer fun _ => .addressOf

/-- A general statement succeeds if it is not refused and its execution succeeds. -/
def StatementSucceeds (env : Env) (w : World) (query : List FxmyChar) : Prop :=
  ∃ statement, translate env.ctype query = .ok (some statement) ∧ ExecSucceeds env w statement id

/-- Setting names and showing tables always succeed. -/
def QuerySucceeds (env : Env) (w : World) (query : List FxmyChar) : Prop :=
  match queryBranch env.ctype query with
  | .ok .describe => DescribeSucceeds env w query
  | .ok .statement => StatementSucceeds env w query
  | _ => True

theorem describe_outcome {query : List FxmyChar} (h : describe env query w = .ok rv w') :
    rv = 0 ∧ Outcome (DescribeSucceeds env w query) w'.conn.status := by
  obtain ⟨rfl, buffer, status, handle, w₁, hbuffer, hexec, hcases⟩ := describe_returns h
  have hoption : Outcome (DescribeSucceeds env w query) status := by
    apply (exec_outcome hexec).congr
    unfold DescribeSucceeds
    rw [hbuffer]
    simp only [Except.ok.injEq, exists_eq_left']
    rfl
  refine ⟨rfl, ?_⟩
  rcases hcases with ⟨-, rfl⟩ | ⟨-, w₂, hrows, rfl⟩
  · exact hoption
  · have hconn := (describeRows_keeps conn_unasked env _ _).of_ok hrows
    exact (congrArg Connection.status hconn).symm ▸ hoption

/-- No row leaves the status of `FXMY_OK`, and a row that the debugger goes over leaves what there
was. -/
theorem showTablesRows_status {handle : Handle} {u : PUnit}
    (hstatus : w.conn.status = some statusOk) (h : showTablesRows env handle w = .ok u w') :
    w'.conn.status = some statusOk := by
  rcases showTablesRows_returns h with ⟨-, rfl⟩ | ⟨-, kept, hkept, rfl⟩
  · exact hstatus
  · exact hkept.elim id fun hkept => hkept.trans hstatus

theorem showTables_outcome {query : List FxmyChar} (hstatus : w.conn.status = some statusOk)
    (h : showTables env query w = .ok rv w') : rv = 0 ∧ Outcome True w'.conn.status := by
  obtain ⟨rfl, buffer, status, handle, blocks, w₁, w₂, -, hexec, hrows, rfl⟩ := showTables_returns h
  have hconn := (exec_keeps conn_unasked env _).of_ok hexec
  have hkept := showTablesRows_status ((congrArg Connection.status hconn).trans hstatus) hrows
  refine ⟨rfl, ?_⟩
  exact hkept.symm ▸ outcome_statusOk

/-- Only an error is kept; a success under a debugger leaves the status of `FXMY_OK`. -/
theorem execStatement_outcome {statement : List FxmyChar} (hstatus : w.conn.status = some statusOk)
    (h : execStatement env statement w = .ok rv w') :
    rv = 0 ∧ Outcome (ExecSucceeds env w statement id) w'.conn.status := by
  obtain ⟨rfl, dbc, text, status, kept, hdbc, htext, -, hverified, hkept, rfl⟩ :=
    execStatement_returns h
  have hexecuted : Outcome (ExecSucceeds env w statement id) status := by
    apply (verifyAndLogOdbc_outcome hverified).congr
    exact (execSucceeds_iff env id hdbc htext).symm
  refine ⟨rfl, ?_⟩
  rcases hkept with ⟨-, rfl⟩ | ⟨hsucceeded, -, rfl⟩
  · exact hexecuted
  · have hsucceeds := (hexecuted.of_failed hsucceeded).mp rfl
    exact hstatus.symm ▸ outcome_statusOk.congr (iff_of_true trivial hsucceeds)

theorem handleWideQuery_outcome {query : List FxmyChar} (hstatus : w.conn.status = some statusOk)
    (h : handleWideQuery env query w = .ok rv w') :
    rv = 0 ∧ Outcome (QuerySucceeds env w query) w'.conn.status := by
  obtain ⟨branch, hbranch, hcases⟩ := handleWideQuery_returns h
  unfold QuerySucceeds
  rw [hbranch]
  rcases hcases with ⟨rfl, rfl, rfl⟩ | ⟨rfl, h⟩ | ⟨rfl, h⟩ | ⟨rfl, hrefused, rfl, rfl⟩ |
    ⟨rfl, statement, htranslate, h⟩
  · exact ⟨rfl, hstatus ▸ outcome_statusOk⟩
  · exact describe_outcome h
  · exact showTables_outcome hstatus h
  · refine ⟨rfl, ?_⟩
    simp only [StatementSucceeds, hrefused, Except.ok.injEq, reduceCtorEq, false_and, exists_false]
    exact Outcome.some_iff.mpr ⟨by decide, by simp [succeeded_statusDefault]⟩
  · simp only [StatementSucceeds, htranslate, Except.ok.injEq, Option.some.injEq, exists_eq_left']
    exact execStatement_outcome hstatus h

/-! ## Commands -/

/-- What the bytes of a packet ask for succeeds. Setting an option always does. -/
def CommandSucceeds (env : Env) (w : World) (memory : List UInt8) (size : Nat) : Prop :=
  match memory with
  | [] => True
  | command :: ptr =>
    match Command.ofByte command with
    | some .initDb => ∃ database,
        fstrfromchar env.build (List.replicate (size - 1 + 1) nul) ptr (size - 1) = .ok database ∧
          ConnectSucceeds env w database
    | some .query => ∃ query, decodeQuery env.build ptr (size - 1) = .ok query ∧
        QuerySucceeds env w query
    | _ => True

/-- The next packet asks for something that succeeds. -/
def Succeeds (env : Env) (w : World) : Prop :=
  ∃ rv packet memory, recv env w = .ok rv packet ∧ packet.conn.xferBuffer.memory = some memory ∧
    CommandSucceeds env packet memory packet.conn.xferBuffer.size

theorem handleInitDb_outcome {ptr : List UInt8} {size : Nat} (h : handleInitDb env ptr size w = .ok rv w') :
    rv = 0 ∧ Outcome (∃ database,
      fstrfromchar env.build (List.replicate (size + 1) nul) ptr size = .ok database ∧
        ConnectSucceeds env w database) w'.conn.status := by
  obtain ⟨database, blocks, hdatabase, hconnect⟩ := handleInitDb_returns h
  obtain ⟨hrv, houtcome⟩ := connect_outcome rfl hconnect
  refine ⟨hrv, houtcome.congr ?_⟩
  rw [hdatabase]
  simp only [Except.ok.injEq, exists_eq_left']
  rfl

theorem handleQuery_outcome {query : List UInt8} {size : Nat} (hstatus : w.conn.status = some statusOk)
    (h : handleQuery env query size w = .ok rv w') :
    rv = 0 ∧ Outcome (∃ wideQuery, decodeQuery env.build query size = .ok wideQuery ∧
      QuerySucceeds env w wideQuery) w'.conn.status := by
  obtain ⟨wideQuery, hdecoded, hwide⟩ := handleQuery_returns h
  obtain ⟨hrv, houtcome⟩ := handleWideQuery_outcome (by exact hstatus) hwide
  refine ⟨hrv, houtcome.congr ?_⟩
  rw [hdecoded]
  simp only [Except.ok.injEq, exists_eq_left']
  rfl

theorem handleSetOption_outcome {ptr : List UInt8} (hstatus : w.conn.status = some statusOk)
    (h : handleSetOption ptr w = .ok rv w') : rv = 0 ∧ Outcome True w'.conn.status := by
  obtain ⟨rfl, off, rfl⟩ := handleSetOption_returns h
  exact ⟨rfl, hstatus.symm ▸ outcome_statusOk⟩

/-- One command, from the status of `FXMY_OK`: the client quits, or there is an outcome to send. -/
theorem handleCommand_outcome {memory : List UInt8} {size : Nat}
    (hstatus : w.conn.status = some statusOk) (h : handleCommand env memory size w = .ok rv w') :
    rv = -1 ∨ rv = 0 ∧ Outcome (CommandSucceeds env w memory size) w'.conn.status := by
  obtain ⟨command, ptr, rfl, hcases⟩ := handleCommand_returns h
  simp only [CommandSucceeds]
  rcases hcases with ⟨-, rfl, -⟩ | ⟨hcommand, h⟩ | ⟨hcommand, h⟩ | ⟨hcommand, h⟩
  · exact .inl rfl
  · rw [hcommand]
    exact .inr (handleInitDb_outcome h)
  · rw [hcommand]
    exact .inr (handleQuery_outcome hstatus h)
  · rw [hcommand]
    exact .inr (handleSetOption_outcome hstatus h)

/-- **The status that is answered with** is a success exactly if the command succeeds. -/
theorem handleCommandPacket_outcome (hstatus : w.conn.status = some statusOk)
    (h : handleCommandPacket env w = .ok rv w') :
    rv = -1 ∨ rv = 0 ∧ Outcome (Succeeds env w) w'.conn.status := by
  obtain ⟨packet, incoming, -, hrecv, hcommand⟩ := handleCommandPacket_returns h
  refine (handleCommand_outcome (by exact hstatus) hcommand).imp_right (And.imp_right ?_)
  intro houtcome
  refine houtcome.congr ⟨fun hsucceeds => ⟨_, _, _, hrecv, rfl, hsucceeds⟩, ?_⟩
  rintro ⟨rv', received, memory, hrecv', hmemory, hsucceeds⟩
  rw [hrecv] at hrecv'
  cases hrecv'
  cases hmemory
  exact hsucceeds

end

end Fxmy
