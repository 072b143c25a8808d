import Fxmy.Lib.Dialogue
import Fxmy.Verify.Outcome

/-!
# What the commands ask ODBC for

For each function that asks ODBC for something: the dialogue, and by how much `num_allocations` is
higher afterwards (`Asks`). A statement is allocated and executed (`statementTalk`); what follows on
its handle depends on the status that is made of the answer.
-/

namespace Fxmy

open Exec Dialogue

/-- Calls with their answers, in order. -/
abbrev Talk := List (OdbcCall × OdbcReply)

/-- The dialogue between `w` and `w'`. -/
def asked (env : Env) (w w' : World) : Talk :=
  answered env.odbc w.calls (w'.calls.drop w.calls.length)

/-- The call returned neither `SQL_SUCCESS` nor `SQL_SUCCESS_WITH_INFO`. -/
def OdbcReply.Failed (reply : OdbcReply) : Prop :=
  reply.returnCode ≠ SQL_SUCCESS ∧ reply.returnCode ≠ SQL_SUCCESS_WITH_INFO

instance (reply : OdbcReply) : Decidable reply.Failed := inferInstanceAs (Decidable (_ ∧ _))

/-- Between `w` and `w'` the calls of `talk` were made, and `blocks` more blocks allocated than
freed. -/
structure Asks (env : Env) (w : World) (talk : Talk) (blocks : Int) (w' : World) : Prop where
  talks : Talks env.odbc w.calls talk w'.calls
  blocks : w'.numAllocations = w.numAllocations + blocks

section

variable {env : Env} {w w₁ w' : World}

theorem Asks.asked_eq {talk : Talk} {blocks : Int} (h : Asks env w talk blocks w') :
    asked env w w' = talk := h.talks.answered_eq

theorem asks_nothing (env : Env) (w : World) (blocks : Int) : Asks env w [] blocks (w.count blocks) :=
  ⟨.nil _, rfl⟩

theorem Asks.append {talk talk' : Talk} {blocks blocks' : Int} (h : Asks env w talk blocks w₁)
    (h' : Asks env w₁ talk' blocks' w') : Asks env w (talk ++ talk') (blocks + blocks') w' := by
  refine ⟨h.talks.append h'.talks, ?_⟩
  rw [h'.blocks, h.blocks, Int.add_assoc]

/-- One more call. -/
theorem Asks.ask {talk : Talk} {blocks : Int} (h : Asks env w talk blocks w₁) (call : OdbcCall) :
    Asks env w (talk ++ [(call, env.odbc w₁.calls call)]) blocks (w₁.ask call) :=
  ⟨h.talks.append (.cons (.nil _)), h.blocks⟩

theorem Asks.report {talk : Talk} {blocks : Int} (h : Asks env w talk blocks w₁)
    (status : Option Status) : Asks env w talk blocks (w₁.report status) :=
  ⟨h.talks, h.blocks⟩

theorem Asks.count {talk : Talk} {blocks : Int} (h : Asks env w talk blocks w₁) (more : Int) :
    Asks env w talk (blocks + more) (w₁.count more) := by
  refine ⟨h.talks, ?_⟩
  rw [← Int.add_assoc, ← h.blocks]
  rfl

/-! ## Statements -/

/-- A text is executed on a new statement handle. -/
def statementTalk (env : Env) (calls : List OdbcCall) (dbc : Handle) (text : List FxmyChar) : Talk := [
  (.allocHandle .stmt dbc, env.odbc calls (.allocHandle .stmt dbc)),
  (.execDirect (statementHandle env calls dbc) text, executed env calls dbc text)]

theorem asks_execute (env : Env) (w : World) (dbc : Handle) (text : List FxmyChar) :
    Asks env w (statementTalk env w.calls dbc text) 0 (w.execute env dbc text) :=
  ⟨.cons (.cons (.nil _)), (Int.add_zero _).symm⟩

/-- What executing a text asks for, and the handle that is left. -/
theorem exec_asks {query : List FxmyChar} {result : Option Status × Handle}
    (h : exec env query w = .ok result w') :
    ∃ dbc text talk, databaseHandle w.conn = .ok dbc ∧ stringText query = .ok text ∧
      GivesOut env w.calls dbc ∧ Asks env w talk 0 w' ∧
      (failed result.1 = .ok false ∧ result.2 = statementHandle env w.calls dbc ∧
          talk = statementTalk env w.calls dbc text ∨
        failed result.1 = .ok true ∧ result.2 = .null ∧
          ∃ freed, talk = statementTalk env w.calls dbc text ++
            [(.freeHandle .stmt (statementHandle env w.calls dbc), freed)]) := by
  obtain ⟨dbc, text, hdbc, htext, halloc, -, hcases⟩ := exec_returns h
  have hgiven := givesOut_of_verifyOdbc halloc
  have hasks := asks_execute env w dbc text
  rcases hcases with ⟨hfailed, hhandle, rfl⟩ | ⟨hfailed, hhandle, rfl⟩
  · exact ⟨dbc, text, _, hdbc, htext, hgiven, hasks, .inl ⟨hfailed, hhandle, rfl⟩⟩
  · exact ⟨dbc, text, _, hdbc, htext, hgiven, hasks.ask _, .inr ⟨hfailed, hhandle, _, rfl⟩⟩

/-- A fetch that finds no row. -/
def FindsNothing (build : Build) (x : OdbcCall × OdbcReply) : Prop :=
  ∃ handle status, x.1 = .fetch handle ∧ verifyAndLogOdbc build x.2 .stmt handle = .ok status ∧
    emptySet status = .ok true

/-- The loop of DESCRIBE ends when nothing is found. -/
theorem describeRows_asks {handle : Handle} {fuel : Nat} {u : PUnit}
    (h : describeRows env handle fuel w = .ok u w') :
    ∃ rows, Asks env w rows 0 w' ∧ ∃ x ∈ rows, FindsNothing env.build x := by
  induction fuel generalizing w with
  | zero => cases h
  | succ fuel ih =>
    unfold describeRows at h
    rw [Prog.bind_odbcCall] at h
    obtain ⟨status, hstatus, h⟩ := bind_lift_eq_ok.mp h
    obtain ⟨b, hb, h⟩ := bind_lift_eq_ok.mp h
    have hcall : Asks env w [(.fetch handle, env.odbc w.calls (.fetch handle))] 0
        (w.ask (.fetch handle)) := ⟨.cons (.nil _), (Int.add_zero _).symm⟩
    cases b with
    | true =>
      rw [if_pos rfl] at h
      obtain ⟨_, -, h⟩ := bind_lift_eq_ok.mp h
      cases h
      exact ⟨_, hcall, _, List.mem_singleton_self _, handle, status, rfl, hstatus, hb⟩
    | false =>
      rw [if_neg Bool.false_ne_true] at h
      obtain ⟨_, -, h⟩ := bind_lift_eq_ok.mp h
      obtain ⟨rows, hrows, x, hx, hfinds⟩ := ih h
      exact ⟨_, hcall.append hrows, x, List.mem_cons_of_mem _ hx, hfinds⟩

/-! ## Queries -/

/-- What DESCRIBE asks for: a table whose columns are asked for is found to have none. -/
theorem describe_asks {query : List FxmyChar} {rv : Int} (h : describe env query w = .ok rv w') :
    ∃ dbc text rest, Asks env w (statementTalk env w.calls dbc text ++ rest) 0 w' ∧
      (failed w'.conn.status = .ok true ∧
          (∃ freed, rest = [(.freeHandle .stmt (statementHandle env w.calls dbc), freed)]) ∨
        failed w'.conn.status = .ok false ∧ ∃ rows freed,
          rest = rows ++ [(.freeHandle .stmt (statementHandle env w.calls dbc), freed)] ∧
          ∃ x ∈ rows, FindsNothing env.build x) := by
  obtain ⟨-, buffer, status, handle, w₁, -, hexec, hcases⟩ := describe_returns h
  obtain ⟨dbc, text, talk, -, -, -, hasks, hresult⟩ := exec_asks hexec
  have hasks := ((asks_nothing env w 1).append hasks).report status
  rcases hcases with ⟨hfailed, rfl⟩ | ⟨hfailed, w₂, hrows, rfl⟩
  · rcases hresult with ⟨hnot, -⟩ | ⟨-, -, freed, rfl⟩
    · cases hfailed.symm.trans hnot
    · exact ⟨dbc, text, _, hasks.count (-1), .inl ⟨hfailed, freed, rfl⟩⟩
  · rcases hresult with ⟨-, hhandle, rfl⟩ | ⟨hnot, -⟩
    · have hconn := (describeRows_keeps conn_unasked env _ _).of_ok hrows
      have hkept : w₂.conn.status = status := congrArg Connection.status hconn
      obtain ⟨rows, hfetched, hfinds⟩ := describeRows_asks hrows
      obtain rfl : handle = statementHandle env w.calls dbc := hhandle
      have hend := ((hasks.append hfetched).ask
        (.freeHandle .stmt (statementHandle env w.calls dbc))).count (-1)
      rw [List.nil_append, List.append_assoc] at hend
      exact ⟨dbc, text, _, hend, .inr ⟨hkept ▸ hfailed, rows, _, rfl, hfinds⟩⟩
    · cases hfailed.symm.trans hnot

/-- What SHOW TABLES asks for. The handle is not released if the execution succeeds. -/
theorem showTables_asks {query : List FxmyChar} {rv : Int} (h : showTables env query w = .ok rv w') :
    ∃ buffer dbc text rest, showTablesText env.ctype query = .ok buffer ∧
      databaseHandle w.conn = .ok dbc ∧ stringText buffer = .ok text ∧ GivesOut env w.calls dbc ∧
      Asks env w (statementTalk env w.calls dbc text ++ rest) 0 w' ∧
      ((∀ x ∈ rest, x.1 = .fetch (statementHandle env w.calls dbc)) ∨
        ∃ freed, rest = [(.freeHandle .stmt (statementHandle env w.calls dbc), freed)]) := by
  obtain ⟨-, buffer, status, handle, blocks, w₁, w₂, hbuffer, hexec, hrows, rfl⟩ :=
    showTables_returns h
  obtain ⟨dbc, text, talk, hdbc, htext, hgiven, hasks, hresult⟩ := exec_asks hexec
  have hasks := (asks_nothing env w blocks).append hasks
  have hbalance : blocks + 0 + -blocks = 0 := by omega
  rcases hresult with ⟨-, hhandle, rfl⟩ | ⟨-, hhandle, freed, rfl⟩
  · rcases showTablesRows_returns hrows with ⟨-, rfl⟩ | ⟨-, kept, -, rfl⟩
    · have hend := hasks.count (-blocks)
      rw [hbalance] at hend
      exact ⟨buffer, dbc, text, [], hbuffer, hdbc, htext, hgiven, by rwa [List.append_nil],
        .inl (List.forall_mem_nil _)⟩
    · have hend := ((hasks.ask (.fetch handle)).report kept).count (-blocks)
      rw [hbalance] at hend
      exact ⟨buffer, dbc, text, _, hbuffer, hdbc, htext, hgiven, hend,
        .inl (List.forall_mem_singleton.mpr (congrArg _ hhandle))⟩
  · rcases showTablesRows_returns hrows with ⟨-, rfl⟩ | ⟨hgiven, -⟩
    · have hend := hasks.count (-blocks)
      rw [hbalance] at hend
      exact ⟨buffer, dbc, text, _, hbuffer, hdbc, htext, hgiven, hend, .inr ⟨freed, rfl⟩⟩
    · exact absurd hhandle hgiven

/-- What a general statement asks for. The block of the query is freed. -/
theorem execStatement_asks {statement : List FxmyChar} {rv : Int}
    (h : execStatement env statement w = .ok rv w') :
    ∃ dbc text freed, Asks env w (statementTalk env w.calls dbc text ++
      [(.freeHandle .stmt (statementHandle env w.calls dbc), freed)]) (-1) w' := by
  obtain ⟨-, dbc, text, status, kept, -, -, -, -, -, rfl⟩ := execStatement_returns h
  have hasks := (asks_execute env w dbc text).report kept
  exact ⟨dbc, text, _, (hasks.ask _).count (-1)⟩

/-! ## Connecting -/

/-- What `fxmy_connect` asks for, and the status it leaves. -/
theorem connect_asks {rv : Int} (h : connect env w = .ok rv w') :
    ∃ dbc call talk, databaseHandle w.conn = .ok dbc ∧
      call = .driverConnect dbc w.conn.connectionString ∧
      Asks env w ((call, env.odbc w.calls call) :: talk) 0 w' ∧
      ((env.odbc w.calls call).Succeeds .dbc dbc ∧ talk = [] ∧
          succeeded w'.conn.status = .ok true ∨
        ¬ (env.odbc w.calls call).Succeeds .dbc dbc ∧ ∃ text freed,
          useText w.conn.database = .ok text ∧ GivesOut env (w.calls ++ [call]) dbc ∧
          talk = statementTalk env (w.calls ++ [call]) dbc text ++
            [(.freeHandle .dbc (statementHandle env (w.calls ++ [call]) dbc), freed)] ∧
          verifyAndLogOdbc env.build (executed env (w.calls ++ [call]) dbc text) .stmt
            (statementHandle env (w.calls ++ [call]) dbc) = .ok w'.conn.status) := by
  obtain ⟨-, dbc, call, status, hdbc, hcall, hstatus, hcases⟩ := connect_returns h
  have houtcome := verifyAndLogOdbc_outcome hstatus
  have hconnect : Asks env w [(call, env.odbc w.calls call)] 0 (w.ask call) :=
    ⟨.cons (.nil _), (Int.add_zero _).symm⟩
  rcases hcases with ⟨hsucceeded, rfl⟩ | ⟨hsucceeded, text, used, htext, halloc, hused, rfl⟩
  · have hsucceeds := (houtcome.of_succeeded hsucceeded).mp rfl
    exact ⟨dbc, call, [], hdbc, hcall, hconnect.report status, .inl ⟨hsucceeds, rfl, hsucceeded⟩⟩
  · have hnot := mt (houtcome.of_succeeded hsucceeded).mpr Bool.false_ne_true
    have hend := ((hconnect.append (asks_execute env _ dbc text)).ask
      (.freeHandle .dbc (statementHandle env (w.ask call).calls dbc))).report used
    exact ⟨dbc, call, _, hdbc, hcall, hend,
      .inr ⟨hnot, text, _, htext, givesOut_of_verifyOdbc halloc, rfl, hused⟩⟩

end

end Fxmy
