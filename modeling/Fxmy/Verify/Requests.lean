import Fxmy.Requests
import Fxmy.Verify.Exchanges

/-!
# Requests are served

What a command changes is what its request says: the settings, the dialogue with the driver and the
blocks that nobody will free (`handleCommandPacket_served`).
-/

namespace Fxmy

open Exec Dialogue

/-- The blocks that are allocated and neither the connection's database nor in its buffer. -/
def World.lost (w : World) : Int :=
  w.numAllocations - (if w.conn.database.isSome then 1 else 0) -
    (if w.conn.xferBuffer.memory.isSome then 1 else 0)

/-- What the requests of a connection do not change. -/
def World.fixed (w : World) : Option Odbc × List FxmyChar × Bool :=
  (w.conn.odbc, w.conn.connectionString, w.conn.done)

theorem settings_unanswered : Unanswered World.settings :=
  ⟨⟨fun _ _ => rfl, fun _ _ => rfl⟩, fun _ _ => rfl⟩

theorem fixed_unserved : Unserved World.fixed :=
  ⟨⟨⟨fun _ _ => rfl, fun _ _ => rfl⟩, fun _ _ => rfl⟩, fun _ _ _ _ _ => rfl, fun _ _ => rfl,
    fun _ _ => rfl⟩

/-- The record apart from its status decides about settings and blocks. -/
theorem lost_of_record {w w' : World} (hrecord : w'.record = w.record) :
    w'.lost = w.lost + (w'.numAllocations - w.numAllocations) := by
  have hdatabase : w'.record.database = w.record.database := congrArg _ hrecord
  have hbuffer : w'.record.xferBuffer = w.record.xferBuffer := congrArg _ hrecord
  change w'.conn.database = w.conn.database at hdatabase
  change w'.conn.xferBuffer = w.conn.xferBuffer at hbuffer
  unfold World.lost
  rw [hdatabase, hbuffer]
  omega

/-- The request is served between `w` and `w'`, on the connection handle `dbc`. -/
structure Served (env : Env) (dbc : Handle) (w : World) (request : Request) (w' : World) : Prop where
  settings : w'.settings = w.settings.after request
  talk : ∃ talk, Serving env dbc w.conn.connectionString w.calls request talk ∧
    Talks env.odbc w.calls talk w'.calls
  lost : w'.lost = w.lost + request.lost

section

variable {env : Env} {w w' : World} {rv : Int}

/-- Every call of the rows of DESCRIBE fetches. -/
theorem describeRows_fetches {handle : Handle} {fuel : Nat} {u : PUnit}
    (h : describeRows env handle fuel w = .ok u w') :
    ∃ rows, Asks env w rows 0 w' ∧ ∀ x ∈ rows, x.1 = .fetch handle := by
  induction fuel generalizing w with
  | zero => cases h
  | succ fuel ih =>
    unfold describeRows at h
    rw [Prog.bind_odbcCall] at h
    obtain ⟨status, -, h⟩ := bind_lift_eq_ok.mp h
    obtain ⟨b, -, h⟩ := bind_lift_eq_ok.mp h
    have hcall : Asks env w [(.fetch handle, env.odbc w.calls (.fetch handle))] 0
        (w.ask (.fetch handle)) := ⟨.cons (.nil _), (Int.add_zero _).symm⟩
    cases b with
    | true =>
      rw [if_pos rfl] at h
      obtain ⟨_, -, h⟩ := bind_lift_eq_ok.mp h
      cases h
      exact ⟨_, hcall, List.forall_mem_singleton.mpr rfl⟩
    | false =>
      rw [if_neg Bool.false_ne_true] at h
      obtain ⟨_, -, h⟩ := bind_lift_eq_ok.mp h
      obtain ⟨rows, hrows, hfetches⟩ := ih h
      exact ⟨_, hcall.append hrows, List.forall_mem_cons.mpr ⟨rfl, hfetches⟩⟩

/-! ## Queries -/

/-- The query is what `request` says, and its dialogue the one that serves it. -/
def QueryServed (env : Env) (dbc : Handle) (w : World) (query : List FxmyChar) (w' : World) : Prop :=
  ∃ request, queryRequest env.ctype query = some request ∧ w'.record = w.record ∧
    (∀ settings : Settings, settings.after request = settings) ∧
    ∃ talk, Serving env dbc w.conn.connectionString w.calls request talk ∧
      Asks env w talk (request.lost - 1) w'

theorem describe_served {dbc : Handle} {query : List FxmyChar}
    (hdbc : databaseHandle w.conn = .ok dbc) (hbranch : queryBranch env.ctype query = .ok .describe)
    (h : describe env query w = .ok rv w') : QueryServed env dbc w query w' := by
  have hrecord := (describe_keeps record_unanswered env query).of_ok h
  obtain ⟨-, buffer, status, handle, w₁, hbuffer, hexec, hcases⟩ := describe_returns h
  obtain ⟨dbc', text, talk, hdbc', htext, hgiven, hasks, hresult⟩ := exec_asks hexec
  obtain rfl : dbc = dbc' := Except.ok.inj (hdbc.symm.trans hdbc')
  have hrequest : queryRequest env.ctype query = some (.describe text) := by
    unfold queryRequest
    rw [hbranch]
    simp only
    rw [hbuffer, except_bind_ok, htext]
    rfl
  have hasks := ((asks_nothing env w 1).append hasks).report status
  refine ⟨_, hrequest, hrecord, fun _ => rfl, ?_⟩
  rcases hcases with ⟨hfailed, rfl⟩ | ⟨hfailed, w₂, hrows, rfl⟩
  · rcases hresult with ⟨hnot, -⟩ | ⟨-, -, freed, rfl⟩
    · cases hfailed.symm.trans hnot
    · have hend := hasks.count (-1)
      rw [List.nil_append] at hend
      exact ⟨_, .describe hgiven (List.forall_mem_nil _), hend⟩
  · rcases hresult with ⟨-, hhandle, rfl⟩ | ⟨hnot, -⟩
    · obtain ⟨rows, hfetched, hfetches⟩ := describeRows_fetches hrows
      obtain rfl : handle = statementHandle env w.calls dbc := hhandle
      have hend := ((hasks.append hfetched).ask
        (.freeHandle .stmt (statementHandle env w.calls dbc))).count (-1)
      rw [List.nil_append, List.append_assoc] at hend
      exact ⟨_, .describe hgiven hfetches, hend⟩
    · cases hfailed.symm.trans hnot

theorem showTables_served {dbc : Handle} {query : List FxmyChar}
    (hdbc : databaseHandle w.conn = .ok dbc)
    (hbranch : queryBranch env.ctype query = .ok .showTables)
    (h : showTables env query w = .ok rv w') : QueryServed env dbc w query w' := by
  have hrecord := (showTables_keeps record_unanswered env query).of_ok h
  obtain ⟨buffer, dbc', text, rest, hbuffer, hdbc', htext, hgiven, hasks, hrest⟩ :=
    showTables_asks h
  obtain rfl : dbc = dbc' := Except.ok.inj (hdbc.symm.trans hdbc')
  have hrequest : queryRequest env.ctype query = some (.showTables text) := by
    unfold queryRequest
    rw [hbranch]
    simp only
    rw [hbuffer, except_bind_ok, htext]
    rfl
  refine ⟨_, hrequest, hrecord, fun _ => rfl, _, ?_, hasks⟩
  rcases hrest with hfetches | ⟨freed, rfl⟩
  · exact .tables hgiven hfetches
  · exact .noTables hgiven

theorem execStatement_served {dbc : Handle} {query statement : List FxmyChar}
    (hdbc : databaseHandle w.conn = .ok dbc) (hbranch : queryBranch env.ctype query = .ok .statement)
    (htranslate : translate env.ctype query = .ok (some statement))
    (h : execStatement env statement w = .ok rv w') : QueryServed env dbc w query w' := by
  have hrecord := (execStatement_keeps record_unanswered env statement).of_ok h
  obtain ⟨-, dbc', text, status, kept, hdbc', htext, halloc, -, -, rfl⟩ := execStatement_returns h
  obtain rfl : dbc = dbc' := Except.ok.inj (hdbc.symm.trans hdbc')
  have hrequest : queryRequest env.ctype query = some (.statement text) := by
    unfold queryRequest
    rw [hbranch]
    simp only
    rw [htranslate]
    simp only
    rw [htext]
    rfl
  have hasks := (asks_execute env w dbc text).report kept
  have hgiven := givesOut_of_verifyOdbc halloc
  exact ⟨_, hrequest, hrecord, fun _ => rfl, _, .statement hgiven, (hasks.ask _).count (-1)⟩

/-- Only the character set that the server has can be named. -/
theorem setNames_mentions {query : List FxmyChar} (hbranch : queryBranch env.ctype query = .ok .setNames)
    (h : handleWideQuery env query w = .ok rv w') : mentions env.ctype query "utf8" = .ok true := by
  unfold handleWideQuery at h
  rw [hbranch, bind_lift_ok] at h
  obtain ⟨b, hb, h⟩ := bind_lift_eq_ok.mp h
  obtain ⟨_, hverify, -⟩ := bind_lift_eq_ok.mp h
  rw [verify_eq_ok] at hverify
  rwa [hverify] at hb

theorem handleWideQuery_served {dbc : Handle} {query : List FxmyChar}
    (hdbc : databaseHandle w.conn = .ok dbc) (h : handleWideQuery env query w = .ok rv w') :
    QueryServed env dbc w query w' := by
  have hrecord := (handleWideQuery_keeps record_unanswered env query).of_ok h
  obtain ⟨branch, hbranch, hcases⟩ := handleWideQuery_returns h
  have hnothing : ∀ status : Option Status, Asks env w [] 0 (w.report status) :=
    fun _ => ⟨.nil _, (Int.add_zero _).symm⟩
  rcases hcases with ⟨rfl, -, hsame⟩ | ⟨rfl, h⟩ | ⟨rfl, h⟩ | ⟨rfl, hrefused, -, rfl⟩ |
    ⟨rfl, statement, htranslate, h⟩
  · subst hsame
    refine ⟨.setNames, ?_, hrecord, fun _ => rfl, [], .setNames, .nil _, (Int.add_zero _).symm⟩
    unfold queryRequest
    rw [hbranch]
    simp only
    rw [setNames_mentions hbranch h]
  · exact describe_served hdbc hbranch h
  · exact showTables_served hdbc hbranch h
  · refine ⟨.refused, ?_, hrecord, fun _ => rfl, [], .refused, hnothing _⟩
    unfold queryRequest
    rw [hbranch]
    simp only
    rw [hrefused]
  · exact execStatement_served hdbc hbranch htranslate h

/-- The block of the query is counted with what the request leaves. -/
theorem handleQuery_served {dbc : Handle} {query : List UInt8} {size : Nat}
    (hdbc : databaseHandle w.conn = .ok dbc) (h : handleQuery env query size w = .ok rv w') :
    ∃ request, (decodeQuery env.build query size).toOption.bind (queryRequest env.ctype) =
      some request ∧ Served env dbc w request w' := by
  obtain ⟨wideQuery, hdecoded, hwide⟩ := handleQuery_returns h
  obtain ⟨request, hrequest, hrecord, hsettings, talk, hserving, hasks⟩ :=
    handleWideQuery_served (w := w.count 1) hdbc hwide
  refine ⟨request, ?_, ?_, ⟨talk, hserving, hasks.talks⟩, ?_⟩
  · rw [hdecoded]
    exact hrequest
  · rw [hsettings]
    exact (handleQuery_keeps settings_unanswered env query size).of_ok h
  · have hblocks := hasks.blocks
    have hcount : (w.count 1).numAllocations = w.numAllocations + 1 := rfl
    rw [lost_of_record (w := w) hrecord, hblocks, hcount]
    omega

/-! ## Connecting -/

/-- The dialogue of `fxmy_connect` serves the request for the database. -/
theorem connect_serving {dbc : Handle} {database : List FxmyChar}
    (hdbc : databaseHandle w.conn = .ok dbc) (hdatabase : w.conn.database = some database)
    (h : connect env w = .ok rv w') : ∃ talk,
      Serving env dbc w.conn.connectionString w.calls (.useDatabase database) talk ∧
      Asks env w talk 0 w' := by
  obtain ⟨dbc', call, talk, hdbc', hcall, hasks, hcases⟩ := connect_asks h
  obtain rfl : dbc = dbc' := Except.ok.inj (hdbc.symm.trans hdbc')
  refine ⟨_, ?_, hasks⟩
  rcases hcases with ⟨hsucceeds, rfl, -⟩ | ⟨hnot, text, freed, htext, hgiven, rfl, -⟩
  · exact .connected hcall hsucceeds
  · exact .unconnected hcall hnot (hdatabase ▸ htext) hgiven

theorem handleInitDb_served {dbc : Handle} {ptr : List UInt8} {size : Nat}
    (hdbc : databaseHandle w.conn = .ok dbc) (h : handleInitDb env ptr size w = .ok rv w') :
    ∃ database, fstrfromchar env.build (List.replicate (size + 1) nul) ptr size = .ok database ∧
      Served env dbc w (.useDatabase database) w' := by
  unfold handleInitDb at h
  rw [bind_get] at h
  obtain ⟨_, w₁, hfree, h⟩ := bind_eq_ok.mp h
  obtain rfl := fxmyFree_returns hfree
  rw [bind_modify] at h
  obtain ⟨database, hdatabase, h⟩ := bind_lift_eq_ok.mp h
  rw [bind_modify] at h
  obtain ⟨talk, hserving, hasks⟩ := connect_serving (by exact hdbc) rfl h
  have hsettings := (connect_keeps settings_unanswered env).of_ok h
  have hrecord := (connect_keeps record_unanswered env).of_ok h
  refine ⟨database, hdatabase, hsettings, ⟨talk, hserving, hasks.talks⟩, ?_⟩
  rw [lost_of_record hrecord, hasks.blocks]
  unfold World.lost World.count
  simp only [Option.isSome_some, if_true, Request.lost]
  cases w.conn.database.isSome with
  | true =>
    simp only [if_true]
    omega
  | false =>
    simp only [Bool.false_eq_true, if_false]
    omega

/-! ## Packets -/

theorem handleCommand_served {dbc : Handle} {memory : List UInt8} {size : Nat}
    (hdbc : databaseHandle w.conn = .ok dbc) (hstatus : w.conn.status = some statusOk)
    (h : handleCommand env memory size w = .ok rv w') :
    rv = -1 ∧ request env memory size = some .quit ∧ w' = w ∨
      rv = 0 ∧ ∃ r, request env memory size = some r ∧ Served env dbc w r w' := by
  obtain ⟨command, ptr, rfl, hcases⟩ := handleCommand_returns h
  unfold request
  simp only
  rcases hcases with ⟨hcommand, rfl, rfl⟩ | ⟨hcommand, h⟩ | ⟨hcommand, h⟩ | ⟨hcommand, h⟩
  · rw [hcommand]
    exact .inl ⟨rfl, rfl, rfl⟩
  · obtain ⟨database, hdatabase, hserved⟩ := handleInitDb_served hdbc h
    rw [hcommand]
    simp only
    rw [hdatabase]
    exact .inr ⟨(handleInitDb_outcome h).1, _, rfl, hserved⟩
  · obtain ⟨r, hrequest, hserved⟩ := handleQuery_served hdbc h
    rw [hcommand]
    exact .inr ⟨(handleQuery_outcome hstatus h).1, r, hrequest, hserved⟩
  · rw [hcommand]
    unfold handleSetOption at h
    split at h
    · cases h
      exact .inr ⟨rfl, _, rfl, rfl, ⟨[], .setOption, .nil _⟩, (Int.add_zero _).symm⟩
    · cases h

/-- **A command packet is served**: the client quits, or its request is served from where the packet
has been received. -/
theorem handleCommandPacket_served {dbc : Handle} (hdbc : databaseHandle w.conn = .ok dbc)
    (hstatus : w.conn.status = some statusOk) (h : handleCommandPacket env w = .ok rv w') :
    ∃ (packet : Packet) (incoming : List Arrival),
      arrived w.incoming = packet.bytes ++ arrived incoming ∧
      (rv = -1 ∧ packet.request env = some .quit ∧ w' = w.receive packet incoming ∨
        rv = 0 ∧ ∃ r, packet.request env = some r ∧ Served env dbc (w.receive packet incoming) r w') := by
  obtain ⟨packet, incoming, hstream, -, hcommand⟩ := handleCommandPacket_returns h
  exact ⟨packet, incoming, hstream, handleCommand_served (by exact hdbc) (by exact hstatus) hcommand⟩

end

end Fxmy
