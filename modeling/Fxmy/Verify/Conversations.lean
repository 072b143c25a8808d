import Fxmy.Verify.Balance
import Fxmy.Verify.Sessions
import Fxmy.Verify.Translate

/-!
# A connection's conversation with the driver

From the requests alone: which statements the driver is handed and in which order (`waits_handed`),
which handles are used and when (`worker_handles`), and what is left allocated when the client has
quit (`worker_lost`).
-/

namespace Fxmy

open Exec Dialogue

variable {env : Env} {dbc : Handle} {connectionString : List FxmyChar}

/-! ## Statements -/

/-- The statement that a query is translated to. -/
def Request.text : Request → Option (List FxmyChar)
  | .describe text => some text
  | .showTables text => some text
  | .statement text => some text
  | _ => none

/-- What serving a request hands to the driver, after the calls so far. The USE statement is handed over
where the driver does not connect. -/
def Request.Says (env : Env) (dbc : Handle) (connectionString : List FxmyChar)
    (calls : List OdbcCall) (request : Request) (texts : List (List FxmyChar)) : Prop :=
  match request with
  | .useDatabase database =>
    (env.odbc calls (.driverConnect dbc connectionString)).Succeeds .dbc dbc ∧ texts = [] ∨
      ¬ (env.odbc calls (.driverConnect dbc connectionString)).Succeeds .dbc dbc ∧
        ∃ text, useText (some database) = .ok text ∧ texts = [text]
  | request => texts = request.text.toList

/-- The requests are served one after another, each with the texts that it hands over after the calls
in front of it. -/
inductive Handing (env : Env) (dbc : Handle) (connectionString : List FxmyChar) :
    List Request → List (List (List FxmyChar)) → List OdbcCall → Prop where
  | start : Handing env dbc connectionString [] [] (startCalls env)
  | next {requests : List Request} {said : List (List (List FxmyChar))} {calls : List OdbcCall}
      {r : Request} {texts : List (List FxmyChar)} {talk : Talk} {calls' : List OdbcCall} :
      Handing env dbc connectionString requests said calls →
      r.Says env dbc connectionString calls texts →
      Serving env dbc connectionString calls r talk → Talks env.odbc calls talk calls' →
      Handing env dbc connectionString (requests ++ [r]) (said ++ [texts]) calls'

theorem handed_fetches {handle : Handle} {rows : Talk} (h : ∀ x ∈ rows, x.1 = .fetch handle) :
    (rows.map Prod.fst).filterMap OdbcCall.handed = [] := by
  rw [List.filterMap_eq_nil_iff]
  intro call hcall
  obtain ⟨x, hx, rfl⟩ := List.mem_map.mp hcall
  rw [h x hx]
  rfl

/-- What one request hands over. -/
theorem Serving.says {calls calls' : List OdbcCall} {request : Request} {talk : Talk}
    (h : Serving env dbc connectionString calls request talk)
    (htalks : Talks env.odbc calls talk calls') : ∃ texts,
      request.Says env dbc connectionString calls texts ∧
      calls'.filterMap OdbcCall.handed = calls.filterMap OdbcCall.handed ++ texts := by
  have hhanded : calls'.filterMap OdbcCall.handed = calls.filterMap OdbcCall.handed ++
      (talk.map Prod.fst).filterMap OdbcCall.handed := by
    rw [htalks.after_eq, List.filterMap_append]
  refine ⟨_, ?_, hhanded⟩
  cases h with
  | setOption => rfl
  | setNames => rfl
  | refused => rfl
  | connected hcall hsucceeds =>
    subst hcall
    exact .inl ⟨hsucceeds, rfl⟩
  | unconnected hcall hnot htext _ =>
    subst hcall
    exact .inr ⟨hnot, _, htext, rfl⟩
  | statement => rfl
  | describe _ hrows =>
    rw [List.map_append, List.map_append, List.filterMap_append, List.filterMap_append,
      handed_fetches hrows]
    rfl
  | tables _ hrows =>
    rw [List.map_append, List.filterMap_append, handed_fetches hrows]
    rfl
  | noTables => rfl

/-- What a conversation hands over, request by request. -/
theorem Conversation.handing {requests : List Request} {calls : List OdbcCall}
    (h : Conversation env dbc connectionString requests calls) : ∃ said,
      Handing env dbc connectionString requests said calls ∧
      calls.filterMap OdbcCall.handed = said.flatten := by
  induction h with
  | start => exact ⟨[], .start, rfl⟩
  | next _ hserving htalks ih =>
    obtain ⟨said, hsaid, hhanded⟩ := ih
    obtain ⟨texts, htexts, hmore⟩ := hserving.says htalks
    refine ⟨said ++ [texts], hsaid.next htexts hserving htalks, ?_⟩
    rw [hmore, hhanded, List.flatten_append, List.flatten_singleton]

/-- **The statements a connection executes** are those of its requests, in their order: of a query at
most the one that it is translated to, and of a database only the USE statement, if the driver did not
connect for it. -/
theorem waits_handed {incoming : List Arrival} {w : World}
    (h : Waits env (World.fresh connectionString incoming) w) :
    ∃ auth commands settings first requests said,
      arrived incoming = (auth :: commands).flatMap Packet.bytes ++ arrived w.incoming ∧
      auth.auth env = some (settings, first) ∧
      commands.map (Packet.request env) = requests.map some ∧
      Handing env (connectionHandle env) connectionString (first ++ requests) said w.calls ∧
      w.handed = said.flatten := by
  obtain ⟨auth, commands, hstream, ⟨settings, first, requests, hauth, hrequests, hsession⟩, -⟩ :=
    h.resting
  obtain ⟨said, hsaid, hhanded⟩ := hsession.conversation.handing
  exact ⟨auth, commands, settings, first, requests, said, hstream, hauth, hrequests, hsaid, hhanded⟩

/-! ## Handles -/

/-- The statement handle that a call uses or releases. -/
def OdbcCall.Uses (handle : Handle) : OdbcCall → Prop
  | .execDirect statement _ => statement = handle
  | .fetch statement => statement = handle
  | .freeHandle _ released => released = handle
  | _ => False

/-- The driver has given out the handle for a statement on `dbc`, and it is not released as one since. -/
def Open (env : Env) (dbc : Handle) (calls : List OdbcCall) (handle : Handle) : Prop :=
  ∃ earlier between, calls = earlier ++ .allocHandle .stmt dbc :: between ∧
    GivesOut env earlier dbc ∧ statementHandle env earlier dbc = handle ∧
    .freeHandle .stmt handle ∉ between

/-- From `before` on, each call uses a statement handle only while it is open. -/
def UsesOpen (env : Env) (dbc : Handle) (before calls : List OdbcCall) : Prop :=
  ∀ earlier call later, calls = earlier ++ call :: later → ∀ handle, call.Uses handle →
    Open env dbc (before ++ earlier) handle

theorem open_alloc {calls : List OdbcCall} (h : GivesOut env calls dbc) :
    Open env dbc (calls ++ [.allocHandle .stmt dbc]) (statementHandle env calls dbc) :=
  ⟨calls, [], rfl, h, rfl, List.not_mem_nil⟩

theorem Open.snoc {calls : List OdbcCall} {handle : Handle} (h : Open env dbc calls handle)
    (call : OdbcCall) (hcall : call ≠ .freeHandle .stmt handle) :
    Open env dbc (calls ++ [call]) handle := by
  obtain ⟨earlier, between, rfl, hgiven, hhandle, hnot⟩ := h
  refine ⟨earlier, between ++ [call], by simp, hgiven, hhandle, fun hmem => ?_⟩
  rcases List.mem_append.mp hmem with hmem | hmem
  · exact hnot hmem
  · exact hcall (List.mem_singleton.mp hmem).symm

theorem usesOpen_nil (before : List OdbcCall) : UsesOpen env dbc before [] := by
  intro earlier call later h
  exact absurd h.symm (List.append_ne_nil_of_right_ne_nil _ (List.cons_ne_nil _ _))

theorem UsesOpen.snoc {before calls : List OdbcCall} (h : UsesOpen env dbc before calls)
    (call : OdbcCall) (hcall : ∀ handle, call.Uses handle → Open env dbc (before ++ calls) handle) :
    UsesOpen env dbc before (calls ++ [call]) := by
  intro earlier call' later hsplit handle huses
  rcases List.eq_nil_or_concat later with rfl | ⟨later, last, rfl⟩
  · obtain ⟨rfl, hsame⟩ := List.append_inj' hsplit rfl
    cases hsame
    exact hcall handle huses
  · rw [List.concat_eq_append, ← List.cons_append, ← List.append_assoc] at hsplit
    obtain ⟨hsame, -⟩ := List.append_inj' hsplit rfl
    exact h earlier call' later hsame handle huses

/-- A statement is executed on a handle that is open, and stays so. -/
theorem UsesOpen.statement {before calls : List OdbcCall} (h : UsesOpen env dbc before calls)
    (hgiven : GivesOut env (before ++ calls) dbc) (text : List FxmyChar) :
    UsesOpen env dbc before
        (calls ++ (statementTalk env (before ++ calls) dbc text).map Prod.fst) ∧
      Open env dbc (before ++ (calls ++ (statementTalk env (before ++ calls) dbc text).map Prod.fst))
        (statementHandle env (before ++ calls) dbc) := by
  have hopen := open_alloc hgiven
  have halloc : UsesOpen env dbc before (calls ++ [.allocHandle .stmt dbc]) :=
    h.snoc _ fun _ huses => huses.elim
  rw [List.append_assoc] at hopen
  have hexec := halloc.snoc (.execDirect (statementHandle env (before ++ calls) dbc) text)
    fun handle huses => huses ▸ hopen
  have hstays := hopen.snoc (.execDirect (statementHandle env (before ++ calls) dbc) text)
    nofun
  refine ⟨?_, ?_⟩
  · simpa [statementTalk] using hexec
  · simpa [statementTalk] using hstays

theorem UsesOpen.fetches {before calls : List OdbcCall} {handle : Handle} {rows : Talk}
    (h : UsesOpen env dbc before calls) (hopen : Open env dbc (before ++ calls) handle)
    (hrows : ∀ x ∈ rows, x.1 = .fetch handle) :
    UsesOpen env dbc before (calls ++ rows.map Prod.fst) ∧
      Open env dbc (before ++ (calls ++ rows.map Prod.fst)) handle := by
  induction rows generalizing calls with
  | nil =>
    rw [List.map_nil, List.append_nil]
    exact ⟨h, hopen⟩
  | cons x rows ih =>
    obtain ⟨hx, hrows⟩ := List.forall_mem_cons.mp hrows
    have hfirst := h.snoc (.fetch handle) fun _ huses => huses ▸ hopen
    have hstays := hopen.snoc (.fetch handle) nofun
    rw [List.append_assoc] at hstays
    have := ih hfirst hstays hrows
    rw [List.append_assoc, List.singleton_append] at this
    rw [List.map_cons, hx]
    exact this

/-- The calls that a request makes: none of them has to do with the environment, or ends the
connection. -/
def OdbcCall.Serves (dbc : Handle) (connectionString : List FxmyChar) : OdbcCall → Prop
  | .allocHandle type input => type = .stmt ∧ input = dbc
  | .setEnvAttr _ => False
  | .driverConnect connection text => connection = dbc ∧ text = connectionString
  | .execDirect _ _ => True
  | .fetch _ => True
  | .disconnect _ => False
  | .freeHandle type _ => type ≠ .env

/-- One request uses open handles only. -/
theorem Serving.usesOpen {before calls : List OdbcCall} {request : Request} {talk : Talk}
    (hserving : Serving env dbc connectionString (before ++ calls) request talk)
    (h : UsesOpen env dbc before calls) :
    UsesOpen env dbc before (calls ++ talk.map Prod.fst) := by
  cases hserving with
  | setOption => exact (List.append_nil calls).symm ▸ h
  | setNames => exact (List.append_nil calls).symm ▸ h
  | refused => exact (List.append_nil calls).symm ▸ h
  | connected hcall _ =>
    subst hcall
    exact h.snoc _ fun _ huses => huses.elim
  | @unconnected database text call freed hcall _ _ hgiven =>
    subst hcall
    have hconnect := h.snoc (.driverConnect dbc connectionString) fun _ huses => huses.elim
    rw [List.append_assoc] at hgiven
    obtain ⟨hstatement, hopen⟩ := hconnect.statement hgiven text
    have hfree := hstatement.snoc (.freeHandle .dbc (statementHandle env
      (before ++ (calls ++ [.driverConnect dbc connectionString])) dbc)) fun _ huses => huses ▸ hopen
    simpa using hfree
  | @statement text freed hgiven =>
    obtain ⟨hstatement, hopen⟩ := h.statement hgiven text
    have hfree := hstatement.snoc (.freeHandle .stmt (statementHandle env (before ++ calls) dbc))
      fun _ huses => huses ▸ hopen
    simpa using hfree
  | @describe text rows freed hgiven hrows =>
    obtain ⟨hstatement, hopen⟩ := h.statement hgiven text
    obtain ⟨hfetched, hstill⟩ := hstatement.fetches hopen hrows
    have hfree := hfetched.snoc (.freeHandle .stmt (statementHandle env (before ++ calls) dbc))
      fun _ huses => huses ▸ hstill
    simpa using hfree
  | @tables text rows hgiven hrows =>
    obtain ⟨hstatement, hopen⟩ := h.statement hgiven text
    simpa using (hstatement.fetches hopen hrows).1
  | @noTables text freed hgiven =>
    obtain ⟨hstatement, hopen⟩ := h.statement hgiven text
    have hfree := hstatement.snoc (.freeHandle .stmt (statementHandle env (before ++ calls) dbc))
      fun _ huses => huses ▸ hopen
    simpa using hfree

theorem Serving.serves {calls : List OdbcCall} {request : Request} {talk : Talk}
    (h : Serving env dbc connectionString calls request talk) :
    ∀ x ∈ talk, x.1.Serves dbc connectionString := by
  have hstatement (calls : List OdbcCall) (text : List FxmyChar) :
      ∀ x ∈ statementTalk env calls dbc text, x.1.Serves dbc connectionString := by
    intro x hx
    rcases List.mem_pair.mp hx with rfl | rfl
    · exact ⟨rfl, rfl⟩
    · trivial
  have hfetches {rows : Talk} {handle : Handle} (hrows : ∀ x ∈ rows, x.1 = .fetch handle) :
      ∀ x ∈ rows, x.1.Serves dbc connectionString := by
    intro x hx
    rw [hrows x hx]
    trivial
  have hfree {type : HandleType} {handle : Handle} {freed : OdbcReply} (htype : type ≠ .env) :
      ∀ x ∈ [(OdbcCall.freeHandle type handle, freed)], x.1.Serves dbc connectionString :=
    List.forall_mem_singleton.mpr htype
  cases h with
  | setOption => exact List.forall_mem_nil _
  | setNames => exact List.forall_mem_nil _
  | refused => exact List.forall_mem_nil _
  | connected hcall => exact List.forall_mem_singleton.mpr (hcall ▸ ⟨rfl, rfl⟩)
  | unconnected hcall =>
    rw [List.forall_mem_cons]
    refine ⟨hcall ▸ ⟨rfl, rfl⟩, ?_⟩
    exact List.forall_mem_append.mpr ⟨hstatement _ _, hfree nofun⟩
  | statement => exact List.forall_mem_append.mpr ⟨hstatement _ _, hfree nofun⟩
  | describe _ hrows =>
    rw [List.forall_mem_append]
    exact ⟨hstatement _ _, List.forall_mem_append.mpr ⟨hfetches hrows, hfree nofun⟩⟩
  | tables _ hrows => exact List.forall_mem_append.mpr ⟨hstatement _ _, hfetches hrows⟩
  | noTables => exact List.forall_mem_append.mpr ⟨hstatement _ _, hfree nofun⟩

/-- The calls of a conversation, behind those of the start. -/
theorem Conversation.usesOpen {requests : List Request} {calls : List OdbcCall}
    (h : Conversation env dbc connectionString requests calls) : ∃ served,
      calls = startCalls env ++ served ∧ UsesOpen env dbc (startCalls env) served ∧
      ∀ call ∈ served, call.Serves dbc connectionString := by
  induction h with
  | start => exact ⟨[], (List.append_nil _).symm, usesOpen_nil _, List.forall_mem_nil _⟩
  | @next requests calls r talk calls' _ hserving htalks ih =>
    obtain ⟨served, rfl, huses, hserves⟩ := ih
    refine ⟨served ++ talk.map Prod.fst, ?_, hserving.usesOpen huses, ?_⟩
    · rw [htalks.after_eq, List.append_assoc]
    · rw [List.forall_mem_append]
      exact ⟨hserves, List.forall_mem_map.mpr hserving.serves⟩

/-! ## The end of a run -/

/-- The calls with which the worker ends. -/
def endCalls (env : Env) : List OdbcCall :=
  [.disconnect (connectionHandle env), .freeHandle .dbc (connectionHandle env),
    .freeHandle .env (environmentHandle env)]

/-- The client quits between `w` and `w'`: its packet stays in the buffer. -/
structure Quits (env : Env) (w w' : World) : Prop where
  packet : ∃ packet : Packet, packet.request env = some .quit ∧
    arrived w.incoming = packet.bytes ++ arrived w'.incoming
  calls : w'.calls = w.calls ++ endCalls env
  settings : w'.settings = w.settings
  blocks : w'.numAllocations = w.numAllocations + 1
  done : w'.conn.done = true

/-- A run ends in a state where the worker waits for a command, for want of fuel, or behind one. -/
theorem worker_ends {incoming : List Arrival} {w' : World}
    (h : worker env (World.fresh connectionString incoming) = .ok ⟨⟩ w') :
    ∃ w, Waits env (World.fresh connectionString incoming) w ∧ (w' = w ∨ Quits env w w') := by
  unfold worker at h
  obtain ⟨_, w₁, hstart, h⟩ := bind_eq_ok.mp h
  obtain ⟨_, w₂, hreply, h⟩ := bind_eq_ok.mp h
  obtain ⟨quit, w₃, hloop, h⟩ := bind_eq_ok.mp h
  obtain ⟨_, hhistory⟩ := history_start hstart hreply
  obtain ⟨_, w, hlast, hend⟩ := hhistory.loop hloop
  have hwaits := hlast.passes.waits
  refine ⟨w, hwaits, ?_⟩
  rcases hend with ⟨rfl, hstops, -⟩ | ⟨rfl, hquit⟩
  · rw [if_neg Bool.false_ne_true] at h
    cases h
    exact .inl hstops
  · right
    obtain ⟨_, _, -, hresting⟩ := hwaits.resting
    obtain ⟨_, _, _, -, -, hsession⟩ := hresting.exists_session
    obtain ⟨packet, rest, hstream, hserved⟩ :=
      handleCommandPacket_served hsession.databaseHandle_eq hwaits.idle.status hquit
    obtain ⟨hrequest, rfl⟩ : packet.request env = some .quit ∧ w₃ = w.receive packet rest := by
      rcases hserved with ⟨-, hrequest, hstate⟩ | ⟨hrv, -⟩
      · exact ⟨hrequest, hstate⟩
      · cases hrv
    have hodbc : w.conn.odbc = some ⟨environmentHandle env, connectionHandle env⟩ :=
      congrArg Prod.fst hsession.fixed
    rw [if_pos rfl, bind_get] at h
    obtain ⟨odbc, hderef, h⟩ := bind_lift_eq_ok.mp h
    have hodbc' : (w.receive packet rest).conn.odbc = w.conn.odbc := rfl
    rw [hodbc', hodbc] at hderef
    cases hderef
    rw [Prog.bind_odbcCall] at h
    obtain ⟨_, -, h⟩ := bind_lift_eq_ok.mp h
    rw [Prog.bind_odbcCall] at h
    obtain ⟨_, -, h⟩ := bind_lift_eq_ok.mp h
    rw [Prog.bind_odbcCall] at h
    obtain ⟨_, -, h⟩ := bind_lift_eq_ok.mp h
    cases h
    refine ⟨⟨packet, hrequest, hstream⟩, ?_, rfl, rfl, rfl⟩
    simp [World.receive, endCalls]

/-- **Handles**: between its start and its end a worker makes the calls of its requests only. They
leave the environment and the connection alone, and execute, fetch from and release only a statement
handle that the driver has given out and not been given back as one. -/
theorem worker_handles {incoming : List Arrival} {w' : World}
    (h : worker env (World.fresh connectionString incoming) = .ok ⟨⟩ w') : ∃ served,
      w'.calls = startCalls env ++ served ++ (if w'.conn.done then endCalls env else []) ∧
      UsesOpen env (connectionHandle env) (startCalls env) served ∧
      ∀ call ∈ served, call.Serves (connectionHandle env) connectionString := by
  obtain ⟨w, hwaits, hend⟩ := worker_ends h
  obtain ⟨_, _, -, hresting⟩ := hwaits.resting
  obtain ⟨_, _, _, -, -, hsession⟩ := hresting.exists_session
  obtain ⟨served, hcalls, huses, hserves⟩ := hsession.conversation.usesOpen
  refine ⟨served, ?_, huses, hserves⟩
  rcases hend with rfl | hquits
  · have hdone : w'.conn.done = false := congrArg (·.2.2) hsession.fixed
    rw [hdone, hcalls]
    simp
  · rw [hquits.done, hquits.calls, hcalls, if_pos rfl]

/-- **Blocks**: what a client leaves allocated that has quit. The text of each query that is not
executed as a general statement stays, the database's name, and the packet that said so. -/
theorem worker_lost {incoming : List Arrival} {w' : World}
    (h : worker env (World.fresh connectionString incoming) = .ok ⟨⟩ w')
    (hdone : w'.conn.done = true) :
    ∃ (auth : Packet) (commands : List Packet) (quit : Packet) (settings : Settings)
      (first requests : List Request), arrived incoming =
        (auth :: commands).flatMap Packet.bytes ++ (quit.bytes ++ arrived w'.incoming) ∧
      auth.auth env = some (settings, first) ∧
      commands.map (Packet.request env) = requests.map some ∧
      quit.request env = some .quit ∧
      w'.conn.database = ((first ++ requests).foldl Settings.after settings).database ∧
      w'.numAllocations = ((first ++ requests).map Request.lost).sum +
        (if w'.conn.database.isSome then 1 else 0) + 1 := by
  obtain ⟨w, hwaits, hend⟩ := worker_ends h
  obtain ⟨auth, commands, hstream, hresting⟩ := hwaits.resting
  obtain ⟨settings, first, requests, hauth, hrequests, hsession⟩ := hresting.exists_session
  rcases hend with rfl | hquits
  · have hnot : w'.conn.done = false := congrArg (·.2.2) hsession.fixed
    cases hnot.symm.trans hdone
  · obtain ⟨quit, hquit, hlast⟩ := hquits.packet
    have hsettings := hquits.settings.trans hsession.settings
    have hdatabase : w'.conn.database = w.conn.database :=
      congrArg Settings.database hquits.settings
    refine ⟨auth, commands, quit, settings, first, requests, hlast ▸ hstream, hauth, hrequests,
      hquit, congrArg Settings.database hsettings, ?_⟩
    have hlost := hsession.lost
    unfold World.lost at hlost
    rw [hresting.free] at hlost
    rw [hquits.blocks, hdatabase, ← hlost]
    simp

/-- A client that selects some rows, names its character set and quits. -/
def selectAndQuit : List Arrival := [
  .data (frameHeader 36 1),
  .data ([0, 0x82, 0, 0, 0, 0, 0, 1, 8] ++ List.replicate 23 0 ++ [0x73, 0x61, 0, 0]),
  .data (frameHeader 17 0),
  .data (3 :: chars "SELECT 1 LIMIT 2"),
  .data (frameHeader 15 0),
  .data (3 :: chars "SET NAMES utf8"),
  .data (frameHeader 1 0),
  .data [1]]

theorem exists_worker_select : ∃ w',
    worker (.benign unknownObject) (World.fresh [] selectAndQuit) = .ok ⟨⟩ w' ∧
      w'.conn.done = true := by
  have hrun : (match worker (.benign unknownObject) (World.fresh [] selectAndQuit) with
      | .ok _ w' => w'.conn.done
      | .error _ _ => false) = true := by decide +kernel
  split at hrun
  · next w' hok => exact ⟨w', hok, hrun⟩
  · cases hrun

/-- The statements of that client. -/
theorem select_handed : ∃ (w : World) (auth : Packet) (commands : List Packet)
    (settings : Settings) (first requests : List Request) (said : List (List (List FxmyChar))),
    Waits (.benign unknownObject) (World.fresh [] selectAndQuit) w ∧
      arrived selectAndQuit = (auth :: commands).flatMap Packet.bytes ++ arrived w.incoming ∧
      auth.auth (.benign unknownObject) = some (settings, first) ∧
      commands.map (Packet.request (.benign unknownObject)) = requests.map some ∧
      Handing (.benign unknownObject) (connectionHandle (.benign unknownObject)) []
        (first ++ requests) said w.calls ∧
      w.handed = said.flatten := by
  obtain ⟨w', h, -⟩ := exists_worker_select
  obtain ⟨w, hwaits, -⟩ := worker_ends h
  obtain ⟨auth, commands, settings, first, requests, said, hsaid⟩ := waits_handed hwaits
  exact ⟨w, auth, commands, settings, first, requests, said, hwaits, hsaid⟩

/-- Its handles. -/
theorem select_handles : ∃ (w' : World) (served : List OdbcCall),
    worker (.benign unknownObject) (World.fresh [] selectAndQuit) = .ok ⟨⟩ w' ∧
      w'.calls = startCalls (.benign unknownObject) ++ served ++
        (if w'.conn.done then endCalls (.benign unknownObject) else []) ∧
      UsesOpen (.benign unknownObject) (connectionHandle (.benign unknownObject))
        (startCalls (.benign unknownObject)) served := by
  obtain ⟨w', h, -⟩ := exists_worker_select
  obtain ⟨served, hcalls, huses, -⟩ := worker_handles h
  exact ⟨w', served, h, hcalls, huses⟩

/-- It leaves the text of `SET NAMES utf8` and its last packet. -/
theorem select_lost : ∃ (w' : World) (quit : Packet) (settings : Settings) (requests : List Request),
    worker (.benign unknownObject) (World.fresh [] selectAndQuit) = .ok ⟨⟩ w' ∧
      quit.request (.benign unknownObject) = some .quit ∧
      w'.conn.database = (requests.foldl Settings.after settings).database ∧
      w'.numAllocations = (requests.map Request.lost).sum +
        (if w'.conn.database.isSome then 1 else 0) + 1 := by
  obtain ⟨w', h, hdone⟩ := exists_worker_select
  obtain ⟨_, _, quit, settings, first, requests, -, -, -, hquit, hdatabase, hblocks⟩ :=
    worker_lost h hdone
  exact ⟨w', quit, settings, first ++ requests, h, hquit, hdatabase, hblocks⟩

end Fxmy
