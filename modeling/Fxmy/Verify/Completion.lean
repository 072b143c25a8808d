import Fxmy.Verify.Progress

/-!
# A client that quits

`fxmy_recv` takes a packet in two calls, so that what the client sends must not be cut but behind a
header; packets may arrive together (`Whole`). A client whose packets do, whose requests are answerable
and whose last one is `COM_QUIT` is answered each of its commands and can leave (`worker_quits`).
-/

namespace Fxmy

open Exec

/-! ## What arrives whole -/

/-- The parts of a packet that are received in one call each. -/
def Packet.parts (packet : Packet) : List (List UInt8) :=
  [frameHeader packet.body.length packet.id.toNat, packet.body]

/-- The parts arrive whole, some of them together, and behind them `rest`. -/
def Whole (parts : List (List UInt8)) (incoming rest : List Arrival) : Prop :=
  ∃ groups : List (List (List UInt8)), (∀ g ∈ groups, g ≠ []) ∧ groups.flatten = parts ∧
    incoming = groups.map (fun g => .data g.flatten) ++ rest

theorem whole_nil {incoming rest : List Arrival} (h : Whole [] incoming rest) : incoming = rest := by
  obtain ⟨groups, hne, hparts, rfl⟩ := h
  cases groups with
  | nil => rfl
  | cons g groups =>
    rw [List.flatten_cons] at hparts
    exact absurd (List.append_eq_nil_iff.mp hparts).1 (hne g List.mem_cons_self)

/-- Parts that arrive one by one. -/
theorem whole_apart (parts : List (List UInt8)) (rest : List Arrival) :
    Whole parts (parts.map .data ++ rest) rest := by
  refine ⟨parts.map fun p => [p], fun g hg => ?_, ?_, ?_⟩
  · obtain ⟨p, -, rfl⟩ := List.mem_map.mp hg
    exact List.cons_ne_nil _ _
  · rw [← List.flatMap_def, List.flatMap_singleton']
  · rw [List.map_map]
    simp [Function.comp_def]

/-- The bytes of the parts come first. -/
theorem Whole.arrived_eq {parts : List (List UInt8)} {incoming rest : List Arrival}
    (h : Whole parts incoming rest) : arrived incoming = parts.flatten ++ arrived rest := by
  obtain ⟨groups, -, rfl, rfl⟩ := h
  induction groups with
  | nil => rfl
  | cons g groups ih =>
    rw [List.map_cons, List.cons_append, arrived, ih, List.flatten_cons, List.flatten_append,
      List.append_assoc]

/-- A call takes the first part. -/
theorem Whole.socketRecv {part : List UInt8} {parts : List (List UInt8)}
    {incoming rest : List Arrival} (h : Whole (part :: parts) incoming rest)
    (hparts : ∀ p ∈ parts, p ≠ []) : ∃ after, Whole parts after rest ∧
      ∀ w : World, w.incoming = incoming → socketRecv part.length w =
        .ok (part.length, part) { w with incoming := after } := by
  obtain ⟨groups, hne, hflatten, rfl⟩ := h
  cases groups with
  | nil => cases hflatten
  | cons g groups =>
    obtain ⟨hg, hgroups⟩ := List.forall_mem_cons.mp hne
    cases g with
    | nil => exact absurd rfl hg
    | cons p g =>
      rw [List.flatten_cons, List.cons_append, List.cons.injEq] at hflatten
      obtain ⟨rfl, rfl⟩ := hflatten
      by_cases hlast : g = []
      · subst hlast
        refine ⟨_, ⟨groups, hgroups, rfl, rfl⟩, fun w hw => ?_⟩
        have hlone : w.incoming = .data (p ++ []) :: _ := hw
        exact socketRecv_data hlone
      · refine ⟨_, ⟨g :: groups, List.forall_mem_cons.mpr ⟨hlast, hgroups⟩, rfl, rfl⟩, fun w hw => ?_⟩
        have hleft : g.flatten ≠ [] := by
          intro hnil
          cases g with
          | nil => exact hlast rfl
          | cons q g =>
            rw [List.flatten_cons] at hnil
            exact hparts q List.mem_cons_self (List.append_eq_nil_iff.mp hnil).1
        have hjoined : w.incoming = .data (p ++ g.flatten) :: _ := hw
        have hrecv := socketRecv_data hjoined
        rw [if_neg hleft] at hrecv
        exact hrecv

/-- A packet that arrives whole is received, and what is behind it arrives whole. -/
theorem Whole.recv {packet : Packet} {parts : List (List UInt8)} {incoming rest : List Arrival}
    (h : Whole (packet.parts ++ parts) incoming rest) (hbody : packet.body ≠ [])
    (hparts : ∀ p ∈ parts, p ≠ []) : ∃ after, Whole parts after rest ∧
      ∀ env (w : World), w.incoming = incoming → recv env w = .ok 0 (w.receive packet after) := by
  obtain ⟨between, hbetween, hheader⟩ :=
    h.socketRecv (List.forall_mem_cons.mpr ⟨hbody, hparts⟩)
  obtain ⟨after, hafter, hrecv⟩ := hbetween.socketRecv hparts
  exact ⟨after, hafter, fun env w hw => recv_of_body env (hheader w hw) hrecv⟩

section

variable {env : Env} {w : World}

/-- The empty packet asks for nothing. -/
theorem body_ne_nil_of_request {packet : Packet} {r : Request} (h : packet.request env = some r) :
    packet.body ≠ [] := by
  intro hbody
  unfold Packet.request at h
  rw [hbody] at h
  cases h

theorem body_ne_nil_of_auth {packet : Packet} {x : Settings × List Request}
    (h : packet.auth env = some x) : packet.body ≠ [] := by
  intro hbody
  unfold Packet.auth at h
  rw [hbody] at h
  cases h

/-- The parts of packets that ask for something are not empty. -/
theorem parts_ne_nil {packets : List Packet} (h : ∀ packet ∈ packets, packet.body ≠ []) :
    ∀ p ∈ packets.flatMap Packet.parts, p ≠ [] := by
  intro p hp
  obtain ⟨packet, hpacket, hpart⟩ := List.mem_flatMap.mp hp
  rcases List.mem_pair.mp hpart with rfl | rfl
  · exact List.cons_ne_nil _ _
  · exact h packet hpacket

theorem flatten_parts (packets : List Packet) :
    (packets.flatMap Packet.parts).flatten = packets.flatMap Packet.bytes := by
  induction packets with
  | nil => rfl
  | cons packet packets ih =>
    rw [List.flatMap_cons, List.flatten_append, ih, List.flatMap_cons, Packet.parts, Packet.bytes,
      List.flatten_cons, List.flatten_singleton]

/-! ## The loop -/

/-- No query asks to quit. -/
theorem queryRequest_ne_quit (ct : Ctype FxmyChar) (query : List FxmyChar) :
    queryRequest ct query ≠ some .quit := by
  intro h
  unfold queryRequest at h
  split at h
  · split at h
    · cases h
    · cases h
  · obtain ⟨_, -, hrequest⟩ := Option.map_eq_some_iff.mp h
    cases hrequest
  · obtain ⟨_, -, hrequest⟩ := Option.map_eq_some_iff.mp h
    cases hrequest
  · split at h
    · cases h
    · obtain ⟨_, -, hrequest⟩ := Option.map_eq_some_iff.mp h
      cases hrequest
    · cases h
  · cases h

theorem handleCommand_quit {memory : List UInt8} {size : Nat}
    (h : request env memory size = some .quit) (w : World) :
    handleCommand env memory size w = .ok (-1) w := by
  unfold request at h
  unfold handleCommand
  cases memory with
  | nil => cases h
  | cons command ptr =>
    simp only at h ⊢
    cases hcommand : Command.ofByte command with
    | none =>
      rw [hcommand] at h
      cases h
    | some c =>
      rw [hcommand] at h
      cases c with
      | quit => rfl
      | initDb =>
        obtain ⟨_, -, hrequest⟩ := Option.map_eq_some_iff.mp h
        cases hrequest
      | query =>
        obtain ⟨query, -, hquery⟩ := Option.bind_eq_some_iff.mp h
        exact absurd hquery (queryRequest_ne_quit env.ctype query)
      | setOption =>
        simp only at h
        split at h
        · cases h
        · cases h
      | _ => cases h

/-- What the request needs of the driver, whatever has been asked of it. -/
def Request.AlwaysAnswerable (env : Env) (connectionString : List FxmyChar) (r : Request) : Prop :=
  ∀ calls, r.Answerable env (connectionHandle env) connectionString calls

variable {connectionString : List FxmyChar} {incoming rest : List Arrival} {commands : List Packet}
  {quit : Packet}

/-- The loop answers the commands one after the other and ends at `COM_QUIT`. -/
theorem loop_quits (hcooperates : Cooperates env) (hfuel : 0 < env.fuel)
    (hquit : quit.request env = some .quit)
    (hcommands : ∀ packet ∈ commands, ∃ r, packet.request env = some r ∧
      r.AlwaysAnswerable env connectionString) {n : Nat} (hn : commands.length < n)
    (hwaits : Waits env (World.fresh connectionString incoming) w)
    (hwhole : Whole ((commands ++ [quit]).flatMap Packet.parts) w.incoming rest) :
    ∃ w', Waits env (World.fresh connectionString incoming) w' ∧ Whole quit.parts w'.incoming rest ∧
      workerLoop env n w = .ok true (w'.receive quit rest) := by
  have hlast := body_ne_nil_of_request hquit
  induction commands generalizing w n with
  | nil =>
    rw [List.nil_append, List.flatMap_singleton] at hwhole
    have hparts : Whole (quit.parts ++ []) w.incoming rest := (List.append_nil quit.parts).symm ▸ hwhole
    obtain ⟨after, hafter, hrecv⟩ := hparts.recv hlast (List.forall_mem_nil _)
    obtain rfl := whole_nil hafter
    obtain ⟨n, rfl⟩ := Nat.exists_eq_add_one.mpr (Nat.zero_lt_of_lt hn)
    refine ⟨w, hwaits, hwhole, ?_⟩
    have hcommand := (handleCommandPacket_eq (hrecv env w rfl)).trans (handleCommand_quit hquit _)
    rw [workerLoop, bind_of_ok hcommand, if_neg (by decide), if_pos (by decide)]
    rfl
  | cons packet commands ih =>
    obtain ⟨⟨r, hrequest, hanswerable⟩, hbehind⟩ := List.forall_mem_cons.mp hcommands
    have hbodies : ∀ p ∈ commands ++ [quit], p.body ≠ [] := by
      rw [List.forall_mem_append]
      refine ⟨fun p hp => ?_, List.forall_mem_singleton.mpr hlast⟩
      obtain ⟨r, hr, -⟩ := hbehind p hp
      exact body_ne_nil_of_request hr
    rw [List.cons_append, List.flatMap_cons] at hwhole
    obtain ⟨after, hafter, hrecv⟩ :=
      hwhole.recv (body_ne_nil_of_request hrequest) (parts_ne_nil hbodies)
    obtain ⟨n, rfl⟩ := Nat.exists_eq_add_one.mpr (Nat.zero_lt_of_lt hn)
    obtain ⟨w', hwaits', rfl, hloop⟩ :=
      hwaits.answer hcooperates hfuel (hrecv env w rfl) hrequest (hanswerable w.calls)
    rw [hloop]
    exact ih hbehind (Nat.lt_of_succ_lt_succ hn) hwaits' hafter

/-! ## The start -/

/-- An auth packet is parsed, and its database connected to. -/
theorem parseAuthPacket_answers (hcooperates : Cooperates env) {auth : Packet} {dbc : Handle}
    {settings : Settings} {first : List Request} (after : List Arrival)
    (hdbc : databaseHandle w.conn = .ok dbc) (hauth : auth.auth env = some (settings, first))
    (hfirst : ∀ r ∈ first, r.Answerable env dbc w.conn.connectionString w.calls) :
    ∃ w', parseAuthPacket env (w.receive auth after) = .ok 0 w' := by
  unfold Packet.auth at hauth
  unfold parseAuthPacket parseAuth
  cases hfields : parseAuthFields ⟨some (auth.body ++ [0]), auth.body.length, 0⟩ with
  | error stop =>
    rw [hfields] at hauth
    cases hauth
  | ok fields =>
    obtain ⟨flags, size, charset, buffer⟩ := fields
    have hread : parseAuthFields (w.receive auth after).conn.xferBuffer =
        .ok (flags, size, charset, buffer) := hfields
    rw [hfields] at hauth
    simp only at hauth
    split at hauth
    · next hflag =>
      obtain ⟨database, hdatabase, hrequests⟩ := Option.map_eq_some_iff.mp hauth
      cases hrequests
      obtain ⟨w', status, hconnect, -⟩ := connect_answers
        (w := { (w.receive auth after).count 1 with
          conn := { (w.receive auth after).conn with
            xferBuffer := buffer
            clientFlags := flags
            maxPacketSize := size
            charset := charset.toUInt32
            database := some database } })
        hcooperates (by exact hdbc) rfl (hfirst _ List.mem_cons_self)
      refine ⟨w', bind_eq_ok.mpr ⟨true, _, ?_, hconnect⟩⟩
      rw [bind_get, hread, bind_lift_ok]
      simp only
      rw [bind_modify, if_pos hflag, bind_modify, eq_ok_of_toOption hdatabase, bind_lift_ok,
        bind_modify]
      rfl
    · next hflag =>
      refine ⟨_, bind_eq_ok.mpr ⟨false, { w.receive auth after with
        conn := { (w.receive auth after).conn with
          xferBuffer := buffer
          clientFlags := flags
          maxPacketSize := size
          charset := charset.toUInt32 } }, ?_, rfl⟩⟩
      rw [bind_get, hread, bind_lift_ok]
      simp only
      rw [bind_modify, if_neg hflag]
      rfl

/-- The worker has its handles. -/
def World.ready (w : World) (env : Env) : World := { w with
  conn := { w.conn with odbc := some ⟨environmentHandle env, connectionHandle env⟩ }
  calls := startCalls env }

/-- The worker greets the client and waits for its first command. -/
theorem starts_waiting (hcooperates : Cooperates env) {auth : Packet} {settings : Settings}
    {first : List Request} {parts : List (List UInt8)} (hauth : auth.auth env = some (settings, first))
    (hfirst : ∀ r ∈ first, r.AlwaysAnswerable env connectionString)
    (hparts : ∀ p ∈ parts, p ≠ []) (hwhole : Whole (auth.parts ++ parts) incoming rest) :
    ∃ w₁ w, workerStart env (World.fresh connectionString incoming) = .ok ⟨⟩ w₁ ∧
      reply env w₁ = .ok ⟨⟩ w ∧ Whole parts w.incoming rest := by
  obtain ⟨after, hafter, hrecv⟩ := hwhole.recv (body_ne_nil_of_auth hauth) hparts
  obtain ⟨w₂, hparse⟩ := parseAuthPacket_answers
    (w := (World.fresh connectionString incoming).greet env) hcooperates after rfl hauth
    fun r hr => hfirst r hr (startCalls env)
  have hcounters : w₂.counters = (0, 0, 0) := (parseAuthPacket_keeps counters_unserved env).of_ok hparse
  have hline := (parseAuthPacket_keeps line_unserved env).of_ok hparse
  have hgreets : sendHandshake env ((World.fresh connectionString incoming).ready env) =
      .ok 0 ((World.fresh connectionString incoming).greet env) := by
    have hsend := hcooperates.send_eq (w := (World.fresh connectionString incoming).ready env)
      [] rfl (show handshakePacket.length ≤ 256 * maxFrame by decide)
    rw [List.append_nil] at hsend
    exact hsend
  have hauthenticates : recvAuthPacket env ((World.fresh connectionString incoming).greet env) =
      .ok 0 w₂ := by
    unfold recvAuthPacket
    rw [bind_of_ok (hrecv env _ rfl), hparse]
  have hzero : verify (decide ((0 : Int) = 0)) = .ok () := rfl
  have hrows : w₂.conn.affectedRows = 0 := congrArg (·.2.1) hcounters
  have hid : w₂.conn.insertId = 0 := congrArg (·.2.2) hcounters
  have hstart : workerStart env (World.fresh connectionString incoming) =
      .ok ⟨⟩ (w₂.report (some statusOk)) := by
    unfold workerStart
    rw [bind_modify, Prog.bind_odbcCall, hcooperates.verifyOdbc_alloc, bind_lift_ok,
      Prog.bind_odbcCall, hcooperates.verifyOdbc_setEnvAttr, bind_lift_ok, Prog.bind_odbcCall,
      hcooperates.verifyOdbc_alloc, bind_lift_ok, bind_modify]
    refine bind_eq_ok.mpr ⟨0, _, hgreets, ?_⟩
    rw [hzero, bind_lift_ok, bind_of_ok hauthenticates, hzero, bind_lift_ok, bind_get]
    simp only [hrows, hid, assert_eq, decide_true, Bool.or_true, if_true, getStatus_ok, bind_lift_ok]
    rfl
  obtain ⟨w, hreply⟩ := reply_answers_of (w := w₂.report (some statusOk)) hcooperates rfl
    List.mem_cons_self (congrArg (·.1) hcounters)
  refine ⟨_, w, hstart, hreply, ?_⟩
  obtain ⟨_, -, rfl⟩ := reply_state (Sends.start hstart).status_mem.1 (Sends.start hstart).status_mem.2
    hreply
  have hincoming : w₂.incoming = after := congrArg (·.2.1) hline
  exact hincoming.symm ▸ hafter

/-! ## The whole run -/

/-- The client gets the session's answer to each command, the worker gives its handles back and ends,
and the stream is used up to the end of the last packet. -/
structure Completes (env : Env) (connectionString : List FxmyChar) (incoming : List Arrival)
    (auth : Packet) (commands : List Packet) (rest : List Arrival) (w : World) : Prop where
  returned : worker env (World.fresh connectionString incoming) = .ok ⟨⟩ w
  done : w.conn.done = true
  incoming : w.incoming = rest
  answered : ∃ (settings : Settings) (first : List Request) (calls : List OdbcCall)
    (served : List (Packet × Status)) (asked : List OdbcCall),
    auth.auth env = some (settings, first) ∧ served.map Prod.fst = commands ∧
    Conversation env (connectionHandle env) connectionString first calls ∧
    Transcript env (connectionHandle env) connectionString
      (first.foldl Settings.after settings, calls) served (w.settings, asked) ∧
    w.calls = asked ++ endCalls env ∧
    w.sent = greeting.bytes :: answerBytes auth statusOk :: served.map fun x => answerBytes x.1 x.2

/-- **A client can quit**: where the socket and the driver cooperate, its packets arrive whole and its
requests are answerable, the worker answers each of them as the session does and ends. -/
theorem worker_quits (hcooperates : Cooperates env) {auth : Packet} {settings : Settings}
    {first : List Request} (hauth : auth.auth env = some (settings, first))
    (hfirst : ∀ r ∈ first, r.AlwaysAnswerable env connectionString)
    (hcommands : ∀ packet ∈ commands, ∃ r, packet.request env = some r ∧
      r.AlwaysAnswerable env connectionString)
    (hquit : quit.request env = some .quit) (hfuel : commands.length < env.fuel)
    (hwhole : Whole ((auth :: (commands ++ [quit])).flatMap Packet.parts) incoming rest) :
    ∃ w, Completes env connectionString incoming auth commands rest w := by
  have hbodies : ∀ p ∈ commands ++ [quit], p.body ≠ [] := by
    rw [List.forall_mem_append]
    refine ⟨fun p hp => ?_, List.forall_mem_singleton.mpr (body_ne_nil_of_request hquit)⟩
    obtain ⟨r, hr, -⟩ := hcommands p hp
    exact body_ne_nil_of_request hr
  have hstream := hwhole.arrived_eq
  rw [flatten_parts] at hstream
  rw [List.flatMap_cons] at hwhole
  obtain ⟨w₁, w₂, hstart, hreply, hwhole₂⟩ :=
    starts_waiting hcooperates hauth hfirst (parts_ne_nil hbodies) hwhole
  obtain ⟨w, hwaits, hlast, hloop⟩ := loop_quits hcooperates (Nat.zero_lt_of_lt hfuel) hquit hcommands
    hfuel (.start hstart hreply) hwhole₂
  obtain ⟨_, _, -, hresting⟩ := hwaits.resting
  obtain ⟨_, _, _, -, -, hsession⟩ := hresting.exists_session
  have hodbc : (w.receive quit rest).conn.odbc =
      some ⟨environmentHandle env, connectionHandle env⟩ := congrArg Prod.fst hsession.fixed
  obtain ⟨auth', settings', first', served, hspoken⟩ := hwaits.spoken
  -- The session's packets are those of the stream.
  have hsame : auth :: commands = auth' :: served.map Prod.fst := by
    have hboth := hstream.symm.trans hspoken.arrived
    rw [hlast.arrived_eq, ← List.cons_append, List.flatMap_append, List.flatMap_singleton,
      ← List.flatMap_singleton Packet.parts quit, flatten_parts, List.flatMap_singleton,
      ← List.append_assoc] at hboth
    have hbytes := List.append_cancel_right (List.append_cancel_right hboth)
    have hparse := congrArg parsePackets hbytes
    rw [parsePackets_bytes, parsePackets_bytes] at hparse
    exact Option.some.inj hparse
  obtain ⟨rfl, hserved⟩ := List.cons.inj hsame
  obtain ⟨w', hreturned, hdone, hincoming, hsent, hsettings, hcalls⟩ : ∃ w',
      worker env (World.fresh connectionString incoming) = .ok ⟨⟩ w' ∧ w'.conn.done = true ∧
        w'.incoming = rest ∧ w'.sent = w.sent ∧ w'.settings = w.settings ∧
        w'.calls = w.calls ++ endCalls env := by
    unfold worker
    rw [bind_of_ok hstart, bind_of_ok hreply, bind_of_ok hloop, if_pos rfl, bind_get, hodbc,
      Prog.deref, bind_lift_ok, Prog.bind_odbcCall, hcooperates.verifyOdbc_disconnect, bind_lift_ok,
      Prog.bind_odbcCall, hcooperates.verifyOdbc_free, bind_lift_ok, Prog.bind_odbcCall,
      hcooperates.verifyOdbc_free, bind_lift_ok]
    refine ⟨_, rfl, rfl, rfl, rfl, rfl, ?_⟩
    simp [World.receive, endCalls]
  obtain ⟨calls, hfirst', htranscript⟩ := hspoken.transcript
  exact ⟨w', hreturned, hdone, hincoming, settings', first', calls, served, w.calls,
    hspoken.authenticated, hserved.symm, hfirst', hsettings ▸ htranscript, hcalls,
    hsent.trans hspoken.sent⟩

end

/-- The auth packet of a client that names no database. -/
def authPacket : Packet :=
  ⟨1, [0, 0x82, 0, 0, 0, 0, 0, 1, 8] ++ List.replicate 23 0 ++ [0x73, 0x61, 0, 0], by decide⟩

/-- `SET NAMES utf8`, as a packet. -/
def namesPacket : Packet := ⟨0, 3 :: chars "SET NAMES utf8", by decide⟩

/-- `COM_QUIT`. -/
def quitPacket : Packet := ⟨0, [1], by decide⟩

theorem whole_selectAndQuit :
    Whole ((authPacket :: ([selectPacket, namesPacket] ++ [quitPacket])).flatMap Packet.parts)
      selectAndQuit [] :=
  whole_apart _ []

/-- The client that selects some rows and names its character set is answered twice and leaves. -/
theorem select_quits : ∃ w, Completes (.benign rowless) [] selectAndQuit authPacket
    [selectPacket, namesPacket] [] w := by
  obtain ⟨text, hselect, hanswerable⟩ := selectPacket_request
  have hnames : namesPacket.request (.benign rowless) = some .setNames := by decide +kernel
  have hauth : ∃ settings, authPacket.auth (.benign rowless) = some (settings, []) := ⟨_, rfl⟩
  obtain ⟨settings, hauth⟩ := hauth
  apply worker_quits cooperates_rowless hauth (List.forall_mem_nil _) ?_
    (show quitPacket.request (.benign rowless) = some .quit from rfl) (by decide) whole_selectAndQuit
  rw [List.forall_mem_cons]
  refine ⟨⟨_, hselect, fun calls => hanswerable _ _ calls⟩, List.forall_mem_singleton.mpr ?_⟩
  exact ⟨_, hnames, fun _ => trivial⟩

end Fxmy
