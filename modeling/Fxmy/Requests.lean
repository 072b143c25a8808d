import Fxmy.Verify.Asking

/-!
# What a client asks for

A session without packets, blocks and handles: a request is what a packet asks for, and a session is
what the requests so far have set. The packets of a connection are requests (`request`), read with the
functions of the program; `Serving` says what a request makes the program say to the driver.
-/

namespace Fxmy

open Exec

/-- What a packet asks for. A query that the driver has a part in carries the statement that is
executed for it. -/
inductive Request where
  | quit
  | setOption (off : UInt16)
  | useDatabase (database : List FxmyChar)
  | setNames
  | refused
  | describe (text : List FxmyChar)
  | showTables (text : List FxmyChar)
  | statement (text : List FxmyChar)
  deriving DecidableEq, Repr

/-- What a session is set to. -/
structure Settings where
  clientFlags : UInt32
  maxPacketSize : UInt32
  charset : UInt32
  database : Option (List FxmyChar)
  multiStatementsOff : UInt16
  deriving DecidableEq, Repr

/-- A request sets the database or the option, or nothing. -/
def Settings.after (settings : Settings) : Request → Settings
  | .setOption off => { settings with multiStatementsOff := off }
  | .useDatabase database => { settings with database := some database }
  | _ => settings

/-- The blocks that a request leaves allocated for good: the text of a query that is not executed as a
general statement. -/
def Request.lost : Request → Nat
  | .setNames => 1
  | .refused => 1
  | .describe _ => 1
  | .showTables _ => 1
  | _ => 0

/-- The settings of a connection's record. -/
def World.settings (w : World) : Settings where
  clientFlags := w.conn.clientFlags
  maxPacketSize := w.conn.maxPacketSize
  charset := w.conn.charset
  database := w.conn.database
  multiStatementsOff := w.conn.multiStatementsOff

/-! ## Packets -/

/-- What a query asks for. -/
def queryRequest (ct : Ctype FxmyChar) (wideQuery : List FxmyChar) : Option Request :=
  match queryBranch ct wideQuery with
  | .ok .setNames =>
    match mentions ct wideQuery "utf8" with
    | .ok true => some .setNames
    | _ => none
  | .ok .describe => (describeText ct wideQuery >>= stringText).toOption.map .describe
  | .ok .showTables => (showTablesText ct wideQuery >>= stringText).toOption.map .showTables
  | .ok .statement =>
    match translate ct wideQuery with
    | .ok none => some .refused
    | .ok (some statement) => (stringText statement).toOption.map .statement
    | .error _ => none
  | .error _ => none

/-- What a packet of the command phase asks for, by the bytes of its block. -/
def request (env : Env) (memory : List UInt8) (size : Nat) : Option Request :=
  match memory with
  | [] => none
  | command :: ptr =>
    match Command.ofByte command with
    | some .quit => some .quit
    | some .initDb =>
      (fstrfromchar env.build (List.replicate (size - 1 + 1) nul) ptr (size - 1)).toOption.map
        .useDatabase
    | some .query => (decodeQuery env.build ptr (size - 1)).toOption.bind (queryRequest env.ctype)
    | some .setOption =>
      match ptr with
      | low :: high :: _ => some (.setOption (low.toUInt16 ||| (high.toUInt16 <<< 8)))
      | _ => none
    | _ => none

/-- The request of a packet in the connection's buffer. -/
def Packet.request (env : Env) (packet : Packet) : Option Request :=
  Fxmy.request env (packet.body ++ [0]) packet.body.length

/-- What the auth packet sets, and the request that it makes besides. -/
def Packet.auth (env : Env) (packet : Packet) : Option (Settings × List Request) :=
  match parseAuthFields ⟨some (packet.body ++ [0]), packet.body.length, 0⟩ with
  | .error _ => none
  | .ok (clientFlags, maxPacketSize, charset, buffer) =>
    let settings : Settings := ⟨clientFlags, maxPacketSize, charset.toUInt32, none, 0⟩
    if clientFlags &&& CLIENT_CONNECT_WITH_DB ≠ 0 then
      (parseAuthDatabase env.build buffer).toOption.map fun database =>
        (settings, [.useDatabase database])
    else some (settings, [])

/-! ## The driver's part -/

/-- The dialogue that serves a request on the connection handle `dbc`, after the calls so far. -/
inductive Serving (env : Env) (dbc : Handle) (connectionString : List FxmyChar)
    (calls : List OdbcCall) : Request → Talk → Prop where
  | setOption {off : UInt16} : Serving env dbc connectionString calls (.setOption off) []
  | setNames : Serving env dbc connectionString calls .setNames []
  | refused : Serving env dbc connectionString calls .refused []
  /-- The driver connects, and no statement is executed. -/
  | connected {database : List FxmyChar} {call : OdbcCall} :
      call = .driverConnect dbc connectionString → (env.odbc calls call).Succeeds .dbc dbc →
      Serving env dbc connectionString calls (.useDatabase database) [(call, env.odbc calls call)]
  /-- The driver does not connect. The statement handle is not released as one. -/
  | unconnected {database text : List FxmyChar} {call : OdbcCall} {freed : OdbcReply} :
      call = .driverConnect dbc connectionString → ¬ (env.odbc calls call).Succeeds .dbc dbc →
      useText (some database) = .ok text → GivesOut env (calls ++ [call]) dbc →
      Serving env dbc connectionString calls (.useDatabase database)
        ((call, env.odbc calls call) :: (statementTalk env (calls ++ [call]) dbc text ++
          [(.freeHandle .dbc (statementHandle env (calls ++ [call]) dbc), freed)]))
  | statement {text : List FxmyChar} {freed : OdbcReply} : GivesOut env calls dbc →
      Serving env dbc connectionString calls (.statement text)
        (statementTalk env calls dbc text ++
          [(.freeHandle .stmt (statementHandle env calls dbc), freed)])
  | describe {text : List FxmyChar} {rows : Talk} {freed : OdbcReply} : GivesOut env calls dbc →
      (∀ x ∈ rows, x.1 = .fetch (statementHandle env calls dbc)) →
      Serving env dbc connectionString calls (.describe text)
        (statementTalk env calls dbc text ++ (rows ++
          [(.freeHandle .stmt (statementHandle env calls dbc), freed)]))
  /-- The handle is released only where the execution fails. -/
  | tables {text : List FxmyChar} {rows : Talk} : GivesOut env calls dbc →
      (∀ x ∈ rows, x.1 = .fetch (statementHandle env calls dbc)) →
      Serving env dbc connectionString calls (.showTables text)
        (statementTalk env calls dbc text ++ rows)
  | noTables {text : List FxmyChar} {freed : OdbcReply} : GivesOut env calls dbc →
      Serving env dbc connectionString calls (.showTables text)
        (statementTalk env calls dbc text ++
          [(.freeHandle .stmt (statementHandle env calls dbc), freed)])

/-- Whether a request succeeds, by what the driver answers after the calls so far to the statement that
is executed for it. What DESCRIBE and SHOW TABLES execute is judged by the records read through the
address of the handle variable, and their rows play no part. -/
def Request.Succeeds (env : Env) (dbc : Handle) (connectionString : List FxmyChar)
    (calls : List OdbcCall) (request : Request) : Prop :=
  match request with
  | .useDatabase database =>
    let call := .driverConnect dbc connectionString
    (env.odbc calls call).Succeeds .dbc dbc ∨
      ∃ text, useText (some database) = .ok text ∧
        (executed env (calls ++ [call]) dbc text).Succeeds .stmt
          (statementHandle env (calls ++ [call]) dbc)
  | .refused => False
  | .describe text => (executed env calls dbc text).Succeeds .stmt .addressOf
  | .showTables text => (executed env calls dbc text).Succeeds .stmt .addressOf
  | .statement text =>
    (executed env calls dbc text).Succeeds .stmt (statementHandle env calls dbc)
  | _ => True

/-- The request is answered with a success whatever the driver answers. -/
def Request.overlooked : Request → Bool
  | .showTables _ => true
  | _ => false

/-- What a request may be answered with, after the calls so far. -/
structure Replies (env : Env) (dbc : Handle) (connectionString : List FxmyChar)
    (calls : List OdbcCall) (request : Request) (status : Status) : Prop where
  listed : status ∈ errorTable
  succeeds : status.succeeded = true ↔
    request.overlooked = true ∨ request.Succeeds env dbc connectionString calls
  /-- Without a debugger, a statement that succeeds is not answered. -/
  statement : env.build.debugger = false → ∀ text, request = .statement text →
    status.succeeded = false

/-! ## The session -/

/-- The packet with a result, on the line: the counters are those of a success, whatever the
status. -/
def answerBytes (packet : Packet) (status : Status) : List UInt8 :=
  let body := status.header :: (List.replicate 6 0 ++ status.message)
  frameHeader body.length (packet.id + 1).toNat ++ body

/-- The session: from the settings and calls in front, the packets of `served` lead to those behind,
each with the status that answers it. -/
inductive Transcript (env : Env) (dbc : Handle) (connectionString : List FxmyChar) :
    Settings × List OdbcCall → List (Packet × Status) → Settings × List OdbcCall → Prop where
  | nil (state : Settings × List OdbcCall) : Transcript env dbc connectionString state [] state
  | snoc {start : Settings × List OdbcCall} {served : List (Packet × Status)} {settings : Settings}
      {calls calls' : List OdbcCall} {packet : Packet} {r : Request} {status : Status} {talk : Talk} :
      Transcript env dbc connectionString start served (settings, calls) →
      packet.request env = some r → Replies env dbc connectionString calls r status →
      Serving env dbc connectionString calls r talk → Dialogue.Talks env.odbc calls talk calls' →
      Transcript env dbc connectionString start (served ++ [(packet, status)])
        (settings.after r, calls')

end Fxmy
