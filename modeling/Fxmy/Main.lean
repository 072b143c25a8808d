import Fxmy.Conn
import Fxmy.Query
import Fxmy.Read
import Fxmy.Write

/-!
# The worker (`fxmy_main.c`)
-/

namespace Fxmy

/-! ## Connecting and authentication -/

/-- The statement `fxmy_connect` executes: what `_snwprintf` leaves in `use_db_string`, read up to
its terminator. A NULL name is printed as `(null)`. -/
def useText (database : Option (List FxmyChar)) : Except Fault (List FxmyChar) := do
  let name ← match database with
    | some block => stringText block
    | none => .ok (chars "(null)")
  let printed := chars "USE " ++ name ++ chars ";"
  if printed.length < 4096 then .ok printed else .error .outside

/-- `fxmy_connect`. It returns at once when the connection is made, and executes the USE statement
when it is not; the statement handle is released as a connection handle. -/
def connect (env : Env) : Prog Int := do
  let dbc ← Prog.stops (databaseHandle (← get).conn)
  let connected ← Prog.odbcCall env (.driverConnect dbc (← get).conn.connectionString)
  let status ← Prog.stops (verifyAndLogOdbc env.build connected .dbc dbc)
  Prog.setConn fun conn => { conn with status := status }
  if ← Prog.stops (succeeded status) then pure 0
  else do
    let text ← Prog.text (useText (← get).conn.database)
    let allocated ← Prog.odbcCall env (.allocHandle .stmt dbc)
    Prog.stops (verifyOdbc env.build allocated .dbc dbc)
    let executed ← Prog.odbcCall env (.execDirect allocated.handle text)
    let status ← Prog.stops (verifyAndLogOdbc env.build executed .stmt allocated.handle)
    Prog.setConn fun conn => { conn with status := status }
    let freed ← Prog.odbcCall env (.freeHandle .dbc allocated.handle)
    Prog.stops (verifyOdbc env.build freed .dbc dbc)
    pure 0

/-- The fields that `fxmy_parse_auth_packet` reads with the cursor, and the buffer behind them. -/
def parseAuthFields (buffer : XferBuffer) :
    Except Stop (UInt32 × UInt32 × UInt8 × XferBuffer) := do
  let (clientFlags, buffer) ← readU32 { buffer with cursor := 0 }
  let (maxPacketSize, buffer) ← readU32 buffer
  let (charset, buffer) ← readU8 buffer
  let buffer := buffer.advance 23
  let buffer ← skipString buffer
  let buffer ← skipLcs buffer
  .ok (clientFlags, maxPacketSize, charset, buffer)

/-- The database name that `fxmy_parse_auth_packet` decodes. It is read from the start of the
block, not from the cursor, and its size counts the terminator. -/
def parseAuthDatabase (build : Build) (buffer : XferBuffer) : Except Stop (List FxmyChar) := do
  let length ← strlenAt buffer 0
  let size := length + 1
  let memory ← Prog.deref buffer.memory
  fstrfromchar build (List.replicate size nul) memory size

/-- `fxmy_parse_auth_packet` up to the call of `fxmy_connect`: whether it is called. -/
def parseAuth (env : Env) : Prog Bool := do
  let (clientFlags, maxPacketSize, charset, buffer) ←
    Prog.stops (parseAuthFields (← get).conn.xferBuffer)
  Prog.setConn fun conn =>
    { conn with
      xferBuffer := buffer
      clientFlags := clientFlags
      maxPacketSize := maxPacketSize
      charset := charset.toUInt32 }
  if clientFlags &&& CLIENT_CONNECT_WITH_DB ≠ 0 then do
    Prog.countAlloc
    let database ← Prog.stops (parseAuthDatabase env.build buffer)
    Prog.setConn fun conn => { conn with database := some database }
    pure true
  else pure false

/-- `fxmy_parse_auth_packet`. -/
def parseAuthPacket (env : Env) : Prog Int := do
  if ← parseAuth env then connect env else pure 0

/-- `fxmy_recv_auth_packet`. -/
def recvAuthPacket (env : Env) : Prog Int := do
  let _ ← recv env
  parseAuthPacket env

/-! ## Results -/

/-- The success layout that `fxmy_send_result` writes. -/
def serializeOk (garbage : Nat → UInt8) (conn : Connection) (status : Status) :
    Except Stop XferBuffer := do
  let buffer ← serializeU8 garbage .empty status.header
  let buffer ← serializeLcb garbage buffer conn.affectedRows
  let buffer ← serializeLcb garbage buffer conn.insertId
  let buffer ← serializeU16 garbage buffer 0
  let buffer ← serializeU16 garbage buffer 0
  serializeString garbage buffer (some status.message)

/-- The error layout that `fxmy_send_result` writes. -/
def serializeError (garbage : Nat → UInt8) (status : Status) : Except Stop XferBuffer := do
  let buffer ← serializeU8 garbage .empty status.header
  let buffer ← serializeU16 garbage buffer status.statusCode
  let buffer ← serializeString garbage buffer (some (chars "#"))
  let buffer ← serializeString garbage buffer status.sqlState
  serializeString garbage buffer (some status.message)

/-- The temporary buffer of `fxmy_send_result`. The status says what goes into the header; the
layout is chosen by `column_count_error_code`. -/
def resultBuffer (build : Build) (garbage : Nat → UInt8) (conn : Connection) :
    Except Stop XferBuffer :=
  if conn.columnCountErrorCode = FXMY_OK then do
    serializeOk garbage conn (← Prog.deref conn.status)
  else if conn.columnCountErrorCode = FXMY_ERROR then do
    serializeError garbage (← Prog.deref conn.status)
  else do
    debugbreak build
    .ok .empty

/-- `fxmy_send_result`. The temporary buffer's block is allocated and freed within. -/
def sendResult (env : Env) : Prog Int := do
  resetXferBuffer
  let tempBuffer ← Prog.stops (resultBuffer env.build env.garbage (← get).conn)
  let _ ← send env (tempBuffer.memory.getD []) tempBuffer.cursor
  pure 0

/-- `fxmy_reset_transient_state`. -/
def resetTransientState (env : Env) : Prog PUnit := do
  let status ← Prog.stops (getStatus env.build 0)
  Prog.setConn fun conn =>
    { conn with columnCountErrorCode := 0, affectedRows := 0, insertId := 0, status := some status }

/-! ## Commands -/

/-- `COM_INIT_DB`, on the bytes behind the command. -/
def handleInitDb (env : Env) (ptr : List UInt8) (size : Nat) : Prog Int := do
  Prog.fxmyFree (← get).conn.database
  Prog.countAlloc
  let database ←
    Prog.stops (fstrfromchar env.build (List.replicate (size + 1) nul) ptr size)
  Prog.setConn fun conn => { conn with database := some database }
  connect env

/-- `COM_SET_OPTION`: a 16-bit value, lowest byte first, behind the command. -/
def handleSetOption (ptr : List UInt8) : Prog Int :=
  match ptr with
  | low :: high :: _ => do
    Prog.setConn fun conn =>
      { conn with multiStatementsOff := low.toUInt16 ||| (high.toUInt16 <<< 8) }
    pure 0
  | _ => throw .bytes

/-- The switch of `fxmy_handle_command_packet`, on the packet's block. -/
def handleCommand (env : Env) (memory : List UInt8) (size : Nat) : Prog Int :=
  match memory with
  | [] => throw .bytes
  | command :: ptr =>
    match Command.ofByte command with
    | some .quit => pure (-1)
    | some .initDb => handleInitDb env ptr (size - 1)
    | some .query => handleQuery env ptr (size - 1)
    | some .setOption => handleSetOption ptr
    | _ => throw .abort

/-- `fxmy_handle_command_packet`. -/
def handleCommandPacket (env : Env) : Prog Int := do
  let _ ← recv env
  let buffer := (← get).conn.xferBuffer
  let memory ← Prog.stops (Prog.deref buffer.memory)
  handleCommand env memory buffer.size

/-! ## The loop -/

/-- `fxmy_worker` up to the first result: the ODBC handles, the handshake and the auth packet. -/
def workerStart (env : Env) : Prog PUnit := do
  Prog.setConn fun conn => { conn with odbc := some ⟨.null, .null⟩ }
  let environment ← Prog.odbcCall env (.allocHandle .env .null)
  Prog.stops (verifyOdbc env.build environment .env environment.handle)
  let versioned ← Prog.odbcCall env (.setEnvAttr environment.handle)
  Prog.stops (verifyOdbc env.build versioned .env environment.handle)
  let connection ← Prog.odbcCall env (.allocHandle .dbc environment.handle)
  Prog.stops (verifyOdbc env.build connection .env environment.handle)
  Prog.setConn fun conn => { conn with odbc := some ⟨environment.handle, connection.handle⟩ }
  let sent ← sendHandshake env
  Prog.stops (verify (sent = 0))
  let parsed ← recvAuthPacket env
  Prog.stops (verify (parsed = 0))
  let conn := (← get).conn
  Prog.stops (assert env.build (conn.affectedRows = 0))
  Prog.stops (assert env.build (conn.insertId = 0))
  let status ← Prog.stops (getStatus env.build 0)
  Prog.setConn fun conn => { conn with status := some status }

/-- One result sent, as the worker does it. -/
def reply (env : Env) : Prog PUnit := do
  let sent ← sendResult env
  Prog.stops (verify (sent = 0))

/-- The loop of `fxmy_worker`, from a command on: `true` when the client quits. -/
def workerLoop (env : Env) : Nat → Prog Bool
  | 0 => pure false
  | fuel + 1 => do
    let rv ← handleCommandPacket env
    if rv = 0 then do
      reply env
      resetTransientState env
      workerLoop env fuel
    else if rv < 0 then pure true
    else workerLoop env fuel

/-- `fxmy_worker`, for as many commands as the fuel allows; `fxmy_conn_dispose` sets `done`. -/
def worker (env : Env) : Prog PUnit := do
  workerStart env
  reply env
  if ← workerLoop env env.fuel then do
    let odbc ← Prog.stops (Prog.deref (← get).conn.odbc)
    let disconnected ← Prog.odbcCall env (.disconnect odbc.databaseConnectionHandle)
    Prog.stops (verifyOdbc env.build disconnected .dbc odbc.databaseConnectionHandle)
    let freed ← Prog.odbcCall env (.freeHandle .dbc odbc.databaseConnectionHandle)
    Prog.stops (verifyOdbc env.build freed .dbc odbc.databaseConnectionHandle)
    let released ← Prog.odbcCall env (.freeHandle .env odbc.environmentHandle)
    Prog.stops (verifyOdbc env.build released .env odbc.environmentHandle)
    Prog.setConn fun conn => { conn with odbc := none, done := true }
  else pure ⟨⟩

end Fxmy
