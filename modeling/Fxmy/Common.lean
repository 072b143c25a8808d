import Fxmy.Error
import Fxmy.Lib.Exec

/-!
# The connection and its surroundings (`fxmy_common.h`, `fxmy_odbc.h`)

A connection's thread runs alone over its own record, so its state is a `World`: the record, what
has been asked of ODBC so far, the bytes still to come from the client and those sent to it. What
the program does not decide is an `Env`: the build, the locale, the answers of the ODBC driver (any
function of the calls so far), how much of a buffer `send` takes, and what fresh memory holds.
-/

namespace Fxmy

/-- `struct fxmy_xfer_buffer_t`; `memory` is NULL or a block of bytes. -/
structure XferBuffer where
  memory : Option (List UInt8)
  size : Nat
  cursor : Nat

/-- `{ NULL, 0, 0 }`. -/
def XferBuffer.empty : XferBuffer := ⟨none, 0, 0⟩

/-! ## ODBC -/

/-- A value passed where ODBC wants a handle: NULL, a handle it gave out, or the address of the
variable that holds one. -/
inductive Handle where
  | null
  | given (n : Nat)
  | addressOf
  deriving DecidableEq, Repr

/-- `SQL_HANDLE_ENV`, `SQL_HANDLE_DBC`, `SQL_HANDLE_STMT`. -/
inductive HandleType where
  | env
  | dbc
  | stmt
  deriving DecidableEq, Repr

/-- The calls the program makes, with the arguments that matter. A statement text is what stands
before its terminator (`SQL_NTS`). -/
inductive OdbcCall where
  | allocHandle (type : HandleType) (input : Handle)
  | setEnvAttr (environment : Handle)
  | driverConnect (connection : Handle) (connectionString : List FxmyChar)
  | execDirect (statement : Handle) (text : List FxmyChar)
  | fetch (statement : Handle)
  | disconnect (connection : Handle)
  | freeHandle (type : HandleType) (handle : Handle)
  deriving DecidableEq, Repr

/-- What a call answers: its `SQLRETURN`, the handle `SQLAllocHandle` stores, and the native error
codes of the diagnostic records that can be read through each handle after it. -/
structure OdbcReply where
  returnCode : Int
  handle : Handle
  diagnostics : HandleType → Handle → List Int

def SQL_SUCCESS : Int := 0
def SQL_SUCCESS_WITH_INFO : Int := 1
def SQL_NO_DATA : Int := 100

/-- `struct fxmy_odbc_t`. -/
structure Odbc where
  environmentHandle : Handle
  databaseConnectionHandle : Handle

/-! ## The connection -/

/-- `struct fxmy_connection_t`, without the socket, whose traffic is in `World`. -/
structure Connection where
  done : Bool
  xferBuffer : XferBuffer
  packetNumber : UInt32
  clientFlags : UInt32
  maxPacketSize : UInt32
  charset : UInt32
  database : Option (List FxmyChar)
  multiStatementsOff : UInt16
  columnCountErrorCode : UInt64
  affectedRows : UInt64
  insertId : UInt64
  status : Option Status
  odbc : Option Odbc
  connectionString : List FxmyChar

/-- A connection as `fxmy_create_connection` makes it: zeroed, with its connection string. -/
def Connection.fresh (connectionString : List FxmyChar) : Connection where
  done := false
  xferBuffer := .empty
  packetNumber := 0
  clientFlags := 0
  maxPacketSize := 0
  charset := 0
  database := none
  multiStatementsOff := 0
  columnCountErrorCode := 0
  affectedRows := 0
  insertId := 0
  status := none
  odbc := none
  connectionString := connectionString

/-- `CLIENT_CONNECT_WITH_DB`. -/
def CLIENT_CONNECT_WITH_DB : UInt32 := (1 : UInt32) <<< 3

/-- `enum fxmy_commands_t`. -/
inductive Command where
  | sleep | quit | initDb | query | fieldList | createDb | dropDb | refresh | shutdown | statistics
  | processInfo | connect | processKill | debug | ping | time | delayedInsert | changeUser
  | binlogDump | tableDump | connectOut | registerSlave | stmtPrepare | stmtExecute
  | stmtSendLongData | stmtClose | stmtReset | setOption | stmtFetch
  deriving DecidableEq, Repr

/-- The commands in the order of their codes. -/
def Command.all : List Command := [
  .sleep, .quit, .initDb, .query, .fieldList, .createDb, .dropDb, .refresh, .shutdown, .statistics,
  .processInfo, .connect, .processKill, .debug, .ping, .time, .delayedInsert, .changeUser,
  .binlogDump, .tableDump, .connectOut, .registerSlave, .stmtPrepare, .stmtExecute,
  .stmtSendLongData, .stmtClose, .stmtReset, .setOption, .stmtFetch]

/-- The command a byte stands for. -/
def Command.ofByte (b : UInt8) : Option Command := Command.all[b.toNat]?

/-! ## Programs -/

/-- What the client's end of the connection brings to `recv`: bytes that arrive together, or an
error. A closed connection has nothing left. -/
inductive Arrival where
  | data (bytes : List UInt8)
  | failure

/-- The state a connection's thread works on. -/
structure World where
  conn : Connection
  /-- The calls made to ODBC, in order. -/
  calls : List OdbcCall
  incoming : List Arrival
  /-- The buffers handed to `send`, in order. -/
  sent : List (List UInt8)
  /-- `num_allocations`. -/
  numAllocations : Int

/-- What the program does not decide. -/
structure Env where
  build : Build
  ctype : Ctype FxmyChar
  /-- The driver's answer to a call, after the calls before it. -/
  odbc : List OdbcCall → OdbcCall → OdbcReply
  /-- What `send` returns for a buffer, after the buffers before it. -/
  sendReturns : List (List UInt8) → List UInt8 → Int
  /-- The bytes of memory that nobody has written. -/
  garbage : Nat → UInt8
  /-- How often the loops that wait for the driver or the client may turn. -/
  fuel : Nat

/-- A piece of the program: it returns, or stops in the state it has reached. -/
abbrev Prog := EStateM Stop World

namespace Prog

variable {α : Type}

/-- A function on characters. -/
abbrev text (x : Except Fault α) : Prog α := Exec.lift Stop.text x

/-- A function that does not touch the world. -/
abbrev stops (x : Except Stop α) : Prog α := Exec.lift id x

/-- An update of the connection's record. -/
abbrev setConn (f : Connection → Connection) : Prog PUnit :=
  modify fun w => { w with conn := f w.conn }

/-- The block or structure a pointer points to. -/
def deref (p : Option α) : Except Stop α :=
  match p with
  | some a => .ok a
  | none => .error .null

/-- `fxmy_malloc` and `fxmy_calloc` count the block they give out. The heap raises an exception
rather than return NULL. -/
abbrev countAlloc : Prog PUnit := modify fun w => { w with numAllocations := w.numAllocations + 1 }

/-- `fxmy_free`: only a block is counted, not NULL. -/
def fxmyFree (p : Option α) : Prog PUnit :=
  if p.isSome then modify fun w => { w with numAllocations := w.numAllocations - 1 } else pure ⟨⟩

theorem bind_fxmyFree {β : Type} (p : Option α) (f : PUnit → Prog β) (w : World) :
    (fxmyFree p >>= f) w =
      f ⟨⟩ (if p.isSome then { w with numAllocations := w.numAllocations - 1 } else w) := by
  cases p <;> rfl

/-- A call to ODBC. -/
def odbcCall (env : Env) (c : OdbcCall) : Prog OdbcReply := fun w =>
  .ok (env.odbc w.calls c) { w with calls := w.calls ++ [c] }

theorem bind_odbcCall {β : Type} (env : Env) (c : OdbcCall) (f : OdbcReply → Prog β) (w : World) :
    (odbcCall env c >>= f) w = f (env.odbc w.calls c) { w with calls := w.calls ++ [c] } := rfl

end Prog

/-- The state a connection's thread starts in. -/
def World.fresh (connectionString : List FxmyChar) (incoming : List Arrival) : World :=
  ⟨.fresh connectionString, [], incoming, [], 0⟩

/-- Surroundings in which nothing fails, over a driver that answers with `odbc`. -/
def Env.benign (odbc : List OdbcCall → OdbcCall → OdbcReply) : Env where
  build := ⟨true, false⟩
  ctype := cLocale
  odbc := odbc
  sendReturns _ block := block.length
  garbage _ := 0
  fuel := 16

/-- A driver that does what it is asked for. -/
def obliging (_ : List OdbcCall) (_ : OdbcCall) : OdbcReply := ⟨SQL_SUCCESS, .given 1, fun _ _ => []⟩

end Fxmy
