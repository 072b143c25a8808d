import Fxmy.Core
import Fxmy.StringType

/-!
# Statuses (`fxmy_error.h`, `fxmy_error.c`)
-/

namespace Fxmy

/-- `struct fxmy_status_t`: how a native error is reported to the client. -/
structure Status where
  nativeErrorCode : Int
  header : UInt8
  statusCode : UInt16
  sqlState : Option (List UInt8)
  message : List UInt8
  deriving DecidableEq, Repr

def FXMY_ERROR_NO_DATA : Int := -100
def FXMY_ERROR_UNKNOWN_OBJECT : Int := 208
def FXMY_ERROR_DEFAULT : Int := 208

/-- An entry of the table that reports an error with the message `ERROR`. -/
def errorEntry (native : Int) (statusCode : UInt16) (sqlState : String) : Status :=
  ⟨native, 0xFF, statusCode, some (chars sqlState), chars "ERROR"⟩

/-- `fxmy_error_table`. -/
def errorTable : List Status := [
  ⟨0, 0, 0, some (chars ""), chars "OK"⟩,
  ⟨FXMY_ERROR_NO_DATA, 0xFF, 0, some (chars ""), chars "NO DATA"⟩,
  errorEntry 102 1149 "42000",
  errorEntry 109 1136 "21S01",
  errorEntry 110 1136 "21S01",
  errorEntry 120 1136 "21S01",
  errorEntry 121 1136 "21S01",
  errorEntry 132 1308 "42000",
  errorEntry 134 1331 "42000",
  errorEntry 137 1327 "42000",
  errorEntry 139 1067 "42000",
  errorEntry 144 1056 "42000",
  errorEntry 148 1149 "42000",
  errorEntry 156 1149 "42000",
  errorEntry 178 1313 "42000",
  errorEntry 183 1425 "42000",
  errorEntry 189 1318 "42000",
  errorEntry 193 1071 "42000",
  errorEntry 201 1107 "HY000",
  errorEntry 207 1054 "42S22",
  errorEntry 208 1146 "42S02",
  errorEntry 214 1108 "HY000",
  errorEntry 216 1583 "42000",
  ⟨5701, 0, 0, none, chars ""⟩,
  ⟨5703, 0, 0, none, chars ""⟩]

/-- The first entry of the table for a native error. -/
def tableEntry (native : Int) : Option Status :=
  errorTable.find? (·.nativeErrorCode == native)

/-- The entry of `FXMY_OK`. -/
def statusOk : Status := ⟨0, 0, 0, some (chars ""), chars "OK"⟩

/-- The entry of `FXMY_ERROR_DEFAULT`. -/
def statusDefault : Status := errorEntry 208 1146 "42S02"

/-- `fxmy_get_status`. A native error that the table lacks breaks into the debugger and then gets
the default entry; the recursive call finds that one in the table. -/
def getStatus (build : Build) (native : Int) : Except Stop Status :=
  match tableEntry native with
  | some s => .ok s
  | none => do
    debugbreak build
    .ok ((tableEntry FXMY_ERROR_DEFAULT).get (by decide))

/-- `FXMY_SUCCEEDED`, on a status that is not NULL. -/
def Status.succeeded (s : Status) : Bool := s.header == 0

/-- `FXMY_SUCCEEDED`; the macro reads through its argument. -/
def succeeded : Option Status → Except Stop Bool
  | some s => .ok s.succeeded
  | none => .error .null

/-- `FXMY_FAILED`. -/
def failed : Option Status → Except Stop Bool
  | some s => .ok !s.succeeded
  | none => .error .null

/-- `FXMY_EMPTY_SET`. -/
def emptySet : Option Status → Except Stop Bool
  | some s => .ok (s.nativeErrorCode == FXMY_ERROR_NO_DATA)
  | none => .error .null

@[simp] theorem getStatus_ok (build : Build) : getStatus build 0 = .ok statusOk := rfl

@[simp] theorem getStatus_default (build : Build) :
    getStatus build FXMY_ERROR_DEFAULT = .ok statusDefault := rfl

theorem succeeded_statusOk : statusOk.succeeded = true := rfl

theorem succeeded_statusDefault : statusDefault.succeeded = false := rfl

/-- Every entry of the table either succeeds or has a header the client takes for an error. -/
theorem header_of_mem : ∀ s ∈ errorTable, s.succeeded = true ∨ s.header = 0xFF := by decide

end Fxmy
