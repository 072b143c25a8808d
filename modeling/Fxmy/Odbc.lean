import Fxmy.Common

/-!
# Reporting ODBC errors (`fxmy_odbc.h`, `fxmy_verify_and_log_odbc` of `fxmy_main.c`)

The log lines are left out.
-/

namespace Fxmy

/-- The loop over the diagnostic records: the last record decides the status. -/
def readDiagnostics (build : Build) (sqlStatus : Option Status) :
    List Int → Except Stop (Option Status)
  | [] => .ok sqlStatus
  | native :: records => do
    let s ← getStatus build native
    readDiagnostics build (some s) records

/-- `fxmy_verify_and_log_odbc`, on a reply whose records are read through `handle`. -/
def verifyAndLogOdbc (build : Build) (reply : OdbcReply) (type : HandleType) (handle : Handle) :
    Except Stop (Option Status) :=
  if reply.returnCode = SQL_SUCCESS then some <$> getStatus build 0
  else if reply.returnCode = SQL_NO_DATA then some <$> getStatus build FXMY_ERROR_NO_DATA
  else do
    let sqlStatus ← readDiagnostics build none (reply.diagnostics type handle)
    if reply.returnCode = SQL_SUCCESS_WITH_INFO then some <$> getStatus build 0
    else .ok sqlStatus

/-- `VERIFY_ODBC`. -/
def verifyOdbc (build : Build) (reply : OdbcReply) (type : HandleType) (handle : Handle) :
    Except Stop Unit := do
  if ← failed (← verifyAndLogOdbc build reply type handle) then debugbreak build else .ok ()

end Fxmy
