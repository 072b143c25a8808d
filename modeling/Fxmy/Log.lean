import Fxmy.Core
import Fxmy.StringType
import Fxmy.Lib.Machine

/-!
# The log (`fxmy_core.c`)

`log_file` is NULL until something is logged. A text is given as its format is filled in, and what is
printed has the mark of the program in front.
-/

namespace Fxmy

/-- `enum fxmy_log_level_t`. -/
inductive LogLevel where
  | critical
  | error
  | warning
  | info
  | all
  deriving DecidableEq, Repr

/-- The value of an enumerator. -/
def LogLevel.toNat : LogLevel → Nat
  | .critical => 0
  | .error => 1
  | .warning => 2
  | .info => 3
  | .all => 4

/-- A `FILE`. Those that `fopen` has opened are counted. -/
inductive LogFile where
  | stderr
  | stdout
  | opened (n : Nat)
  deriving DecidableEq, Repr

inductive LogText where
  | narrow (text : List UInt8)
  | wide (text : List FxmyChar)
  deriving DecidableEq, Repr

/-- The static variables of `fxmy_core.c`, and what has been done with the files. -/
structure Log where
  logThreshold : LogLevel
  logFile : Option LogFile
  /-- How often `fopen` has opened a file. -/
  numOpened : Nat
  /-- The files that have been closed, in order. -/
  closed : List LogFile
  /-- What `fprintf` and `fwprintf` have been asked to print, and where. -/
  printed : List (LogFile × LogText)

/-- A call of one of the functions. -/
inductive LogCall where
  | setVerbosityThreshold (threshold : LogLevel)
  /-- The file can be opened, or not. -/
  | setLogFile (opens : Bool)
  | log (logLevel : LogLevel) (text : List UInt8)
  | wlog (logLevel : LogLevel) (text : List FxmyChar)

namespace Log

def initial : Log := ⟨.critical, none, 0, [], []⟩

/-- `fxmy_set_verbosity_threshold`. -/
def setVerbosityThreshold (threshold : LogLevel) (log : Log) : Log :=
  { log with logThreshold := threshold }

/-- `fclose`, which must not be called with NULL. -/
def fclose (file : Option LogFile) (log : Log) : Except Stop Log :=
  match file with
  | none => .error .null
  | some file => .ok { log with closed := log.closed ++ [file] }

/-- `fopen`. -/
def fopen (opens : Bool) (log : Log) : Log :=
  if opens then { log with logFile := some (.opened log.numOpened), numOpened := log.numOpened + 1 }
  else { log with logFile := none }

/-- `fxmy_set_log_file`. -/
def setLogFile (opens : Bool) (log : Log) : Except Stop Log := do
  if log.logFile ≠ some .stderr ∧ log.logFile ≠ some .stdout then
    let log ← fclose log.logFile log
    .ok (fopen opens log)
  else .ok (fopen opens log)

/-- `fxmy_log` and `fxmy_wlog`, with the text that they print. -/
def write (logLevel : LogLevel) (text : LogText) (log : Log) : Log :=
  let file := log.logFile.getD .stderr
  let log := { log with logFile := some file }
  if logLevel.toNat > log.logThreshold.toNat then log
  else { log with printed := log.printed ++ [(file, text)] }

/-- `fxmy_log`. -/
def log (logLevel : LogLevel) (text : List UInt8) : Log → Log :=
  write logLevel (.narrow (chars "[fxmy] " ++ text))

/-- `fxmy_wlog`. -/
def wlog (logLevel : LogLevel) (text : List FxmyChar) : Log → Log :=
  write logLevel (.wide (chars "[fxmy] " ++ text))

/-- One call. -/
def step (s : Log) : LogCall → Except Stop Log
  | .setVerbosityThreshold threshold => .ok (s.setVerbosityThreshold threshold)
  | .setLogFile opens => s.setLogFile opens
  | .log logLevel text => .ok (log logLevel text s)
  | .wlog logLevel text => .ok (wlog logLevel text s)

/-- The calls in order. -/
def run (calls : List LogCall) : Except Stop Log := Machine.run step initial calls

end Log

end Fxmy
