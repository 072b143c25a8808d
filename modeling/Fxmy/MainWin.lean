import Fxmy.Core
import Fxmy.Lib.Block

/-!
# The connection table (`windows/main_win.c`)

A connection and a thread handle are addresses; NULL is `none`. Every connection comes from
`fxmy_create_connection` and is not NULL. The `done` flags are what the connections' threads have
set when the table is scanned.
-/

namespace Fxmy

/-- `struct fxmy_connection_thread_info_t`. -/
structure ThreadInfo where
  conn : Option Nat
  threadHandle : Option Nat
  deriving DecidableEq, Repr

/-- A slot after `memset`. -/
def ThreadInfo.empty : ThreadInfo := ⟨none, none⟩

/-- The static variables of `fxmy_add_new_connection`. The block that `context_array` points to has
`num_context_array_entries` slots. -/
structure ConnectionTable where
  contextArray : List ThreadInfo
  numActive : Nat
  deriving DecidableEq, Repr

namespace ConnectionTable

/-- The variables before the first call: NULL and zeros. -/
def initial : ConnectionTable := ⟨[], 0⟩

/-- `num_context_array_entries`. -/
def numEntries (table : ConnectionTable) : Nat := table.contextArray.length

/-- The scan for connections that are done, on the slots from `i` on, under the bound `numActive`.
It returns the slots, the bound it ends with and the entries released: their threads are waited for
and their connections freed, in this order. -/
def scanLoop (done : Nat → Bool) (i numActive : Nat) :
    List ThreadInfo → Except Stop (List ThreadInfo × Nat × List ThreadInfo)
  | [] => if i < numActive then .error .bytes else .ok ([], numActive, [])
  | slot :: slots =>
    if i < numActive then
      match slot.conn with
      | none => .error .null
      | some currentConnection =>
        if done currentConnection then do
          let (slots, numActive, released) ← scanLoop done (i + 1) (numActive - 1) slots
          .ok (.empty :: slots, numActive, slot :: released)
        else do
          let (slots, numActive, released) ← scanLoop done (i + 1) numActive slots
          .ok (slot :: slots, numActive, released)
    else .ok (slot :: slots, numActive, [])

/-- `ALLOCATION_DELTA`. -/
def allocationDelta : Nat := 10

/-- The reallocation: new slots hold what `garbage` says until the `memset`. -/
def grow (garbage : Nat → ThreadInfo) (table : ConnectionTable) : Except Stop ConnectionTable :=
  if table.numActive + 1 > table.numEntries then
    let block := table.contextArray ++ (List.range allocationDelta).map garbage
    match Block.store block table.numActive (List.replicate allocationDelta .empty) with
    | some block => .ok { table with contextArray := block }
    | none => .error .bytes
  else .ok table

/-- The loop that puts the new entry into the first slot whose connection is NULL. -/
def insertLoop (entry : ThreadInfo) : List ThreadInfo → Except Stop (List ThreadInfo)
  | [] => .error .abort
  | slot :: slots =>
    if slot.conn = none then do
      verify (slot.threadHandle = none)
      .ok (entry :: slots)
    else do
      let slots ← insertLoop entry slots
      .ok (slot :: slots)

/-- `fxmy_add_new_connection`, with the entries it releases. -/
def addNewConnection (garbage : Nat → ThreadInfo) (done : Nat → Bool) (table : ConnectionTable)
    (conn : Nat) (threadHandle : Option Nat) : Except Stop (ConnectionTable × List ThreadInfo) := do
  let (slots, numActive, released) ← scanLoop done 0 table.numActive table.contextArray
  let table ← grow garbage ⟨slots, numActive⟩
  let slots ← insertLoop ⟨some conn, threadHandle⟩ table.contextArray
  .ok (⟨slots, table.numActive + 1⟩, released)

end ConnectionTable

end Fxmy
