import Fxmy.Odbc
import Fxmy.String
import Fxmy.Lib.Block

/-!
# Queries (`fxmy_query.c`)
-/

namespace Fxmy

/-! ## Executing a statement -/

/-- `conn->odbc->database_connection_handle`. -/
def databaseHandle (conn : Connection) : Except Stop Handle := do
  let odbc ← Prog.deref conn.odbc
  .ok odbc.databaseConnectionHandle

/-- `fxmy_exec`: the status, and what is stored in `*query_handle`. The records of a failed
execution are asked for with the address of the handle variable. -/
def exec (env : Env) (query : List FxmyChar) : Prog (Option Status × Handle) := do
  let dbc ← Prog.stops (databaseHandle (← get).conn)
  let allocated ← Prog.odbcCall env (.allocHandle .stmt dbc)
  Prog.stops (verifyOdbc env.build allocated .dbc dbc)
  let text ← Prog.text (stringText query)
  let executed ← Prog.odbcCall env (.execDirect allocated.handle text)
  let status ← Prog.stops (verifyAndLogOdbc env.build executed .stmt .addressOf)
  if ← Prog.stops (failed status) then do
    let freed ← Prog.odbcCall env (.freeHandle .stmt allocated.handle)
    Prog.stops (verifyOdbc env.build freed .dbc dbc)
    pure (status, .null)
  else pure (status, allocated.handle)

/-! ## DESCRIBE -/

/-- The text `fxmy_describe` executes: `sp_columns` and the query from its second token on. -/
def describeText (ct : Ctype FxmyChar) (query : List FxmyChar) : Except Fault (List FxmyChar) := do
  let (_, describeEnd) ← fnextToken ct (some query)
  let (tableBegin, _) ← fnextToken ct describeEnd
  let buffer ← strncpy (List.replicate 1024 nul) (cstring "sp_columns ") 1024
  fstrncat buffer 1024 tableBegin

/-- The loop of `fxmy_describe` over the fetched rows: it ends when none is left and breaks into
the debugger at each row. The status it ends with stays in a local variable. -/
def describeRows (env : Env) (queryHandle : Handle) : Nat → Prog PUnit
  | 0 => throw (.text .fuel)
  | fuel + 1 => do
    let fetched ← Prog.odbcCall env (.fetch queryHandle)
    let status ← Prog.stops (verifyAndLogOdbc env.build fetched .stmt queryHandle)
    if ← Prog.stops (emptySet status) then do
      let _ ← Prog.stops (getStatus env.build FXMY_ERROR_UNKNOWN_OBJECT)
      pure ⟨⟩
    else do
      Prog.stops (debugbreak env.build)
      describeRows env queryHandle fuel

/-- `fxmy_describe`. -/
def describe (env : Env) (query : List FxmyChar) : Prog Int := do
  Prog.countAlloc
  let buffer ← Prog.text (describeText env.ctype query)
  let (status, queryHandle) ← exec env buffer
  Prog.setConn fun conn => { conn with status := status }
  if ← Prog.stops (failed status) then do
    Prog.fxmyFree (some buffer)
    pure 0
  else do
    describeRows env queryHandle env.fuel
    let dbc ← Prog.stops (databaseHandle (← get).conn)
    let freed ← Prog.odbcCall env (.freeHandle .stmt queryHandle)
    Prog.stops (verifyOdbc env.build freed .dbc dbc)
    Prog.fxmyFree (some buffer)
    pure 0

/-! ## SHOW TABLES -/

/-- The search of `fxmy_show_tables` for the token behind LIKE, with its end. -/
def likeLoop (ct : Ctype FxmyChar) (token : Option (List FxmyChar)) :
    Nat → Except Fault (Option (List FxmyChar) × Option (List FxmyChar))
  | 0 => .error .fuel
  | fuel + 1 => do
    let (token, tokenEnd) ← fnextToken ct token
    match token, tokenEnd with
    | some start, some stop =>
      if (← fstrnicmp ct token (cstring "LIKE") (start.length - stop.length)) = 0 then
        fnextToken ct tokenEnd
      else likeLoop ct tokenEnd fuel
    | _, _ => .ok (none, none)

/-- The copy of the wildcard: the token and the character behind it. -/
def wildcardCopy (start stop : List FxmyChar) : Except Fault (List FxmyChar) :=
  match Block.load start 0 (start.length - stop.length + 1) with
  | some wildcard => .ok wildcard
  | none => .error .outside

/-- The text `fxmy_show_tables` formats, for the copied wildcard. -/
def showTablesFormat (wildcard : Option (List FxmyChar)) : Except Fault (List FxmyChar) :=
  match wildcard with
  | some wildcard => do
    let w ← stringText wildcard
    .ok (chars "sp_tables @table_owner='dbo', @table_name=" ++ w)
  | none => .ok (chars "sp_tables @table_owner='dbo'")

/-- The wildcard that `fxmy_show_tables` copies, or NULL without LIKE. -/
def copyWildcard (start stop : Option (List FxmyChar)) : Prog (Option (List FxmyChar)) :=
  match start, stop with
  | some start, some stop => do
    Prog.stops (verify (stop.length ≤ start.length))
    Prog.countAlloc
    let wildcard ← Prog.text (wildcardCopy start stop)
    pure (some wildcard)
  | _, _ => pure none

/-- What `fxmy_show_tables` does with the handle: a fetched row breaks into the debugger, and no row
means success. -/
def showTablesRows (env : Env) (queryHandle : Handle) : Prog PUnit :=
  if queryHandle = .null then pure ⟨⟩
  else do
    let fetched ← Prog.odbcCall env (.fetch queryHandle)
    let status ← Prog.stops (verifyAndLogOdbc env.build fetched .stmt queryHandle)
    if ← Prog.stops (emptySet status) then do
      let ok ← Prog.stops (getStatus env.build 0)
      Prog.setConn fun conn => { conn with status := some ok }
    else Prog.stops (debugbreak env.build)

/-- `fxmy_show_tables`. -/
def showTables (env : Env) (query : List FxmyChar) : Prog Int := do
  let (start, stop) ← Prog.text (likeLoop env.ctype (some query) (query.length + 1))
  let wildcard ← copyWildcard start stop
  let formatted ← Prog.text (showTablesFormat wildcard)
  Prog.countAlloc
  let numElements := formatted.length
  let buffer ← Prog.text (snprintf (List.replicate (numElements + 1) nul) numElements formatted)
  let (_, queryHandle) ← exec env buffer
  showTablesRows env queryHandle
  Prog.fxmyFree wildcard
  Prog.fxmyFree (some buffer)
  pure 0

/-! ## LIMIT -/

/-- What the scan of `fxmy_rearrange_limit` has found. -/
structure LimitScan where
  selectBegin : Option (List FxmyChar)
  nextTokenAfterSelect : Option (List FxmyChar)
  limitBegin : Option (List FxmyChar)
  limitEnd : Option (List FxmyChar)

/-- `limit_end - limit_begin`; both are NULL or neither is. -/
def tokenLength (start stop : Option (List FxmyChar)) : Nat :=
  match start, stop with
  | some start, some stop => start.length - stop.length
  | _, _ => 0

/-- Whether `fxmy_fstrnicmp` finds a token equal to a keyword over the token's length. -/
def matchesKeyword (ct : Ctype FxmyChar) (start stop : Option (List FxmyChar)) (keyword : String) :
    Except Fault Bool := do
  let order ← fstrnicmp ct start (cstring keyword) (tokenLength start stop)
  .ok (order = 0)

/-- The test for SELECT: only the first one counts. -/
def matchesSelect (ct : Ctype FxmyChar) (selectBegin start stop : Option (List FxmyChar)) :
    Except Fault Bool :=
  if selectBegin.isNone then matchesKeyword ct start stop "SELECT" else .ok false

/-- The scan of `fxmy_rearrange_limit`. It ends at a token that matches LIMIT, as the NULL behind
the last token does. -/
def limitLoop (ct : Ctype FxmyChar) (selectBegin nextTokenAfterSelect str : Option (List FxmyChar)) :
    Nat → Except Fault LimitScan
  | 0 => .error .fuel
  | fuel + 1 => do
    let (limitBegin, limitEnd) ← fnextToken ct str
    let isSelect ← matchesSelect ct selectBegin limitBegin limitEnd
    let next :=
      if !isSelect && nextTokenAfterSelect.isNone && selectBegin.isSome then limitBegin
      else nextTokenAfterSelect
    let select := if isSelect then limitBegin else selectBegin
    if ← matchesKeyword ct limitBegin limitEnd "LIMIT" then
      .ok ⟨select, next, limitBegin, limitEnd⟩
    else limitLoop ct select next limitEnd fuel

/-- `TOP  `. -/
def top : List FxmyChar := chars "TOP  "

/-- The three moves of `fxmy_rearrange_limit`, each within the block or not done at all: the text
from `next` to the LIMIT goes up over the clause, and `TOP` and the number go in its place. -/
def moveClause (query : List FxmyChar) (next limitBegin shiftWidth : Nat) (number : List FxmyChar) :
    Option (List FxmyChar) := do
  let query ← Block.move query (next + shiftWidth) next (limitBegin - next)
  let query ← Block.store query next top
  Block.store query (next + top.length) (number ++ [C ' '])

/-- `fxmy_rearrange_limit` on the block of the query: what it returns, and the block after it. The
number's own block is left to `translateCounted`. Without a number or without a token behind SELECT
the function does arithmetic on NULL. -/
def rearrangeLimit (ct : Ctype FxmyChar) (query : List FxmyChar) :
    Except Fault (Int × List FxmyChar) := do
  let scan ← limitLoop ct none none (some query) (query.length + 1)
  match scan.limitBegin with
  | none => .ok (1, query)
  | some limitBegin => do
    let (numBegin, numEnd) ← fnextToken ct scan.limitEnd
    match numBegin, numEnd, scan.nextTokenAfterSelect with
    | some numBegin, some numEnd, some next =>
      let number := numBegin.take (numBegin.length - numEnd.length)
      let shiftWidth := limitBegin.length - numEnd.length
      match moveClause query (Block.offset query next) (Block.offset query limitBegin) shiftWidth
          number with
      | some moved => .ok (0, moved)
      | none => .error .outside
    | _, _, _ => .error .wild

/-! ## Dispatch -/

/-- The branches of `fxmy_handle_query`. -/
inductive Branch where
  | setNames
  | describe
  | showTables
  | statement
  deriving DecidableEq, Repr

/-- `fxmy_fstristr(wide_query, C("...")) != NULL`. -/
def mentions (ct : Ctype FxmyChar) (wideQuery : List FxmyChar) (needle : String) :
    Except Fault Bool := do
  let found ← fstristr ct (some wideQuery) (some (cstring needle))
  .ok found.isSome

/-- The branch `fxmy_handle_query` takes. -/
def queryBranch (ct : Ctype FxmyChar) (wideQuery : List FxmyChar) : Except Fault Branch := do
  if ← mentions ct wideQuery "SET NAMES" then .ok .setNames
  else if ← mentions ct wideQuery "DESCRIBE" then .ok .describe
  else if ← mentions ct wideQuery "SHOW TABLES" then .ok .showTables
  else .ok .statement

/-- The block that is executed for a general statement, or `none` where its LIMIT is refused. -/
def translate (ct : Ctype FxmyChar) (wideQuery : List FxmyChar) :
    Except Fault (Option (List FxmyChar)) := do
  if ← mentions ct wideQuery "LIMIT " then do
    let (refused, moved) ← rearrangeLimit ct wideQuery
    .ok (if refused ≠ 0 then none else some moved)
  else .ok (some wideQuery)

/-- `translate` with the block of `fxmy_rearrange_limit` for the number: behind the early return it is
allocated, and at the end freed. -/
def translateCounted (ct : Ctype FxmyChar) (wideQuery : List FxmyChar) :
    Prog (Option (List FxmyChar)) := do
  if ← Prog.text (mentions ct wideQuery "LIMIT ") then do
    let (refused, moved) ← Prog.text (rearrangeLimit ct wideQuery)
    if refused ≠ 0 then pure none
    else do
      Prog.countAlloc
      Prog.fxmyFree (some moved)
      pure (some moved)
  else pure (some wideQuery)

open Exec in
/-- The block for the number is freed again. -/
theorem translateCounted_eq (ct : Ctype FxmyChar) (wideQuery : List FxmyChar) :
    translateCounted ct wideQuery = Prog.text (translate ct wideQuery) := by
  funext w
  unfold translateCounted translate
  cases mentions ct wideQuery "LIMIT " with
  | error e => rfl
  | ok b =>
    cases b with
    | false => rfl
    | true =>
      rw [bind_lift_ok, except_bind_ok, if_pos rfl, if_pos rfl]
      cases rearrangeLimit ct wideQuery with
      | error e => rfl
      | ok result =>
        rw [bind_lift_ok, except_bind_ok]
        simp only
        by_cases hrefused : result.1 ≠ 0
        · rw [if_pos hrefused, if_pos hrefused]
          rfl
        · rw [if_neg hrefused, if_neg hrefused, bind_modify, Prog.bind_fxmyFree]
          simp only [Option.isSome_some, if_true, Int.add_sub_cancel]
          rfl

/-- What the general branch does with the status of the execution: only an error is kept. -/
def statementStatus (env : Env) (status : Option Status) : Prog PUnit := do
  if ← Prog.stops (failed status) then Prog.setConn fun conn => { conn with status := status }
  else Prog.stops (debugbreak env.build)

/-- The general branch of `fxmy_handle_query`, from the statement handle on. -/
def execStatement (env : Env) (wideQuery : List FxmyChar) : Prog Int := do
  let dbc ← Prog.stops (databaseHandle (← get).conn)
  let allocated ← Prog.odbcCall env (.allocHandle .stmt dbc)
  Prog.stops (verifyOdbc env.build allocated .dbc dbc)
  let text ← Prog.text (stringText wideQuery)
  let executed ← Prog.odbcCall env (.execDirect allocated.handle text)
  let status ← Prog.stops (verifyAndLogOdbc env.build executed .stmt allocated.handle)
  statementStatus env status
  let freed ← Prog.odbcCall env (.freeHandle .stmt allocated.handle)
  Prog.stops (verifyOdbc env.build freed .dbc dbc)
  Prog.fxmyFree (some wideQuery)
  pure 0

/-- `fxmy_handle_query` behind the decoding of the query. -/
def handleWideQuery (env : Env) (wideQuery : List FxmyChar) : Prog Int := do
  match ← Prog.text (queryBranch env.ctype wideQuery) with
  | .setNames => do
    Prog.stops (verify (← Prog.text (mentions env.ctype wideQuery "utf8")))
    pure 0
  | .describe => describe env wideQuery
  | .showTables => showTables env wideQuery
  | .statement => do
    match ← translateCounted env.ctype wideQuery with
    | none => do
      let refused ← Prog.stops (getStatus env.build FXMY_ERROR_DEFAULT)
      Prog.setConn fun conn => { conn with status := some refused }
      pure 0
    | some statement => execStatement env statement

/-- The decoded query: `wide_query` after its terminator is written. -/
def decodeQuery (build : Build) (query : List UInt8) (queryNumBytes : Nat) :
    Except Stop (List FxmyChar) := do
  let wideQuery ← fstrfromchar build (List.replicate (queryNumBytes + 1) nul) query queryNumBytes
  .ok (wideQuery.set queryNumBytes nul)

/-- `fxmy_handle_query`. -/
def handleQuery (env : Env) (query : List UInt8) (queryNumBytes : Nat) : Prog Int := do
  Prog.countAlloc
  let wideQuery ← Prog.stops (decodeQuery env.build query queryNumBytes)
  handleWideQuery env wideQuery

end Fxmy
