import Fxmy.Verify.Asking

/-!
# Blocks and handles of a query

`fxmy_handle_query` frees the block of the query behind the general statement only. Setting names,
DESCRIBE, SHOW TABLES and a refused LIMIT return before, so that only a statement that is executed
leaves nothing behind (`handleQuery_balanced_iff`).
-/

namespace Fxmy

open Exec

/-- The statement handles that were given out. -/
def allocated (talk : Talk) : List Handle :=
  talk.filterMap fun (call, reply) =>
    match call with
    | .allocHandle .stmt _ => if reply.Failed then none else some reply.handle
    | _ => none

/-- The handles that were freed as statement handles. -/
def released (talk : Talk) : List Handle :=
  talk.filterMap fun (call, _) =>
    match call with
    | .freeHandle .stmt handle => some handle
    | _ => none

/-- Between `w` and `w'` as many blocks were freed as allocated, and each statement handle that was
given out was freed once. -/
structure Balanced (env : Env) (w w' : World) : Prop where
  blocks : w'.numAllocations = w.numAllocations
  handles : ∀ handle ∈ allocated (asked env w w'), (released (asked env w w')).count handle = 1

/-- The query is a general statement, and its LIMIT, if it has one, is not refused. -/
def Executes (env : Env) (wideQuery : List FxmyChar) : Prop :=
  queryBranch env.ctype wideQuery = .ok .statement ∧
    ∃ statement, translate env.ctype wideQuery = .ok (some statement)

/-- A statement that is executed and freed. -/
theorem balanced_statement {env : Env} {w w' : World} {dbc : Handle} {text : List FxmyChar}
    {freed : OdbcReply} (h : Asks env w (statementTalk env w.calls dbc text ++
      [(.freeHandle .stmt (statementHandle env w.calls dbc), freed)]) 0 w') : Balanced env w w' := by
  refine ⟨by rw [h.blocks, Int.add_zero], ?_⟩
  have hreleased : released (asked env w w') = [statementHandle env w.calls dbc] := by
    rw [h.asked_eq]
    rfl
  have hallocated : ∀ handle ∈ allocated (asked env w w'),
      handle = statementHandle env w.calls dbc := by
    rw [h.asked_eq]
    intro handle hmem
    simp only [allocated, statementTalk, List.cons_append, List.nil_append, List.mem_filterMap,
      List.mem_cons, List.not_mem_nil, or_false] at hmem
    obtain ⟨x, rfl | rfl | rfl, hx⟩ := hmem
    · simp only at hx
      split at hx
      · cases hx
      · cases hx
        rfl
    · cases hx
    · cases hx
  intro handle hmem
  rw [hreleased, hallocated handle hmem, List.count_singleton_self]

section

variable {env : Env} {w w' : World} {rv : Int}

/-- The block of the query is freed exactly if it is executed. -/
theorem handleWideQuery_asks {wideQuery : List FxmyChar}
    (h : handleWideQuery env wideQuery w = .ok rv w') :
    Executes env wideQuery ∧ (∃ dbc text freed, Asks env w (statementTalk env w.calls dbc text ++
        [(.freeHandle .stmt (statementHandle env w.calls dbc), freed)]) (-1) w') ∨
      ¬ Executes env wideQuery ∧ ∃ talk, Asks env w talk 0 w' := by
  obtain ⟨branch, hbranch, hcases⟩ := handleWideQuery_returns h
  have hother : branch ≠ .statement → ¬ Executes env wideQuery := by
    rintro hne ⟨hstatement, -⟩
    rw [hbranch] at hstatement
    cases hstatement
    exact hne rfl
  rcases hcases with ⟨rfl, -, rfl⟩ | ⟨rfl, h⟩ | ⟨rfl, h⟩ | ⟨-, hrefused, -, rfl⟩ |
    ⟨rfl, statement, htranslate, h⟩
  · exact .inr ⟨hother nofun, [], .nil _, (Int.add_zero _).symm⟩
  · obtain ⟨dbc, text, rest, hasks, -⟩ := describe_asks h
    exact .inr ⟨hother nofun, _, hasks⟩
  · obtain ⟨buffer, dbc, text, rest, -, -, -, -, hasks, -⟩ := showTables_asks h
    exact .inr ⟨hother nofun, _, hasks⟩
  · refine .inr ⟨?_, [], .nil _, (Int.add_zero _).symm⟩
    rintro ⟨-, statement, hsome⟩
    rw [hrefused] at hsome
    cases hsome
  · exact .inl ⟨⟨hbranch, statement, htranslate⟩, execStatement_asks h⟩

/-- **A query leaves nothing behind** exactly if it is a general statement that is executed. -/
theorem handleQuery_balanced_iff {query : List UInt8} {size : Nat}
    (h : handleQuery env query size w = .ok rv w') : Balanced env w w' ↔
      ∃ wideQuery, decodeQuery env.build query size = .ok wideQuery ∧ Executes env wideQuery := by
  obtain ⟨wideQuery, hdecoded, hwide⟩ := handleQuery_returns h
  have hblock := asks_nothing env w 1
  rw [hdecoded]
  simp only [Except.ok.injEq, exists_eq_left']
  rcases handleWideQuery_asks hwide with ⟨hexecutes, dbc, text, freed, hasks⟩ | ⟨hnot, talk, hasks⟩
  · exact iff_of_true (balanced_statement (hblock.append hasks)) hexecutes
  · refine iff_of_false (fun hbalanced => ?_) hnot
    have hblocks := (hblock.append hasks).blocks
    rw [hbalanced.blocks] at hblocks
    omega

end

/-- The connection of a worker that has its ODBC handles. -/
def World.connected : World :=
  { World.fresh [] [] with conn := { Connection.fresh [] with odbc := some ⟨.given 1, .given 2⟩ } }

/-- A driver that knows no object. -/
def unknownObject (calls : List OdbcCall) (call : OdbcCall) : OdbcReply :=
  match call with
  | .execDirect _ _ => ⟨-1, .null, fun _ _ => [208]⟩
  | _ => obliging calls call

/-- The statement `x` leaves nothing behind. -/
theorem unknown_object_balanced : ∃ w',
    handleQuery (.benign unknownObject) [0x78, 0] 1 .connected = .ok 0 w' ∧
      Balanced (.benign unknownObject) .connected w' := by
  obtain ⟨w', h⟩ : ∃ w', handleQuery (.benign unknownObject) [0x78, 0] 1 .connected = .ok 0 w' :=
    value_eq_some.mp (by decide +kernel)
  exact ⟨w', h, (handleQuery_balanced_iff h).mpr ⟨chars "x" ++ [nul], rfl, rfl, _, rfl⟩⟩

/-- `SET NAMES utf8` leaves its text behind. -/
theorem set_names_unbalanced : ∃ w',
    handleQuery (.benign obliging) (chars "SET NAMES utf8" ++ [0]) 14 .connected = .ok 0 w' ∧
      ¬ Balanced (.benign obliging) .connected w' := by
  obtain ⟨w', h⟩ : ∃ w', handleQuery (.benign obliging) (chars "SET NAMES utf8" ++ [0]) 14 .connected =
      .ok 0 w' := value_eq_some.mp (by decide +kernel)
  have hblocks : (final (handleQuery (.benign obliging) (chars "SET NAMES utf8" ++ [0]) 14
      .connected)).numAllocations = 1 := by decide +kernel
  rw [h] at hblocks
  refine ⟨w', h, fun hbalanced => ?_⟩
  have hnone := hblocks.symm.trans hbalanced.blocks
  cases hnone

end Fxmy
