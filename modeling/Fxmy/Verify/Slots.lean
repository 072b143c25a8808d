import Fxmy.Verify.ConnectionTable

/-!
# What the connection table holds

Whatever the scan of a call leaves undone, the table loses nothing: the connections that have come
in are those freed so far and those in the slots (`runAll_keeps`), each freed under its flag, and a
run stops nowhere but at the NULL of an empty slot (`runAll_error`).
-/

namespace Fxmy

namespace ConnectionTable

/-- The entry that a call puts into the table. -/
def Call.entry (call : Call) : ThreadInfo := ⟨some call.conn, call.threadHandle⟩

/-- The calls in order, with the entries freed so far. -/
def runAll (table : ConnectionTable) (freed : List ThreadInfo) :
    List Call → Except Stop (ConnectionTable × List ThreadInfo)
  | [] => .ok (table, freed)
  | call :: calls => do
    let (table, released) ← call.run table
    runAll table (freed ++ released) calls

/-- The connection that a call brings is not in the table: the heap does not give out a block that is
in use. -/
def Fresh (table : ConnectionTable) (call : Call) : Prop :=
  some call.conn ∉ table.connections.map (·.conn)

/-! ## One call -/

/-- **What a call does** to the connections: it frees flagged ones and adds its own. -/
theorem Valid.run_keeps {call : Call} {table after : ConnectionTable} {released : List ThreadInfo}
    (h : Valid table) (hrun : call.run table = .ok (after, released)) :
    (∀ slot ∈ released, slot.flagged call.done = true) ∧
      ∃ kept, table.connections.Perm (released ++ kept) ∧
        after.connections.Perm (call.entry :: kept) := by
  obtain ⟨⟨slots, n, r⟩, hscan, -⟩ := Exec.except_bind_eq_ok.mp hrun
  obtain ⟨after', hrun', -, hadded⟩ := add_of_scanLoop hscan (valid_of_scanLoop h hscan)
  rw [hrun] at hrun'
  cases hrun'
  obtain ⟨-, hperm, -, hflagged⟩ := scanLoop_ok hscan
  exact ⟨hflagged, slots.filter (·.occupied), hperm, hadded⟩

/-- The memory that is cleared when the array grows lies behind the slots of the scan. -/
theorem Valid.grow_keeps {call : Call} {table after : ConnectionTable} {released : List ThreadInfo}
    (h : Valid table) (hrun : call.run table = .ok (after, released)) :
    ∃ slots n grown, scanLoop call.done 0 table.numActive table.contextArray =
        .ok (slots, n, released) ∧
      grow call.garbage ⟨slots, n⟩ = .ok grown ∧ slots <+: grown.contextArray := by
  obtain ⟨⟨slots, n, r⟩, hscan, hrest⟩ := Exec.except_bind_eq_ok.mp hrun
  have hvalid := valid_of_scanLoop h hscan
  obtain ⟨after', hrun', -, -⟩ := add_of_scanLoop hscan hvalid
  rw [hrun] at hrun'
  cases hrun'
  obtain ⟨fresh, -, hgrow, -⟩ := grow_eq call.garbage hvalid
  exact ⟨slots, n, _, hscan, hgrow, List.prefix_append _ _⟩

theorem Valid.run_error {call : Call} {table : ConnectionTable} {e : Stop} (h : Valid table)
    (hrun : call.run table = .error e) : e = .null := by
  have hle : table.connections.length ≤ table.contextArray.length := List.length_filter_le _ _
  have hcount := h.count
  cases hscan : scanLoop call.done 0 table.numActive table.contextArray with
  | error e' =>
    unfold Call.run addNewConnection at hrun
    rw [hscan] at hrun
    cases hrun
    exact scanLoop_error hscan (by omega)
  | ok result =>
    obtain ⟨slots, n, released⟩ := result
    obtain ⟨after, hok, -⟩ := add_of_scanLoop hscan (valid_of_scanLoop h hscan)
    rw [hrun] at hok
    cases hok

/-- No connection is in two slots. -/
theorem Valid.run_nodup {call : Call} {table after : ConnectionTable} {released : List ThreadInfo}
    (h : Valid table) (hrun : call.run table = .ok (after, released)) (hfresh : Fresh table call)
    (hnodup : (table.connections.map (·.conn)).Nodup) : (after.connections.map (·.conn)).Nodup := by
  obtain ⟨-, kept, hkept, hafter⟩ := h.run_keeps hrun
  have hconns := hkept.map (·.conn)
  rw [List.map_append] at hconns
  have hsplit := hconns.nodup_iff.mp hnodup
  rw [(hafter.map (·.conn)).nodup_iff, List.map_cons, List.nodup_cons]
  refine ⟨fun hmem => hfresh ?_, (List.nodup_append.mp hsplit).2.1⟩
  rw [hconns.mem_iff]
  exact List.mem_append_right _ hmem

/-! ## Runs -/

/-- The invariant of a run, for the entries that have been `added`. -/
structure Ledger (added freed : List ThreadInfo) (table : ConnectionTable) : Prop where
  valid : Valid table
  all : added.Perm (freed ++ table.connections)

theorem ledger_initial : Ledger [] [] initial := ⟨valid_initial, .refl _⟩

theorem Ledger.run {added freed : List ThreadInfo} {call : Call} {table after : ConnectionTable}
    {released : List ThreadInfo} (h : Ledger added freed table)
    (hrun : call.run table = .ok (after, released)) :
    Ledger (added ++ [call.entry]) (freed ++ released) after := by
  obtain ⟨-, kept, hkept, hafter⟩ := h.valid.run_keeps hrun
  refine ⟨h.valid.run hrun, ?_⟩
  have hadded := (h.all.trans (hkept.append_left freed)).append_right [call.entry]
  refine hadded.trans ?_
  simp only [List.append_assoc]
  apply List.Perm.append_left
  apply List.Perm.append_left
  exact (List.perm_append_singleton call.entry kept).trans hafter.symm

theorem runAll_keeps {calls : List Call} {added freed freed' : List ThreadInfo}
    {table last : ConnectionTable} (h : Ledger added freed table)
    (hrun : runAll table freed calls = .ok (last, freed')) :
    Ledger (added ++ calls.map Call.entry) freed' last := by
  induction calls generalizing added freed table with
  | nil =>
    cases hrun
    simpa using h
  | cons call calls ih =>
    obtain ⟨⟨after, released⟩, hcall, hrun⟩ := Exec.except_bind_eq_ok.mp hrun
    have := ih (h.run hcall) hrun
    rwa [List.append_assoc] at this

theorem runAll_error {calls : List Call} {freed : List ThreadInfo} {table : ConnectionTable}
    {e : Stop} (h : Valid table) (hrun : runAll table freed calls = .error e) : e = .null := by
  induction calls generalizing freed table with
  | nil => cases hrun
  | cons call calls ih =>
    rcases Exec.except_bind_eq_error.mp hrun with hcall | ⟨⟨after, released⟩, hcall, hrun⟩
    · exact h.run_error hcall
    · exact ih (h.run hcall) hrun

theorem runAll_nodup {calls : List Call} {freed freed' : List ThreadInfo}
    {table last : ConnectionTable} (h : Valid table) (hfresh : AllCalls Fresh table calls)
    (hnodup : (table.connections.map (·.conn)).Nodup)
    (hrun : runAll table freed calls = .ok (last, freed')) :
    (last.connections.map (·.conn)).Nodup := by
  induction calls generalizing freed table with
  | nil =>
    cases hrun
    exact hnodup
  | cons call calls ih =>
    obtain ⟨⟨after, released⟩, hcall, hrun⟩ := Exec.except_bind_eq_ok.mp hrun
    exact ih (h.run hcall) (hfresh.2 after released hcall) (h.run_nodup hcall hfresh.1 hnodup) hrun

/-- **The table in every run**: it stops only at the NULL of an empty slot. Up to there the count is
right, the connections that came in are those freed and those in the slots, none of these in two
slots, and a further call frees flagged connections only and clears no slot that is in use. -/
theorem runAll_safe (calls : List Call) :
    (∀ e, runAll initial [] calls = .error e → e = .null) ∧
      ∀ table freed, runAll initial [] calls = .ok (table, freed) →
        table.numActive = table.connections.length ∧
        (calls.map Call.entry).Perm (freed ++ table.connections) ∧
        (AllCalls Fresh initial calls → (table.connections.map (·.conn)).Nodup) ∧
        ∀ (call : Call) after released, call.run table = .ok (after, released) →
          (∀ slot ∈ released, slot.flagged call.done = true) ∧
          (∃ kept, table.connections.Perm (released ++ kept) ∧
            after.connections.Perm (call.entry :: kept)) ∧
          ∃ slots n grown, scanLoop call.done 0 table.numActive table.contextArray =
              .ok (slots, n, released) ∧
            grow call.garbage ⟨slots, n⟩ = .ok grown ∧ slots <+: grown.contextArray := by
  refine ⟨fun e => runAll_error valid_initial, fun table freed hrun => ?_⟩
  have hledger := runAll_keeps ledger_initial hrun
  refine ⟨hledger.valid.count, hledger.all, fun hfresh => ?_, fun call after released hcall => ?_⟩
  · exact runAll_nodup valid_initial hfresh List.nodup_nil hrun
  · obtain ⟨hflagged, hkept⟩ := hledger.valid.run_keeps hcall
    exact ⟨hflagged, hkept, hledger.valid.grow_keeps hcall⟩

end ConnectionTable

end Fxmy
