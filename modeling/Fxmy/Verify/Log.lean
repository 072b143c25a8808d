import Fxmy.Log

/-!
# The files of the log

`fxmy_set_log_file` closes the file in front of it, and so it must not be called while there is none:
before anything is logged, and after a file that could not be opened (`run_files`).
-/

namespace Fxmy

open Exec

namespace Log

/-- Whether there is a file behind the call. -/
def leavesFile (file : Bool) : LogCall → Bool
  | .setVerbosityThreshold _ => file
  | .setLogFile opens => opens
  | .log _ _ => true
  | .wlog _ _ => true

/-- Whether there is a file behind the calls: something has been logged or opened, and no file has
failed to open since. -/
def hasFile (calls : List LogCall) : Bool := calls.foldl leavesFile false

/-- The file that is to be closed. -/
def inUse (s : Log) : List LogFile := s.logFile.toList.filter (· ≠ .stderr)

/-- Each file that was opened has been closed once, in order, but for the one in use, and there is a
file if and only if `file` says so. -/
structure Keeps (file : Bool) (s : Log) : Prop where
  isSome : s.logFile.isSome = file
  closed : s.closed ++ s.inUse = (List.range s.numOpened).map .opened

variable {s s' : Log} {file : Bool}

theorem keeps_initial : Keeps false initial := ⟨rfl, rfl⟩

/-- Neither of the standard files is closed by the log, nor is `stdout` in use. -/
theorem Keeps.opened_of_mem (h : Keeps file s) {f : LogFile} (hmem : f ∈ s.closed ++ s.inUse) :
    ∃ n, f = .opened n := by
  rw [h.closed] at hmem
  obtain ⟨n, -, hn⟩ := List.mem_map.mp hmem
  exact ⟨n, hn.symm⟩

theorem Keeps.not_stdout (h : Keeps file s) : s.logFile ≠ some .stdout := by
  intro hstdout
  have hmem : .stdout ∈ s.inUse := by simp [inUse, hstdout]
  obtain ⟨n, hn⟩ := h.opened_of_mem (List.mem_append_right _ hmem)
  cases hn

/-- The file that a text goes to is open. -/
theorem Keeps.not_closed (h : Keeps file s) {f : LogFile} (hfile : s.logFile = some f) :
    f ∉ s.closed := by
  intro hclosed
  obtain ⟨n, rfl⟩ := h.opened_of_mem (List.mem_append_left _ hclosed)
  have hinUse : .opened n ∈ s.inUse := by simp [inUse, hfile]
  have hnodup : ((List.range s.numOpened).map LogFile.opened).Nodup :=
    List.Pairwise.map _ (fun _ _ hne heq => hne (LogFile.opened.inj heq)) List.nodup_range
  rw [← h.closed, List.nodup_append] at hnodup
  obtain ⟨-, -, hdisjoint⟩ := hnodup
  exact hdisjoint _ hclosed _ hinUse rfl

theorem Keeps.fopen (h : s.closed = (List.range s.numOpened).map .opened) (opens : Bool) :
    Keeps opens (fopen opens s) := by
  cases opens with
  | false => exact ⟨rfl, by simpa [inUse, Log.fopen] using h⟩
  | true =>
    refine ⟨rfl, ?_⟩
    simp [inUse, Log.fopen, h, List.range_succ]

/-- The file in front is closed, if there is one that `fopen` has opened. -/
theorem Keeps.setLogFile (h : Keeps file s) (opens : Bool) :
    (file = false ∧ s.setLogFile opens = .error .null) ∨
      (file = true ∧ ∃ s', s.setLogFile opens = .ok s' ∧ Keeps opens s') := by
  have hstdout := h.not_stdout
  obtain ⟨hsome, hclosed⟩ := h
  unfold Log.setLogFile
  cases hfile : s.logFile with
  | none =>
    rw [hfile] at hsome
    exact .inl ⟨hsome.symm, rfl⟩
  | some f =>
    rw [hfile] at hsome
    refine .inr ⟨hsome.symm, ?_⟩
    cases f with
    | stderr =>
      have hall : s.closed = (List.range s.numOpened).map .opened := by
        simpa [inUse, hfile] using hclosed
      exact ⟨_, rfl, Keeps.fopen hall opens⟩
    | stdout => exact absurd hfile hstdout
    | opened n =>
      have hall : s.closed ++ [.opened n] = (List.range s.numOpened).map .opened := by
        simpa [inUse, hfile] using hclosed
      exact ⟨_, rfl, Keeps.fopen (s := { s with closed := s.closed ++ [.opened n] }) hall opens⟩

/-- Where nothing is to be printed to, the text goes to `stderr`. -/
theorem Keeps.write (h : Keeps file s) (logLevel : LogLevel) (text : LogText) :
    Keeps true (write logLevel text s) := by
  have hinUse : ∀ f, s.logFile = f → (some (f.getD .stderr)).toList.filter (· ≠ .stderr) =
      s.inUse := by
    rintro f rfl
    unfold inUse
    cases s.logFile <;> rfl
  have hclosed := h.closed
  rw [← hinUse _ rfl] at hclosed
  unfold Log.write
  simp only
  split
  · exact ⟨rfl, hclosed⟩
  · exact ⟨rfl, hclosed⟩

/-- One call: it fails if it is to close a file and there is none. -/
theorem Keeps.step (h : Keeps file s) (call : LogCall) :
    (file = false ∧ (∃ opens, call = .setLogFile opens) ∧ s.step call = .error .null) ∨
      ((file = true ∨ ∀ opens, call ≠ .setLogFile opens) ∧
        ∃ s', s.step call = .ok s' ∧ Keeps (leavesFile file call) s') := by
  cases call with
  | setVerbosityThreshold threshold =>
    exact .inr ⟨.inr nofun, _, rfl, h.isSome, h.closed⟩
  | setLogFile opens =>
    rcases h.setLogFile opens with ⟨hnone, herror⟩ | ⟨hsome, s', hok, hkeeps⟩
    · exact .inl ⟨hnone, ⟨opens, rfl⟩, herror⟩
    · exact .inr ⟨.inl hsome, s', hok, hkeeps⟩
  | log logLevel text => exact .inr ⟨.inr nofun, _, rfl, h.write logLevel _⟩
  | wlog logLevel text => exact .inr ⟨.inr nofun, _, rfl, h.write logLevel _⟩

/-- There is a file in front of each call that closes one. -/
def Covered (file : Bool) (calls : List LogCall) : Prop :=
  ∀ before opens after, calls = before ++ .setLogFile opens :: after →
    before.foldl leavesFile file = true

theorem covered_cons {call : LogCall} {calls : List LogCall} : Covered file (call :: calls) ↔
    (file = true ∨ ∀ opens, call ≠ .setLogFile opens) ∧ Covered (leavesFile file call) calls := by
  constructor
  · intro h
    constructor
    · by_cases hcall : ∃ opens, call = .setLogFile opens
      · obtain ⟨opens, rfl⟩ := hcall
        exact .inl (h [] opens calls rfl)
      · exact .inr fun opens heq => hcall ⟨opens, heq⟩
    · intro before opens after heq
      exact h (call :: before) opens after (by rw [heq, List.cons_append])
  · rintro ⟨hfirst, hrest⟩ before opens after heq
    cases before with
    | nil =>
      obtain ⟨rfl, rfl⟩ := List.cons.inj heq
      rcases hfirst with hfile | hne
      · exact hfile
      · exact absurd rfl (hne opens)
    | cons call' before =>
      obtain ⟨rfl, htail⟩ := List.cons.inj heq
      exact hrest before opens after htail

/-- The calls from a state on. -/
theorem Keeps.run (h : Keeps file s) (calls : List LogCall) :
    (Covered file calls ∧ ∃ s', Machine.run Log.step s calls = .ok s' ∧
        Keeps (calls.foldl leavesFile file) s') ∨
      (¬ Covered file calls ∧ Machine.run Log.step s calls = .error .null) := by
  induction calls generalizing s file with
  | nil =>
    refine .inl ⟨fun before _ _ heq => ?_, s, rfl, h⟩
    cases before <;> cases heq
  | cons call calls ih =>
    rw [covered_cons, Machine.run]
    rcases h.step call with ⟨hnone, ⟨opens, rfl⟩, herror⟩ | ⟨hcovered, s₁, hok, hkeeps⟩
    · refine .inr ⟨?_, by rw [herror]; rfl⟩
      rintro ⟨hfile | hne, -⟩
      · rw [hnone] at hfile
        cases hfile
      · exact hne opens rfl
    · rw [hok, except_bind_ok]
      rcases ih hkeeps with ⟨hrest, s', hrun, hend⟩ | ⟨hrest, hrun⟩
      · exact .inl ⟨⟨hcovered, hrest⟩, s', hrun, hend⟩
      · exact .inr ⟨fun hboth => hrest hboth.2, hrun⟩

/-- **The files of the log**: a list of calls comes to its end exactly if each call that closes a file
has one in front of it, something logged or a file opened and none that failed to open since; and then
each file that was opened has been closed once, in order, but for the one in use, and the file that the
next text goes to is open. -/
theorem run_files (calls : List LogCall) :
    ((∃ s, run calls = .ok s) ↔ ∀ before opens after,
        calls = before ++ .setLogFile opens :: after → hasFile before = true) ∧
      ∀ s, run calls = .ok s → s.closed ++ s.inUse = (List.range s.numOpened).map .opened ∧
        ∀ file, s.logFile = some file → file ∉ s.closed := by
  rcases keeps_initial.run calls with ⟨hcovered, s, hrun, hkeeps⟩ | ⟨hnot, herror⟩
  · refine ⟨iff_of_true ⟨s, hrun⟩ hcovered, fun s' hrun' => ?_⟩
    have hsame : Except.ok s = Except.ok s' := hrun.symm.trans hrun'
    cases hsame
    exact ⟨hkeeps.closed, fun _ => hkeeps.not_closed⟩
  · refine ⟨iff_of_false ?_ hnot, fun s' hrun => ?_⟩
    · rintro ⟨s, hrun⟩
      cases herror.symm.trans hrun
    · cases herror.symm.trans hrun

end Log

end Fxmy
