import Fxmy.Verify.ServerWin
import Fxmy.Verify.Slots
import Mathlib.Data.List.Forall2

/-!
# A call takes effect at once

While `fxmy_add_new_connection` scans, threads set flags before and behind the slot it is at. What it
does is nevertheless what it would do at one moment, with flags that lie between those at its start and
those at its end (`run_atomic`), call by call, so that what holds of every sequence of calls holds of the
server.
-/

namespace Fxmy

open Exec ConnectionTable

namespace Server

/-- The `done` flag of a connection that is allocated. -/
def flag (server : Server) (conn : Nat) : Bool := (server.heap conn).any (·.done)

/-- The flag was set when the call began; or it is now, or was, and the connection is freed. -/
def Set (server : Server) (conn : Nat) : Prop := server.flag conn = true ∨ server.heap conn = none

/-! ## The calls of a run -/

/-- `fxmy_add_new_connection` is called. -/
def begins (server after : Server) : Bool :=
  match server.main, after.main with
  | .creating _, .scanning _ _ => true
  | _, _ => false

/-- It returns. -/
def returns (server after : Server) : Bool :=
  match server.main, after.main with
  | .scanning _ _, .accepting => true
  | _, _ => false

/-- The starts of the calls in a run, each by the actions up to it. -/
def starts (startup : Startup) (actions : List Action) : List (List Action) :=
  Machine.moments (step startup) begins initial actions

/-- Their ends. -/
def ends (startup : Startup) (actions : List Action) : List (List Action) :=
  Machine.moments (step startup) returns initial actions

/-- `main` is within the call that puts the entry in. -/
def Adding (entry : ThreadInfo) : MainAt → Prop
  | .scanning _ e => e = entry
  | .joining _ _ e => e = entry
  | _ => False

/-- The call is made between the actions `first` and `last`: `main` is in it all the while, and the
flags that it finds set are those at its start and others that are by its end. -/
structure Made (startup : Startup) (first last : List Action) (call : Call) : Prop where
  le : first <+: last
  within : ∀ between server, first <+: between → between <+: last → between ≠ last →
    run startup between = .ok server → Adding call.entry server.main
  exists_states : ∃ before after, run startup first = .ok before ∧ run startup last = .ok after ∧
    before.main = .scanning 0 call.entry ∧
    (∀ conn, before.flag conn = true → call.done conn = true) ∧
    ∀ conn, call.done conn = true → after.Set conn

theorem runAll_append (table : ConnectionTable) (freed : List ThreadInfo) (calls later : List Call) :
    runAll table freed (calls ++ later) =
      (runAll table freed calls >>= fun result => runAll result.1 result.2 later) := by
  induction calls generalizing table freed with
  | nil => rfl
  | cons call calls ih =>
    rw [List.cons_append, runAll, runAll]
    cases call.run table with
    | error e => rfl
    | ok result => exact ih result.1 (freed ++ result.2)

/-! ## One call -/

/-- The call that began at `before`, where the table was `table`, has come to slot `i` and found the
flags `done` at the connections `read`. Whatever the flags behind the slot are, the rest of the scan is
that of the call made at once. -/
structure During (server before : Server) (i : Nat) (done : Nat → Bool) (read : List Nat) : Prop where
  released : ∃ released, server.freed = before.freed ++ released ∧
    ∀ done', (∀ conn ∈ read, done' conn = done conn) →
      scanLoop done' 0 before.table.numActive before.table.contextArray =
        (scanLoop done' i server.table.numActive (server.table.contextArray.drop i)).map
          fun result => (server.table.contextArray.take i ++ result.1, result.2.1,
            released ++ result.2.2)
  /-- A connection that has been looked at is before the slot, or freed. -/
  behind : ∀ conn ∈ read, some conn ∈ (server.table.contextArray.take i).map (·.conn) ∨
    server.heap conn = none
  /-- Flags are only set. -/
  early : ∀ conn, before.flag conn = true → done conn = true
  late : ∀ conn, done conn = true → server.Set conn

variable {startup : Startup} {server after before : Server} {i conn : Nat} {done : Nat → Bool}
  {read : List Nat}

/-- What the workers do does not disturb the scan. -/
theorem During.frame (h : During server before i done read) (htable : after.table = server.table)
    (hfreed : after.freed = server.freed)
    (hnone : ∀ conn, server.heap conn = none → after.heap conn = none)
    (hflag : ∀ conn, server.flag conn = true → after.flag conn = true) :
    During after before i done read where
  released := by
    rw [htable, hfreed]
    exact h.released
  behind := by
    rw [htable]
    exact fun conn hread => (h.behind conn hread).imp_right (hnone conn)
  early := h.early
  late := fun conn hdone => (h.late conn hdone).imp (hflag conn) (hnone conn)

/-- A call begins. -/
theorem during_start (server : Server) : During server server 0 server.flag [] where
  released := by
    refine ⟨[], (List.append_nil _).symm, fun done' _ => ?_⟩
    simp only [List.drop_zero, List.take_zero, List.nil_append]
    cases scanLoop done' 0 server.table.numActive server.table.contextArray <;> rfl
  behind := fun _ hread => nomatch hread
  early := fun _ hflag => hflag
  late := fun _ hflag => .inl hflag

/-- The connection in the slot has not been looked at before. -/
theorem During.not_read (h : During server before i done read) (hsound : Sound startup server)
    {handle : Option Nat} (hslot : server.table.contextArray[i]? = some ⟨some conn, handle⟩) :
    conn ∉ read := by
  intro hread
  obtain ⟨conn', record, hconn, hrecord⟩ := (hsound.backed _ (Sound.mem_entries hslot rfl)).exists_conn
  cases hconn
  rcases h.behind conn hread with hbehind | hnone
  · obtain ⟨slot, hmem, hsame⟩ := List.mem_map.mp hbehind
    obtain ⟨j, hj⟩ := List.mem_iff_getElem?.mp hmem
    rw [List.getElem?_take] at hj
    split at hj
    · next hlt =>
      have hoccupied : ∀ {k : Nat} {s : ThreadInfo}, server.table.contextArray[k]? = some s →
          s.conn = some conn → s.occupied = true := by
        intro k s _ hs
        unfold ThreadInfo.occupied
        rw [hs]
        rfl
      have hsplit : server.table.contextArray.take i ++ server.table.contextArray.drop i =
          server.table.contextArray := List.take_append_drop _ _
      have hnodup := hsound.nodup
      unfold entries connections at hnodup
      rw [← hsplit, List.filter_append, List.append_assoc, List.map_append] at hnodup
      refine (List.nodup_append.mp hnodup).2.2 (some conn) ?_ (some conn) ?_ rfl
      · exact List.mem_map.mpr ⟨slot, List.mem_filter.mpr ⟨hmem, hoccupied hj hsame⟩, hsame⟩
      · rw [List.map_append]
        apply List.mem_append_left
        refine List.mem_map.mpr ⟨⟨some conn, handle⟩, List.mem_filter.mpr ⟨?_, rfl⟩, rfl⟩
        rw [List.mem_iff_getElem?]
        refine ⟨0, ?_⟩
        rw [List.getElem?_drop]
        exact hslot
    · cases hj
  · rw [hrecord] at hnone
    cases hnone

/-- Flags that agree with those found here too agree with those found before. -/
theorem agree_before {b : Bool} {done' : Nat → Bool} (hnew : conn ∉ read)
    (h : ∀ c ∈ conn :: read, done' c = Function.update done conn b c) :
    done' conn = b ∧ ∀ c ∈ read, done' c = done c := by
  refine ⟨(h conn List.mem_cons_self).trans (Function.update_self ..), fun c hc => ?_⟩
  rw [h c (List.mem_cons_of_mem _ hc)]
  apply Function.update_of_ne
  rintro rfl
  exact hnew hc

theorem drop_eq_cons {slots : List ThreadInfo} {slot : ThreadInfo} (h : slots[i]? = some slot) :
    slots.drop i = slot :: slots.drop (i + 1) ∧ slots.take (i + 1) = slots.take i ++ [slot] := by
  obtain ⟨hlt, hget⟩ := List.getElem?_eq_some_iff.mp h
  rw [List.drop_eq_getElem_cons hlt, List.take_succ_eq_append_getElem hlt, hget]
  exact ⟨rfl, rfl⟩

/-- A connection that is not done is passed over. -/
theorem During.busy (h : During server before i done read) (hsound : Sound startup server)
    {handle : Option Nat} {record : Connection} (hi : i < server.table.numActive)
    (hslot : server.table.contextArray[i]? = some ⟨some conn, handle⟩)
    (hrecord : server.heap conn = some record) (hdone : record.done = false)
    (htable : after.table = server.table) (hfreed : after.freed = server.freed)
    (hheap : after.heap = server.heap) :
    During after before (i + 1) (Function.update done conn false) (conn :: read) := by
  have hnew := h.not_read hsound hslot
  have hset : ¬ server.Set conn := by
    unfold Set flag
    rw [hrecord]
    simp [hdone]
  obtain ⟨hdrop, htake⟩ := drop_eq_cons hslot
  obtain ⟨released, hreleased, hscan⟩ := h.released
  refine ⟨⟨released, hfreed.trans hreleased, fun done' hagree => ?_⟩, ?_, ?_, ?_⟩
  · obtain ⟨hhere, hbefore⟩ := agree_before hnew hagree
    rw [hscan done' hbefore, hdrop, scanLoop, if_pos hi]
    simp only [hhere, Bool.false_eq_true, if_false]
    rw [htable, htake]
    cases scanLoop done' (i + 1) server.table.numActive
        (server.table.contextArray.drop (i + 1)) with
    | error e => rfl
    | ok result => simp [bind, Except.bind, Except.map]
  · rw [htable, hheap, htake, List.map_append]
    refine List.forall_mem_cons.mpr ⟨.inl (List.mem_append_right _ List.mem_cons_self), ?_⟩
    exact fun c hc => (h.behind c hc).imp_left (List.mem_append_left _)
  · intro c hflag
    have hdoneBefore := h.early c hflag
    rw [Function.update_of_ne, hdoneBefore]
    rintro rfl
    exact hset (h.late c hdoneBefore)
  · intro c hc
    have hne : c ≠ conn := by
      rintro rfl
      rw [Function.update_self] at hc
      cases hc
    rw [Function.update_of_ne hne] at hc
    unfold Set flag
    rw [hheap]
    exact h.late c hc

/-- A connection that is done is freed. -/
theorem During.freed (h : During server before i done read) (hsound : Sound startup server)
    {handle : Option Nat} (hi : i < server.table.numActive)
    (hslot : server.table.contextArray[i]? = some ⟨some conn, handle⟩)
    (htable : after.table = ⟨server.table.contextArray.set i .empty, server.table.numActive - 1⟩)
    (hfreed : after.freed = server.freed ++ [⟨some conn, handle⟩])
    (hheap : after.heap = Function.update server.heap conn none) :
    During after before (i + 1) (Function.update done conn true) (conn :: read) := by
  have hnew := h.not_read hsound hslot
  have hnone : after.heap conn = none := by
    rw [hheap]
    exact Function.update_self ..
  have hkept : ∀ c, server.Set c → after.Set c := by
    intro c hc
    by_cases hsame : c = conn
    · exact .inr (hsame ▸ hnone)
    · unfold Set flag at hc ⊢
      rwa [hheap, Function.update_of_ne hsame]
  obtain ⟨hdrop, htake⟩ := drop_eq_cons hslot
  have hlt := (List.getElem?_eq_some_iff.mp hslot).1
  have hafter : after.table.contextArray.take (i + 1) =
      server.table.contextArray.take i ++ [.empty] := by
    rw [htable, List.take_succ_eq_append_getElem (by simpa using hlt), List.getElem_set_self,
      List.take_set_of_le (Nat.le_refl i)]
  have hrest : after.table.contextArray.drop (i + 1) = server.table.contextArray.drop (i + 1) := by
    rw [htable, List.drop_set_of_lt (Nat.lt_succ_self i)]
  obtain ⟨released, hreleased, hscan⟩ := h.released
  refine ⟨⟨released ++ [⟨some conn, handle⟩], ?_, fun done' hagree => ?_⟩, ?_, ?_, ?_⟩
  · rw [hfreed, hreleased, List.append_assoc]
  · obtain ⟨hhere, hbefore⟩ := agree_before hnew hagree
    rw [hscan done' hbefore, hdrop, scanLoop, if_pos hi, hafter, hrest, htable]
    simp only [hhere, if_true]
    cases scanLoop done' (i + 1) (server.table.numActive - 1)
        (server.table.contextArray.drop (i + 1)) with
    | error e => rfl
    | ok result => simp [bind, Except.bind, Except.map]
  · rw [hafter, List.map_append]
    refine List.forall_mem_cons.mpr ⟨.inr hnone, fun c hc => ?_⟩
    rcases h.behind c hc with hc | hc
    · exact .inl (List.mem_append_left _ hc)
    · right
      rw [hheap]
      by_cases hsame : c = conn
      · rw [hsame]
        exact Function.update_self ..
      · rwa [Function.update_of_ne hsame]
  · intro c hflag
    by_cases hsame : c = conn
    · rw [hsame, Function.update_self]
    · rw [Function.update_of_ne hsame]
      exact h.early c hflag
  · intro c hc
    by_cases hsame : c = conn
    · exact .inr (hsame ▸ hnone)
    · rw [Function.update_of_ne hsame] at hc
      exact hkept c (h.late c hc)

/-! ## Runs -/

/-- In a run a call is under way: it began behind `first` with the state `before`, and has come to slot
`i`. -/
structure Calling (startup : Startup) (actions : List Action) (server : Server)
    (spans : List (List Action × List Action)) (first : List Action) (before : Server) (i : Nat)
    (entry : ThreadInfo) (done : Nat → Bool) (read : List Nat) : Prop where
  starts_eq : starts startup actions = spans.map Prod.fst ++ [first]
  ends_eq : ends startup actions = spans.map Prod.snd
  le : first <+: actions
  within : ∀ between server, first <+: between → between <+: actions →
    run startup between = .ok server → Adding entry server.main
  run_eq : run startup first = .ok before
  main : before.main = .scanning 0 entry
  during : During server before i done read

/-- Where a run stands when the calls so far, made at once, have left `table` and `freed`. -/
inductive Standing (startup : Startup) (actions : List Action) (server : Server)
    (spans : List (List Action × List Action)) (table : ConnectionTable)
    (freed : List ThreadInfo) : Prop where
  | idle : (server.main = .accepting ∨ ∃ conn, server.main = .creating conn) →
      starts startup actions = spans.map Prod.fst → ends startup actions = spans.map Prod.snd →
      server.table = table → server.freed = freed → Standing startup actions server spans table freed
  | calling {first : List Action} {before : Server} {i : Nat} {entry : ThreadInfo}
      {done : Nat → Bool} {read : List Nat} :
      (server.main = .scanning i entry ∨ ∃ conn, server.main = .joining i conn entry) →
      Calling startup actions server spans first before i entry done read → before.table = table →
      before.freed = freed → Standing startup actions server spans table freed

/-- The calls were made one after another, each in its span. -/
def AllMade (startup : Startup) (spans : List (List Action × List Action)) (calls : List Call) : Prop :=
  List.Forall₂ (fun span call => Made startup span.1 span.2 call) spans calls

/-- The calls of a run, made at once, have led to where it stands. -/
def Matched (startup : Startup) (actions : List Action) (server : Server) : Prop :=
  ∃ spans calls table freed, AllMade startup spans calls ∧
    runAll ConnectionTable.initial [] calls = .ok (table, freed) ∧
    Standing startup actions server spans table freed

/-- What a worker does leaves `main`, the table and what is freed alone; it allocates nothing and clears
no flag. -/
structure Aside (server after : Server) : Prop where
  main : after.main = server.main
  table : after.table = server.table
  freed : after.freed = server.freed
  none : ∀ conn, server.heap conn = none → after.heap conn = none
  flag : ∀ conn, server.flag conn = true → after.flag conn = true

theorem Aside.refl (server : Server) : Aside server server :=
  ⟨rfl, rfl, rfl, fun _ h => h, fun _ h => h⟩

theorem touch_aside {t : Nat} (h : server.touch t = .ok after) : Aside server after := by
  unfold touch at h
  split at h
  · cases h
    exact .refl server
  · split at h
    · cases h
      exact .refl server
    · split at h
      · cases h
      · cases h
        exact .refl server

theorem finish_aside {t : Nat} (h : server.finish startup t = .ok after) : Aside server after := by
  unfold finish at h
  split at h
  · next conn hthread =>
    split at h
    · cases h
    · next record hrecord =>
      split at h
      · cases h
      · next w hworker =>
        split at h
        · next hdone =>
          cases h
          refine ⟨rfl, rfl, rfl, fun conn' hnone => ?_, fun conn' hflag => ?_⟩
          · simp only
            rw [Function.update_of_ne, hnone]
            rintro rfl
            rw [hrecord] at hnone
            cases hnone
          · unfold flag at hflag ⊢
            simp only
            by_cases hsame : conn' = conn
            · rw [hsame, Function.update_self]
              exact hdone
            · rw [Function.update_of_ne hsame]
              exact hflag
        · cases h
          exact .refl server
  · cases h
    exact .refl server

theorem exit_aside (server : Server) (t : Nat) : Aside server (server.exit t) := by
  unfold exit
  split
  · exact ⟨rfl, rfl, rfl, fun _ h => h, fun _ h => h⟩
  · exact .refl server

section Steps

variable {actions : List Action} {action : Action} {spans : List (List Action × List Action)}
  {table : ConnectionTable} {freed : List ThreadInfo}
  (hbefore : run startup actions = .ok server) (hstep : server.step startup action = .ok after)
include hbefore hstep

theorem run_concat : run startup (actions ++ [action]) = .ok after :=
  Machine.run_concat.mpr ⟨server, hbefore, hstep⟩

/-- An action at which no call begins or returns. -/
theorem moments_other (hbegins : begins server after = false) (hreturns : returns server after = false) :
    starts startup (actions ++ [action]) = starts startup actions ∧
      ends startup (actions ++ [action]) = ends startup actions := by
  unfold starts ends
  rw [Machine.moments_concat hbefore hstep, Machine.moments_concat hbefore hstep, hbegins, hreturns]
  exact ⟨List.append_nil _, List.append_nil _⟩

/-- `main` is in the call behind one more action too. -/
theorem adding_concat {first : List Action} {entry : ThreadInfo}
    (h : ∀ between server, first <+: between → between <+: actions → run startup between = .ok server →
      Adding entry server.main) (hmain : Adding entry after.main) :
    ∀ between server, first <+: between → between <+: actions ++ [action] →
      run startup between = .ok server → Adding entry server.main := by
  intro between server' hfirst hbetween hrun
  rcases List.prefix_concat_iff.mp hbetween with rfl | hbetween
  · cases hrun.symm.trans (run_concat hbefore hstep)
    exact hmain
  · exact h between server' hfirst hbetween hrun

omit hbefore hstep in
/-- Outside a call the calls so far are those of the spans. -/
theorem Standing.of_outside (h : Standing startup actions server spans table freed)
    (hmain : server.main = .accepting ∨ ∃ conn, server.main = .creating conn) :
    starts startup actions = spans.map Prod.fst ∧ ends startup actions = spans.map Prod.snd ∧
      server.table = table ∧ server.freed = freed := by
  cases h with
  | idle _ hstarts hends htable hfreed => exact ⟨hstarts, hends, htable, hfreed⟩
  | calling hat _ _ _ =>
    rcases hmain with hmain | ⟨_, hmain⟩
    · rcases hat with hat | ⟨_, hat⟩
      · cases hmain.symm.trans hat
      · cases hmain.symm.trans hat
    · rcases hat with hat | ⟨_, hat⟩
      · cases hmain.symm.trans hat
      · cases hmain.symm.trans hat

omit hbefore hstep in
/-- Within one, that call is under way. -/
theorem Standing.of_within {i : Nat} {entry : ThreadInfo}
    (h : Standing startup actions server spans table freed)
    (hmain : server.main = .scanning i entry ∨ ∃ conn, server.main = .joining i conn entry) :
    ∃ first before done read, Calling startup actions server spans first before i entry done read ∧
      before.table = table ∧ before.freed = freed := by
  cases h with
  | idle hidle _ _ _ _ =>
    rcases hmain with hmain | ⟨_, hmain⟩
    · rcases hidle with hidle | ⟨_, hidle⟩
      · cases hmain.symm.trans hidle
      · cases hmain.symm.trans hidle
    · rcases hidle with hidle | ⟨_, hidle⟩
      · cases hmain.symm.trans hidle
      · cases hmain.symm.trans hidle
  | calling hat hcalling htable hfreed =>
    rcases hmain with hmain | ⟨_, hmain⟩
    · rcases hat with hat | ⟨_, hat⟩
      · cases hmain.symm.trans hat
        exact ⟨_, _, _, _, hcalling, htable, hfreed⟩
      · cases hmain.symm.trans hat
    · rcases hat with hat | ⟨_, hat⟩
      · cases hmain.symm.trans hat
      · cases hmain.symm.trans hat
        exact ⟨_, _, _, _, hcalling, htable, hfreed⟩

/-- A call goes on. -/
theorem Calling.goes_on {first : List Action} {before : Server} {i i' : Nat} {entry : ThreadInfo}
    {done done' : Nat → Bool} {read read' : List Nat}
    (h : Calling startup actions server spans first before i entry done read)
    (hafter : after.main = .scanning i' entry ∨ ∃ conn, after.main = .joining i' conn entry)
    (hduring : During after before i' done' read') :
    Standing startup (actions ++ [action]) after spans before.table before.freed := by
  have hmain : Adding entry server.main := h.within actions server h.le List.prefix_rfl hbefore
  have hadding : Adding entry after.main := by
    rcases hafter with h | ⟨conn, h⟩
    · rw [h]
      rfl
    · rw [h]
      rfl
  have hbegins : begins server after = false := by
    unfold begins
    cases h : server.main with
    | creating conn =>
      rw [h] at hmain
      exact hmain.elim
    | _ => rfl
  have hreturns : returns server after = false := by
    unfold returns
    rcases hafter with h | ⟨conn, h⟩
    · rw [h]
      cases server.main <;> rfl
    · rw [h]
      cases server.main <;> rfl
  obtain ⟨hstarts, hends⟩ := moments_other hbefore hstep hbegins hreturns
  have hcalling : Calling startup (actions ++ [action]) after spans first before i' entry done'
      read' :=
    ⟨hstarts.trans h.starts_eq, hends.trans h.ends_eq, h.le.trans (List.prefix_append _ _),
      adding_concat hbefore hstep h.within hadding, h.run_eq, h.main, hduring⟩
  exact .calling hafter hcalling rfl rfl

/-- No call is under way. -/
theorem Standing.stays_idle (hidle : server.main = .accepting ∨ ∃ conn, server.main = .creating conn)
    (hafter : after.main = .accepting ∨ ∃ conn, after.main = .creating conn)
    (htable : after.table = server.table) (hfreed : after.freed = server.freed)
    (h : Standing startup actions server spans table freed) :
    Standing startup (actions ++ [action]) after spans table freed := by
  obtain ⟨hstarts, hends, htable', hfreed'⟩ := h.of_outside hidle
  have hbegins : begins server after = false := by
    unfold begins
    rcases hafter with h | ⟨conn, h⟩
    · rw [h]
      cases server.main <;> rfl
    · rw [h]
      cases server.main <;> rfl
  have hreturns : returns server after = false := by
    unfold returns
    rcases hidle with h | ⟨conn, h⟩
    · rw [h]
    · rw [h]
  obtain ⟨hstarts', hends'⟩ := moments_other hbefore hstep hbegins hreturns
  exact .idle hafter (hstarts'.trans hstarts) (hends'.trans hends) (htable.trans htable')
    (hfreed.trans hfreed')

theorem Standing.aside (h : Standing startup actions server spans table freed)
    (haside : Aside server after) :
    Standing startup (actions ++ [action]) after spans table freed := by
  cases h with
  | idle hmain hstarts hends htable hfreed =>
    exact .stays_idle hbefore hstep hmain (haside.main ▸ hmain) haside.table haside.freed
      (.idle hmain hstarts hends htable hfreed)
  | calling hmain hcalling htable hfreed =>
    subst htable hfreed
    have hkept := hcalling.during.frame haside.table haside.freed haside.none haside.flag
    exact hcalling.goes_on hbefore hstep (haside.main ▸ hmain) hkept

theorem Matched.aside (h : Matched startup actions server) (haside : Aside server after) :
    Matched startup (actions ++ [action]) after := by
  obtain ⟨spans, calls, table, freed, hmade, hcalls, hstanding⟩ := h
  exact ⟨spans, calls, table, freed, hmade, hcalls, hstanding.aside hbefore hstep haside⟩

theorem Matched.accept {conn : Nat} (h : Matched startup actions server)
    (hafter : server.accept startup conn = after) : Matched startup (actions ++ [action]) after := by
  unfold Server.accept at hafter
  split at hafter
  · next hmain hnone =>
    subst hafter
    obtain ⟨spans, calls, table, freed, hmade, hcalls, hstanding⟩ := h
    exact ⟨spans, calls, table, freed, hmade, hcalls,
      hstanding.stays_idle hbefore hstep (.inl hmain) (.inr ⟨conn, rfl⟩) rfl rfl⟩
  · subst hafter
    exact h.aside hbefore hstep (.refl server)

/-- The call begins when the thread has been created. -/
theorem Matched.createThread {started : Bool} (h : Matched startup actions server)
    (hafter : server.createThread started = after) : Matched startup (actions ++ [action]) after := by
  by_cases hat : ∃ conn, server.main = .creating conn
  · obtain ⟨conn, hmain⟩ := hat
    obtain ⟨spans, calls, table, freed, hmade, hcalls, hstanding⟩ := h
    refine ⟨spans, calls, table, freed, hmade, hcalls, ?_⟩
    have hcalled : ∃ entry, after.main = .scanning 0 entry ∧ after.table = server.table ∧
        after.freed = server.freed := by
      rw [← hafter]
      unfold Server.createThread
      rw [hmain]
      cases started with
      | true => exact ⟨_, rfl, rfl, rfl⟩
      | false => exact ⟨_, rfl, rfl, rfl⟩
    obtain ⟨entry, hscanning, htable', hfreed'⟩ := hcalled
    have hbegins : begins server after = true := by
      unfold begins
      rw [hmain, hscanning]
    have hreturns : returns server after = false := by
      unfold returns
      rw [hmain]
    obtain ⟨hstarts, hends, htable, hfreed⟩ := hstanding.of_outside (.inr ⟨conn, hmain⟩)
    refine .calling (.inl hscanning) ⟨?_, ?_, List.prefix_rfl, ?_, run_concat hbefore hstep,
      hscanning, during_start _⟩ (htable'.trans htable) (hfreed'.trans hfreed)
    · unfold starts at hstarts ⊢
      rw [Machine.moments_concat hbefore hstep, hstarts, hbegins]
      rfl
    · unfold ends at hends ⊢
      rw [Machine.moments_concat hbefore hstep, hends, hreturns]
      exact List.append_nil _
    · intro between server' hfirst hbetween hrun
      obtain rfl := hfirst.eq_of_length (Nat.le_antisymm hfirst.length_le hbetween.length_le)
      cases hrun.symm.trans (run_concat hbefore hstep)
      rw [hscanning]
      rfl
  · have hsame : server.createThread started = server := by
      unfold Server.createThread
      cases hmain : server.main with
      | creating conn => exact absurd ⟨conn, hmain⟩ hat
      | accepting => rfl
      | scanning i entry => rfl
      | joining i conn entry => rfl
    rw [hsame] at hafter
    subst hafter
    exact h.aside hbefore hstep (.refl server)

omit hbefore hstep in
theorem exists_entry (h : Sound startup server) {i : Nat} {entry : ThreadInfo}
    (hmain : server.main = .scanning i entry) : ∃ conn, entry.conn = some conn := by
  have hentry : entry ∈ pending server.main := by
    rw [hmain]
    exact List.mem_cons_self
  obtain ⟨conn, record, hconn, -⟩ := (h.backed entry (List.mem_append_right _ hentry)).exists_conn
  exact ⟨conn, hconn⟩

omit hbefore hstep in
/-- The table and what is freed when the scan is behind the last slot are those of the call made at
once. -/
theorem During.returns {i : Nat} {entry : ThreadInfo} {conn : Nat} {done : Nat → Bool}
    {read : List Nat} {garbage : Nat → ThreadInfo} {result : ConnectionTable}
    (h : During server before i done read) (hi : server.table.numActive ≤ i)
    (hconn : entry.conn = some conn) (henter : server.table.enter garbage entry = .ok result) :
    ∃ released, server.freed = before.freed ++ released ∧
      (⟨conn, entry.threadHandle, done, garbage⟩ : Call).run before.table = .ok (result, released) := by
  obtain ⟨released, hreleased, hatOnce⟩ := h.released
  have hend : ∀ slots : List ThreadInfo, scanLoop done i server.table.numActive slots =
      .ok (slots, server.table.numActive, []) := by
    intro slots
    cases slots with
    | nil => rw [scanLoop, if_neg (Nat.not_lt.mpr hi)]
    | cons slot slots => rw [scanLoop, if_neg (Nat.not_lt.mpr hi)]
  have hscanned := hatOnce done fun _ _ => rfl
  rw [hend] at hscanned
  simp only [Except.map, List.take_append_drop, List.append_nil] at hscanned
  have hentry : entry = ⟨some conn, entry.threadHandle⟩ := hconn ▸ rfl
  refine ⟨released, hreleased, ?_⟩
  unfold Call.run
  rw [addNewConnection_eq, hscanned, except_bind_ok]
  simp only
  rw [← hentry, henter, except_bind_ok]

/-- **A turn of the scan** goes on with the call, or ends it as the call made at once ends. -/
theorem Matched.scan (h : Matched startup actions server) (hsound : Sound startup server)
    {garbage : Nat → ThreadInfo} (hscan : server.scan garbage = .ok after) :
    Matched startup (actions ++ [action]) after := by
  by_cases hat : ∃ i entry, server.main = .scanning i entry
  · obtain ⟨i, entry, hmain⟩ := hat
    obtain ⟨spans, calls, table, freed, hmade, hcalls, hstanding⟩ := h
    obtain ⟨first, before, done, read, hcalling, rfl, rfl⟩ := hstanding.of_within (.inl hmain)
    have hbegins : begins server after = false := by
      unfold begins
      rw [hmain]
    have hreturns : after.main = .accepting → returns server after = true := by
      intro hend
      unfold returns
      rw [hmain, hend]
    have hturn := hsound.turn hmain garbage
    rw [hscan] at hturn
    cases hturn with
    | done _ _ _ _ =>
      exact ⟨spans, calls, _, _, hmade, hcalls, hcalling.goes_on hbefore hstep (.inr ⟨_, rfl⟩)
        (hcalling.during.frame rfl rfl (fun _ h => h) fun _ h => h)⟩
    | busy hi hslot hrecord hdone =>
      exact ⟨spans, calls, _, _, hmade, hcalls, hcalling.goes_on hbefore hstep (.inl rfl)
        (hcalling.during.busy hsound hi hslot hrecord hdone rfl rfl rfl)⟩
    | @last table hi henter _ _ =>
      obtain ⟨conn, hconn⟩ := exists_entry hsound hmain
      obtain ⟨released, hreleased, hcall⟩ := hcalling.during.returns hi hconn henter
      refine ⟨spans ++ [(first, actions ++ [action])],
        calls ++ [⟨conn, entry.threadHandle, done, garbage⟩], table, server.freed, ?_, ?_,
        .idle (.inl rfl) ?_ ?_ rfl rfl⟩
      · refine List.rel_append hmade (.cons ?_ .nil)
        have hentry : entry = ⟨some conn, entry.threadHandle⟩ := hconn ▸ rfl
        refine ⟨hcalling.le.trans (List.prefix_append _ _), ?_, before, _, hcalling.run_eq,
          run_concat hbefore hstep, hentry ▸ hcalling.main, hcalling.during.early,
          hcalling.during.late⟩
        intro between server' hfirst hbetween hne hrun
        rcases List.prefix_concat_iff.mp hbetween with rfl | hbetween
        · exact absurd rfl hne
        · exact hentry ▸ hcalling.within between server' hfirst hbetween hrun
      · rw [runAll_append, hcalls, except_bind_ok]
        simp only [runAll]
        rw [hcall, except_bind_ok, hreleased]
      · have hstarts := hcalling.starts_eq
        unfold starts at hstarts ⊢
        rw [Machine.moments_concat hbefore hstep, hstarts, hbegins, List.map_append]
        exact List.append_nil _
      · have hends := hcalling.ends_eq
        unfold ends at hends ⊢
        rw [Machine.moments_concat hbefore hstep, hends, hreturns rfl, List.map_append]
        rfl
  · rw [Sound.scan_of_main_ne fun i entry hmain => hat ⟨i, entry, hmain⟩] at hscan
    cases hscan
    exact h.aside hbefore hstep (.refl server)

theorem Matched.join (h : Matched startup actions server) (hsound : Sound startup server)
    (hjoin : server.join = .ok after) : Matched startup (actions ++ [action]) after := by
  by_cases hat : ∃ i conn entry, server.main = .joining i conn entry
  · obtain ⟨i, conn, entry, hmain⟩ := hat
    rcases hsound.join_cases hmain with ⟨t, -, -, heq⟩ | ⟨t, hslot, -, heq⟩
    · rw [hjoin] at heq
      cases heq
      exact h.aside hbefore hstep (.refl server)
    · rw [hjoin] at heq
      obtain rfl := Except.ok.inj heq
      obtain ⟨hi, -⟩ := hsound.joining i conn entry hmain
      obtain ⟨spans, calls, table, freed, hmade, hcalls, hstanding⟩ := h
      refine ⟨spans, calls, table, freed, hmade, hcalls, ?_⟩
      obtain ⟨first, before, done, read, hcalling, rfl, rfl⟩ :=
        hstanding.of_within (.inr ⟨conn, hmain⟩)
      exact hcalling.goes_on hbefore hstep (.inl rfl)
        (hcalling.during.freed hsound hi hslot rfl rfl rfl)
  · rw [Sound.join_of_main_ne fun i conn entry hmain => hat ⟨i, conn, entry, hmain⟩] at hjoin
    cases hjoin
    exact h.aside hbefore hstep (.refl server)

/-- **Every action** leads a run to where calls made at once have led. -/
theorem Matched.step (h : Matched startup actions server) (hsound : Sound startup server) :
    Matched startup (actions ++ [action]) after := by
  cases action with
  | accept conn => exact h.accept hbefore hstep (Except.ok.inj hstep)
  | createThread started => exact h.createThread hbefore hstep (Except.ok.inj hstep)
  | scan garbage => exact h.scan hbefore hstep hsound hstep
  | join => exact h.join hbefore hstep hsound hstep
  | touch t => exact h.aside hbefore hstep (touch_aside hstep)
  | finish t => exact h.aside hbefore hstep (finish_aside hstep)
  | exit t =>
    obtain rfl := Except.ok.inj hstep
    exact h.aside hbefore hstep (exit_aside server t)

end Steps

theorem run_matched {actions : List Action} (hrun : run startup actions = .ok server) :
    Matched startup actions server := by
  refine Machine.run_induction (P := Matched startup) ?_ ?_ hrun
  · exact ⟨[], [], _, _, .nil, rfl, .idle (.inl rfl) rfl rfl rfl rfl⟩
  · intro actions server action after hbefore h hstep
    exact h.step hbefore hstep (run_sound hbefore)

/-- **The calls of an interleaving** might have been made at once, in their order, each with flags that
lie between those at its start and those at its end: they leave the same table and have freed the same
connections. Where `main` stops at an empty slot, it does so in the last call, and so does that call
when it is made at once. -/
theorem run_atomic (startup : Startup) (actions : List Action) :
    (∀ server, run startup actions = .ok server → server.main = .accepting →
        ∃ spans calls, starts startup actions = spans.map Prod.fst ∧
          ends startup actions = spans.map Prod.snd ∧ AllMade startup spans calls ∧
          runAll ConnectionTable.initial [] calls = .ok (server.table, server.freed)) ∧
      (run startup actions = .error (.main .null) →
        ∃ spans calls last action, last ++ [action] <+: actions ∧
          run startup (last ++ [action]) = .error (.main .null) ∧
          starts startup actions = spans.map Prod.fst ∧
          ends startup actions ++ [last] = spans.map Prod.snd ∧ AllMade startup spans calls ∧
          runAll ConnectionTable.initial [] calls = .error .null) := by
  constructor
  · intro server hrun hidle
    obtain ⟨spans, calls, table, freed, hmade, hcalls, hstanding⟩ := run_matched hrun
    obtain ⟨hstarts, hends, rfl, rfl⟩ := hstanding.of_outside (.inl hidle)
    exact ⟨spans, calls, hstarts, hends, hmade, hcalls⟩
  · intro hrun
    obtain ⟨last, action, server, hlonger, hlast, hstop⟩ := Machine.exists_of_run_error hrun
    have hsound := run_sound hlast
    have hstops : run startup (last ++ [action]) = .error (.main .null) := by
      unfold run
      rw [Machine.run_append, hlast, except_bind_ok, Machine.run, hstop]
      rfl
    obtain ⟨later, hactions⟩ := hlonger
    rw [List.append_assoc, List.singleton_append] at hactions
    rcases hsound.step_error hstop with ⟨i, entry, hmain, hi, hslot, -⟩ | ⟨_, _, hworker, -⟩
    · obtain ⟨spans, calls, table, freed, hmade, hcalls, hstanding⟩ := run_matched hlast
      obtain ⟨first, before, done, read, hcalling, rfl, rfl⟩ := hstanding.of_within (.inl hmain)
      obtain ⟨conn, hconn⟩ := exists_entry hsound hmain
      have hentry : entry = ⟨some conn, entry.threadHandle⟩ := hconn ▸ rfl
      obtain ⟨released, -, hatOnce⟩ := hcalling.during.released
      have hscanned := hatOnce done fun _ _ => rfl
      rw [(drop_eq_cons hslot).1, scanLoop, if_pos hi] at hscanned
      refine ⟨spans ++ [(first, last)],
        calls ++ [⟨conn, entry.threadHandle, done, fun _ => .empty⟩], last, action, ?_, hstops, ?_,
        ?_, ?_, ?_⟩
      · exact ⟨later, by rw [← hactions, List.append_assoc, List.singleton_append]⟩
      · have hstarts := hcalling.starts_eq
        unfold starts at hstarts ⊢
        rw [← hactions, Machine.moments_of_stop hlast hstop, hstarts, List.map_append]
        rfl
      · have hends := hcalling.ends_eq
        unfold ends at hends ⊢
        rw [← hactions, Machine.moments_of_stop hlast hstop, hends, List.map_append]
        rfl
      · refine List.rel_append hmade (.cons ?_ .nil)
        refine ⟨hcalling.le, fun between server' hfirst hbetween _ hrun => ?_, before, server,
          hcalling.run_eq, hlast, hentry ▸ hcalling.main, hcalling.during.early,
          hcalling.during.late⟩
        exact hentry ▸ hcalling.within between server' hfirst hbetween hrun
      · rw [runAll_append, hcalls, except_bind_ok]
        simp only [runAll]
        unfold Call.run
        rw [addNewConnection_eq, hscanned]
        rfl
    · cases hworker

end Server

end Fxmy
