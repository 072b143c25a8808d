import Fxmy.ServerWin
import Fxmy.Verify.ConnectionTable
import Fxmy.Verify.Exchanges
import Mathlib.Data.List.Nodup

/-!
# The server's threads keep apart

In every interleaving a connection that a thread may use is allocated: `main` frees it only after the
thread that set its `done` flag has come to its end (`run_isSound`). No connection is lost or freed
twice, and what a worker does is what it does alone.
-/

namespace Fxmy

open Exec

/-! ## The table apart from a call -/

namespace ConnectionTable

variable {table : ConnectionTable}

theorem addNewConnection_eq (garbage : Nat → ThreadInfo) (done : Nat → Bool) (table : ConnectionTable)
    (conn : Nat) (threadHandle : Option Nat) :
    addNewConnection garbage done table conn threadHandle = (do
      let (slots, numActive, released) ← scanLoop done 0 table.numActive table.contextArray
      let table ← enter garbage ⟨some conn, threadHandle⟩ ⟨slots, numActive⟩
      .ok (table, released)) := by
  unfold addNewConnection enter
  cases scanLoop done 0 table.numActive table.contextArray with
  | error e => rfl
  | ok result =>
    obtain ⟨slots, numActive, released⟩ := result
    rw [except_bind_ok, except_bind_ok]
    simp only
    cases grow garbage ⟨slots, numActive⟩ with
    | error e => rfl
    | ok grown =>
      rw [except_bind_ok, except_bind_ok]
      cases insertLoop ⟨some conn, threadHandle⟩ grown.contextArray with
      | error e => rfl
      | ok slots => rfl

/-- There is room for the new entry, and it is all that is added. -/
theorem Valid.enter (h : Valid table) (garbage : Nat → ThreadInfo) {entry : ThreadInfo}
    (hentry : entry.occupied = true) :
    ∃ after, ConnectionTable.enter garbage entry table = .ok after ∧ Valid after ∧
      after.connections.Perm (entry :: table.connections) := by
  obtain ⟨fresh, hfresh, hgrow, hroom⟩ := grow_eq garbage h
  have hempty : fresh.filter (·.occupied) = [] := by
    rw [List.filter_eq_nil_iff]
    intro slot hslot
    rw [hfresh slot hslot]
    exact Bool.false_ne_true
  have hconnections : (table.contextArray ++ fresh).filter (·.occupied) = table.connections := by
    rw [List.filter_append, hempty, List.append_nil]
    rfl
  have hzeroed : ∀ slot ∈ table.contextArray ++ fresh, slot.conn = none → slot = .empty := by
    intro slot hslot hnone
    rcases List.mem_append.mp hslot with hslot | hslot
    · exact h.zeroed slot hslot hnone
    · exact hfresh slot hslot
  obtain ⟨slots, hinsert, hperm, hmem⟩ :=
    insertLoop_eq entry hentry hzeroed (by rw [hconnections]; exact hroom)
  rw [hconnections] at hperm
  refine ⟨⟨slots, table.numActive + 1⟩, ?_, ⟨?_, ?_⟩, hperm⟩
  · unfold ConnectionTable.enter
    rw [hgrow, except_bind_ok]
    simp only
    rw [hinsert, except_bind_ok]
  · have hlen := hperm.length_eq
    rw [List.length_cons, ← h.count] at hlen
    exact hlen.symm
  · intro slot hslot hnone
    rcases hmem slot hslot with rfl | hslot
    · unfold ThreadInfo.occupied at hentry
      rw [hnone] at hentry
      cases hentry
    · exact hzeroed slot hslot hnone

/-- A slot that is cleared takes its connection out. -/
theorem connections_clear {i : Nat} {slot : ThreadInfo} (hslot : table.contextArray[i]? = some slot)
    (hoccupied : slot.occupied = true) :
    table.connections.Perm
      (slot :: connections ⟨table.contextArray.set i .empty, table.numActive - 1⟩) := by
  obtain ⟨hlt, hget⟩ := List.getElem?_eq_some_iff.mp hslot
  have hsplit : table.contextArray =
      table.contextArray.take i ++ slot :: table.contextArray.drop (i + 1) := by
    rw [← hget, List.getElem_cons_drop, List.take_append_drop]
  have hempty : ThreadInfo.empty.occupied = false := rfl
  have hbefore : table.connections = (table.contextArray.take i).filter (·.occupied) ++
      slot :: (table.contextArray.drop (i + 1)).filter (·.occupied) := by
    have hfilter := congrArg (List.filter (·.occupied)) hsplit
    rwa [List.filter_append, List.filter_cons, if_pos hoccupied] at hfilter
  have hafter : (table.contextArray.set i .empty).filter (·.occupied) =
      (table.contextArray.take i).filter (·.occupied) ++
        (table.contextArray.drop (i + 1)).filter (·.occupied) := by
    rw [List.set_eq_take_append_cons_drop, if_pos hlt, List.filter_append, List.filter_cons, hempty,
      if_neg Bool.false_ne_true]
  rw [hbefore, connections, hafter]
  exact List.perm_middle

theorem Valid.clear (h : Valid table) {i : Nat} {slot : ThreadInfo}
    (hslot : table.contextArray[i]? = some slot) (hoccupied : slot.occupied = true) :
    Valid ⟨table.contextArray.set i .empty, table.numActive - 1⟩ := by
  have hlen := (connections_clear hslot hoccupied).length_eq
  have hcount := h.count
  rw [List.length_cons] at hlen
  refine ⟨?_, ?_⟩
  · simp only
    omega
  · intro s hs hnone
    rcases List.mem_or_eq_of_mem_set hs with hs | hs
    · exact h.zeroed s hs hnone
    · exact hs

end ConnectionTable

namespace Server

/-! ## What is in order -/

/-- The entry of the connection that `main` is about to put into the table. -/
def pending : MainAt → List ThreadInfo
  | .accepting => []
  | .creating conn => [⟨some conn, none⟩]
  | .scanning _ entry => [entry]
  | .joining _ _ entry => [entry]

/-- The entries of the connections that have come in and are not freed. -/
def entries (server : Server) : List ThreadInfo := server.table.connections ++ pending server.main

/-- The worker of thread `t`, alone with its client, comes to its end and leaves this record. -/
def Completes (startup : Startup) (t : Nat) (record : Connection) : Prop :=
  ∃ w, worker (startup.client t).env
      (World.fresh startup.connectionString (startup.client t).incoming) = .ok ⟨⟩ w ∧
    w.conn = record ∧ record.done = true

/-- The connection of an entry is allocated, and its record is as the thread has left it so far. -/
inductive Backed (startup : Startup) (server : Server) : ThreadInfo → Prop where
  | idle {conn : Nat} : server.heap conn = some (.fresh startup.connectionString) →
      Backed startup server ⟨some conn, none⟩
  | running {conn t : Nat} : server.threads[t]? = some ⟨conn, .running⟩ →
      server.heap conn = some (.fresh startup.connectionString) →
      Backed startup server ⟨some conn, some t⟩
  | ended {conn t : Nat} {phase : Phase} {record : Connection} : phase ≠ .running →
      server.threads[t]? = some ⟨conn, phase⟩ → server.heap conn = some record →
      Completes startup t record → Backed startup server ⟨some conn, some t⟩

/-- The invariant of every interleaving. -/
structure Sound (startup : Startup) (server : Server) : Prop where
  valid : server.table.Valid
  /-- No connection has two entries. -/
  nodup : (server.entries.map (·.conn)).Nodup
  /-- No entry refers to a block that is not allocated. -/
  backed : ∀ entry ∈ server.entries, Backed startup server entry
  /-- No block is lost. -/
  owned : ∀ conn, (server.heap conn).isSome → some conn ∈ server.entries.map (·.conn)
  /-- Each thread that was started has one entry, freed or not. -/
  handles : ((server.freed ++ server.entries).filterMap (·.threadHandle)).Perm
    (List.range server.threads.length)
  /-- What has been freed was done, and its thread at its end. -/
  freed : ∀ entry ∈ server.freed, ∃ conn t record, entry = ⟨some conn, some t⟩ ∧
    server.threads[t]? = some ⟨conn, .exited⟩ ∧ Completes startup t record
  /-- `main` waits only for a thread that has set its `done` flag. -/
  joining : ∀ i conn entry, server.main = .joining i conn entry → i < server.table.numActive ∧
    ∃ t phase, server.table.contextArray[i]? = some ⟨some conn, some t⟩ ∧
      server.threads[t]? = some ⟨conn, phase⟩ ∧ phase ≠ .running

theorem sound_initial (startup : Startup) : Sound startup initial where
  valid := ConnectionTable.valid_initial
  nodup := List.nodup_nil
  backed := fun _ h => nomatch h
  owned := fun _ h => nomatch h
  handles := .refl _
  freed := fun _ h => nomatch h
  joining := fun _ _ _ h => nomatch h

variable {startup : Startup} {server after : Server}

theorem Backed.exists_conn {entry : ThreadInfo} (h : Backed startup server entry) :
    ∃ conn record, entry.conn = some conn ∧ server.heap conn = some record := by
  cases h with
  | idle hheap => exact ⟨_, _, rfl, hheap⟩
  | running _ hheap => exact ⟨_, _, rfl, hheap⟩
  | ended _ _ hheap _ => exact ⟨_, _, rfl, hheap⟩

/-- An entry depends on its own block and its own thread. -/
theorem Backed.congr {entry : ThreadInfo} (h : Backed startup server entry)
    (hheap : ∀ conn, entry.conn = some conn → after.heap conn = server.heap conn)
    (hthreads : ∀ t thread, entry.threadHandle = some t → server.threads[t]? = some thread →
      after.threads[t]? = some thread) : Backed startup after entry := by
  cases h with
  | idle hrecord => exact .idle ((hheap _ rfl).trans hrecord)
  | running hthread hrecord =>
    exact .running (hthreads _ _ rfl hthread) ((hheap _ rfl).trans hrecord)
  | ended hphase hthread hrecord hcompletes =>
    exact .ended hphase (hthreads _ _ rfl hthread) ((hheap _ rfl).trans hrecord) hcompletes

/-- A flag that is set was set by the entry's thread. -/
theorem Backed.of_done {entry : ThreadInfo} {conn : Nat} {record : Connection}
    (h : Backed startup server entry) (hconn : entry.conn = some conn)
    (hrecord : server.heap conn = some record) (hdone : record.done = true) :
    ∃ t phase, entry = ⟨some conn, some t⟩ ∧ server.threads[t]? = some ⟨conn, phase⟩ ∧
      phase ≠ .running ∧ Completes startup t record := by
  have hfresh : ∀ {conn' : Nat}, some conn' = some conn →
      server.heap conn' ≠ some (.fresh startup.connectionString) := by
    intro conn' hsame hheap
    cases hsame
    rw [hrecord] at hheap
    cases hheap
    cases hdone
  cases h with
  | idle hheap => exact absurd hheap (hfresh hconn)
  | running _ hheap => exact absurd hheap (hfresh hconn)
  | ended hphase hthread hheap hcompletes =>
    cases hconn
    rw [hrecord] at hheap
    cases hheap
    exact ⟨_, _, rfl, hthread, hphase, hcompletes⟩

namespace Sound

/-- Entries are told apart by their connections. -/
theorem entry_eq (h : Sound startup server) {entry entry' : ThreadInfo}
    (hentry : entry ∈ server.entries) (hentry' : entry' ∈ server.entries)
    (hconn : entry.conn = entry'.conn) : entry = entry' :=
  List.inj_on_of_nodup_map h.nodup hentry hentry' hconn

/-- **A thread that has not come to its end** has its connection to itself. -/
theorem entry_of_thread (h : Sound startup server) {t : Nat} {thread : WorkerThread}
    (hthread : server.threads[t]? = some thread) (hphase : thread.phase ≠ .exited) :
    ⟨some thread.conn, some t⟩ ∈ server.entries := by
  have hmem : t ∈ (server.freed ++ server.entries).filterMap (·.threadHandle) := by
    rw [h.handles.mem_iff, List.mem_range]
    exact (List.getElem?_eq_some_iff.mp hthread).1
  obtain ⟨entry, hentry, hhandle⟩ := List.mem_filterMap.mp hmem
  rcases List.mem_append.mp hentry with hfreed | hentry
  · obtain ⟨conn, t', record, rfl, hexited, -⟩ := h.freed entry hfreed
    cases hhandle
    rw [hthread] at hexited
    cases hexited
    exact absurd rfl hphase
  · cases h.backed entry hentry with
    | idle _ => cases hhandle
    | running hthread' _ =>
      cases hhandle
      rw [hthread] at hthread'
      cases hthread'
      exact hentry
    | ended _ hthread' _ _ =>
      cases hhandle
      rw [hthread] at hthread'
      cases hthread'
      exact hentry

theorem exists_record (h : Sound startup server) {t : Nat} {thread : WorkerThread}
    (hthread : server.threads[t]? = some thread) (hphase : thread.phase ≠ .exited) :
    ∃ record, server.heap thread.conn = some record := by
  obtain ⟨conn, record, hconn, hrecord⟩ := (h.backed _ (h.entry_of_thread hthread hphase)).exists_conn
  cases hconn
  exact ⟨record, hrecord⟩

/-- Nobody else writes the record that a worker starts on. -/
theorem fresh_of_running (h : Sound startup server) {t conn : Nat}
    (hthread : server.threads[t]? = some ⟨conn, .running⟩) :
    server.heap conn = some (.fresh startup.connectionString) := by
  cases h.backed _ (h.entry_of_thread hthread nofun) with
  | running _ hfresh => exact hfresh
  | ended hphase hthread' _ _ =>
    rw [hthread] at hthread'
    cases hthread'
    exact absurd rfl hphase

/-- What leaves the entries, the heap and the threads alone leaves everything in order. -/
theorem of_entries (h : Sound startup server) (hvalid : after.table.Valid)
    (hentries : after.entries.Perm server.entries) (hheap : after.heap = server.heap)
    (hthreads : after.threads = server.threads) (hfreed : after.freed = server.freed)
    (hjoining : ∀ i conn entry, after.main = .joining i conn entry → i < after.table.numActive ∧
      ∃ t phase, after.table.contextArray[i]? = some ⟨some conn, some t⟩ ∧
        server.threads[t]? = some ⟨conn, phase⟩ ∧ phase ≠ .running) : Sound startup after where
  valid := hvalid
  nodup := (hentries.map (·.conn)).nodup_iff.mpr h.nodup
  backed := by
    intro entry hentry
    apply (h.backed entry (hentries.mem_iff.mp hentry)).congr
    · exact fun conn _ => congrFun hheap conn
    · exact fun _ _ _ hthread => hthreads ▸ hthread
  owned := by
    intro conn hsome
    rw [(hentries.map (·.conn)).mem_iff]
    exact h.owned conn (hheap ▸ hsome)
  handles := by
    rw [hfreed, hthreads]
    exact ((hentries.append_left server.freed).filterMap _).trans h.handles
  freed := by
    rw [hfreed, hthreads]
    exact h.freed
  joining := by
    rw [hthreads]
    exact hjoining

/-! ## `main` -/

theorem accept (h : Sound startup server) (conn : Nat) :
    Sound startup (server.accept startup conn) := by
  unfold Server.accept
  split
  · next hmain hnone =>
    have hentries : server.entries = server.table.connections := by
      unfold entries
      rw [hmain]
      exact List.append_nil _
    have hnew : ∀ entry ∈ server.table.connections, entry.conn ≠ some conn := by
      intro entry hentry hconn
      obtain ⟨conn', record, hconn', hrecord⟩ :=
        (h.backed entry (hentries ▸ hentry)).exists_conn
      rw [hconn] at hconn'
      cases hconn'
      rw [hnone] at hrecord
      cases hrecord
    obtain ⟨hvalid, hnodup, hbacked, howned, hhandles, hfreed, -⟩ := h
    rw [hentries] at hnodup hbacked howned hhandles
    refine ⟨hvalid, ?_, ?_, ?_, ?_, hfreed, fun _ _ _ hat => nomatch hat⟩
    · simp only [entries, pending, List.map_append, List.map_cons, List.map_nil]
      refine List.nodup_append.mpr ⟨hnodup, List.nodup_singleton _, fun a ha b hb => ?_⟩
      obtain ⟨entry, hentry, rfl⟩ := List.mem_map.mp ha
      obtain rfl := List.mem_singleton.mp hb
      exact hnew entry hentry
    · refine List.forall_mem_append.mpr ⟨fun entry hentry => ?_, List.forall_mem_singleton.mpr ?_⟩
      · apply (hbacked entry hentry).congr
        · intro conn' hconn'
          apply Function.update_of_ne
          rintro rfl
          exact hnew entry hentry hconn'
        · exact fun _ _ _ hthread => hthread
      · exact .idle (Function.update_self ..)
    · intro conn' hsome
      simp only [entries, pending, List.map_append]
      by_cases hsame : conn' = conn
      · rw [hsame]
        exact List.mem_append_right _ List.mem_cons_self
      · simp only [Function.update_of_ne hsame] at hsome
        exact List.mem_append_left _ (howned conn' hsome)
    · simpa [entries, pending] using hhandles
  · exact h

theorem createThread (h : Sound startup server) (started : Bool) :
    Sound startup (server.createThread started) := by
  unfold Server.createThread
  split
  · next conn hmain =>
    have hentries : server.entries = server.table.connections ++ [⟨some conn, none⟩] := by
      unfold entries
      rw [hmain]
      rfl
    cases started with
    | false =>
      rw [if_neg Bool.false_ne_true]
      exact h.of_entries h.valid (hentries ▸ .refl _) rfl rfl rfl fun _ _ _ hat => nomatch hat
    | true =>
      obtain ⟨hvalid, hnodup, hbacked, howned, hhandles, hfreed, -⟩ := h
      rw [hentries] at hnodup hbacked howned hhandles
      have hkept : ∀ {t : Nat} {thread : WorkerThread}, server.threads[t]? = some thread →
          (server.threads ++ [⟨conn, .running⟩])[t]? = some thread := by
        intro t thread hthread
        rw [List.getElem?_append_left (List.getElem?_eq_some_iff.mp hthread).1]
        exact hthread
      rw [if_pos rfl]
      refine ⟨hvalid, ?_, ?_, ?_, ?_, ?_, fun _ _ _ hat => nomatch hat⟩
      · simpa [entries, pending] using hnodup
      · obtain ⟨hrest, hnew⟩ := List.forall_mem_append.mp hbacked
        refine List.forall_mem_append.mpr ⟨fun entry hentry => ?_, List.forall_mem_singleton.mpr ?_⟩
        · exact (hrest entry hentry).congr (fun _ _ => rfl) fun _ _ _ hthread => hkept hthread
        · cases List.forall_mem_singleton.mp hnew with
          | idle hrecord => exact .running List.getElem?_concat_length hrecord
      · intro conn' hsome
        simpa [entries, pending] using howned conn' hsome
      · simp only [entries, pending, List.filterMap_append, List.length_append, List.length_singleton,
          List.range_succ, ← List.append_assoc] at hhandles ⊢
        exact (List.append_nil _ ▸ hhandles).append_right [server.threads.length]
      · intro entry hentry
        obtain ⟨conn', t, record, rfl, hexited, hcompletes⟩ := hfreed entry hentry
        exact ⟨conn', t, record, rfl, hkept hexited, hcompletes⟩
  · exact h

/-- What a turn of the scan does. -/
inductive Turn (server : Server) (garbage : Nat → ThreadInfo) (i : Nat) (entry : ThreadInfo) :
    Except ServerStop Server → Prop where
  | hole : i < server.table.numActive → server.table.contextArray[i]? = some .empty →
      Turn server garbage i entry (.error (.main .null))
  | done {conn : Nat} {handle : Option Nat} {record : Connection} : i < server.table.numActive →
      server.table.contextArray[i]? = some ⟨some conn, handle⟩ → server.heap conn = some record →
      record.done = true →
      Turn server garbage i entry (.ok { server with main := .joining i conn entry })
  | busy {conn : Nat} {handle : Option Nat} {record : Connection} : i < server.table.numActive →
      server.table.contextArray[i]? = some ⟨some conn, handle⟩ → server.heap conn = some record →
      record.done = false →
      Turn server garbage i entry (.ok { server with main := .scanning (i + 1) entry })
  | last {table : ConnectionTable} : server.table.numActive ≤ i →
      server.table.enter garbage entry = .ok table → table.Valid →
      table.connections.Perm (entry :: server.table.connections) →
      Turn server garbage i entry (.ok { server with table := table, main := .accepting })

/-- The slot that the scan looks at is one of the table. -/
theorem mem_entries {i conn : Nat} {slot : ThreadInfo}
    (hslot : server.table.contextArray[i]? = some slot) (hconn : slot.conn = some conn) :
    slot ∈ server.entries := by
  apply List.mem_append_left
  apply List.mem_filter.mpr
  refine ⟨List.mem_of_getElem? hslot, ?_⟩
  unfold ThreadInfo.occupied
  rw [hconn]
  rfl

theorem pending_occupied (h : Sound startup server) {entry : ThreadInfo}
    (hentry : entry ∈ pending server.main) : entry.occupied = true := by
  obtain ⟨conn, record, hconn, -⟩ := (h.backed entry (List.mem_append_right _ hentry)).exists_conn
  unfold ThreadInfo.occupied
  rw [hconn]
  rfl

/-- The count is in the array, so the scan stops only at an empty slot. -/
theorem turn (h : Sound startup server) {i : Nat} {entry : ThreadInfo}
    (hmain : server.main = .scanning i entry) (garbage : Nat → ThreadInfo) :
    Turn server garbage i entry (server.scan garbage) := by
  have hle : server.table.numActive ≤ server.table.contextArray.length :=
    h.valid.count ▸ List.length_filter_le _ _
  unfold Server.scan
  rw [hmain]
  simp only
  by_cases hi : i < server.table.numActive
  · rw [if_pos hi]
    obtain ⟨⟨conn, handle⟩, hslot⟩ : ∃ slot, server.table.contextArray[i]? = some slot :=
      ⟨_, List.getElem?_eq_getElem (by omega)⟩
    cases conn with
    | none =>
      have hempty := h.valid.zeroed _ (List.mem_of_getElem? hslot) rfl
      rw [hslot]
      exact .hole hi (hempty ▸ hslot)
    | some conn =>
      obtain ⟨conn', record, hconn, hrecord⟩ := (h.backed _ (mem_entries hslot rfl)).exists_conn
      cases hconn
      simp only [hslot, hrecord]
      cases hdone : record.done with
      | true => exact .done hi hslot hrecord hdone
      | false => exact .busy hi hslot hrecord hdone
  · rw [if_neg hi]
    have hoccupied : entry.occupied = true := by
      apply h.pending_occupied
      rw [hmain]
      exact List.mem_cons_self
    obtain ⟨table, henter, hvalid, hperm⟩ := h.valid.enter garbage hoccupied
    rw [henter]
    exact .last (Nat.le_of_not_lt hi) henter hvalid hperm

theorem scan_of_main_ne (hmain : ∀ i entry, server.main ≠ .scanning i entry)
    (garbage : Nat → ThreadInfo) : server.scan garbage = .ok server := by
  unfold Server.scan
  cases hat : server.main with
  | scanning i entry => exact absurd hat (hmain i entry)
  | accepting => rfl
  | creating conn => rfl
  | joining i conn entry => rfl

theorem scan (h : Sound startup server) {garbage : Nat → ThreadInfo}
    (hscan : server.scan garbage = .ok after) : Sound startup after := by
  by_cases hat : ∃ i entry, server.main = .scanning i entry
  · obtain ⟨i, entry, hmain⟩ := hat
    have hentries : server.entries = server.table.connections ++ [entry] := by
      unfold entries
      rw [hmain]
      rfl
    have hturn := h.turn hmain garbage
    rw [hscan] at hturn
    cases hturn with
    | done hi hslot hrecord hdone =>
      refine h.of_entries h.valid (hentries ▸ .refl _) rfl rfl rfl ?_
      rintro i' conn' entry' ⟨⟩
      obtain ⟨t, phase, hentry, hthread, hphase, -⟩ :=
        (h.backed _ (mem_entries hslot rfl)).of_done rfl hrecord hdone
      cases hentry
      exact ⟨hi, t, phase, hslot, hthread, hphase⟩
    | busy _ _ _ _ =>
      exact h.of_entries h.valid (hentries ▸ .refl _) rfl rfl rfl fun _ _ _ hat => nomatch hat
    | last _ _ hvalid hperm =>
      refine h.of_entries hvalid ?_ rfl rfl rfl fun _ _ _ hat => nomatch hat
      rw [hentries]
      unfold entries pending
      rw [List.append_nil]
      exact hperm.trans (List.perm_append_singleton _ _).symm
  · rw [scan_of_main_ne fun i entry hmain => hat ⟨i, entry, hmain⟩] at hscan
    cases hscan
    exact h

/-- What the wait does: `main` is blocked, or the thread is at its end and its connection is freed. -/
theorem join_cases (h : Sound startup server) {i conn : Nat} {entry : ThreadInfo}
    (hmain : server.main = .joining i conn entry) :
    (∃ t, server.table.contextArray[i]? = some ⟨some conn, some t⟩ ∧
        server.threads[t]? = some ⟨conn, .finished⟩ ∧ server.join = .ok server) ∨
      (∃ t, server.table.contextArray[i]? = some ⟨some conn, some t⟩ ∧
        server.threads[t]? = some ⟨conn, .exited⟩ ∧
        server.join = .ok { server with
          heap := Function.update server.heap conn none
          table := ⟨server.table.contextArray.set i .empty, server.table.numActive - 1⟩
          main := .scanning (i + 1) entry
          freed := server.freed ++ [⟨some conn, some t⟩] }) := by
  obtain ⟨-, t, phase, hslot, hthread, hphase⟩ := h.joining i conn entry hmain
  obtain ⟨conn', record, hconn, hrecord⟩ := (h.backed _ (mem_entries hslot rfl)).exists_conn
  cases hconn
  unfold Server.join
  rw [hmain]
  simp only [hslot, hrecord, blocks, hthread]
  cases phase with
  | running => exact absurd rfl hphase
  | finished => exact .inl ⟨t, rfl, hthread, rfl⟩
  | exited => exact .inr ⟨t, rfl, hthread, rfl⟩

theorem join_of_main_ne (hmain : ∀ i conn entry, server.main ≠ .joining i conn entry) :
    server.join = .ok server := by
  unfold Server.join
  cases hat : server.main with
  | joining i conn entry => exact absurd hat (hmain i conn entry)
  | accepting => rfl
  | creating conn => rfl
  | scanning i entry => rfl

theorem join (h : Sound startup server) (hjoin : server.join = .ok after) : Sound startup after := by
  by_cases hat : ∃ i conn entry, server.main = .joining i conn entry
  · obtain ⟨i, conn, entry, hmain⟩ := hat
    rcases h.join_cases hmain with ⟨t, -, -, heq⟩ | ⟨t, hslot, hthread, heq⟩
    · rw [hjoin] at heq
      cases heq
      exact h
    · rw [hjoin] at heq
      obtain rfl := Except.ok.inj heq
      have hslotEntry := mem_entries hslot rfl
      have hperm : server.entries.Perm (⟨some conn, some t⟩ ::
          (ConnectionTable.connections
            ⟨server.table.contextArray.set i .empty, server.table.numActive - 1⟩ ++ [entry])) := by
        unfold entries
        rw [hmain]
        exact (ConnectionTable.connections_clear hslot rfl).append_right [entry]
      have hcompletes : ∃ record, Completes startup t record := by
        cases h.backed _ hslotEntry with
        | running hrunning _ =>
          rw [hthread] at hrunning
          cases hrunning
        | ended _ _ _ hcompletes => exact ⟨_, hcompletes⟩
      obtain ⟨hvalid, hnodup, hbacked, howned, hhandles, hfreed, -⟩ := h
      have hnodup' := (hperm.map (·.conn)).nodup_iff.mp hnodup
      obtain ⟨hout, hrest⟩ := List.nodup_cons.mp hnodup'
      refine ⟨hvalid.clear hslot rfl, hrest, ?_, ?_, ?_, ?_, fun _ _ _ hat => nomatch hat⟩
      · intro e he
        apply (hbacked e (hperm.mem_iff.mpr (List.mem_cons_of_mem _ he))).congr
        · intro conn' hconn'
          apply Function.update_of_ne
          rintro rfl
          exact hout (List.mem_map.mpr ⟨e, he, hconn'⟩)
        · exact fun _ _ _ hthread' => hthread'
      · intro conn' hsome
        have hne : conn' ≠ conn := by
          rintro rfl
          simp only [Function.update_self] at hsome
          cases hsome
        simp only [Function.update_of_ne hne] at hsome
        have hmem := (hperm.map (·.conn)).mem_iff.mp (howned conn' hsome)
        rcases List.mem_cons.mp hmem with hsame | hmem
        · exact absurd (Option.some.inj hsame) hne
        · exact hmem
      · refine List.Perm.trans (List.Perm.filterMap _ ?_) hhandles
        simp only [List.append_assoc, List.singleton_append]
        exact (hperm.append_left server.freed).symm
      · rw [List.forall_mem_append, List.forall_mem_singleton]
        obtain ⟨record, hcompletes⟩ := hcompletes
        exact ⟨hfreed, conn, t, record, rfl, hthread, hcompletes⟩
  · rw [join_of_main_ne fun i conn entry hmain => hat ⟨i, conn, entry, hmain⟩] at hjoin
    cases hjoin
    exact h

/-! ## The workers -/

theorem touch_eq (h : Sound startup server) (t : Nat) : server.touch t = .ok server := by
  unfold Server.touch
  cases hthread : server.threads[t]? with
  | none => rfl
  | some thread =>
    simp only
    by_cases hexited : thread.phase = .exited
    · rw [if_pos hexited]
    · obtain ⟨record, hrecord⟩ := h.exists_record hthread hexited
      rw [if_neg hexited, hrecord]

/-- A thread's own phase is all that changes in the threads. -/
theorem threads_set {threads : List WorkerThread} {t t' : Nat} {thread thread' : WorkerThread}
    (hne : t' ≠ t) (hthread : threads[t']? = some thread') :
    (threads.set t thread)[t']? = some thread' :=
  (List.getElem?_set_ne hne.symm).trans hthread

theorem finish (h : Sound startup server) {t : Nat} (hfinish : server.finish startup t = .ok after) :
    Sound startup after := by
  unfold Server.finish at hfinish
  split at hfinish
  · next conn hthread =>
    have hentry := h.entry_of_thread hthread nofun
    simp only [h.fresh_of_running hthread] at hfinish
    split at hfinish
    · cases hfinish
    · next w hworker =>
      split at hfinish
      · next hdone =>
        obtain rfl := Except.ok.inj hfinish
        have hcompletes : Completes startup t w.conn := ⟨w, hworker, rfl, hdone⟩
        have hset : (server.threads.set t ⟨conn, .finished⟩)[t]? = some ⟨conn, .finished⟩ :=
          List.getElem?_set_self (List.getElem?_eq_some_iff.mp hthread).1
        have hothers : ∀ {t' : Nat} {thread : WorkerThread}, server.threads[t']? = some thread →
            thread ≠ ⟨conn, .running⟩ →
            (server.threads.set t ⟨conn, .finished⟩)[t']? = some thread := by
          intro t' thread hthread' hne
          apply threads_set ?_ hthread'
          rintro rfl
          rw [hthread] at hthread'
          exact hne (Option.some.inj hthread').symm
        refine ⟨h.valid, h.nodup, fun entry he => ?_, fun conn' hsome => ?_, ?_, ?_, ?_⟩
        · by_cases hsame : entry.conn = some conn
          · obtain rfl := h.entry_eq he hentry hsame
            exact .ended (by decide) hset (Function.update_self ..) hcompletes
          · apply (h.backed entry he).congr
            · intro conn' hconn'
              apply Function.update_of_ne
              rintro rfl
              exact hsame hconn'
            · intro t' thread hhandle hthread'
              apply hothers hthread'
              rintro rfl
              cases h.backed entry he with
              | idle _ => cases hhandle
              | running hrunning _ =>
                cases hhandle
                rw [hthread'] at hrunning
                cases hrunning
                exact hsame rfl
              | ended hphase hrunning _ _ =>
                cases hhandle
                rw [hthread'] at hrunning
                cases hrunning
                exact hphase rfl
        · by_cases hsame : conn' = conn
          · rw [hsame]
            exact List.mem_map_of_mem hentry
          · simp only [Function.update_of_ne hsame] at hsome
            exact h.owned conn' hsome
        · simp only [List.length_set]
          exact h.handles
        · intro entry hfreed
          obtain ⟨conn', t', record', rfl, hexited, hcompletes'⟩ := h.freed entry hfreed
          exact ⟨conn', t', record', rfl, hothers hexited nofun, hcompletes'⟩
        · intro i conn' entry hmain
          obtain ⟨hi, t', phase, hslot, hthread', hphase⟩ := h.joining i conn' entry hmain
          refine ⟨hi, t', phase, hslot, hothers hthread' ?_, hphase⟩
          rintro ⟨⟩
          exact hphase rfl
      · cases hfinish
        exact h
  · cases hfinish
    exact h

theorem exit (h : Sound startup server) (t : Nat) : Sound startup (server.exit t) := by
  unfold Server.exit
  split
  · next conn hthread =>
    have hset : (server.threads.set t ⟨conn, .exited⟩)[t]? = some ⟨conn, .exited⟩ :=
      List.getElem?_set_self (List.getElem?_eq_some_iff.mp hthread).1
    have hothers : ∀ {t' : Nat} {thread : WorkerThread}, server.threads[t']? = some thread →
        thread ≠ ⟨conn, .finished⟩ →
        (server.threads.set t ⟨conn, .exited⟩)[t']? = some thread := by
      intro t' thread hthread' hne
      apply threads_set ?_ hthread'
      rintro rfl
      rw [hthread] at hthread'
      exact hne (Option.some.inj hthread').symm
    have hended : ∀ {t' conn' : Nat} {phase : Phase}, server.threads[t']? = some ⟨conn', phase⟩ →
        phase ≠ .running → ∃ phase', phase' ≠ .running ∧
          (server.threads.set t ⟨conn, .exited⟩)[t']? = some ⟨conn', phase'⟩ := by
      intro t' conn' phase hthread' hphase
      by_cases hsame : t' = t
      · rw [hsame, hthread] at hthread'
        cases hthread'
        exact ⟨.exited, nofun, hsame ▸ hset⟩
      · exact ⟨phase, hphase, threads_set hsame hthread'⟩
    refine ⟨h.valid, h.nodup, fun entry he => ?_, h.owned, ?_, ?_, ?_⟩
    · cases h.backed entry he with
      | idle hrecord => exact .idle hrecord
      | running hrunning hrecord => exact .running (hothers hrunning nofun) hrecord
      | ended hphase hthread' hrecord hcompletes =>
        obtain ⟨phase', hphase', hafter⟩ := hended hthread' hphase
        exact .ended hphase' hafter hrecord hcompletes
    · simp only [List.length_set]
      exact h.handles
    · intro entry hfreed
      obtain ⟨conn', t', record', rfl, hexited, hcompletes'⟩ := h.freed entry hfreed
      exact ⟨conn', t', record', rfl, hothers hexited nofun, hcompletes'⟩
    · intro i conn' entry hmain
      obtain ⟨hi, t', phase, hslot, hthread', hphase⟩ := h.joining i conn' entry hmain
      obtain ⟨phase', hphase', hafter⟩ := hended hthread' hphase
      exact ⟨hi, t', phase', hslot, hafter, hphase'⟩
  · exact h

/-! ## Runs -/

/-- **Every action keeps the threads apart.** -/
theorem step (h : Sound startup server) {action : Action}
    (hstep : server.step startup action = .ok after) : Sound startup after := by
  cases action with
  | accept conn =>
    obtain rfl := Except.ok.inj hstep
    exact h.accept conn
  | createThread started =>
    obtain rfl := Except.ok.inj hstep
    exact h.createThread started
  | scan garbage => exact h.scan hstep
  | join => exact h.join hstep
  | touch t =>
    rw [Server.step, h.touch_eq] at hstep
    cases hstep
    exact h
  | finish t => exact h.finish hstep
  | exit t =>
    obtain rfl := Except.ok.inj hstep
    exact h.exit t

end Sound

/-- The worker of thread `t`, alone with its client, stops with `e`. -/
def Stops (startup : Startup) (t : Nat) (e : Stop) : Prop :=
  ∃ w, worker (startup.client t).env
    (World.fresh startup.connectionString (startup.client t).incoming) = .error e w

/-- The scan stops at an empty slot, and a worker where it stops on its own. -/
theorem Sound.step_error (h : Sound startup server) {action : Action} {stop : ServerStop}
    (hstep : server.step startup action = .error stop) :
    (∃ i entry, server.main = .scanning i entry ∧ i < server.table.numActive ∧
        server.table.contextArray[i]? = some .empty ∧ stop = .main .null) ∨
      ∃ t e, stop = .worker t e ∧ Stops startup t e := by
  cases action with
  | accept conn => cases hstep
  | createThread started => cases hstep
  | scan garbage =>
    by_cases hat : ∃ i entry, server.main = .scanning i entry
    · obtain ⟨i, entry, hmain⟩ := hat
      have hturn := h.turn hmain garbage
      have hscan : server.scan garbage = .error stop := hstep
      rw [hscan] at hturn
      cases hturn with
      | hole hi hslot => exact .inl ⟨i, entry, hmain, hi, hslot, rfl⟩
    · rw [Server.step, Sound.scan_of_main_ne fun i entry hmain => hat ⟨i, entry, hmain⟩] at hstep
      cases hstep
  | join =>
    by_cases hat : ∃ i conn entry, server.main = .joining i conn entry
    · obtain ⟨i, conn, entry, hmain⟩ := hat
      have hjoin : server.join = .error stop := hstep
      rcases h.join_cases hmain with ⟨t, -, -, heq⟩ | ⟨t, -, -, heq⟩
      · rw [hjoin] at heq
        cases heq
      · rw [hjoin] at heq
        cases heq
    · rw [Server.step, Sound.join_of_main_ne fun i conn entry hmain => hat ⟨i, conn, entry, hmain⟩]
        at hstep
      cases hstep
  | touch t =>
    rw [Server.step, h.touch_eq] at hstep
    cases hstep
  | finish t =>
    have hfinish : server.finish startup t = .error stop := hstep
    unfold Server.finish at hfinish
    split at hfinish
    · next conn hthread =>
      simp only [h.fresh_of_running hthread] at hfinish
      split at hfinish
      · next e w hworker =>
        cases hfinish
        exact .inr ⟨t, e, rfl, w, hworker⟩
      · split at hfinish
        · cases hfinish
        · cases hfinish
    · cases hfinish
  | exit t => cases hstep

theorem run_sound {actions : List Action} (hrun : run startup actions = .ok server) :
    Sound startup server :=
  Machine.run_keeps (P := Sound startup) (fun h hstep => h.step hstep) (sound_initial startup) hrun

/-- **The server in every interleaving** is sound, and it stops only at the NULL of an empty slot or
where a worker, alone with its client, stops too: nobody uses a connection that has been freed, none is
freed twice, and none is lost. -/
theorem run_isSound (startup : Startup) (actions : List Action) :
    (∀ stop, run startup actions = .error stop →
        stop = .main .null ∨ ∃ t e, stop = .worker t e ∧ Stops startup t e) ∧
      ∀ server, run startup actions = .ok server → Sound startup server := by
  refine ⟨fun stop hrun => ?_, fun server hrun => run_sound hrun⟩
  obtain ⟨earlier, action, server, -, hearlier, hstop⟩ := Machine.exists_of_run_error hrun
  rcases (run_sound hearlier).step_error hstop with ⟨_, _, -, -, -, hnull⟩ | hworker
  · exact .inl hnull
  · exact .inr hworker

/-! ## `main` goes on -/

/-- No client has any part in the action: `main` goes on, or a worker that is done comes to its end. -/
def Unasked : Action → Prop
  | .accept _ => False
  | .createThread _ => True
  | .scan _ => True
  | .join => True
  | .touch _ => False
  | .finish _ => False
  | .exit _ => True

/-- `main` comes back to `accept`, or stops at an empty slot. -/
def Returns (startup : Startup) (server : Server) (later : List Action) : Prop :=
  Machine.run (step startup) server later = .error (.main .null) ∨
    ∃ after, Machine.run (step startup) server later = .ok after ∧ after.main = .accepting

theorem Returns.cons {action : Action} {later : List Action} (h : Returns startup after later)
    (hstep : server.step startup action = .ok after) : Returns startup server (action :: later) := by
  unfold Returns at h ⊢
  rw [Machine.run, hstep, except_bind_ok]
  exact h

/-- A thread that has set its flag ends, and the wait for it. -/
theorem Sound.joins (h : Sound startup server) {i conn : Nat} {entry : ThreadInfo}
    (hmain : server.main = .joining i conn entry) : ∃ t after, Sound startup after ∧
      Machine.run (Server.step startup) server [.exit t, .join] = .ok after ∧
      after.main = .scanning (i + 1) entry ∧ after.table.numActive = server.table.numActive - 1 := by
  obtain ⟨-, t, phase, hslot, hthread, hphase⟩ := h.joining i conn entry hmain
  have hexit := h.exit t
  have hsame : (server.exit t).main = server.main ∧ (server.exit t).table = server.table := by
    unfold Server.exit
    split
    · exact ⟨rfl, rfl⟩
    · exact ⟨rfl, rfl⟩
  have hexited : (server.exit t).threads[t]? = some ⟨conn, .exited⟩ := by
    unfold Server.exit
    cases phase with
    | running => exact absurd rfl hphase
    | finished =>
      simp only [hthread]
      exact List.getElem?_set_self (List.getElem?_eq_some_iff.mp hthread).1
    | exited =>
      simp only [hthread]
  rcases hexit.join_cases (hsame.1.trans hmain) with ⟨t', hslot', hfinished, -⟩ | ⟨t', -, -, hjoin⟩
  · rw [hsame.2, hslot] at hslot'
    cases hslot'
    rw [hexited] at hfinished
    cases hfinished
  · refine ⟨t, _, hexit.join hjoin, ?_, rfl, ?_⟩
    · rw [Machine.run, Server.step, except_bind_ok, Machine.run, Server.step, hjoin, except_bind_ok,
        Machine.run]
    · rw [hsame.2]

/-- The scan ends: each of its turns brings it closer to its bound. -/
theorem Sound.scans (n : Nat) : ∀ {server : Server} {i : Nat} {entry : ThreadInfo},
    Sound startup server → server.main = .scanning i entry → server.table.numActive - i ≤ n →
      ∃ later, (∀ action ∈ later, Unasked action) ∧ Returns startup server later := by
  induction n with
  | zero =>
    intro server i entry h hmain hn
    have hturn := h.turn hmain fun _ => .empty
    generalize hscan : server.scan (fun _ => .empty) = result at hturn
    have hlast : server.step startup (.scan fun _ => .empty) = result := hscan
    refine ⟨[.scan fun _ => .empty], List.forall_mem_singleton.mpr trivial, ?_⟩
    cases hturn with
    | hole hi _ => omega
    | done hi _ _ _ => omega
    | busy hi _ _ _ => omega
    | last _ _ _ _ => exact Returns.cons (.inr ⟨_, rfl, rfl⟩) hlast
  | succ n ih =>
    intro server i entry h hmain hn
    have hturn := h.turn hmain fun _ => .empty
    generalize hscan : server.scan (fun _ => .empty) = result at hturn
    have hfirst : server.step startup (.scan fun _ => .empty) = result := hscan
    have hunasked : Unasked (.scan fun _ => .empty) := trivial
    cases hturn with
    | hole _ _ =>
      refine ⟨[.scan fun _ => .empty], List.forall_mem_singleton.mpr hunasked, .inl ?_⟩
      rw [Machine.run, hfirst]
      rfl
    | done _ _ _ _ =>
      obtain ⟨t, after, hafter, hjoin, hmain', htable⟩ := (h.scan hscan).joins rfl
      obtain ⟨later, hlater, hreturns⟩ := ih hafter hmain' (by rw [htable]; simp only; omega)
      refine ⟨.scan (fun _ => .empty) :: ([.exit t, .join] ++ later), ?_, Returns.cons ?_ hfirst⟩
      · rw [List.forall_mem_cons, List.forall_mem_append]
        refine ⟨hunasked, List.forall_mem_cons.mpr ⟨trivial, ?_⟩, hlater⟩
        exact List.forall_mem_singleton.mpr trivial
      · unfold Returns
        rw [Machine.run_append, hjoin, except_bind_ok]
        exact hreturns
    | busy _ _ _ _ =>
      obtain ⟨later, hlater, hreturns⟩ := ih (h.scan hscan) rfl (by simp only; omega)
      exact ⟨_ :: later, List.forall_mem_cons.mpr ⟨hunasked, hlater⟩, hreturns.cons hfirst⟩
    | last _ _ _ _ =>
      refine ⟨[.scan fun _ => .empty], List.forall_mem_singleton.mpr hunasked, ?_⟩
      exact Returns.cons (.inr ⟨_, rfl, rfl⟩) hfirst

/-- **No client can keep `main` from its next `accept`**: from wherever an interleaving has led, the
call can be brought to its end by `main` and by threads whose clients have quit. -/
theorem run_returns (startup : Startup) (actions : List Action) (server : Server)
    (hrun : run startup actions = .ok server) :
    ∃ later, (∀ action ∈ later, Unasked action) ∧ Returns startup server later := by
  have h := run_sound hrun
  cases hmain : server.main with
  | accepting => exact ⟨[], fun _ hmem => (nomatch hmem), .inr ⟨server, rfl, hmain⟩⟩
  | creating conn =>
    have hafter := h.createThread true
    have hscanning : (server.createThread true).main =
        .scanning 0 ⟨some conn, some server.threads.length⟩ := by
      unfold Server.createThread
      rw [hmain]
      rfl
    obtain ⟨later, hlater, hreturns⟩ := hafter.scans _ hscanning (Nat.le_refl _)
    exact ⟨.createThread true :: later, List.forall_mem_cons.mpr ⟨trivial, hlater⟩,
      hreturns.cons rfl⟩
  | scanning i entry => exact h.scans _ hmain (Nat.le_refl _)
  | joining i conn entry =>
    obtain ⟨t, after, hafter, hjoin, hmain', -⟩ := h.joins hmain
    obtain ⟨later, hlater, hreturns⟩ := hafter.scans _ hmain' (Nat.le_refl _)
    refine ⟨[.exit t, .join] ++ later, ?_, ?_⟩
    · rw [List.forall_mem_append]
      refine ⟨List.forall_mem_cons.mpr ⟨trivial, ?_⟩, hlater⟩
      exact List.forall_mem_singleton.mpr trivial
    · unfold Returns
      rw [Machine.run_append, hjoin, except_bind_ok]
      exact hreturns

/-- A process whose clients all send the same. -/
def serving (incoming : List Arrival) : Startup := ⟨[], fun _ => ⟨.benign obliging, incoming⟩⟩

/-- The first client quits while the second is let in. -/
def quitting : List Action := [
  .accept 0, .createThread true, .touch 0, .scan fun _ => .empty,
  .accept 1, .createThread true, .finish 0, .scan fun _ => .empty]

/-- `main` waits for the first client's thread, and goes on. -/
theorem quitting_returns : ∃ server, run (serving setOptionAndQuit) quitting = .ok server ∧
    server.main = .joining 0 0 ⟨some 1, some 1⟩ ∧
    ∃ later, (∀ action ∈ later, Unasked action) ∧ Returns (serving setOptionAndQuit) server later := by
  have hmain : (run (serving setOptionAndQuit) quitting).toOption.map (·.main) =
      some (.joining 0 0 ⟨some 1, some 1⟩) := by decide +kernel
  obtain ⟨server, hserver, hmain⟩ := Option.map_eq_some_iff.mp hmain
  have hrun := Exec.eq_ok_of_toOption hserver
  exact ⟨server, hrun, hmain, run_returns _ quitting server hrun⟩

end Server

end Fxmy
