import Fxmy.MainWin
import Fxmy.Lib.Exec

/-!
# The connection table over a run

`fxmy_add_new_connection` counts its entries down while it scans up to the count, and leaves holes
where it frees. A slot is in reach of the scan if its index, with the flagged connections before it
added, is below the count. A call does what it is for exactly if every flagged connection is in
reach and no hole is (`meets_iff_inReach`), in every run.
-/

namespace Fxmy

namespace ThreadInfo

/-- The slot holds a connection. -/
def occupied (slot : ThreadInfo) : Bool := slot.conn.isSome

/-- The slot holds a connection whose `done` flag is set. -/
def flagged (done : Nat → Bool) (slot : ThreadInfo) : Bool := slot.conn.any done

theorem occupied_of_flagged {done : Nat → Bool} {slot : ThreadInfo} (h : slot.flagged done = true) :
    slot.occupied = true := by
  unfold flagged at h
  unfold occupied
  cases hc : slot.conn with
  | none => simp [hc] at h
  | some c => rfl

/-- The slot after a scan that reaches every flagged slot. -/
def cleared (done : Nat → Bool) (slot : ThreadInfo) : ThreadInfo :=
  if slot.flagged done then .empty else slot

end ThreadInfo

namespace ConnectionTable

/-! ## What a call is for -/

/-- The entries of the table that hold connections. -/
def connections (table : ConnectionTable) : List ThreadInfo :=
  table.contextArray.filter (·.occupied)

/-- A call of `fxmy_add_new_connection`: its arguments, the flags it finds set and what `realloc`
leaves in new slots. -/
structure Call where
  conn : Nat
  threadHandle : Option Nat
  done : Nat → Bool
  garbage : Nat → ThreadInfo

/-- The call runs on the table. -/
def Call.run (call : Call) (table : ConnectionTable) :
    Except Stop (ConnectionTable × List ThreadInfo) :=
  addNewConnection call.garbage call.done table call.conn call.threadHandle

/-- The call returns, without a read through the NULL of an empty slot; it has released exactly the
connections whose flag was set; and the table holds the others and the new one. -/
def Meets (table : ConnectionTable) (call : Call) : Prop :=
  ∃ after released, call.run table = .ok (after, released) ∧
    released.Perm (table.connections.filter (·.flagged call.done)) ∧
    after.connections.Perm
      (⟨some call.conn, call.threadHandle⟩ ::
        table.connections.filter (fun slot => !slot.flagged call.done))

/-- Slot `i` is in reach of the scan. -/
def Reached (done : Nat → Bool) (table : ConnectionTable) (i : Nat) : Prop :=
  i + (table.contextArray.take i).countP (·.flagged done) < table.numActive

/-- Every flagged connection is in reach of the scan, and no empty slot is. -/
def InReach (table : ConnectionTable) (call : Call) : Prop :=
  ∀ i slot, table.contextArray[i]? = some slot →
    (slot.flagged call.done = true → Reached call.done table i) ∧
      (slot.conn = none → ¬ Reached call.done table i)

/-- `P` holds of every call of a run from `table`, in the state it is made in. A run ends with a
call that does not return. -/
def AllCalls (P : ConnectionTable → Call → Prop) : ConnectionTable → List Call → Prop
  | _, [] => True
  | table, call :: calls =>
    P table call ∧ ∀ after released, call.run table = .ok (after, released) → AllCalls P after calls

/-- The invariant of every run: the count is the number of connections, and a slot without one is
zeroed. -/
structure Valid (table : ConnectionTable) : Prop where
  count : table.numActive = table.connections.length
  zeroed : ∀ slot ∈ table.contextArray, slot.conn = none → slot = .empty

theorem valid_initial : Valid initial := ⟨rfl, by simp [initial]⟩

/-! ## The scan -/

section Scan

variable {done : Nat → Bool}

/-- `InReach` for the slots from `off` on, under the bound `n`. -/
def InReachFrom (done : Nat → Bool) (off n : Nat) (slots : List ThreadInfo) : Prop :=
  ∀ i slot, slots[i]? = some slot →
    (slot.flagged done = true → off + i + (slots.take i).countP (·.flagged done) < n) ∧
      (slot.conn = none → n ≤ off + i + (slots.take i).countP (·.flagged done))

/-- A flagged slot shortens the reach of the slots behind it by one. -/
theorem inReachFrom_cons {off n : Nat} {slot : ThreadInfo} {slots : List ThreadInfo} :
    InReachFrom done off n (slot :: slots) ↔
      (slot.flagged done = true → off < n) ∧ (slot.conn = none → n ≤ off) ∧
        InReachFrom done (off + 1 + if slot.flagged done then 1 else 0) n slots := by
  have hshift : ∀ i, off + (i + 1) + ((slot :: slots).take (i + 1)).countP (·.flagged done) =
      off + 1 + (if slot.flagged done then 1 else 0) + i +
        (slots.take i).countP (·.flagged done) := by
    intro i
    rw [List.take_succ_cons, List.countP_cons]
    omega
  constructor
  · intro h
    have h0 := h 0 slot rfl
    simp only [List.take_zero, List.countP_nil, Nat.add_zero] at h0
    refine ⟨h0.1, h0.2, ?_⟩
    intro i s hs
    have hi := h (i + 1) s (by simpa using hs)
    rwa [hshift] at hi
  · rintro ⟨hf, he, h⟩ i s hs
    cases i with
    | zero =>
      obtain rfl : slot = s := by simpa using hs
      simpa using ⟨hf, he⟩
    | succ i =>
      rw [hshift]
      exact h i s (by simpa using hs)

/-- Only the distance of the offset from the bound matters. -/
theorem inReachFrom_shift {off n : Nat} {slots : List ThreadInfo} (h : off < n) :
    InReachFrom done (off + 1 + 1) n slots ↔ InReachFrom done (off + 1) (n - 1) slots := by
  unfold InReachFrom
  refine forall₃_congr fun i slot _ => ?_
  refine and_congr (imp_congr_right fun _ => ?_) (imp_congr_right fun _ => ?_) <;> omega

/-- Where nothing is flagged there is nothing to clear and to release. -/
theorem cleared_of_not_flagged {slots : List ThreadInfo} (h : ∀ s ∈ slots, s.flagged done = false) :
    slots.map (·.cleared done) = slots ∧ slots.countP (·.flagged done) = 0 ∧
      slots.filter (·.flagged done) = [] := by
  refine ⟨?_, ?_, ?_⟩
  · rw [List.map_congr_left (g := id), List.map_id]
    intro s hs
    simp [ThreadInfo.cleared, h s hs]
  · rw [List.countP_eq_zero]
    intro s hs
    simp [h s hs]
  · rw [List.filter_eq_nil_iff]
    intro s hs
    simp [h s hs]

/-- No flagged slot is out of reach. -/
theorem InReachFrom.not_flagged {off n : Nat} {slots : List ThreadInfo}
    (h : InReachFrom done off n slots) (hoff : ¬ off < n) : ∀ s ∈ slots, s.flagged done = false := by
  intro s hs
  obtain ⟨i, hi⟩ := List.mem_iff_getElem?.mp hs
  refine Bool.eq_false_iff.mpr fun hflag => ?_
  have := (h i s hi).1 hflag
  omega

/-- With everything in reach that should be, the scan clears the flagged slots and releases them. -/
theorem scanLoop_eq {slots : List ThreadInfo} : ∀ {off n : Nat},
    InReachFrom done off n slots → n ≤ off + slots.length →
      scanLoop done off n slots =
        .ok (slots.map (·.cleared done), n - slots.countP (·.flagged done),
          slots.filter (·.flagged done)) := by
  induction slots with
  | nil =>
    intro off n _ hn
    have : ¬ off < n := by simpa using hn
    simp [scanLoop, this]
  | cons slot slots ih =>
    intro off n h hn
    obtain ⟨hf, he, hrest⟩ := inReachFrom_cons.mp h
    rw [List.length_cons] at hn
    unfold scanLoop
    by_cases hoff : off < n
    · rw [if_pos hoff]
      cases hc : slot.conn with
      | none =>
        have := he hc
        omega
      | some c =>
        have hflag : slot.flagged done = done c := by simp [ThreadInfo.flagged, hc]
        rw [hflag] at hrest
        cases hd : done c with
        | true =>
          simp only [hd, if_true] at hrest
          have h' := ih ((inReachFrom_shift hoff).mp hrest) (by omega)
          simp only [hd, h']
          simp [ThreadInfo.cleared, hflag, hd, bind, Except.bind]
          omega
        | false =>
          simp only [hd, Bool.false_eq_true, if_false, Nat.add_zero] at hrest
          have h' := ih hrest (by omega)
          simp only [hd, h']
          simp [ThreadInfo.cleared, hflag, hd, bind, Except.bind]
    · -- The scan has ended, so nothing behind it is flagged.
      obtain ⟨hmap, hcount, hfilter⟩ := cleared_of_not_flagged (h.not_flagged hoff)
      rw [if_neg hoff, hmap, hcount, hfilter, Nat.sub_zero]

/-- What a scan that returns does with a slot: it has ended before it, or it releases the slot's
connection, or it leaves it. -/
theorem scanLoop_cons {off n n' : Nat} {slot : ThreadInfo} {slots slots' released : List ThreadInfo}
    (h : scanLoop done off n (slot :: slots) = .ok (slots', n', released)) :
    ¬ off < n ∧ slots' = slot :: slots ∧ n' = n ∧ released = [] ∨
      off < n ∧ slot.occupied = true ∧
        (slot.flagged done = true ∧ (∃ t r, scanLoop done (off + 1) (n - 1) slots = .ok (t, n', r) ∧
            slots' = .empty :: t ∧ released = slot :: r) ∨
          slot.flagged done = false ∧ ∃ t, scanLoop done (off + 1) n slots = .ok (t, n', released) ∧
            slots' = slot :: t) := by
  unfold scanLoop at h
  split at h
  · next hoff =>
    cases hc : slot.conn with
    | none => simp [hc] at h
    | some c =>
      have hocc : slot.occupied = true := by simp [ThreadInfo.occupied, hc]
      have hflag : slot.flagged done = done c := by simp [ThreadInfo.flagged, hc]
      refine .inr ⟨hoff, hocc, ?_⟩
      simp only [hc] at h
      split at h
      · next hd =>
        obtain ⟨⟨t, m, r⟩, hrec, h⟩ := Exec.except_bind_eq_ok.mp h
        cases h
        exact .inl ⟨hflag.trans hd, t, r, hrec, rfl, rfl⟩
      · next hd =>
        obtain ⟨⟨t, m, r⟩, hrec, h⟩ := Exec.except_bind_eq_ok.mp h
        cases h
        exact .inr ⟨hflag.trans (eq_false_of_ne_true hd), t, hrec, rfl⟩
  · next hoff =>
    cases h
    exact .inl ⟨hoff, rfl, rfl, rfl⟩

/-- What any scan that returns has done: it has released `released`, flagged connections of the
table, and lowered its bound by as many; it keeps the others, and the slots it cleared are empty. -/
theorem scanLoop_ok {slots : List ThreadInfo} : ∀ {off n : Nat} {slots' : List ThreadInfo} {n' : Nat}
    {released : List ThreadInfo}, scanLoop done off n slots = .ok (slots', n', released) →
      n' + released.length = n ∧
      (slots.filter (·.occupied)).Perm (released ++ slots'.filter (·.occupied)) ∧
      (∀ s ∈ slots', s ∈ slots ∨ s = .empty) ∧ ∀ s ∈ released, s.flagged done = true := by
  induction slots with
  | nil =>
    intro off n slots' n' released h
    unfold scanLoop at h
    split at h
    · cases h
    · cases h
      simp
  | cons slot slots ih =>
    intro off n slots' n' released h
    rcases scanLoop_cons h with ⟨-, rfl, rfl, rfl⟩ |
      ⟨hoff, hocc, ⟨hflag, t, r, hrec, rfl, rfl⟩ | ⟨-, t, hrec, rfl⟩⟩
    · exact ⟨rfl, .refl _, fun s hs => .inl hs, fun _ hs => nomatch hs⟩
    · obtain ⟨hn, hperm, hm, hr⟩ := ih hrec
      refine ⟨?_, ?_, ?_, List.forall_mem_cons.mpr ⟨hflag, hr⟩⟩
      · rw [List.length_cons]
        omega
      · have : ThreadInfo.empty.occupied = false := rfl
        simp only [List.filter_cons, hocc, this, if_true, Bool.false_eq_true, if_false]
        exact hperm.cons slot
      · intro s hs
        rcases List.mem_cons.mp hs with rfl | hs
        · exact .inr rfl
        · exact (hm s hs).imp_left (List.mem_cons_of_mem slot)
    · obtain ⟨hn, hperm, hm, hr⟩ := ih hrec
      refine ⟨hn, ?_, ?_, hr⟩
      · simp only [List.filter_cons, hocc, if_true]
        exact (hperm.cons slot).trans List.perm_middle.symm
      · intro s hs
        rcases List.mem_cons.mp hs with rfl | hs
        · exact .inl List.mem_cons_self
        · exact (hm s hs).imp_left (List.mem_cons_of_mem slot)

/-- A scan that is not asked to go beyond the slots stops only at an empty one. -/
theorem scanLoop_error {slots : List ThreadInfo} : ∀ {off n : Nat} {e : Stop},
    scanLoop done off n slots = .error e → n ≤ off + slots.length → e = .null := by
  induction slots with
  | nil =>
    intro off n e h hn
    unfold scanLoop at h
    rw [if_neg (by simpa using hn)] at h
    cases h
  | cons slot slots ih =>
    intro off n e h hn
    rw [List.length_cons] at hn
    unfold scanLoop at h
    split at h
    · cases hc : slot.conn with
      | none =>
        simp only [hc] at h
        cases h
        rfl
      | some c =>
        simp only [hc] at h
        split at h
        · rcases Exec.except_bind_eq_error.mp h with h | ⟨⟨t, m, r⟩, -, h⟩
          · exact ih h (by omega)
          · cases h
        · rcases Exec.except_bind_eq_error.mp h with h | ⟨⟨t, m, r⟩, -, h⟩
          · exact ih h (by omega)
          · cases h
    · cases h

/-- A scan that returns and has released every flagged connection had them all in reach, and no
empty slot. -/
theorem inReach_of_scanLoop {slots : List ThreadInfo} : ∀ {off n : Nat} {slots' : List ThreadInfo}
    {n' : Nat} {released : List ThreadInfo},
    scanLoop done off n slots = .ok (slots', n', released) →
      released.length = slots.countP (·.flagged done) → InReachFrom done off n slots := by
  induction slots with
  | nil => intro off n slots' n' released _ _ i slot hi; simp at hi
  | cons slot slots ih =>
    intro off n slots' n' released h hlen
    rw [inReachFrom_cons]
    rcases scanLoop_cons h with ⟨hoff, rfl, rfl, rfl⟩ |
      ⟨hoff, hocc, ⟨hflag, t, r, hrec, rfl, rfl⟩ | ⟨hflag, t, hrec, rfl⟩⟩
    · -- Nothing was released, so nothing is flagged.
      have hnone : ∀ s ∈ slot :: slots, ¬ s.flagged done = true := List.countP_eq_zero.mp hlen.symm
      refine ⟨fun hf => absurd hf (hnone slot List.mem_cons_self), fun _ => by omega, ?_⟩
      intro i s hi
      have hs : s ∈ slots := List.mem_of_getElem? hi
      refine ⟨fun hf => absurd hf (hnone s (List.mem_cons_of_mem _ hs)), fun _ => by omega⟩
    · rw [List.countP_cons, if_pos hflag, List.length_cons] at hlen
      refine ⟨fun _ => hoff, fun hc => ?_, ?_⟩
      · simp [ThreadInfo.occupied, hc] at hocc
      · rw [if_pos hflag]
        exact (inReachFrom_shift hoff).mpr (ih hrec (by omega))
    · rw [List.countP_cons, hflag] at hlen
      refine ⟨fun _ => hoff, fun hc => ?_, ?_⟩
      · simp [ThreadInfo.occupied, hc] at hocc
      · rw [hflag]
        exact ih hrec hlen

end Scan

/-! ## The new entry -/

/-- A table that is not full of connections stays as it is. A full one gets empty slots: the
`memset` starts at the count, which is the number of slots then. -/
theorem grow_eq (garbage : Nat → ThreadInfo) {table : ConnectionTable} (h : Valid table) :
    ∃ fresh : List ThreadInfo, (∀ s ∈ fresh, s = .empty) ∧
      grow garbage table = .ok { table with contextArray := table.contextArray ++ fresh } ∧
      table.connections.length < (table.contextArray ++ fresh).length := by
  have hcount := h.count
  have hle : table.connections.length ≤ table.contextArray.length := List.length_filter_le _ _
  unfold grow numEntries
  split
  · next hfull =>
    have hn : table.numActive = table.contextArray.length := by omega
    refine ⟨List.replicate allocationDelta .empty, ?_, ?_, ?_⟩
    · intro s hs
      exact List.eq_of_mem_replicate hs
    · have hstore : Block.store
          (table.contextArray ++ (List.range allocationDelta).map garbage) table.numActive
          (List.replicate allocationDelta .empty) =
            some (table.contextArray ++ List.replicate allocationDelta .empty) := by
        have := Block.store_mid table.contextArray ((List.range allocationDelta).map garbage) []
          (List.replicate allocationDelta .empty) hn (by simp)
        simpa using this
      simp only [hstore]
    · rw [List.length_append, List.length_replicate]
      unfold allocationDelta
      omega
  · next hroom =>
    refine ⟨[], by simp, by simp, ?_⟩
    rw [List.append_nil]
    omega

/-- The new entry goes into an empty slot. -/
theorem insertLoop_eq (entry : ThreadInfo) (he : entry.occupied = true) {slots : List ThreadInfo}
    (hz : ∀ s ∈ slots, s.conn = none → s = .empty)
    (hroom : (slots.filter (·.occupied)).length < slots.length) :
    ∃ slots', insertLoop entry slots = .ok slots' ∧
      (slots'.filter (·.occupied)).Perm (entry :: slots.filter (·.occupied)) ∧
      ∀ s ∈ slots', s = entry ∨ s ∈ slots := by
  induction slots with
  | nil => simp at hroom
  | cons slot slots ih =>
    unfold insertLoop
    by_cases hc : slot.conn = none
    · have hempty := hz slot List.mem_cons_self hc
      have hocc : slot.occupied = false := by simp [ThreadInfo.occupied, hc]
      refine ⟨entry :: slots, ?_, ?_, ?_⟩
      · rw [if_pos hc, hempty]
        rfl
      · simp [hocc, he]
      · intro s hs
        rcases List.mem_cons.mp hs with rfl | hs
        · exact .inl rfl
        · exact .inr (List.mem_cons_of_mem _ hs)
    · have hocc : slot.occupied = true := by
        simpa [ThreadInfo.occupied, Option.isSome_iff_ne_none] using hc
      have hroom' : (slots.filter (·.occupied)).length < slots.length := by
        simp only [List.filter_cons, hocc, if_true, List.length_cons] at hroom
        omega
      obtain ⟨slots', hok, hperm, hmem⟩ :=
        ih (fun s hs => hz s (List.mem_cons_of_mem _ hs)) hroom'
      refine ⟨slot :: slots', ?_, ?_, ?_⟩
      · rw [if_neg hc, hok]
        rfl
      · simp only [List.filter_cons, hocc, if_true]
        exact (hperm.cons slot).trans (List.Perm.swap entry slot _)
      · intro s hs
        rcases List.mem_cons.mp hs with rfl | hs
        · exact .inr List.mem_cons_self
        · exact (hmem s hs).imp_right (List.mem_cons_of_mem slot)

/-- From slots whose count is right on, the call returns, adds one connection and keeps the count
and the zeroed slots. -/
theorem add_of_scanLoop {call : Call} {table : ConnectionTable} {slots released : List ThreadInfo}
    {n : Nat} (hscan : scanLoop call.done 0 table.numActive table.contextArray =
      .ok (slots, n, released)) (h : Valid ⟨slots, n⟩) :
    ∃ after, call.run table = .ok (after, released) ∧ Valid after ∧
      after.connections.Perm
        (⟨some call.conn, call.threadHandle⟩ :: slots.filter (·.occupied)) := by
  obtain ⟨fresh, hfresh, hgrow, hroom⟩ := grow_eq call.garbage h
  have hfilter : (slots ++ fresh).filter (·.occupied) = slots.filter (·.occupied) := by
    have hnil : fresh.filter (·.occupied) = [] := by
      rw [List.filter_eq_nil_iff]
      intro s hs
      rw [hfresh s hs]
      exact Bool.false_ne_true
    rw [List.filter_append, hnil, List.append_nil]
  have hz : ∀ s ∈ slots ++ fresh, s.conn = none → s = .empty := by
    intro s hs hc
    rcases List.mem_append.mp hs with hs | hs
    · exact h.zeroed s hs hc
    · exact hfresh s hs
  obtain ⟨slots', hinsert, hperm, hmem⟩ :=
    insertLoop_eq ⟨some call.conn, call.threadHandle⟩ rfl hz
      (by rw [hfilter]; exact hroom)
  rw [hfilter] at hperm
  refine ⟨⟨slots', n + 1⟩, ?_, ⟨?_, ?_⟩, hperm⟩
  · unfold Call.run addNewConnection
    rw [hscan]
    change (do let table ← grow call.garbage ⟨slots, n⟩; _) = _
    rw [hgrow]
    change (do let slots ← insertLoop _ (slots ++ fresh); _) = _
    rw [hinsert]
    rfl
  · have hlen := hperm.length_eq
    have hcount : n = (slots.filter (·.occupied)).length := h.count
    rw [List.length_cons] at hlen
    change n + 1 = (slots'.filter (·.occupied)).length
    omega
  · intro s hs hc
    rcases hmem s hs with rfl | hs
    · cases hc
    · exact hz s hs hc

/-- What the scan leaves of a table is a table. -/
theorem valid_of_scanLoop {done : Nat → Bool} {table : ConnectionTable} (h : Valid table)
    {slots released : List ThreadInfo} {n : Nat}
    (hscan : scanLoop done 0 table.numActive table.contextArray = .ok (slots, n, released)) :
    Valid ⟨slots, n⟩ := by
  obtain ⟨hn, hperm, hm, -⟩ := scanLoop_ok hscan
  have hcount := h.count
  have hlen := hperm.length_eq
  unfold connections at hcount
  rw [List.length_append] at hlen
  refine ⟨?_, ?_⟩
  · change n = (slots.filter (·.occupied)).length
    omega
  · intro s hs hc
    rcases hm s hs with hs | hs
    · exact h.zeroed s hs hc
    · exact hs

/-! ## Calls and runs -/

/-- **The invariant of a run**: a call that returns keeps it, whatever it has left undone. -/
theorem Valid.run {call : Call} {table after : ConnectionTable} {released : List ThreadInfo}
    (h : Valid table) (hrun : call.run table = .ok (after, released)) : Valid after := by
  obtain ⟨⟨slots, n, r⟩, hscan, -⟩ := Exec.except_bind_eq_ok.mp hrun
  obtain ⟨after', hrun', hvalid, -⟩ := add_of_scanLoop hscan (valid_of_scanLoop h hscan)
  rw [hrun] at hrun'
  cases hrun'
  exact hvalid

/-- One call does what it is for exactly if every flagged connection is in reach of its scan and no
empty slot is. -/
theorem meets_iff {call : Call} {table : ConnectionTable} (h : Valid table) :
    Meets table call ↔ InReach table call := by
  have hcond : InReach table call ↔
      InReachFrom call.done 0 table.numActive table.contextArray := by
    unfold InReach InReachFrom Reached
    simp only [Nat.zero_add, Nat.not_lt]
  have hflags : (table.connections.filter (·.flagged call.done)) =
      table.contextArray.filter (·.flagged call.done) := by
    unfold connections
    rw [List.filter_filter]
    refine List.filter_congr fun s _ => ?_
    cases hf : s.flagged call.done with
    | true => simp [ThreadInfo.occupied_of_flagged hf]
    | false => simp
  rw [hcond]
  constructor
  · rintro ⟨after, released, hrun, hreleased, -⟩
    obtain ⟨⟨slots, n, r⟩, hscan, -⟩ := Exec.except_bind_eq_ok.mp hrun
    obtain ⟨after', hrun', -, -⟩ := add_of_scanLoop hscan (valid_of_scanLoop h hscan)
    rw [hrun] at hrun'
    cases hrun'
    apply inReach_of_scanLoop hscan
    rw [hreleased.length_eq, hflags, List.countP_eq_length_filter]
  · intro hreach
    have hle : table.connections.length ≤ table.contextArray.length := List.length_filter_le _ _
    have hcount := h.count
    have hscan := scanLoop_eq hreach (by omega)
    obtain ⟨after, hrun, -, hperm⟩ := add_of_scanLoop hscan (valid_of_scanLoop h hscan)
    refine ⟨after, _, hrun, hflags ▸ List.Perm.refl _, ?_⟩
    have hkept : (table.contextArray.map (·.cleared call.done)).filter (·.occupied) =
        table.connections.filter (fun slot => !slot.flagged call.done) := by
      unfold connections
      induction table.contextArray with
      | nil => rfl
      | cons s slots ih =>
        simp only [List.map_cons, List.filter_cons, ih]
        cases hf : s.flagged call.done with
        | true =>
          have hempty : ThreadInfo.empty.occupied = false := rfl
          simp [ThreadInfo.cleared, hf, hempty, ThreadInfo.occupied_of_flagged hf]
        | false =>
          cases ho : s.occupied <;> simp [ThreadInfo.cleared, hf, ho]
    rwa [hkept] at hperm

/-- Two properties that agree on every table of a run agree on the run. -/
theorem allCalls_congr {P Q : ConnectionTable → Call → Prop}
    (hPQ : ∀ table call, Valid table → (P table call ↔ Q table call)) {calls : List Call} :
    ∀ {table : ConnectionTable}, Valid table → (AllCalls P table calls ↔ AllCalls Q table calls) := by
  induction calls with
  | nil => exact fun _ => Iff.rfl
  | cons call calls ih =>
    intro table h
    refine and_congr (hPQ table call h) (forall₃_congr fun after released hrun => ?_)
    exact ih (h.run hrun)

/-- **Every call of a run does what it is for** exactly if every call of the run has all its flagged
connections, and no empty slot, in reach of its scan. -/
theorem meets_iff_inReach (calls : List Call) :
    AllCalls Meets initial calls ↔ AllCalls InReach initial calls :=
  allCalls_congr (fun _ _ => meets_iff) valid_initial

/-- Connection `conn` comes in while the flags of `finished` are set. -/
def Call.arriving (conn : Nat) (finished : List Nat) : Call :=
  ⟨conn, some conn, fun c => finished.contains c, fun _ => .empty⟩

/-- Two of four connections finish together: slot 1 stays a hole below the count, and the next call
reads through its NULL. -/
theorem hole_below_count :
    ¬ AllCalls Meets initial
      [.arriving 0 [], .arriving 1 [], .arriving 2 [], .arriving 3 [], .arriving 4 [0, 1],
        .arriving 5 []] := by
  rintro ⟨-, h⟩
  obtain ⟨-, h⟩ := h _ _ rfl
  obtain ⟨-, h⟩ := h _ _ rfl
  obtain ⟨-, h⟩ := h _ _ rfl
  obtain ⟨-, h⟩ := h _ _ rfl
  obtain ⟨⟨after, released, hrun, -⟩, -⟩ := h _ _ rfl
  exact nomatch hrun

end ConnectionTable

end Fxmy
