import Fxmy.Verify.Outcome
import Fxmy.Verify.Sending

/-!
# The results of a run

Whatever the client and the driver do, `column_count_error_code` is that of a success whenever a
result is sent (`Sends.counters_eq`): no handler sets it. So the layout agrees with the status in a
run exactly if each command of it that is answered succeeds (`results_agree_iff`).
-/

namespace Fxmy

open Exec

/-! ## Runs -/

section

variable (env : Env) (w₀ : World)

/-- The states in which the worker waits for a command. -/
inductive Waits : World → Prop where
  | start {w w' : World} : workerStart env w₀ = .ok ⟨⟩ w → reply env w = .ok ⟨⟩ w' → Waits w'
  | next {w w₁ w₂ w' : World} : Waits w → handleCommandPacket env w = .ok 0 w₁ →
      reply env w₁ = .ok ⟨⟩ w₂ → resetTransientState env w₂ = .ok ⟨⟩ w' → Waits w'

/-- The states in which the worker calls `fxmy_send_result`. -/
inductive Sends : World → Prop where
  | start {w : World} : workerStart env w₀ = .ok ⟨⟩ w → Sends w
  | command {w w' : World} : Waits env w₀ w → handleCommandPacket env w = .ok 0 w' → Sends w'

end

/-! ## The counters -/

/-- What the layout of a result depends on besides the status. -/
def World.counters (w : World) : UInt64 × UInt64 × UInt64 :=
  (w.conn.columnCountErrorCode, w.conn.affectedRows, w.conn.insertId)

theorem counters_unserved : Unserved World.counters :=
  ⟨⟨⟨fun _ _ => rfl, fun _ _ => rfl⟩, fun _ _ => rfl⟩, fun _ _ _ _ _ => rfl, fun _ _ => rfl,
    fun _ _ => rfl⟩

theorem counters_of_session {α : Type} {x : Prog α} (h : Keeps World.session x) :
    Keeps World.counters x :=
  h.comp fun conn => (conn.columnCountErrorCode, conn.affectedRows, conn.insertId)

theorem workerStart_counters (env : Env) : Keeps World.counters (workerStart env) := by
  have hcall := odbcCall_keeps counters_unserved.toUnasked env
  exact .bind (.modify fun _ => rfl) fun _ =>
    .bind (hcall _) fun _ => .bind (.lift _ _) fun _ =>
    .bind (hcall _) fun _ => .bind (.lift _ _) fun _ =>
    .bind (hcall _) fun _ => .bind (.lift _ _) fun _ =>
    .bind (.modify fun _ => rfl) fun _ =>
    .bind (counters_of_session (send_keeps env _ _)) fun _ => .bind (.lift _ _) fun _ =>
    .bind (.bind (counters_of_session (recv_keeps env)) fun _ =>
      parseAuthPacket_keeps counters_unserved env) fun _ =>
    .bind (.lift _ _) fun _ => .bind .get fun _ => .bind (.lift _ _) fun _ => .bind (.lift _ _) fun _ =>
    .bind (.lift _ _) fun _ => .modify fun _ => rfl

theorem handleCommandPacket_counters (env : Env) : Keeps World.counters (handleCommandPacket env) :=
  .bind (counters_of_session (recv_keeps env)) fun _ => .bind .get fun _ => .bind (.lift _ _) fun _ =>
    handleCommand_keeps counters_unserved env _ _

/-! ## What holds in every run -/

/-- No result has been counted yet, and the status is that of `FXMY_OK`. -/
structure World.Idle (w : World) : Prop where
  counters : w.counters = (0, 0, 0)
  status : w.conn.status = some statusOk

section

variable {env : Env} {connectionString : List FxmyChar} {incoming : List Arrival} {w w' : World}

theorem workerStart_idle
    (h : workerStart env (World.fresh connectionString incoming) = .ok ⟨⟩ w) : w.Idle := by
  have hstatus : Ensures (fun w => w.conn.status = some statusOk) (workerStart env) :=
    .bind fun _ => .bind fun _ => .bind fun _ => .bind fun _ => .bind fun _ => .bind fun _ =>
      .bind fun _ => .bind fun _ => .bind fun _ => .bind fun _ => .bind fun _ => .bind fun _ =>
      .bind fun _ => .bind fun _ => .bind fun _ => .modify fun _ => rfl
  exact ⟨(workerStart_counters env).of_ok h, hstatus _ _ _ h⟩

theorem reply_idle (hw : w.Idle) (h : reply env w = .ok ⟨⟩ w') : w'.Idle := by
  have hsession := (reply_keeps env).of_ok h
  exact ⟨((counters_of_session (reply_keeps env)).of_ok h).trans hw.counters,
    (congrArg Connection.status hsession).trans hw.status⟩

theorem resetTransientState_idle (h : resetTransientState env w = .ok ⟨⟩ w') : w'.Idle := by
  obtain rfl := resetTransientState_returns h
  exact ⟨rfl, rfl⟩

/-- **The invariant of the worker's loop.** -/
theorem Waits.idle (h : Waits env (World.fresh connectionString incoming) w) : w.Idle := by
  cases h with
  | start hstart hreply => exact reply_idle (workerStart_idle hstart) hreply
  | next _ _ _ hreset => exact resetTransientState_idle hreset

theorem Sends.counters_eq (h : Sends env (World.fresh connectionString incoming) w) :
    w.counters = (0, 0, 0) := by
  cases h with
  | start hstart => exact (workerStart_idle hstart).counters
  | command hwaits hcommand =>
    exact ((handleCommandPacket_counters env).of_ok hcommand).trans hwaits.idle.counters

end

/-! ## The worker's loop -/

section

variable {env : Env} {connectionString : List FxmyChar} {incoming : List Arrival} {w w₁ w₂ w' : World}

/-- One more turn at the end of the loop. -/
theorem workerLoop_append {n : Nat} (h : workerLoop env n w = .ok false w₁)
    (hcommand : handleCommandPacket env w₁ = .ok 0 w₂) {w₃ : World}
    (hreply : reply env w₂ = .ok ⟨⟩ w₃) (hreset : resetTransientState env w₃ = .ok ⟨⟩ w') :
    workerLoop env (n + 1) w = .ok false w' := by
  induction n generalizing w with
  | zero =>
    cases h
    unfold workerLoop
    rw [bind_of_ok hcommand, if_pos rfl, bind_of_ok hreply, bind_of_ok hreset]
    rfl
  | succ n ih =>
    unfold workerLoop at h
    obtain ⟨rv, w₄, hfirst, h⟩ := bind_eq_ok.mp h
    rw [workerLoop, bind_of_ok hfirst]
    by_cases hzero : rv = 0
    · rw [if_pos hzero] at h ⊢
      obtain ⟨_, w₅, hreply₅, h⟩ := bind_eq_ok.mp h
      obtain ⟨_, w₆, hreset₆, h⟩ := bind_eq_ok.mp h
      rw [bind_of_ok hreply₅, bind_of_ok hreset₆]
      exact ih h
    · rw [if_neg hzero] at h ⊢
      by_cases hneg : rv < 0
      · rw [if_pos hneg] at h
        cases h
      · rw [if_neg hneg] at h ⊢
        exact ih h

/-- A turn of the loop: the client quits, or its command is answered. -/
theorem workerLoop_succ (hstatus : w.conn.status = some statusOk) {n : Nat} {quit : Bool}
    (h : workerLoop env (n + 1) w = .ok quit w') :
    quit = true ∧ handleCommandPacket env w = .ok (-1) w' ∨
      ∃ w₁ w₂ w₃, handleCommandPacket env w = .ok 0 w₁ ∧ reply env w₁ = .ok ⟨⟩ w₂ ∧
        resetTransientState env w₂ = .ok ⟨⟩ w₃ ∧ workerLoop env n w₃ = .ok quit w' := by
  unfold workerLoop at h
  obtain ⟨rv, w₁, hcommand, h⟩ := bind_eq_ok.mp h
  rcases handleCommandPacket_outcome hstatus hcommand with rfl | ⟨rfl, -⟩
  · rw [if_neg (by decide), if_pos (by decide)] at h
    cases h
    exact .inl ⟨rfl, hcommand⟩
  · rw [if_pos rfl] at h
    obtain ⟨_, w₂, hreply, h⟩ := bind_eq_ok.mp h
    obtain ⟨_, w₃, hreset, h⟩ := bind_eq_ok.mp h
    exact .inr ⟨w₁, w₂, w₃, hcommand, hreply, hreset, h⟩

/-- What the worker waits in after some turns of the loop, it waits in. -/
theorem Waits.loop (hw : Waits env (World.fresh connectionString incoming) w) {n : Nat}
    (h : workerLoop env n w = .ok false w') : Waits env (World.fresh connectionString incoming) w' := by
  induction n generalizing w with
  | zero =>
    cases h
    exact hw
  | succ n ih =>
    rcases workerLoop_succ hw.idle.status h with ⟨hquit, -⟩ |
      ⟨w₁, w₂, w₃, hcommand, hreply, hreset, hrest⟩
    · cases hquit
    · exact ih (hw.next hcommand hreply hreset) hrest

/-- The worker waits in the states in which its loop runs out of turns. -/
theorem waits_iff : Waits env (World.fresh connectionString incoming) w ↔
    ∃ n, (do workerStart env; reply env; workerLoop env n : Prog Bool)
      (World.fresh connectionString incoming) = .ok false w := by
  constructor
  · intro h
    induction h with
    | start hstart hreply =>
      refine ⟨0, ?_⟩
      rw [bind_of_ok hstart, bind_of_ok hreply]
      rfl
    | next _ hcommand hreply hreset ih =>
      obtain ⟨n, hn⟩ := ih
      obtain ⟨_, w₁, hstart, hn⟩ := bind_eq_ok.mp hn
      obtain ⟨_, w₂, hfirst, hn⟩ := bind_eq_ok.mp hn
      refine ⟨n + 1, ?_⟩
      rw [bind_of_ok hstart, bind_of_ok hfirst]
      exact workerLoop_append hn hcommand hreply hreset
  · rintro ⟨n, hn⟩
    obtain ⟨_, w₁, hstart, hn⟩ := bind_eq_ok.mp hn
    obtain ⟨_, w₂, hfirst, hn⟩ := bind_eq_ok.mp hn
    exact (Waits.start hstart hfirst).loop hn

end

/-! ## Layout and status -/

/-- What `fxmy_send_result` emits is the layout for the status. -/
def Agrees (env : Env) (w : World) : Prop :=
  ∃ status, w.conn.status = some status ∧ Emits env w (layout w.conn status)

/-- `column_count_error_code` says of the command what the status says. -/
def InStep (conn : Connection) : Prop :=
  ∃ status, conn.status = some status ∧
    (status.succeeded = false ↔ conn.columnCountErrorCode = FXMY_ERROR)

section

variable {env : Env} {connectionString : List FxmyChar} {incoming : List Arrival} {w w' : World}

/-- With the counters of a success, only a success agrees. -/
theorem agrees_iff (env : Env) {p : Prop} (hcounters : w.counters = (0, 0, 0))
    (houtcome : Outcome p w.conn.status) : (Agrees env w ↔ p) ∧ (InStep w.conn ↔ p) := by
  have hcode : w.conn.columnCountErrorCode = FXMY_OK := congrArg (·.1) hcounters
  have hrows : w.conn.affectedRows = 0 := congrArg (·.2.1) hcounters
  have hid : w.conn.insertId = 0 := congrArg (·.2.2) hcounters
  have hne : ¬ w.conn.columnCountErrorCode = FXMY_ERROR := by
    rw [hcode]
    decide
  rw [← houtcome.succeeds_iff]
  refine ⟨⟨?_, ?_⟩, ⟨?_, ?_⟩⟩
  · rintro ⟨status, hstatus, hemits⟩
    refine ⟨status, hstatus, eq_true_of_ne_false fun hfailed => ?_⟩
    exact not_emits_layout env hstatus (houtcome.mem status hstatus) hcode hrows hid hfailed hemits
  · rintro ⟨status, hstatus, hsucceeded⟩
    refine ⟨status, hstatus, ?_⟩
    exact emits_layout env hstatus (houtcome.mem status hstatus) (.inl hcode)
      (iff_of_false (by simp [hsucceeded]) hne)
  · rintro ⟨status, hstatus, hstep⟩
    exact ⟨status, hstatus, by simpa using mt hstep.mp hne⟩
  · rintro ⟨status, hstatus, hsucceeded⟩
    exact ⟨status, hstatus, iff_of_false (by simp [hsucceeded]) hne⟩

/-- The result that follows the auth packet is a success. -/
theorem start_outcome (h : workerStart env (World.fresh connectionString incoming) = .ok ⟨⟩ w) :
    Outcome True w.conn.status := by
  rw [(workerStart_idle h).status]
  exact outcome_statusOk

theorem Waits.outcome (hw : Waits env (World.fresh connectionString incoming) w)
    (h : handleCommandPacket env w = .ok 0 w') : Outcome (Succeeds env w) w'.conn.status := by
  rcases handleCommandPacket_outcome hw.idle.status h with h | ⟨-, houtcome⟩
  · cases h
  · exact houtcome

end

/-- **Layout and status agree in a run** exactly if each of its commands that is answered succeeds,
and they agree wherever `column_count_error_code` is in step with the status. -/
theorem results_agree_iff (env : Env) (connectionString : List FxmyChar) (incoming : List Arrival) :
    let w₀ := World.fresh connectionString incoming
    (∀ w, Sends env w₀ w → (Agrees env w ↔ InStep w.conn)) ∧
      ((∀ w, Sends env w₀ w → Agrees env w) ↔
        ∀ w w', Waits env w₀ w → handleCommandPacket env w = .ok 0 w' → Succeeds env w) := by
  refine ⟨?_, ?_, ?_⟩
  · intro w hsends
    have hcounters := hsends.counters_eq
    cases hsends with
    | start hstart =>
      obtain ⟨hagrees, hstep⟩ := agrees_iff env hcounters (start_outcome hstart)
      exact hagrees.trans hstep.symm
    | command hwaits hcommand =>
      obtain ⟨hagrees, hstep⟩ := agrees_iff env hcounters (hwaits.outcome hcommand)
      exact hagrees.trans hstep.symm
  · intro hall w w' hwaits hcommand
    have hsends := Sends.command hwaits hcommand
    exact (agrees_iff env hsends.counters_eq (hwaits.outcome hcommand)).1.mp (hall w' hsends)
  · intro hall w hsends
    have hcounters := hsends.counters_eq
    cases hsends with
    | start hstart => exact (agrees_iff env hcounters (start_outcome hstart)).1.mpr trivial
    | command hwaits hcommand =>
      exact (agrees_iff env hcounters (hwaits.outcome hcommand)).1.mpr (hall _ _ hwaits hcommand)

/-- A driver that does not know the database it is asked for. -/
def unknownDatabase (_ : List OdbcCall) (call : OdbcCall) : OdbcReply :=
  match call with
  | .driverConnect _ _ => ⟨-1, .null, fun _ _ => [208]⟩
  | .execDirect _ _ => ⟨-1, .null, fun _ _ => [208]⟩
  | _ => obliging [] call

/-- A client that authenticates as `sa` without a database and then selects the database `x`. -/
def selectDatabase : List Arrival := [
  .data (frameHeader 36 1),
  .data ([0, 0x82, 0, 0, 0, 0, 0, 1, 8] ++ List.replicate 23 0 ++ [0x73, 0x61, 0, 0]),
  .data (frameHeader 2 0),
  .data [2, 0x78]]

/-- The failure to select a database is sent in the layout of a success. -/
theorem unknown_database_disagrees :
    ∃ w, Sends (Env.benign unknownDatabase) (World.fresh [] selectDatabase) w ∧
      ¬ Agrees (Env.benign unknownDatabase) w ∧ ¬ InStep w.conn := by
  have hrun : (match (do
      workerStart (Env.benign unknownDatabase)
      reply (Env.benign unknownDatabase)
      handleCommandPacket (Env.benign unknownDatabase) : Prog Int)
        (World.fresh [] selectDatabase) with
      | .ok rv w => rv == 0 && w.conn.status == some statusDefault
      | .error _ _ => false) = true := by decide +kernel
  split at hrun
  · next rv w hok =>
    obtain ⟨hrv, hstatus⟩ := Bool.and_eq_true_iff.mp hrun
    obtain ⟨_, w₁, hstart, hok⟩ := bind_eq_ok.mp hok
    obtain ⟨_, w₂, hreply, hok⟩ := bind_eq_ok.mp hok
    rw [eq_of_beq hrv] at hok
    have hsends := Sends.command (.start hstart hreply) hok
    have houtcome : Outcome False w.conn.status := by
      rw [eq_of_beq hstatus]
      exact Outcome.some_iff.mpr ⟨by decide, by simp [succeeded_statusDefault]⟩
    obtain ⟨hagrees, hstep⟩ := agrees_iff (Env.benign unknownDatabase) hsends.counters_eq houtcome
    exact ⟨w, hsends, hagrees.mp, hstep.mp⟩
  · cases hrun

end Fxmy
