import Fxmy.Main

/-!
# What the commands leave alone

Asking the driver leaves the connection's record alone. Connecting and executing change its status
and nothing else: not the fields of the auth packet, and not the counters that the result layout is
chosen by. Sending and receiving change the buffer and the packet number. The lemmas are about any
part of the state in which the changes do not show (`Unasked`, `Unanswered`, `Unserved`).
-/

namespace Fxmy

open Exec

/-- The connection's record apart from its status. -/
def World.record (w : World) : Connection := { w.conn with status := none }

/-- The connection's record apart from its buffer and packet number. -/
def World.session (w : World) : Connection := { w.conn with xferBuffer := .empty, packetNumber := 0 }

/-! ## Parts of the state -/

section

variable {γ : Type}

/-- What ODBC is asked does not show in `p`, nor how many blocks are out. -/
structure Unasked (p : World → γ) : Prop where
  calls : ∀ w calls, p { w with calls := calls } = p w
  numAllocations : ∀ w n, p { w with numAllocations := n } = p w

/-- Nor does the status that is made of the answers. -/
structure Unanswered (p : World → γ) : Prop extends Unasked p where
  status : ∀ w status, p { w with conn := { w.conn with status := status } } = p w

/-- Nor does what a packet asks for. -/
structure Unserved (p : World → γ) : Prop extends Unanswered p where
  auth : ∀ w buffer flags size charset, p { w with conn := { w.conn with
    xferBuffer := buffer, clientFlags := flags, maxPacketSize := size, charset := charset } } = p w
  database : ∀ w database, p { w with conn := { w.conn with database := database } } = p w
  multiStatementsOff : ∀ w off, p { w with conn := { w.conn with multiStatementsOff := off } } = p w

theorem conn_unasked : Unasked World.conn := ⟨fun _ _ => rfl, fun _ _ => rfl⟩

theorem record_unanswered : Unanswered World.record :=
  ⟨⟨fun _ _ => rfl, fun _ _ => rfl⟩, fun _ _ => rfl⟩

end

theorem session_keeps {α : Type} {x : Prog α} (h : Keeps World.conn x) : Keeps World.session x :=
  h.comp fun conn => { conn with xferBuffer := .empty, packetNumber := 0 }

section

variable {γ : Type} {p : World → γ}

theorem odbcCall_keeps (hp : Unasked p) (env : Env) (call : OdbcCall) :
    Keeps p (Prog.odbcCall env call) := fun w => hp.calls w _

theorem countAlloc_keeps (hp : Unasked p) : Keeps p Prog.countAlloc :=
  .modify fun w => hp.numAllocations w _

theorem fxmyFree_keeps {α : Type} (hp : Unasked p) (block : Option α) :
    Keeps p (Prog.fxmyFree block) :=
  .ite (.modify fun w => hp.numAllocations w _) (.pure _)

theorem setStatus_keeps (hp : Unanswered p) (status : Option Status) :
    Keeps p (Prog.setConn fun conn => { conn with status := status }) :=
  .modify fun w => hp.status w _

/-! ## Asking the driver -/

section

variable (hp : Unasked p) (env : Env)

include hp

theorem exec_keeps (query : List FxmyChar) : Keeps p (exec env query) :=
  .bind .get fun _ => .bind (.lift _ _) fun _ => .bind (odbcCall_keeps hp env _) fun _ =>
    .bind (.lift _ _) fun _ => .bind (.lift _ _) fun _ => .bind (odbcCall_keeps hp env _) fun _ =>
    .bind (.lift _ _) fun _ => .bind (.lift _ _) fun _ =>
      .ite (.bind (odbcCall_keeps hp env _) fun _ => .bind (.lift _ _) fun _ => .pure _) (.pure _)

theorem describeRows_keeps (handle : Handle) (fuel : Nat) :
    Keeps p (describeRows env handle fuel) := by
  induction fuel with
  | zero => exact .throw _
  | succ fuel ih =>
    exact .bind (odbcCall_keeps hp env _) fun _ => .bind (.lift _ _) fun _ => .bind (.lift _ _) fun _ =>
      .ite (.bind (.lift _ _) fun _ => .pure _) (.bind (.lift _ _) fun _ => ih)

omit env in
theorem copyWildcard_keeps (start stop : Option (List FxmyChar)) :
    Keeps p (copyWildcard start stop) := by
  unfold copyWildcard
  split
  · exact .bind (.lift _ _) fun _ => .bind (countAlloc_keeps hp) fun _ =>
      .bind (.lift _ _) fun _ => .pure _
  · exact .pure _

end

/-! ## Answering -/

section

variable (hp : Unanswered p) (env : Env)

include hp

theorem connect_keeps : Keeps p (connect env) :=
  .bind .get fun _ => .bind (.lift _ _) fun _ => .bind .get fun _ =>
    .bind (odbcCall_keeps hp.toUnasked env _) fun _ => .bind (.lift _ _) fun _ =>
    .bind (setStatus_keeps hp _) fun _ => .bind (.lift _ _) fun _ =>
      .ite (.pure _) (.bind .get fun _ => .bind (.lift _ _) fun _ =>
        .bind (odbcCall_keeps hp.toUnasked env _) fun _ => .bind (.lift _ _) fun _ =>
        .bind (odbcCall_keeps hp.toUnasked env _) fun _ => .bind (.lift _ _) fun _ =>
        .bind (setStatus_keeps hp _) fun _ => .bind (odbcCall_keeps hp.toUnasked env _) fun _ =>
        .bind (.lift _ _) fun _ => .pure _)

theorem describe_keeps (query : List FxmyChar) : Keeps p (describe env query) :=
  .bind (countAlloc_keeps hp.toUnasked) fun _ => .bind (.lift _ _) fun _ =>
    .bind (exec_keeps hp.toUnasked env _) fun _ => .bind (setStatus_keeps hp _) fun _ =>
    .bind (.lift _ _) fun _ =>
      .ite (.bind (fxmyFree_keeps hp.toUnasked _) fun _ => .pure _)
        (.bind (describeRows_keeps hp.toUnasked env _ _) fun _ => .bind .get fun _ =>
          .bind (.lift _ _) fun _ => .bind (odbcCall_keeps hp.toUnasked env _) fun _ =>
          .bind (.lift _ _) fun _ => .bind (fxmyFree_keeps hp.toUnasked _) fun _ => .pure _)

theorem showTablesRows_keeps (handle : Handle) : Keeps p (showTablesRows env handle) :=
  .ite (.pure _) <| .bind (odbcCall_keeps hp.toUnasked env _) fun _ => .bind (.lift _ _) fun _ =>
    .bind (.lift _ _) fun _ => .ite (.bind (.lift _ _) fun _ => setStatus_keeps hp _) (.lift _ _)

theorem showTables_keeps (query : List FxmyChar) : Keeps p (showTables env query) :=
  .bind (.lift _ _) fun _ => .bind (copyWildcard_keeps hp.toUnasked _ _) fun _ =>
    .bind (.lift _ _) fun _ => .bind (countAlloc_keeps hp.toUnasked) fun _ => .bind (.lift _ _) fun _ =>
    .bind (exec_keeps hp.toUnasked env _) fun _ => .bind (showTablesRows_keeps hp env _) fun _ =>
    .bind (fxmyFree_keeps hp.toUnasked _) fun _ =>
    .bind (fxmyFree_keeps hp.toUnasked _) fun _ => .pure _

theorem statementStatus_keeps (status : Option Status) : Keeps p (statementStatus env status) :=
  .bind (.lift _ _) fun _ => .ite (setStatus_keeps hp _) (.lift _ _)

theorem execStatement_keeps (wideQuery : List FxmyChar) : Keeps p (execStatement env wideQuery) :=
  .bind .get fun _ => .bind (.lift _ _) fun _ => .bind (odbcCall_keeps hp.toUnasked env _) fun _ =>
    .bind (.lift _ _) fun _ => .bind (.lift _ _) fun _ =>
    .bind (odbcCall_keeps hp.toUnasked env _) fun _ => .bind (.lift _ _) fun _ =>
    .bind (statementStatus_keeps hp env _) fun _ =>
    .bind (odbcCall_keeps hp.toUnasked env _) fun _ => .bind (.lift _ _) fun _ =>
    .bind (fxmyFree_keeps hp.toUnasked _) fun _ => .pure _

theorem handleWideQuery_keeps (wideQuery : List FxmyChar) :
    Keeps p (handleWideQuery env wideQuery) := by
  refine .bind (.lift _ _) fun branch => ?_
  cases branch with
  | setNames => exact .bind (.lift _ _) fun _ => .bind (.lift _ _) fun _ => .pure _
  | describe => exact describe_keeps hp env wideQuery
  | showTables => exact showTables_keeps hp env wideQuery
  | statement =>
    rw [translateCounted_eq]
    refine .bind (.lift _ _) fun statement => ?_
    cases statement with
    | none => exact .bind (.lift _ _) fun _ => .bind (setStatus_keeps hp _) fun _ => .pure _
    | some statement => exact execStatement_keeps hp env statement

theorem handleQuery_keeps (query : List UInt8) (n : Nat) : Keeps p (handleQuery env query n) :=
  .bind (countAlloc_keeps hp.toUnasked) fun _ => .bind (.lift _ _) fun _ =>
    handleWideQuery_keeps hp env _

end

/-! ## Serving a packet -/

section

variable (hp : Unserved p) (env : Env)

include hp

theorem setDatabase_keeps (database : Option (List FxmyChar)) :
    Keeps p (Prog.setConn fun conn => { conn with database := database }) :=
  .modify fun w => hp.database w _

theorem parseAuthPacket_keeps : Keeps p (parseAuthPacket env) := by
  have hparse : Keeps p (parseAuth env) :=
    .bind .get fun _ => .bind (.lift _ _) fun _ => .bind (.modify fun w => hp.auth w _ _ _ _) fun _ =>
      .ite (.bind (countAlloc_keeps hp.toUnasked) fun _ => .bind (.lift _ _) fun _ =>
        .bind (setDatabase_keeps hp _) fun _ => .pure _) (.pure _)
  exact .bind hparse fun _ => .ite (connect_keeps hp.toUnanswered env) (.pure _)

theorem handleInitDb_keeps (ptr : List UInt8) (size : Nat) : Keeps p (handleInitDb env ptr size) :=
  .bind .get fun _ => .bind (fxmyFree_keeps hp.toUnasked _) fun _ =>
    .bind (countAlloc_keeps hp.toUnasked) fun _ => .bind (.lift _ _) fun _ =>
    .bind (setDatabase_keeps hp _) fun _ => connect_keeps hp.toUnanswered env

omit env in
theorem handleSetOption_keeps (ptr : List UInt8) : Keeps p (handleSetOption ptr) := by
  unfold handleSetOption
  split
  · exact .bind (.modify fun w => hp.multiStatementsOff w _) fun _ => .pure _
  · exact .throw _

theorem handleCommand_keeps (memory : List UInt8) (size : Nat) :
    Keeps p (handleCommand env memory size) := by
  unfold handleCommand
  cases memory with
  | nil => exact .throw _
  | cons command ptr =>
    simp only
    cases hcommand : Command.ofByte command with
    | none => exact .throw _
    | some c =>
      cases c with
      | quit => exact .pure _
      | initDb => exact handleInitDb_keeps hp env ptr _
      | query => exact handleQuery_keeps hp.toUnanswered env ptr _
      | setOption => exact handleSetOption_keeps hp ptr
      | _ => exact .throw _

end

end

section

variable (env : Env)

/-! ## Traffic -/

theorem socketSend_keeps (block : List UInt8) : Keeps World.session (socketSend env block) :=
  fun _ => rfl

theorem socketRecv_keeps (size : Nat) : Keeps World.session (socketRecv size) := by
  intro w
  unfold socketRecv
  cases w.incoming with
  | nil => rfl
  | cons arrival arrivals => cases arrival <;> rfl

theorem resetXferBuffer_keeps : Keeps World.session resetXferBuffer :=
  .bind .get fun _ => .bind (session_keeps (fxmyFree_keeps conn_unasked _)) fun _ => .modify fun _ => rfl

theorem beginSend_keeps (data : List UInt8) (size : Nat) :
    Keeps World.session (beginSend env data size) :=
  .bind .get fun _ => .bind (.modify fun _ => rfl) fun _ =>
    .ite (.pure _) (.bind (.lift _ _) fun _ => .bind (.modify fun _ => rfl) fun _ =>
      .bind (.lift _ _) fun _ => .modify fun _ => rfl)

theorem send_keeps (data : List UInt8) (size : Nat) : Keeps World.session (send env data size) :=
  .bind (beginSend_keeps env data size) fun _ => .bind .get fun _ => .bind (.lift _ _) fun _ =>
    .bind (socketSend_keeps env _) fun _ => .bind (.lift _ _) fun _ =>
    .bind resetXferBuffer_keeps fun _ => .pure _

theorem recv_keeps : Keeps World.session (recv env) := by
  have hbegin : Keeps World.session (beginRecv env) :=
    .bind (socketRecv_keeps _) fun _ => .bind (.lift _ _) fun _ => .bind (.modify fun _ => rfl) fun _ =>
      .modify fun _ => rfl
  exact .bind hbegin fun _ => .bind .get fun _ => .bind (socketRecv_keeps _) fun _ =>
    .bind (.lift _ _) fun _ => .bind (.modify fun _ => rfl) fun _ => .pure _

theorem reply_keeps : Keeps World.session (reply env) := by
  have hresult : Keeps World.session (sendResult env) :=
    .bind resetXferBuffer_keeps fun _ => .bind .get fun _ => .bind (.lift _ _) fun _ =>
      .bind (send_keeps env _ _) fun _ => .pure _
  exact .bind hresult fun _ => .lift _ _

end

end Fxmy
