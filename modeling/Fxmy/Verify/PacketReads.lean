import Fxmy.Main
import Fxmy.Verify.Decode
import Fxmy.Verify.Packet

/-!
# Which packets are read inside their block

A read outside a block of bytes is the stop `Stop.bytes`. Only the readers of the transfer buffer
and the decoder can stop so; what is done with ODBC and with decoded text cannot
(`connect_avoids`, `handleWideQuery_avoids`). For the auth packet and for each command the packets
that are read inside the block are then those of `FieldsInside` and `CommandInside`.
-/

namespace Fxmy

open Exec

/-- The stop of a read outside a block of bytes. -/
def Outside (e : Stop) : Prop := e = .bytes

/-! ## What cannot read outside -/

section Stops

variable (build : Build)

theorem debugbreak_never : Never Outside (debugbreak build) :=
  .ite (.ok _) (.error nofun)

theorem verify_never (x : Bool) : Never Outside (verify x) :=
  .ite (.ok _) (.error nofun)

theorem getStatus_never (native : Int) : Never Outside (getStatus build native) := by
  unfold getStatus
  split
  · exact .ok _
  · exact (debugbreak_never build).bind fun _ => .ok _

theorem failed_never (status : Option Status) : Never Outside (failed status) := by
  cases status with
  | some s => exact .ok _
  | none => exact .error nofun

theorem succeeded_never (status : Option Status) : Never Outside (succeeded status) := by
  cases status with
  | some s => exact .ok _
  | none => exact .error nofun

theorem emptySet_never (status : Option Status) : Never Outside (emptySet status) := by
  cases status with
  | some s => exact .ok _
  | none => exact .error nofun

theorem readDiagnostics_never (status : Option Status) (records : List Int) :
    Never Outside (readDiagnostics build status records) := by
  induction records generalizing status with
  | nil => exact .ok _
  | cons native records ih => exact (getStatus_never build native).bind fun s => ih (some s)

theorem verifyAndLogOdbc_never (reply : OdbcReply) (type : HandleType) (handle : Handle) :
    Never Outside (verifyAndLogOdbc build reply type handle) :=
  .ite (getStatus_never build _).map <| .ite (getStatus_never build _).map <|
    (readDiagnostics_never build _ _).bind fun _ => .ite (getStatus_never build _).map (.ok _)

theorem verifyOdbc_never (reply : OdbcReply) (type : HandleType) (handle : Handle) :
    Never Outside (verifyOdbc build reply type handle) :=
  (verifyAndLogOdbc_never build reply type handle).bind fun status =>
    (failed_never status).bind fun _ => .ite (debugbreak_never build) (.ok _)

theorem databaseHandle_never (conn : Connection) : Never Outside (databaseHandle conn) := by
  unfold databaseHandle
  cases conn.odbc with
  | some odbc => exact .ok _
  | none => exact .error nofun

end Stops

section Programs

variable (env : Env)

theorem text_avoids {α : Type} (x : Except Fault α) : Avoids Outside (Prog.text x) :=
  .lift fun _ _ => nofun

theorem stops_avoids {α : Type} {x : Except Stop α} (h : Never Outside x) :
    Avoids Outside (Prog.stops x) := .lift h

theorem abort_avoids : Avoids Outside (throw .abort : Prog Int) := .throw nofun

theorem odbcCall_avoids (call : OdbcCall) : Avoids Outside (Prog.odbcCall env call) :=
  fun _ _ _ h => nomatch h

theorem fxmyFree_avoids {α : Type} (p : Option α) : Avoids Outside (Prog.fxmyFree p) :=
  .ite (.modify _) (.pure _)

theorem exec_avoids (query : List FxmyChar) : Avoids Outside (exec env query) :=
  .bind .get fun _ => .bind (stops_avoids (databaseHandle_never _)) fun _ =>
    .bind (odbcCall_avoids env _) fun _ => .bind (stops_avoids (verifyOdbc_never _ _ _ _)) fun _ =>
    .bind (text_avoids _) fun _ => .bind (odbcCall_avoids env _) fun _ =>
    .bind (stops_avoids (verifyAndLogOdbc_never _ _ _ _)) fun _ =>
    .bind (stops_avoids (failed_never _)) fun _ =>
      .ite (.bind (odbcCall_avoids env _) fun _ =>
        .bind (stops_avoids (verifyOdbc_never _ _ _ _)) fun _ => .pure _) (.pure _)

theorem describeRows_avoids (handle : Handle) (fuel : Nat) :
    Avoids Outside (describeRows env handle fuel) := by
  induction fuel with
  | zero => exact .throw nofun
  | succ fuel ih =>
    exact .bind (odbcCall_avoids env _) fun _ =>
      .bind (stops_avoids (verifyAndLogOdbc_never _ _ _ _)) fun _ =>
      .bind (stops_avoids (emptySet_never _)) fun _ =>
        .ite (.bind (stops_avoids (getStatus_never _ _)) fun _ => .pure _)
          (.bind (stops_avoids (debugbreak_never _)) fun _ => ih)

theorem describe_avoids (query : List FxmyChar) : Avoids Outside (describe env query) :=
  .bind (.modify _) fun _ => .bind (text_avoids _) fun _ => .bind (exec_avoids env _) fun _ =>
    .bind (.modify _) fun _ => .bind (stops_avoids (failed_never _)) fun _ =>
      .ite (.bind (fxmyFree_avoids _) fun _ => .pure _)
        (.bind (describeRows_avoids env _ _) fun _ => .bind .get fun _ =>
          .bind (stops_avoids (databaseHandle_never _)) fun _ =>
          .bind (odbcCall_avoids env _) fun _ =>
          .bind (stops_avoids (verifyOdbc_never _ _ _ _)) fun _ =>
          .bind (fxmyFree_avoids _) fun _ => .pure _)

theorem showTablesRows_avoids (handle : Handle) : Avoids Outside (showTablesRows env handle) :=
  .ite (.pure _) <| .bind (odbcCall_avoids env _) fun _ =>
    .bind (stops_avoids (verifyAndLogOdbc_never _ _ _ _)) fun _ =>
    .bind (stops_avoids (emptySet_never _)) fun _ =>
      .ite (.bind (stops_avoids (getStatus_never _ _)) fun _ => .modify _)
        (stops_avoids (debugbreak_never _))

theorem copyWildcard_avoids (start stop : Option (List FxmyChar)) :
    Avoids Outside (copyWildcard start stop) := by
  unfold copyWildcard
  split
  · exact .bind (stops_avoids (verify_never _)) fun _ => .bind (.modify _) fun _ =>
      .bind (text_avoids _) fun _ => .pure _
  · exact .pure _

theorem showTables_avoids (query : List FxmyChar) : Avoids Outside (showTables env query) :=
  .bind (text_avoids _) fun _ => .bind (copyWildcard_avoids _ _) fun _ =>
    .bind (text_avoids _) fun _ => .bind (.modify _) fun _ => .bind (text_avoids _) fun _ =>
    .bind (exec_avoids env _) fun _ => .bind (showTablesRows_avoids env _) fun _ =>
    .bind (fxmyFree_avoids _) fun _ => .bind (fxmyFree_avoids _) fun _ => .pure _

theorem statementStatus_avoids (status : Option Status) :
    Avoids Outside (statementStatus env status) :=
  .bind (stops_avoids (failed_never _)) fun _ =>
    .ite (.modify _) (stops_avoids (debugbreak_never _))

theorem execStatement_avoids (wideQuery : List FxmyChar) :
    Avoids Outside (execStatement env wideQuery) :=
  .bind .get fun _ => .bind (stops_avoids (databaseHandle_never _)) fun _ =>
    .bind (odbcCall_avoids env _) fun _ => .bind (stops_avoids (verifyOdbc_never _ _ _ _)) fun _ =>
    .bind (text_avoids _) fun _ => .bind (odbcCall_avoids env _) fun _ =>
    .bind (stops_avoids (verifyAndLogOdbc_never _ _ _ _)) fun _ =>
    .bind (statementStatus_avoids env _) fun _ => .bind (odbcCall_avoids env _) fun _ =>
    .bind (stops_avoids (verifyOdbc_never _ _ _ _)) fun _ =>
    .bind (fxmyFree_avoids _) fun _ => .pure _

/-- Nothing that is done with a decoded query reads outside a block of bytes. -/
theorem handleWideQuery_avoids (wideQuery : List FxmyChar) :
    Avoids Outside (handleWideQuery env wideQuery) := by
  refine .bind (text_avoids _) fun branch => ?_
  cases branch with
  | setNames =>
    exact .bind (text_avoids _) fun _ => .bind (stops_avoids (verify_never _)) fun _ => .pure _
  | describe => exact describe_avoids env wideQuery
  | showTables => exact showTables_avoids env wideQuery
  | statement =>
    rw [translateCounted_eq]
    refine .bind (text_avoids _) fun statement => ?_
    cases statement with
    | none =>
      exact .bind (stops_avoids (getStatus_never _ _)) fun _ => .bind (.modify _) fun _ => .pure _
    | some statement => exact execStatement_avoids env statement

theorem connect_avoids : Avoids Outside (connect env) :=
  .bind .get fun _ => .bind (stops_avoids (databaseHandle_never _)) fun _ => .bind .get fun _ =>
    .bind (odbcCall_avoids env _) fun _ => .bind (stops_avoids (verifyAndLogOdbc_never _ _ _ _)) fun _ =>
    .bind (.modify _) fun _ => .bind (stops_avoids (succeeded_never _)) fun _ =>
      .ite (.pure _) (.bind .get fun _ => .bind (text_avoids _) fun _ =>
        .bind (odbcCall_avoids env _) fun _ => .bind (stops_avoids (verifyOdbc_never _ _ _ _)) fun _ =>
        .bind (odbcCall_avoids env _) fun _ =>
        .bind (stops_avoids (verifyAndLogOdbc_never _ _ _ _)) fun _ => .bind (.modify _) fun _ =>
        .bind (odbcCall_avoids env _) fun _ => .bind (stops_avoids (verifyOdbc_never _ _ _ _)) fun _ =>
        .pure _)

end Programs

/-! ## The auth packet -/

/-- The packets whose fields are read inside their block: one that a `VERIFY` stops before the next
read, or one with a NUL behind the user name and behind it the bytes that the first byte of the
scramble asks for. -/
def FieldsInside (packet : List UInt8) : Prop :=
  packet.length = 3 ∨ packet.length = 7 ∨ packet.length = 8 ∨
    ∃ u, FirstNul packet 32 u ∧ u + 1 + lcbExtra (packet.getD (u + 1) 0) ≤ packet.length

/-- A packet that ends before the user name is never parsed: it is stopped by the `VERIFY` of a field
if its terminator is the last byte that was read, or if it ends where the character set stands. -/
theorem parseAuthFields_short {packet : List UInt8} (c : Nat) (hshort : packet.length < 32) :
    ∃ e, parseAuthFields (received packet c) = .error e ∧
      (e = .bytes ↔ ¬ (packet.length = 3 ∨ packet.length = 7 ∨ packet.length = 8)) := by
  have hstart : { received packet c with cursor := 0 } = received packet 0 := rfl
  unfold parseAuthFields
  rw [hstart, readU32_received]
  by_cases h3 : packet.length < 0 + 3
  · rw [if_pos h3]
    exact ⟨_, rfl, by simp; omega⟩
  rw [if_neg h3]
  by_cases h4 : packet.length < 0 + 4
  · rw [if_pos h4]
    exact ⟨_, rfl, by simp; omega⟩
  simp only [if_neg h4, except_bind_ok, readU32_received]
  by_cases h7 : packet.length < 0 + 4 + 3
  · rw [if_pos h7]
    exact ⟨_, rfl, by simp; omega⟩
  rw [if_neg h7]
  by_cases h8 : packet.length < 0 + 4 + 4
  · rw [if_pos h8]
    exact ⟨_, rfl, by simp; omega⟩
  simp only [if_neg h8, except_bind_ok, readU8_received]
  by_cases h9 : packet.length < 0 + 4 + 4 + 1
  · rw [if_pos h9]
    exact ⟨_, rfl, by simp; omega⟩
  simp only [if_neg h9, except_bind_ok, advance_received]
  -- The jump over the filler has left the block.
  have hskip : skipString (received packet (0 + 4 + 4 + 1 + 23)) = .error .bytes := by
    change (do let length ← strlenAt (received packet 32) 32; _) = _
    rw [strlenAt_received_beyond packet 32 hshort]
    rfl
  rw [hskip]
  exact ⟨_, rfl, by simp; omega⟩

/-- A packet that reaches the user name is parsed as its scramble is skipped. -/
theorem parseAuthFields_long {packet : List UInt8} (c : Nat) {u : Nat} (hu : FirstNul packet 32 u) :
    parseAuthFields (received packet c) = (do
      let buffer ← skipLcs (received packet (u + 1))
      .ok (u32At packet 0, u32At packet 4, packet.getD 8 0, buffer)) := by
  have hstart : { received packet c with cursor := 0 } = received packet 0 := rfl
  have hlen := Nat.le_trans hu.from_le hu.inside
  unfold parseAuthFields
  rw [hstart, readU32_received, if_neg (by omega), if_neg (by omega), except_bind_ok]
  simp only
  rw [readU32_received, if_neg (by omega), if_neg (by omega), except_bind_ok]
  simp only
  rw [readU8_received, if_neg (by omega), except_bind_ok]
  simp only [advance_received]
  rw [skipString_received packet 32 hu, except_bind_ok]

theorem parseAuthFields_inside (packet : List UInt8) (c : Nat) :
    parseAuthFields (received packet c) ≠ .error .bytes ↔ FieldsInside packet := by
  unfold FieldsInside
  by_cases hshort : packet.length < 32
  · obtain ⟨e, he, hbytes⟩ := parseAuthFields_short c hshort
    rw [he, ne_eq, Except.error.injEq, hbytes, Classical.not_not]
    constructor
    · intro h
      rcases h with h | h | h
      · exact .inl h
      · exact .inr (.inl h)
      · exact .inr (.inr (.inl h))
    · intro h
      rcases h with h | h | h | ⟨u, hu, -⟩
      · exact .inl h
      · exact .inr (.inl h)
      · exact .inr (.inr h)
      · have := Nat.le_trans hu.from_le hu.inside
        omega
  · obtain ⟨u, hu, -⟩ := strlenAt_received packet 32 (Nat.le_of_not_lt hshort)
    have hfields : (packet.length = 3 ∨ packet.length = 7 ∨ packet.length = 8 ∨
        ∃ u, FirstNul packet 32 u ∧ u + 1 + lcbExtra (packet.getD (u + 1) 0) ≤ packet.length) ↔
          u + 1 + lcbExtra (packet.getD (u + 1) 0) ≤ packet.length := by
      constructor
      · intro h
        rcases h with h | h | h | ⟨v, hv, h⟩
        · omega
        · omega
        · omega
        · exact hu.unique hv ▸ h
      · exact fun h => .inr (.inr (.inr ⟨u, hu, h⟩))
    rw [hfields, parseAuthFields_long c hu]
    unfold skipLcs
    rw [readLcb_received]
    by_cases hx : packet.length < u + 1 + lcbExtra (packet.getD (u + 1) 0)
    · rw [if_pos hx]
      exact iff_of_false (fun h => h rfl) (by omega)
    · rw [if_neg hx]
      refine iff_of_true ?_ (by omega)
      split
      · exact nofun
      · exact nofun

/-- What `fxmy_parse_auth_packet` takes from a packet it parses, and where it leaves the cursor. -/
theorem parseAuthFields_eq_ok {packet : List UInt8} {c : Nat} (fields : UInt32 × UInt32 × UInt8)
    {buffer : XferBuffer}
    (h : parseAuthFields (received packet c) = .ok (fields.1, fields.2.1, fields.2.2, buffer)) :
    ∃ u d, FirstNul packet 32 u ∧ u < packet.length ∧ buffer = received packet d ∧
      fields = (u32At packet 0, u32At packet 4, packet.getD 8 0) := by
  by_cases hshort : packet.length < 32
  · obtain ⟨e, he, -⟩ := parseAuthFields_short c hshort
    rw [he] at h
    cases h
  · obtain ⟨u, hu, -⟩ := strlenAt_received packet 32 (Nat.le_of_not_lt hshort)
    rw [parseAuthFields_long c hu] at h
    obtain ⟨skipped, hskip, h⟩ := except_bind_eq_ok.mp h
    obtain ⟨⟨size, read⟩, hread, hadv⟩ := except_bind_eq_ok.mp hskip
    rw [readLcb_received] at hread
    split at hread
    · cases hread
    · next hx =>
      split at hread
      · cases hread
      · cases hread
        cases hadv
        simp only [Except.ok.injEq, Prod.mk.injEq] at h
        obtain ⟨hflags, hmax, hcharset, rfl⟩ := h
        refine ⟨u, _, hu, by omega, rfl, ?_⟩
        rw [hflags, hmax, hcharset]

/-- The database name is decoded from the start of the block up to its first NUL. -/
theorem parseAuthDatabase_received (build : Build) {packet : List UInt8} (c : Nat) {v : Nat}
    (hv : FirstNul packet 0 v) : parseAuthDatabase build (received packet c) =
      fstrfromchar build (List.replicate (v + 1) nul) (packet ++ [0]) (v + 1) := by
  obtain ⟨u, hu, hlen⟩ := strlenAt_received packet c (Nat.zero_le packet.length)
  obtain rfl := hu.unique hv
  unfold parseAuthDatabase
  rw [hlen]
  rfl

/-- That is inside the block if there is a NUL in the packet: the three bytes of a character that
swallows the NUL end with the terminator at the latest. -/
theorem parseAuthDatabase_never (build : Build) {packet : List UInt8} (c : Nat) {u : Nat}
    (hu : FirstNul packet 0 u) (hinside : u < packet.length) :
    Never Outside (parseAuthDatabase build (received packet c)) := by
  have hsize : u + 1 ≤ (packet ++ [0]).length := by
    rw [List.length_append, List.length_singleton]
    omega
  have hroom : u + 1 ≤ (List.replicate (u + 1) (nul : FxmyChar)).length := by simp
  rw [parseAuthDatabase_received build c hu]
  intro e he
  have hend := fstrfromchar_loopEnd build hsize hroom
  rw [he] at hend
  cases hend with
  | stuck => exact nofun
  | refused => exact nofun
  | @beyond p h hp h0 hc =>
    refine absurd ?_ hc
    -- The character does not start at the NUL, so three bytes are there.
    have hpu : p ≠ u := by
      rintro rfl
      exact h0 (by rw [packet_getElem? packet hu.inside, hu.nul])
    have hdrop : (packet ++ [0]).drop p = (packet ++ [0])[p] :: (packet ++ [0]).drop (p + 1) :=
      List.drop_eq_getElem_cons (by omega)
    rw [hdrop]
    refine ⟨fun _ => ?_, fun _ => ?_⟩
    · rw [List.length_drop, List.length_append, List.length_singleton]
      omega
    · rw [List.length_drop, List.length_append, List.length_singleton]
      omega

/-! ## Reads of a packet -/

/-- `x` reads no byte outside the packet's block. -/
def ReadsInside {α : Type} (x : Prog α) (w : World) : Prop := ∀ w', x w ≠ .error .bytes w'

/-- The state with a packet received. -/
def World.withPacket (w : World) (packet : List UInt8) (c : Nat) : World :=
  { w with conn := { w.conn with xferBuffer := received packet c } }

theorem ReadsInside.of_avoids {α : Type} {x : Prog α} (h : Avoids Outside x) (w : World) :
    ReadsInside x w := fun w' he => h w .bytes w' he rfl

/-- In front of a program that never reads outside, a function that does not touch the world decides
alone. -/
theorem stops_bind_inside {α β : Type} {x : Except Stop α} {f : α → Prog β}
    (hf : ∀ a, Avoids Outside (f a)) (w : World) :
    ReadsInside (Prog.stops x >>= f) w ↔ x ≠ .error .bytes := by
  cases x with
  | ok a => exact iff_of_true (ReadsInside.of_avoids (hf a) w) nofun
  | error e =>
    constructor
    · rintro h ⟨⟩
      exact h w rfl
    · rintro h w' ⟨⟩
      exact h rfl

theorem parseAuthPacket_inside (env : Env) (w : World) (packet : List UInt8) (c : Nat) :
    ReadsInside (parseAuthPacket env) (w.withPacket packet c) ↔ FieldsInside packet := by
  rw [← parseAuthFields_inside packet c]
  have hget : (w.withPacket packet c).conn.xferBuffer = received packet c := rfl
  unfold ReadsInside parseAuthPacket parseAuth
  rw [bind_assoc, bind_get, hget, bind_assoc]
  cases hfields : parseAuthFields (received packet c) with
  | error e =>
    refine ⟨fun h he => ?_, fun h w' he => ?_⟩
    · rw [he] at h
      exact h _ rfl
    · cases he
      exact h rfl
  | ok fields =>
    -- From here on nothing reads outside.
    obtain ⟨flags, maxPacketSize, charset, buffer⟩ := fields
    obtain ⟨u, d, hu, hlt, rfl, -⟩ :=
      parseAuthFields_eq_ok (flags, maxPacketSize, charset) hfields
    obtain ⟨v, hv, -⟩ := strlenAt_received packet c (Nat.zero_le packet.length)
    have hvu : v < packet.length := by
      refine Nat.lt_of_le_of_lt (Nat.le_of_not_lt fun h => ?_) hlt
      exact hv.before u (Nat.zero_le u) h hu.nul
    refine iff_of_true (fun w' => ?_) nofun
    rw [bind_lift_ok]
    refine ReadsInside.of_avoids (.bind (.bind (.modify _) fun _ => .ite ?_ (.pure _))
      fun _ => .ite (connect_avoids env) (.pure _)) _ w'
    exact .bind (.modify _) fun _ =>
      .bind (stops_avoids (parseAuthDatabase_never env.build d hv hvu)) fun _ =>
      .bind (.modify _) fun _ => .pure _

/-- The commands whose bytes are read inside their block. -/
def CommandInside (build : Build) : List UInt8 → Prop
  | [] => True
  | command :: text =>
    (Command.ofByte command = some .setOption → text ≠ []) ∧
    (Command.ofByte command = some .initDb ∨ Command.ofByte command = some .query →
      ∀ p b, CharStart build (text ++ [0]) text.length p → text[p]? = some b →
        0xE0 ≤ b → p + 1 < text.length)

/-- Decoding the text of a packet reads outside exactly where a lead of three bytes is its last. -/
theorem fstrfromchar_inside (build : Build) (text : List UInt8) {dest : List FxmyChar}
    (hdest : text.length ≤ dest.length) :
    fstrfromchar build dest (text ++ [0]) text.length ≠ .error .bytes ↔
      ∀ p b, CharStart build (text ++ [0]) text.length p → text[p]? = some b →
        0xE0 ≤ b → p + 1 < text.length := by
  have hsize : text.length ≤ (text ++ [0]).length := by simp
  constructor
  · intro h p b hstart hb hE0
    refine Classical.byContradiction fun hlast => h ?_
    have hc : ¬ Complete ((text ++ [0]).drop p) := fun hc => hlast ((complete_packet hb).mp hc hE0)
    obtain ⟨e, he, h0 | h1 | h2⟩ :=
      fstrfromchar_stops hstart hb (charWidth_of_not_complete hc) hdest
    · rw [h0.1] at hE0
      exact absurd hE0 (by decide)
    · exact absurd h1.2.1 hc
    · rw [he, h2.2.2]
  · intro h he
    have hend := fstrfromchar_loopEnd build hsize hdest
    rw [he] at hend
    cases hend with
    | @beyond p hstart hp _ hc =>
      have hb := List.getElem?_eq_getElem hp
      exact hc ((complete_packet hb).mpr (h p _ hstart hb))

theorem handleInitDb_inside (env : Env) (w : World) (text : List UInt8) :
    ReadsInside (handleInitDb env (text ++ [0]) text.length) w ↔
      ∀ p b, CharStart env.build (text ++ [0]) text.length p → text[p]? = some b →
        0xE0 ≤ b → p + 1 < text.length := by
  have hdest : text.length ≤ (List.replicate (text.length + 1) (nul : FxmyChar)).length := by simp
  rw [← fstrfromchar_inside env.build text hdest]
  have hconnect : ∀ database : List FxmyChar, Avoids Outside
      (Prog.setConn (fun conn => { conn with database := some database }) >>= fun _ => connect env) :=
    fun _ => .bind (.modify _) fun _ => connect_avoids env
  unfold ReadsInside handleInitDb
  rw [bind_get, Prog.bind_fxmyFree, bind_modify]
  exact stops_bind_inside hconnect _

theorem handleQuery_inside (env : Env) (w : World) (text : List UInt8) :
    ReadsInside (handleQuery env (text ++ [0]) text.length) w ↔
      ∀ p b, CharStart env.build (text ++ [0]) text.length p → text[p]? = some b →
        0xE0 ≤ b → p + 1 < text.length := by
  have hdest : text.length ≤ (List.replicate (text.length + 1) (nul : FxmyChar)).length := by simp
  rw [← fstrfromchar_inside env.build text hdest]
  unfold ReadsInside handleQuery
  rw [bind_modify]
  refine (stops_bind_inside (fun wideQuery => handleWideQuery_avoids env wideQuery) _).trans ?_
  unfold decodeQuery
  cases fstrfromchar env.build (List.replicate (text.length + 1) nul) (text ++ [0]) text.length with
  | ok wideQuery => exact iff_of_true nofun nofun
  | error e => exact Iff.rfl

theorem handleSetOption_inside (w : World) (text : List UInt8) :
    ReadsInside (handleSetOption (text ++ [0])) w ↔ text ≠ [] := by
  cases text with
  | nil => exact iff_of_false (fun h => h w rfl) (fun h => h rfl)
  | cons low text =>
    refine iff_of_true (ReadsInside.of_avoids ?_ w) (List.cons_ne_nil low text)
    cases text with
    | nil => exact .bind (.modify _) fun _ => .pure _
    | cons high text => exact .bind (.modify _) fun _ => .pure _

theorem handleCommand_inside (env : Env) (w : World) (packet : List UInt8) :
    ReadsInside (handleCommand env (packet ++ [0]) packet.length) w ↔
      CommandInside env.build packet := by
  cases packet with
  | nil =>
    -- The terminator is read as the command, and aborts.
    have habort : handleCommand env ([] ++ [0]) ([] : List UInt8).length = throw .abort := rfl
    rw [habort]
    exact iff_of_true (ReadsInside.of_avoids abort_avoids w) trivial
  | cons command text =>
    unfold handleCommand CommandInside
    simp only [List.cons_append, List.length_cons, Nat.add_sub_cancel]
    cases hcommand : Command.ofByte command with
    | none =>
      change ReadsInside (throw .abort) w ↔ _
      exact iff_of_true (ReadsInside.of_avoids abort_avoids w) (by simp)
    | some cmd =>
      by_cases hinit : cmd = .initDb
      · subst hinit
        rw [handleInitDb_inside]
        simp
      by_cases hquery : cmd = .query
      · subst hquery
        rw [handleQuery_inside]
        simp
      by_cases hoption : cmd = .setOption
      · subst hoption
        rw [handleSetOption_inside]
        simp
      · refine iff_of_true (ReadsInside.of_avoids ?_ w) (by simp [hinit, hquery, hoption])
        split
        · exact .pure _
        · next h => exact absurd (Option.some.inj h) hinit
        · next h => exact absurd (Option.some.inj h) hquery
        · next h => exact absurd (Option.some.inj h) hoption
        · exact abort_avoids

/-- **The packets read inside their block.** For the auth packet and for a command, on every packet
and in every state of the connection. -/
theorem packet_reads_inside_iff (env : Env) (w : World) (packet : List UInt8) (c : Nat) :
    (ReadsInside (parseAuthPacket env) (w.withPacket packet c) ↔ FieldsInside packet) ∧
      (ReadsInside (handleCommand env (packet ++ [0]) packet.length) (w.withPacket packet c) ↔
        CommandInside env.build packet) :=
  ⟨parseAuthPacket_inside env w packet c, handleCommand_inside env _ packet⟩

/-- A `COM_SET_OPTION` without its option: the option's second byte is behind the terminator. -/
theorem option_read_outside : ¬ ∀ env w packet c,
    ReadsInside (parseAuthPacket env) (World.withPacket w packet c) ∧
      ReadsInside (handleCommand env (packet ++ [0]) packet.length) (w.withPacket packet c) := by
  intro h
  exact (h (.benign obliging) (.fresh [] []) [27] 0).2 _ rfl

end Fxmy
