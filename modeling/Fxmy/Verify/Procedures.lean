import Fxmy.Verify.Concat
import Fxmy.Verify.Returns
import Fxmy.Verify.Stream
import Fxmy.Verify.Translate

/-!
# The procedures behind DESCRIBE and SHOW TABLES

Both commands execute a stored procedure on what stands behind a keyword. DESCRIBE passes on the
query from its second token to its end, not the token alone (`DescribeQuery.describesTable_iff`).
-/

namespace Fxmy

open Exec

/-! ## What is executed -/

/-- The handler hands this text to `SQLExecDirect`, and no other, whenever it gets a statement
handle. -/
def HandsOver (ct : Ctype FxmyChar) (handler : Env → Prog Int) (text : List FxmyChar) : Prop :=
  ∀ env w, env.ctype = ct → StatementReady env w →
    (final (handler env w)).handed = w.handed ++ [text]

/-- A ready connection stays ready whatever is allocated. -/
theorem StatementReady.count {env : Env} {w : World} (h : StatementReady env w) (blocks : Int) :
    StatementReady env (w.count blocks) := h

/-- A handler that executes a statement made of the query alone, if there is one. -/
theorem handsOver_iff {ct : Ctype FxmyChar} {handler : Env → Prog Int}
    {statement : Except Fault (List FxmyChar)} {text : List FxmyChar}
    (h : ∀ env w, env.ctype = ct → StatementReady env w →
      (final (handler env w)).handed = w.handed ++ statement.toOption.toList) :
    HandsOver ct handler text ↔ statement = .ok text := by
  constructor
  · intro hhands
    obtain ⟨env, w, -, hct, hready⟩ := StatementQuery.exists_ready ⟨true, false⟩ ct
    have hlist := List.append_cancel_left
      ((h env w hct hready).symm.trans (hhands env w hct hready))
    cases statement with
    | ok statement =>
      cases hlist
      rfl
    | error f => cases hlist
  · rintro rfl env w hct hready
    exact h env w hct hready

section

variable {env : Env}

/-- `fxmy_exec` hands over the text of the block, if it has one. -/
theorem exec_handed {w : World} (hready : StatementReady env w) (block : List FxmyChar) :
    (final (exec env block w)).handed = w.handed ++ (stringText block).toOption.toList :=
  handed_executed hready block fun _ _ _ => .bind (.lift _ _) fun _ => .bind (.lift _ _) fun _ =>
    .ite (.bind (odbcCall_keeps_handed env rfl) fun _ => .bind (.lift _ _) fun _ => .pure _) (.pure _)

variable (env)

theorem free_keeps_handed (type : HandleType) (handle : Handle) :
    Keeps World.handed (Prog.odbcCall env (.freeHandle type handle)) := odbcCall_keeps_handed env rfl

theorem describeRows_keeps_handed (handle : Handle) (fuel : Nat) :
    Keeps World.handed (describeRows env handle fuel) := by
  induction fuel with
  | zero => exact .throw _
  | succ fuel ih =>
    exact .bind (odbcCall_keeps_handed env rfl) fun _ => .bind (.lift _ _) fun _ =>
      .bind (.lift _ _) fun _ =>
        .ite (.bind (.lift _ _) fun _ => .pure _) (.bind (.lift _ _) fun _ => ih)

theorem showTablesRows_keeps_handed (handle : Handle) :
    Keeps World.handed (showTablesRows env handle) :=
  .ite (.pure _) <| .bind (odbcCall_keeps_handed env rfl) fun _ => .bind (.lift _ _) fun _ =>
    .bind (.lift _ _) fun _ =>
      .ite (.bind (.lift _ _) fun _ => .modify fun _ => rfl) (.lift _ _)

end

/-! ## DESCRIBE -/

/-- `fxmy_describe` hands over what stands in its buffer, if that can be filled. -/
theorem describe_handed {env : Env} {w : World} (hready : StatementReady env w)
    (query : List FxmyChar) : (final (describe env query w)).handed =
      w.handed ++ (describeText env.ctype query >>= stringText).toOption.toList := by
  unfold describe
  rw [bind_modify]
  cases describeText env.ctype query with
  | error f => exact (List.append_nil _).symm
  | ok buffer =>
    rw [bind_lift_ok, except_bind_ok]
    refine (Keeps.final_bind (p := World.handed) ?_ _).trans (exec_handed (hready.count 1) buffer)
    -- Nothing behind the procedure hands a text over.
    intro result
    exact .bind (.modify fun _ => rfl) fun _ => .bind (.lift _ _) fun _ =>
      .ite (.bind (fxmyFree_keeps_handed _) fun _ => .pure _)
        (.bind (describeRows_keeps_handed env _ _) fun _ => .bind .get fun _ =>
          .bind (.lift _ _) fun _ => .bind (free_keeps_handed env _ _) fun _ =>
          .bind (.lift _ _) fun _ => .bind (fxmyFree_keeps_handed _) fun _ => .pure _)

/-- The buffer of `fxmy_describe` behind the copy of the procedure's name. -/
theorem strncpy_columns : strncpy (List.replicate 1024 nul) (cstring "sp_columns ") 1024 =
    .ok (chars "sp_columns " ++ nul :: List.replicate 1012 nul : List FxmyChar) := by
  have htext : stringText (cstring "sp_columns " : List FxmyChar) = .ok (chars "sp_columns ") := rfl
  have hlen : (chars "sp_columns " : List FxmyChar).length = 11 := rfl
  have hpad : 1024 - 11 = 1012 + 1 := rfl
  unfold strncpy
  rw [htext, except_bind_ok, List.take_of_length_le (by omega), hlen, List.drop_replicate,
    List.length_replicate, if_pos (Nat.le_refl _), Nat.sub_self, List.replicate_zero, List.append_nil,
    hpad, List.replicate_succ]

/-- A query whose first token is DESCRIBE. -/
structure DescribeQuery (ct : Ctype FxmyChar) where
  text : List FxmyChar
  first : Token
  behind : List FxmyChar
  yields : Yields ct text [first] behind
  is_describe : first.Is ct "DESCRIBE"
  terminated : nul ∈ behind

namespace DescribeQuery

variable {ct : Ctype FxmyChar} (query : DescribeQuery ct)

/-- The columns of the table are asked for, if it is named by a second token with room in the buffer.
Without one nothing is executed, and the status is an error. -/
structure DescribesTable : Prop where
  table : ∀ t after, Yields ct query.behind [t] after → t.text.length ≤ 1012 →
    HandsOver ct (describe · query.text) (chars "sp_columns " ++ t.text)
  missing : (¬ ∃ t after, Yields ct query.behind [t] after) → ∀ env w, env.ctype = ct →
    StatementReady env w → ∃ w', describe env query.text w = .ok 0 w' ∧ w'.handed = w.handed ∧
      failed w'.conn.status = .ok true

/-- The buffer is filled from the second token on. -/
theorem describeText_eq : describeText ct query.text =
    (fnextToken ct (some query.behind) >>= fun token =>
      fstrncat (chars "sp_columns " ++ nul :: List.replicate 1012 nul) 1024 token.1) := by
  obtain ⟨_, -, hfirst, hdone⟩ := Yields.cons_iff.mp query.yields
  cases hdone
  unfold describeText
  rw [hfirst, except_bind_ok]
  simp only
  rw [strncpy_columns]
  rfl

/-- The statement is what stands in the query from the second token to the end, where that has room
in the buffer. -/
theorem statement_eq {t : Token} {after rest : List FxmyChar} (hafter : nul ∉ after)
    (h : Yields ct query.behind [t] (after ++ nul :: rest)) :
    (describeText ct query.text >>= stringText) =
      if (t.text ++ after).length ≤ 1012 then .ok (chars "sp_columns " ++ (t.text ++ after))
      else .error .outside := by
  obtain ⟨_, -, hnext, hdone⟩ := Yields.cons_iff.mp h
  cases hdone
  have hcolumns : nul ∉ (chars "sp_columns " : List FxmyChar) := by decide
  have hsize : (chars "sp_columns " ++ nul :: List.replicate 1012 nul : List FxmyChar).length =
      1024 := by
    rw [List.length_append, List.length_cons, List.length_replicate]
    rfl
  have htext : nul ∉ t.text ++ after := by
    intro hmem
    exact (List.mem_append.mp hmem).elim (h.isToken t List.mem_cons_self).nul_not_mem hafter
  have hcat := fstrncat_eq hcolumns htext (List.replicate 1012 nul) rest hsize
  rw [List.append_assoc, List.length_replicate] at hcat
  rw [query.describeText_eq, hnext, except_bind_ok, hcat]
  by_cases hfits : (t.text ++ after).length ≤ 1012
  · have hconcat := stringText_concat hcolumns htext ((List.replicate 1012 nul).drop
      (t.text ++ after).length) (1012 - (t.text ++ after).length)
    rw [if_pos hfits, if_pos hfits, except_bind_ok, hconcat]
  · rw [if_neg hfits, if_neg hfits]
    rfl

/-- Behind the second token the query has to end. -/
theorem handsOver_table {t : Token} {stop : List FxmyChar} (h : Yields ct query.behind [t] stop)
    (hstop : nul ∈ stop) (hlen : t.text.length ≤ 1012) :
    HandsOver ct (describe · query.text) (chars "sp_columns " ++ t.text) ↔
      stop.head? = some nul := by
  obtain ⟨after, rest, rfl, hafter⟩ := List.eq_append_cons_of_mem hstop
  have hhands := @handsOver_iff ct (describe · query.text) _ (chars "sp_columns " ++ t.text)
    fun env w hct hready => by rw [describe_handed hready, hct]
  rw [hhands, query.statement_eq hafter h]
  cases after with
  | nil =>
    rw [List.append_nil, if_pos hlen]
    exact iff_of_true rfl rfl
  | cons c after =>
    have hc : c ≠ nul := fun hc => hafter (hc ▸ List.mem_cons_self)
    refine iff_of_false (fun heq => ?_) fun hhead => hc (Option.some.inj hhead)
    split at heq
    · have hlength := congrArg List.length (Except.ok.inj heq)
      simp only [List.length_append, List.length_cons] at hlength
      omega
    · cases heq

/-- **When DESCRIBE executes what it should**: there is a second token, and behind it the end of the
query. -/
theorem describesTable_iff : query.DescribesTable ↔
    ∃ t after, Yields ct query.behind [t] after ∧
      (t.text.length ≤ 1012 → after.head? = some nul) := by
  rcases @fnextToken_total ct _ query.terminated with hend | ⟨start, stop, hnext⟩
  · have hnone : ¬ ∃ t after, Yields ct query.behind [t] after := by
      rintro ⟨t, after, h⟩
      cases Yields.eq_nil hend h
    refine iff_of_false (fun h => ?_) fun ⟨t, after, h, _⟩ => hnone ⟨t, after, h⟩
    -- Without a second token NULL is appended.
    obtain ⟨env, w, -, hct, hready⟩ := StatementQuery.exists_ready ⟨true, false⟩ ct
    obtain ⟨w', hdescribe, -⟩ := h.missing hnone env w hct hready
    obtain ⟨-, buffer, _, _, _, hbuffer, -⟩ := describe_returns hdescribe
    rw [hct, query.describeText_eq, hend] at hbuffer
    cases hbuffer
  · rcases fnextToken_eq_ok hnext with ⟨hnone, -⟩ | ⟨t, q, ht, hbehind, hstart, hstop⟩
    · cases hnone
    cases hstart
    cases hstop
    have hsecond : Yields ct query.behind [t] stop :=
      Yields.cons_iff.mpr ⟨stop, hbehind, hnext, .done stop⟩
    have hstop : nul ∈ stop := by
      have hterminated := query.terminated
      rw [hbehind, ← List.append_assoc] at hterminated
      exact (List.mem_append.mp hterminated).resolve_left ht.nul_not_mem_span
    constructor
    · exact fun h => ⟨t, stop, hsecond, fun hlen =>
        (query.handsOver_table hsecond hstop hlen).mp (h.table t stop hsecond hlen)⟩
    · rintro ⟨t', stop', hsecond', hends⟩
      refine ⟨fun u after hu hlen => ?_, fun hmissing => absurd ⟨t, stop, hsecond⟩ hmissing⟩
      obtain ⟨heq, -⟩ := hu.eq_of_length_eq hsecond' rfl
      obtain ⟨heq', rfl⟩ := hsecond'.eq_of_length_eq hsecond rfl
      cases heq
      cases heq'
      exact (query.handsOver_table hsecond hstop hlen).mpr (hends hlen)

/-- `DESCRIBE t;`, with the semicolon behind the table. -/
def semicolon : DescribeQuery cLocale where
  text := cstring "DESCRIBE t;"
  first := ⟨[], chars "DESCRIBE"⟩
  behind := cstring " t;"
  yields := .token ⟨[], chars "DESCRIBE"⟩ rfl (.done _)
  is_describe := rfl
  terminated := by decide

/-- The semicolon is handed over. -/
theorem semicolon_handed : ¬ ∀ (ct : Ctype FxmyChar) (query : DescribeQuery ct), query.DescribesTable := by
  intro h
  have hsecond : Yields cLocale semicolon.behind [⟨chars " ", chars "t"⟩] (cstring ";") :=
    .token ⟨chars " ", chars "t"⟩ rfl (.done _)
  have hhands := (h cLocale semicolon).table _ _ hsecond (by decide)
  have hend := (semicolon.handsOver_table hsecond (by decide) (by decide)).mp hhands
  exact absurd hend (by decide)

end DescribeQuery

end Fxmy
