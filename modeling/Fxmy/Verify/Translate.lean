import Mathlib.Data.List.Basic
import Fxmy.Verify.Frames
import Fxmy.Verify.Literals

/-!
# What a general statement hands to the database

A general statement is executed as it is unless the word `LIMIT` and a space occur somewhere in it,
inside literals or outside (`StatementQuery.hands_text_iff`). Then the LIMIT that the scan takes is
moved, or the statement is refused. What should happen is said by the keywords outside literals:
a statement without a LIMIT goes through as it is, and `OuterClause` is a LIMIT with a SELECT in
front and a count behind, which should be moved.
-/

namespace Fxmy

open Exec

/-! ## The texts handed over -/

/-- The text that a call hands to `SQLExecDirect`. -/
def OdbcCall.handed : OdbcCall → Option (List FxmyChar)
  | .execDirect _ text => some text
  | _ => none

/-- The texts handed to `SQLExecDirect` so far. -/
def World.handed (w : World) : List (List FxmyChar) := w.calls.filterMap OdbcCall.handed

/-- The connection has a database handle, and the driver gives out a statement handle on it. -/
def StatementReady (env : Env) (w : World) : Prop :=
  ∃ odbc, w.conn.odbc = some odbc ∧
    verifyOdbc env.build (env.odbc w.calls (.allocHandle .stmt odbc.databaseConnectionHandle)) .dbc
      odbc.databaseConnectionHandle = .ok ()

theorem odbcCall_keeps_handed (env : Env) {call : OdbcCall} (h : call.handed = none) :
    Keeps World.handed (Prog.odbcCall env call) := by
  intro w
  change (w.calls ++ [call]).filterMap OdbcCall.handed = _
  simp [h, World.handed]

theorem statementStatus_keeps_handed (env : Env) (status : Option Status) :
    Keeps World.handed (statementStatus env status) :=
  .bind (.lift _ _) fun _ => .ite (.modify fun _ => rfl) (.lift _ _)

theorem fxmyFree_keeps_handed {α : Type} (p : Option α) : Keeps World.handed (Prog.fxmyFree p) :=
  .ite (.modify fun _ => rfl) (.pure _)

/-- What is executed on a new statement handle is the text of the block, if it has one, where nothing
behind the execution hands a text over. -/
theorem handed_executed {α : Type} {env : Env} {w : World} (hready : StatementReady env w)
    (block : List FxmyChar) {behind : Handle → OdbcReply → OdbcReply → Prog α}
    (hbehind : ∀ dbc allocated executed, Keeps World.handed (behind dbc allocated executed)) :
    (final ((do
      let dbc ← Prog.stops (databaseHandle (← get).conn)
      let allocated ← Prog.odbcCall env (.allocHandle .stmt dbc)
      Prog.stops (verifyOdbc env.build allocated .dbc dbc)
      let text ← Prog.text (stringText block)
      let executed ← Prog.odbcCall env (.execDirect allocated.handle text)
      behind dbc allocated executed : Prog α) w)).handed =
      w.handed ++ (stringText block).toOption.toList := by
  obtain ⟨odbc, hodbc, hverify⟩ := hready
  have hdbc : databaseHandle w.conn = .ok odbc.databaseConnectionHandle := by
    unfold databaseHandle
    rw [hodbc]
    rfl
  rw [bind_get, hdbc, bind_lift_ok, Prog.bind_odbcCall, hverify, bind_lift_ok]
  cases htext : stringText block with
  | error f => simp [final, Except.toOption, World.handed, bind_lift_error, OdbcCall.handed]
  | ok text =>
    rw [bind_lift_ok, Prog.bind_odbcCall, hbehind]
    simp only [World.handed, List.filterMap_append, List.append_assoc]
    rfl

theorem execStatement_handed {env : Env} {w : World} (hready : StatementReady env w)
    (block : List FxmyChar) : (final (execStatement env block w)).handed =
      w.handed ++ (stringText block).toOption.toList :=
  handed_executed hready block fun _ _ _ => .bind (.lift _ _) fun _ =>
    .bind (statementStatus_keeps_handed env _) fun _ =>
    .bind (odbcCall_keeps_handed env rfl) fun _ => .bind (.lift _ _) fun _ =>
    .bind (fxmyFree_keeps_handed _) fun _ => .pure _

/-! ## Statements -/

/-- A packet's query that decodes and reaches the general branch of `fxmy_handle_query`. -/
structure StatementQuery (build : Build) (ct : Ctype FxmyChar) where
  bytes : List UInt8
  size : Nat
  text : List FxmyChar
  rest : List FxmyChar
  nul_not_mem : nul ∉ text
  decoded : decodeQuery build bytes size = .ok (text ++ nul :: rest)
  general : queryBranch ct (text ++ nul :: rest) = .ok .statement

namespace StatementQuery

variable {build : Build} {ct : Ctype FxmyChar} (query : StatementQuery build ct)

/-- `fxmy_handle_query` hands this text to `SQLExecDirect`, and no other, whenever it gets a
statement handle. -/
def Hands (out : List FxmyChar) : Prop := ∀ env w, env.build = build → env.ctype = ct →
  StatementReady env w →
    (final (handleQuery env query.bytes query.size w)).handed = w.handed ++ [out]

/-- The query is refused: it is answered with the default error, and nothing is executed. -/
def Refused : Prop := ∃ env w w', env.build = build ∧ env.ctype = ct ∧ StatementReady env w ∧
  handleQuery env query.bytes query.size w = .ok 0 w' ∧ w'.conn.status = some statusDefault ∧
    w'.handed = w.handed

/-- What the general branch does. -/
theorem handleQuery_general (env : Env) (w : World) (hbuild : env.build = build)
    (hct : env.ctype = ct) : handleQuery env query.bytes query.size w =
      let w' := { w with numAllocations := w.numAllocations + 1 }
      match translate ct (query.text ++ nul :: query.rest) with
      | .ok (some statement) => execStatement env statement w'
      | .ok none => .ok 0 { w' with conn := { w.conn with status := some statusDefault } }
      | .error f => .error (.text f) w' := by
  unfold handleQuery
  rw [bind_modify, hbuild, query.decoded, bind_lift_ok]
  unfold handleWideQuery
  rw [hct, query.general, bind_lift_ok]
  simp only
  rw [translateCounted_eq]
  cases translate ct (query.text ++ nul :: query.rest) with
  | error f => rfl
  | ok statement =>
    rw [bind_lift_ok]
    cases statement with
    | none =>
      simp only
      rw [getStatus_default, bind_lift_ok, bind_modify]
      rfl
    | some statement => rfl

theorem handed_general {env : Env} {w : World} (hbuild : env.build = build) (hct : env.ctype = ct)
    (hready : StatementReady env w) :
    (final (handleQuery env query.bytes query.size w)).handed = w.handed ++
      match translate ct (query.text ++ nul :: query.rest) with
      | .ok (some statement) => (stringText statement).toOption.toList
      | _ => [] := by
  rw [query.handleQuery_general env w hbuild hct]
  have hready' : StatementReady env { w with numAllocations := w.numAllocations + 1 } := hready
  cases translate ct (query.text ++ nul :: query.rest) with
  | error f => exact (List.append_nil _).symm
  | ok statement =>
    cases statement with
    | none => exact (List.append_nil _).symm
    | some statement => exact execStatement_handed hready' statement

/-- Surroundings in which a statement handle is given out. -/
theorem exists_ready (build : Build) (ct : Ctype FxmyChar) :
    ∃ env w, env.build = build ∧ env.ctype = ct ∧ StatementReady env w := by
  refine ⟨{ Env.benign obliging with build := build, ctype := ct },
    { World.fresh [] [] with conn := { Connection.fresh [] with odbc := some ⟨.null, .null⟩ } },
    rfl, rfl, ⟨.null, .null⟩, rfl, ?_⟩
  rfl

/-- What is handed over depends on the translation alone. -/
theorem hands_iff (out : List FxmyChar) : query.Hands out ↔
    ∃ statement, translate ct (query.text ++ nul :: query.rest) = .ok (some statement) ∧
      stringText statement = .ok out := by
  constructor
  · intro h
    obtain ⟨env, w, hbuild, hct, hready⟩ := exists_ready build ct
    have hout := h env w hbuild hct hready
    rw [query.handed_general hbuild hct hready] at hout
    have hlist := List.append_cancel_left hout
    cases htr : translate ct (query.text ++ nul :: query.rest) with
    | error f =>
      rw [htr] at hlist
      cases hlist
    | ok statement =>
      cases statement with
      | none =>
        rw [htr] at hlist
        cases hlist
      | some statement =>
        rw [htr] at hlist
        refine ⟨statement, rfl, ?_⟩
        cases htext : stringText statement with
        | error f =>
          simp only [htext] at hlist
          cases hlist
        | ok text =>
          simp only [htext] at hlist
          cases hlist
          rfl
  · rintro ⟨statement, htr, htext⟩ env w hbuild hct hready
    rw [query.handed_general hbuild hct hready, htr]
    simp only [htext]
    rfl

theorem Hands.unique {out out' : List FxmyChar} (h : query.Hands out) (h' : query.Hands out') :
    out = out' := by
  obtain ⟨statement, htr, htext⟩ := (query.hands_iff out).mp h
  obtain ⟨statement', htr', htext'⟩ := (query.hands_iff out').mp h'
  rw [htr, Except.ok.injEq, Option.some.injEq] at htr'
  rw [← htr', htext, Except.ok.injEq] at htext'
  exact htext'

theorem Refused.not_hands (h : query.Refused) (out : List FxmyChar) : ¬ query.Hands out := by
  intro hhands
  obtain ⟨env, w, w', hbuild, hct, hready, hrun, -, hnothing⟩ := h
  have hout := hhands env w hbuild hct hready
  rw [hrun] at hout
  have hlen := congrArg List.length (hnothing.symm.trans hout)
  rw [List.length_append, List.length_singleton] at hlen
  omega

end StatementQuery

/-! ## The text as it is -/

section

variable {ct : Ctype FxmyChar}

/-- The characters of what abbreviates a word are those of the word, in any case. -/
theorem Token.Abbreviates.lower_ne {t : Token} {keyword : String} (h : t.Abbreviates ct keyword)
    {d : Char} (hd : d.toNat < 128)
    (hword : ∀ c ∈ keyword.toList, c.toNat < 128 ∧ c.toLower ≠ d.toLower) : C d ∉ t.text := by
  intro hc
  obtain ⟨e, he, heq⟩ := List.mem_map.mp (h.subset (List.mem_map_of_mem hc))
  obtain ⟨e', he', rfl⟩ := List.mem_map.mp he
  exact ct.lower_ne (hword e' he').1 hd (hword e' he').2 heq

theorem P_mem_top : (C 'P' : FxmyChar) ∈ top := by decide

theorem P_not_mem_gap {gap : List FxmyChar} (h : ∀ c ∈ gap, ct.isspace c = true) : C 'P' ∉ gap := by
  intro hmem
  exact ct.ne_of_isspace (h _ hmem) 'P' (by decide) rfl

namespace LimitClause

variable {query : List FxmyChar} (clause : LimitClause ct query)

/-- The inserted text has a letter P more than the clause. -/
theorem count_P_lt : clause.removed.count (C 'P') < clause.inserted.count (C 'P') := by
  have hlimit := clause.limit_abbreviates.lower_ne (d := 'P') (by decide)
    (List.all_iff_forall_prop.mp (by decide))
  have hgap := P_not_mem_gap clause.isToken_count.gap_space
  have htop := List.count_pos_iff.mpr P_mem_top
  simp only [removed, inserted, List.count_append, List.count_eq_zero_of_not_mem hlimit,
    List.count_eq_zero_of_not_mem hgap]
  omega

/-- The clause has its L more often than the inserted text. -/
theorem exists_count_lt : ∃ c, clause.inserted.count c < clause.removed.count c := by
  have hne := clause.isToken_limit.text_ne_nil
  have hprefix := clause.limit_abbreviates
  unfold Token.Abbreviates at hprefix
  cases htext : clause.limit.text with
  | nil => exact absurd htext hne
  | cons c cs =>
    have hlower : ct.lower c = ct.lower (C 'L') := by
      rw [htext] at hprefix
      exact (List.cons_prefix_cons.mp hprefix).1
    have hfree : ∀ d ∈ ['T', 'O', 'P', ' '], c ≠ C d := by
      intro d hd heq
      rw [heq] at hlower
      have hletters : ∀ d ∈ ['T', 'O', 'P', ' '], d.toNat < 128 ∧ d.toLower ≠ 'L'.toLower :=
        List.all_iff_forall_prop.mp (by decide)
      exact ct.lower_ne (hletters d hd).1 (by decide) (hletters d hd).2 hlower
    have htop : c ∉ top := by
      intro hc
      have hletters : ∀ d ∈ "TOP  ".toList, d ∈ ['T', 'O', 'P', ' '] :=
        List.all_iff_forall_prop.mp (by decide)
      obtain ⟨d, hd, rfl⟩ := List.mem_map.mp hc
      exact hfree d (hletters d hd) rfl
    have hspace : c ∉ ([C ' '] : List FxmyChar) := by
      intro hc
      exact hfree ' ' (by decide) (List.mem_singleton.mp hc)
    refine ⟨c, ?_⟩
    simp only [removed, inserted, htext, List.count_append, List.count_eq_zero_of_not_mem htop,
      List.count_eq_zero_of_not_mem hspace, List.count_cons_self]
    omega

/-- Where the text that is read back is as long as the text, the inserted text took no terminator. -/
theorem nul_not_mem_lost {text rest : List FxmyChar} (ht : nul ∉ text)
    (clause : LimitClause ct (text ++ nul :: rest)) {behind : List FxmyChar}
    (hout : stringText (clause.before ++ (clause.inserted ++ behind)) = .ok text) :
    nul ∉ clause.lost := by
  obtain ⟨after, htext, hbehind⟩ := clause.text_eq
  have hlen := congrArg List.length htext
  have hnul : nul ∉ clause.before ++ clause.inserted := fun h =>
    clause.nul_not_mem_rearranged ht htext <| by
      unfold rearranged
      rw [← List.append_assoc]
      exact List.mem_append_left _ h
  have hfront : (clause.before ++ clause.inserted).length ≤ text.length := by
    unfold stringText at hout
    split at hout
    · have htake := Except.ok.inj hout
      rw [← List.append_assoc, List.takeWhile_append_of_pos] at htake
      · have := congrArg List.length htake
        rw [List.length_append] at this
        omega
      · intro c hc
        have hne : c ≠ nul := fun h => hnul (h ▸ hc)
        simpa using hne
    · cases hout
  intro hmem
  simp only [List.length_append] at hlen hfront
  have hexcess : clause.excess ≤ (clause.body ++ after).length := by
    unfold excess
    rw [List.length_append]
    omega
  have hkept : nul ∉ clause.body ++ after := by
    intro h
    apply ht
    rw [htext]
    rcases List.mem_append.mp h with h | h
    · exact List.mem_append_right _ (List.mem_append_left _ h)
    · exact List.mem_append_right _ (List.mem_append_right _ (List.mem_append_right _ h))
  unfold lost at hmem
  rw [hbehind, ← List.append_assoc, List.take_append_of_le_length hexcess] at hmem
  exact hkept (List.mem_of_mem_take hmem)

/-- **A moved clause is seen in the text**: the inserted text has letters that the clause has not, or
lacks some that it has. -/
theorem text_ne {text rest moved : List FxmyChar} (ht : nul ∉ text)
    (clause : LimitClause ct (text ++ nul :: rest))
    (h : rearrangeLimit ct (text ++ nul :: rest) = .ok (0, moved)) : stringText moved ≠ .ok text := by
  intro hout
  rw [clause.rearrangeLimit_eq] at h
  split at h
  · cases h
    obtain ⟨after, htext, hbehind⟩ := clause.text_eq
    have hlost := nul_not_mem_lost ht clause hout
    rw [clause.moved_eq hlost hbehind, stringText_terminated
      (clause.nul_not_mem_rearranged ht htext), Except.ok.injEq] at hout
    have hsame : clause.inserted ++ (clause.stale ++ (clause.body ++ after).drop clause.excess) =
        clause.body ++ (clause.removed ++ after) :=
      List.append_cancel_left (hout.trans htext)
    rcases Nat.le_total clause.inserted.length clause.removed.length with hle | hle
    · have hexcess : clause.excess = 0 := Nat.sub_eq_zero_of_le hle
      have hcount := congrArg (List.count (C 'P')) hsame
      have hP := clause.count_P_lt
      rw [hexcess, List.drop_zero] at hcount
      simp only [List.count_append] at hcount
      omega
    · have hstale : clause.stale = [] :=
        List.drop_eq_nil_of_le (Nat.le_trans (List.length_take_le _ _) hle)
      obtain ⟨c, hc⟩ := clause.exists_count_lt
      have hcount := congrArg (List.count c) hsame
      have hdrop := (List.drop_sublist clause.excess (clause.body ++ after)).count_le c
      rw [hstale, List.nil_append] at hcount
      simp only [List.count_append] at hcount hdrop
      omega
  · cases h

end LimitClause

/-- **A general statement is executed as it is** exactly if the word `LIMIT` and a space do not occur
in it. -/
theorem StatementQuery.hands_text_iff {build : Build} (query : StatementQuery build ct) :
    query.Hands query.text ↔ ¬ Occurs ct "LIMIT " query.text := by
  obtain ⟨b, hb, hiff⟩ := mentions_iff ct "LIMIT " (by decide) query.nul_not_mem query.rest
  rw [query.hands_iff, ← hiff]
  unfold translate
  rw [hb, Exec.except_bind_ok]
  cases b with
  | false =>
    refine iff_of_true ⟨_, rfl, ?_⟩ Bool.false_ne_true
    exact stringText_terminated query.nul_not_mem query.rest
  | true =>
    refine iff_of_false ?_ (fun h => h rfl)
    rintro ⟨statement, htr, htext⟩
    obtain ⟨⟨refused, moved⟩, hmove, h⟩ := Exec.except_bind_eq_ok.mp htr
    rcases rearrangeLimit_eq_ok hmove with ⟨rfl, -⟩ | ⟨rfl, ⟨clause⟩⟩
    · cases h
    · cases h
      exact clause.text_ne query.nul_not_mem hmove htext

end

/-! ## Keywords outside literals -/

section

variable (ct : Ctype FxmyChar)

/-- A token may start behind this text: outside literals, at the front, behind white space or behind
a literal. -/
def StartsToken (front : List FxmyChar) : Prop :=
  Closed front ∧ ∀ c, front.getLast? = some c → ct.isspace c = true ∨ isQuote c = true

/-- A token may end in front of this text. -/
def EndsToken (behind : List FxmyChar) : Prop :=
  ∀ c, behind.head? = some c → ct.isspace c = true ∨ c = C ';' ∨ c = C ','

/-- Between these texts the keyword stands as a token of its own, outside literals. -/
structure OuterKeyword (keyword : String) (front word behind : List FxmyChar) : Prop where
  is_keyword : word.map ct.lower = (chars keyword).map ct.lower
  starts : StartsToken ct front
  ends : EndsToken ct behind

/-- A LIMIT stands outside the literals of the text. -/
def HasOuterLimit (text : List FxmyChar) : Prop := ∃ front word behind,
  text = front ++ (word ++ behind) ∧ OuterKeyword ct "LIMIT" front word behind

/-- A LIMIT outside literals with a SELECT in front and a count behind it: the first SELECT, and the
first LIMIT behind that. -/
structure OuterClause (text : List FxmyChar) where
  front : List FxmyChar
  select : List FxmyChar
  selectGap : List FxmyChar
  body : List FxmyChar
  limit : List FxmyChar
  gap : List FxmyChar
  count : List FxmyChar
  after : List FxmyChar
  text_eq : text =
    front ++ (select ++ (selectGap ++ (body ++ (limit ++ (gap ++ (count ++ after))))))
  is_select : OuterKeyword ct "SELECT" front select
    (selectGap ++ (body ++ (limit ++ (gap ++ (count ++ after)))))
  first_select : ∀ f w b, text = f ++ (w ++ b) → OuterKeyword ct "SELECT" f w b →
    front.length ≤ f.length
  selectGap_space : ∀ c ∈ selectGap, ct.isspace c = true
  body_start : ∀ c, (body ++ limit).head? = some c → ct.isspace c = false
  is_limit : OuterKeyword ct "LIMIT" (front ++ (select ++ (selectGap ++ body))) limit
    (gap ++ (count ++ after))
  first_limit : ∀ f w b, text = f ++ (w ++ b) → OuterKeyword ct "LIMIT" f w b →
    front.length < f.length → (front ++ (select ++ (selectGap ++ body))).length ≤ f.length
  gap_space : ∀ c ∈ gap, ct.isspace c = true
  count_ne_nil : count ≠ []
  count_plain : ∀ c ∈ count,
    ct.isspace c = false ∧ c ≠ C ';' ∧ c ≠ C ',' ∧ isQuote c = false
  count_ends : EndsToken ct after

end

/-- What ends a token is none of the characters of a count. -/
theorem EndsToken.not_plain {ct : Ctype FxmyChar} {r : List FxmyChar} (h : EndsToken ct r) :
    ∀ c, r.head? = some c →
      ¬ (ct.isspace c = false ∧ c ≠ C ';' ∧ c ≠ C ',' ∧ isQuote c = false) := by
  rintro c hc ⟨hspace, hsemi, hcomma, -⟩
  rcases h c hc with h | h | h
  · rw [hspace] at h
    cases h
  · exact hsemi h
  · exact hcomma h

/-- A list is split in one way where a run with `p` ends. -/
theorem run_unique {α : Type} {p : α → Prop} {a a' x x' : List α} (h : a ++ x = a' ++ x')
    (ha : ∀ c ∈ a, p c) (ha' : ∀ c ∈ a', p c) (hx : ∀ c, x.head? = some c → ¬ p c)
    (hx' : ∀ c, x'.head? = some c → ¬ p c) : a = a' ∧ x = x' := by
  induction a generalizing a' with
  | nil =>
    cases a' with
    | nil => exact ⟨rfl, h⟩
    | cons c a' => exact absurd (ha' c List.mem_cons_self) (hx c (by rw [← List.nil_append x, h]; rfl))
  | cons c a ih =>
    cases a' with
    | nil => exact absurd (ha c List.mem_cons_self) (hx' c (by rw [← List.nil_append x', ← h]; rfl))
    | cons d a' =>
      obtain ⟨rfl, htail⟩ := List.cons.inj h
      obtain ⟨rfl, rfl⟩ := ih htail (fun e he => ha e (List.mem_cons_of_mem c he))
        (fun e he => ha' e (List.mem_cons_of_mem c he))
      exact ⟨rfl, rfl⟩

namespace OuterClause

variable {ct : Ctype FxmyChar} {text : List FxmyChar} (outer : OuterClause ct text)

/-- The text up to the first token behind the SELECT. -/
def before : List FxmyChar := outer.front ++ (outer.select ++ outer.selectGap)

/-- The text with the clause moved. -/
def rearranged : List FxmyChar :=
  outer.before ++ (top ++ (outer.count ++ (C ' ' :: (outer.body ++ outer.after))))

/-- `fxmy_rearrange_limit` takes this SELECT, this LIMIT and this count. -/
def Scanned (rest : List FxmyChar) : Prop := ∃ clause : LimitClause ct (text ++ nul :: rest),
  clause.before = outer.before ∧ clause.body = outer.body ∧ clause.limit.text = outer.limit ∧
    clause.count.gap = outer.gap ∧ clause.count.text = outer.count

theorem length_limit : outer.limit.length = 5 := by
  have := congrArg List.length outer.is_limit.is_keyword
  rw [List.length_map, List.length_map] at this
  exact this

/-- Something stands between the LIMIT and the count. -/
theorem gap_ne_nil : outer.gap ≠ [] := by
  intro hgap
  have hends := outer.is_limit.ends
  rw [hgap, List.nil_append] at hends
  cases hcount : outer.count with
  | nil => exact outer.count_ne_nil hcount
  | cons c count =>
    obtain ⟨hspace, hsemi, hcomma, -⟩ := outer.count_plain c (hcount ▸ List.mem_cons_self)
    rcases hends c (by rw [hcount]; rfl) with h | h | h
    · rw [hspace] at h
      cases h
    · exact hsemi h
    · exact hcomma h

theorem length_select : outer.select.length = 6 := by
  have := congrArg List.length outer.is_select.is_keyword
  rw [List.length_map, List.length_map] at this
  exact this

/-- The LIMIT stands behind the SELECT. -/
theorem front_lt : outer.front.length <
    (outer.front ++ (outer.select ++ (outer.selectGap ++ outer.body))).length := by
  have := outer.length_select
  simp only [List.length_append]
  omega

theorem not_space_of_head {l : List FxmyChar} (hne : l ≠ [])
    (h : ∀ c, l.head? = some c → ct.isspace c = false) (r : List FxmyChar) :
    ∀ c, (l ++ r).head? = some c → ¬ ct.isspace c = true := by
  intro c hc
  rw [List.head?_append_of_ne_nil l hne] at hc
  rw [h c hc]
  exact Bool.false_ne_true

/-- **A text has at most one clause.** -/
theorem eq (outer outer' : OuterClause ct text) : outer = outer' := by
  have hselect := outer.length_select
  have hselect' := outer'.length_select
  have hlimit := outer.length_limit
  have hlimit' := outer'.length_limit
  have hlt := outer.front_lt
  have hlt' := outer'.front_lt
  obtain ⟨front, select, selectGap, body, limit, gap, count, after, htext, his, hfirst, hgap, hbody,
    hil, hfirstLimit, hspace, hne, hplain, hends⟩ := outer
  obtain ⟨front', select', selectGap', body', limit', gap', count', after', htext', his', hfirst',
    hgap', hbody', hil', hfirstLimit', hspace', hne', hplain', hends'⟩ := outer'
  simp only at hselect hselect' hlimit hlimit' hlt hlt'
  have hs := htext.symm.trans htext'
  -- The SELECT is the first one in both.
  have hfront : front.length = front'.length :=
    Nat.le_antisymm (hfirst _ _ _ htext' his') (hfirst' _ _ _ htext his)
  obtain ⟨rfl, hs₁⟩ := List.append_inj hs hfront
  obtain ⟨rfl, hs₂⟩ := List.append_inj hs₁ (hselect.trans hselect'.symm)
  have hhead : ∀ {b l : List FxmyChar} (r : List FxmyChar), l.length = 5 →
      (∀ c, (b ++ l).head? = some c → ct.isspace c = false) →
      ∀ c, (b ++ (l ++ r)).head? = some c → ¬ ct.isspace c = true := by
    intro b l r hl h
    have hne : b ++ l ≠ [] :=
      List.append_ne_nil_of_right_ne_nil b (List.ne_nil_of_length_pos (by omega))
    rw [← List.append_assoc]
    exact not_space_of_head hne h r
  obtain ⟨rfl, hs₃⟩ := run_unique (p := fun c => ct.isspace c = true) hs₂ hgap hgap'
    (hhead _ hlimit hbody) (hhead _ hlimit' hbody')
  -- The LIMIT is the first one behind it.
  have hle := hfirstLimit _ limit' _ (htext'.trans (by simp)) hil' hlt'
  have hle' := hfirstLimit' _ limit _ (htext.trans (by simp)) hil hlt
  simp only [List.length_append] at hle hle'
  obtain ⟨rfl, hs₄⟩ := List.append_inj hs₃ (by omega)
  obtain ⟨rfl, hs₅⟩ := List.append_inj hs₄ (hlimit.trans hlimit'.symm)
  obtain ⟨rfl, hs₆⟩ := run_unique (p := fun c => ct.isspace c = true) hs₅ hspace hspace'
    (not_space_of_head hne (fun c hc => (hplain c (List.mem_of_mem_head? hc)).1) _)
    (not_space_of_head hne' (fun c hc => (hplain' c (List.mem_of_mem_head? hc)).1) _)
  obtain ⟨rfl, rfl⟩ := run_unique hs₆ hplain hplain' hends.not_plain hends'.not_plain
  rfl

theorem rearranged_ne : outer.rearranged ≠ text := by
  intro h
  have hcount := congrArg (List.count (C 'P')) (h.trans outer.text_eq)
  have hlimit : C 'P' ∉ outer.limit := by
    have hword : Token.Abbreviates ct ⟨[], outer.limit⟩ "LIMIT" :=
      Token.Is.abbreviates outer.is_limit.is_keyword
    exact hword.lower_ne (by decide) (List.all_iff_forall_prop.mp (by decide))
  have hgap := P_not_mem_gap outer.gap_space
  have htop := List.count_pos_iff.mpr P_mem_top
  simp only [rearranged, before, List.count_append, List.count_cons,
    List.count_eq_zero_of_not_mem hlimit, List.count_eq_zero_of_not_mem hgap] at hcount
  omega

end OuterClause

namespace StatementQuery

variable {build : Build} {ct : Ctype FxmyChar} (query : StatementQuery build ct)

/-- A query that the check lets through is executed as it is moved. -/
theorem hands_of_moved {out : List FxmyChar} (hlimit : Occurs ct "LIMIT " query.text)
    (hmoved : rearrangeLimit ct (query.text ++ nul :: query.rest) = .ok (0, out ++ nul :: query.rest))
    (hout : nul ∉ out) : query.Hands out := by
  obtain ⟨b, hb, hiff⟩ := mentions_iff ct "LIMIT " (by decide) query.nul_not_mem query.rest
  rw [hiff.mpr hlimit] at hb
  refine (query.hands_iff out).mpr ⟨_, ?_, stringText_terminated hout query.rest⟩
  unfold translate
  rw [hb, Exec.except_bind_ok, if_pos rfl, hmoved]
  rfl

/-- A clause that the scan takes is moved exactly if the check before the scan lets it through and
one character stands before the count. -/
theorem hands_rearranged_iff (outer : OuterClause ct query.text)
    (hscan : outer.Scanned query.rest) : query.Hands outer.rearranged ↔
      Occurs ct "LIMIT " query.text ∧ outer.gap.length = 1 := by
  obtain ⟨clause, hbefore, hbody, hlimit, hgap, hcount⟩ := hscan
  obtain ⟨after, htext, hbehind⟩ := clause.text_eq
  have hremoved : clause.removed = outer.limit ++ (outer.gap ++ outer.count) := by
    rw [← hlimit, ← hgap, ← hcount]
    rfl
  have hinserted : clause.inserted = top ++ (outer.count ++ [C ' ']) := by
    rw [← hcount]
    rfl
  have hgap_pos := List.length_pos_iff.mpr outer.gap_ne_nil
  have hlen_removed : clause.removed.length = 5 + (outer.gap.length + outer.count.length) := by
    rw [hremoved, List.length_append, List.length_append, outer.length_limit]
  have hlen_inserted : clause.inserted.length = outer.count.length + 6 := by
    rw [hinserted]
    exact length_insertedText outer.count
  have hle : clause.inserted.length ≤ clause.removed.length := by omega
  have hafter : after = outer.after := by
    have hsame := htext.symm.trans outer.text_eq
    rw [hbefore, hbody, hremoved] at hsame
    simpa [OuterClause.before] using hsame
  subst hafter
  have hmoved := clause.rearrangeLimit_of_length_le hle hbehind
  have hnul := clause.nul_not_mem_rearranged query.nul_not_mem htext
  constructor
  · intro h
    by_cases hoccurs : Occurs ct "LIMIT " query.text
    · refine ⟨hoccurs, ?_⟩
      have hlen := congrArg List.length (h.unique query (query.hands_of_moved hoccurs hmoved hnul))
      rw [clause.length_rearranged hle, hbefore, hbody] at hlen
      simp only [OuterClause.rearranged, List.length_append, List.length_cons] at hlen
      have htop : top.length = 5 := rfl
      omega
    · exact absurd (h.unique query (query.hands_text_iff.mpr hoccurs)) outer.rearranged_ne
  · rintro ⟨hoccurs, hone⟩
    have heq : clause.rearranged outer.after = outer.rearranged := by
      rw [clause.rearranged_of_length_eq (by omega), hbefore, hbody, hinserted]
      simp [OuterClause.rearranged]
    rw [← heq]
    exact query.hands_of_moved hoccurs hmoved hnul

/-- What a general statement should come to: without a LIMIT outside literals it is executed as it
is, with a complete clause the clause is moved, and only what has neither is refused. -/
structure Translates : Prop where
  as_it_is : ¬ HasOuterLimit ct query.text → query.Hands query.text
  moved : ∀ outer : OuterClause ct query.text, query.Hands outer.rearranged
  refused : query.Refused → HasOuterLimit ct query.text ∧ ¬ Nonempty (OuterClause ct query.text)

/-- The program's ways to see a LIMIT agree with the keywords outside literals. -/
structure Recognised : Prop where
  not_mentioned : ¬ HasOuterLimit ct query.text → ¬ Occurs ct "LIMIT " query.text
  scanned : ∀ outer : OuterClause ct query.text, outer.Scanned query.rest
  mentioned : OuterClause ct query.text → Occurs ct "LIMIT " query.text
  one_character : ∀ outer : OuterClause ct query.text, outer.gap.length = 1

/-- **The translation of a general statement** is right where the program recognises its LIMIT, and,
where the scan takes the clauses outside literals, only there. -/
theorem translates_iff : (query.Recognised → query.Translates) ∧
    ((∀ outer : OuterClause ct query.text, outer.Scanned query.rest) →
      query.Translates → query.Recognised) := by
  constructor
  · intro h
    have hverbatim : ¬ HasOuterLimit ct query.text → query.Hands query.text :=
      fun hnone => query.hands_text_iff.mpr (h.not_mentioned hnone)
    have hmoved : ∀ outer : OuterClause ct query.text, query.Hands outer.rearranged := fun outer =>
      (query.hands_rearranged_iff outer (h.scanned outer)).mpr ⟨h.mentioned outer, h.one_character outer⟩
    refine ⟨hverbatim, hmoved, fun hrefused => ⟨?_, ?_⟩⟩
    · exact Classical.byContradiction fun hnone => hrefused.not_hands query _ (hverbatim hnone)
    · rintro ⟨outer⟩
      exact hrefused.not_hands query _ (hmoved outer)
  · intro hscan h
    have houter : ∀ outer : OuterClause ct query.text,
        Occurs ct "LIMIT " query.text ∧ outer.gap.length = 1 := fun outer =>
      (query.hands_rearranged_iff outer (hscan outer)).mp (h.moved outer)
    exact ⟨fun hnone => query.hands_text_iff.mp (h.as_it_is hnone), hscan,
      fun outer => (houter outer).1, fun outer => (houter outer).2⟩

end StatementQuery

/-! ## Two statements -/

section

variable {ct : Ctype FxmyChar}

/-- Where a keyword stands, the text before it is closed and the text behind it starts with it. -/
theorem OuterKeyword.at_offset {keyword : String} {text front word behind : List FxmyChar}
    (htext : text = front ++ (word ++ behind)) (h : OuterKeyword ct keyword front word behind) :
    front.length ≤ text.length ∧ Closed (text.take front.length) ∧
      ((text.drop front.length).take keyword.toList.length).map ct.lower =
        (chars keyword).map ct.lower := by
  have hlen : word.length = keyword.toList.length := by
    have := congrArg List.length h.is_keyword
    rwa [List.length_map, List.length_map, chars, List.length_map] at this
  subst htext
  refine ⟨by simp, ?_, ?_⟩
  · rw [List.take_left' rfl]
    exact h.starts.1
  · rw [List.drop_left' rfl, List.take_left' hlen]
    exact h.is_keyword

theorem OuterClause.hasOuterLimit {text : List FxmyChar} (outer : OuterClause ct text) :
    HasOuterLimit ct text :=
  ⟨_, _, _, outer.text_eq.trans (by simp), outer.is_limit⟩

/-- An ASCII query that mentions no keyword of the dispatch. -/
def AsciiQuery.statement (query : AsciiQuery) (build : Build) (ct : Ctype FxmyChar)
    (h : ∀ k ∈ dispatchKeywords, ¬ Occurs ct k.1 query.text) : StatementQuery build ct where
  bytes := query.bytes ++ [0]
  size := query.bytes.length
  text := query.text
  rest := []
  nul_not_mem := query.nul_not_mem
  decoded := decodeQuery_ascii build query
  general := queryBranch_statement ct query.nul_not_mem [] h

end

/-- The query of `selectClause`. -/
def selectQuery : AsciiQuery := ⟨chars "SELECT a LIMIT 5", List.all_iff_forall_prop.mp (by decide)⟩

def selectOuter : OuterClause cLocale selectQuery.text where
  front := []
  select := chars "SELECT"
  selectGap := chars " "
  body := chars "a "
  limit := chars "LIMIT"
  gap := chars " "
  count := chars "5"
  after := []
  text_eq := rfl
  is_select := ⟨rfl, ⟨rfl, nofun⟩, by rintro c ⟨⟩; exact .inl rfl⟩
  first_select _ _ _ _ _ := Nat.zero_le _
  selectGap_space := List.all_iff_forall_prop.mp (by decide)
  body_start := by rintro c ⟨⟩; rfl
  is_limit := ⟨rfl, ⟨rfl, by rintro c ⟨⟩; exact .inl rfl⟩, by rintro c ⟨⟩; exact .inl rfl⟩
  first_limit f w b htext h _ := by
    have hat := (h.at_offset htext).2.2
    have hnone : ∀ n < 9, ((selectQuery.text.drop n).take 5).map cLocale.lower ≠
        (chars "LIMIT").map cLocale.lower := by decide
    exact Nat.le_of_not_lt fun hlt => hnone _ hlt hat
  gap_space := List.all_iff_forall_prop.mp (by decide)
  count_ne_nil := nofun
  count_plain := List.all_iff_forall_prop.mp (by decide)
  count_ends := nofun

theorem selectQuery_translates :
    (selectQuery.statement ⟨true, false⟩ cLocale
      (not_occurs_of_letters (by decide))).Translates := by
  refine (StatementQuery.translates_iff _).1 ⟨fun h => ?_, fun outer => ?_, fun _ => ?_, fun outer => ?_⟩
  · exact absurd selectOuter.hasOuterLimit h
  · rw [outer.eq selectOuter]
    exact ⟨selectClause, rfl, rfl, rfl, rfl, rfl⟩
  · exact ⟨chars "select a ", chars "5", rfl⟩
  · rw [outer.eq selectOuter]
    rfl

/-- A query whose literal mentions a LIMIT. -/
def mentionQuery : AsciiQuery := ⟨chars "SELECT 'no LIMIT here'", List.all_iff_forall_prop.mp (by decide)⟩

theorem mention_not_executed : ¬ ∀ (build : Build) (ct : Ctype FxmyChar)
    (query : StatementQuery build ct), query.Translates := by
  intro h
  have htranslates :=
    h ⟨true, false⟩ cLocale (mentionQuery.statement _ _ (not_occurs_of_letters (by decide)))
  have hnone : ¬ HasOuterLimit cLocale mentionQuery.text := by
    rintro ⟨front, word, behind, htext, hlimit⟩
    obtain ⟨hlen, hclosed, hat⟩ := hlimit.at_offset htext
    have hnowhere : ∀ n < 23, Closed (mentionQuery.text.take n) →
        ((mentionQuery.text.drop n).take 5).map cLocale.lower ≠
          (chars "LIMIT").map cLocale.lower := by decide
    exact hnowhere _ (Nat.lt_succ_of_le hlen) hclosed hat
  apply (StatementQuery.hands_text_iff _).mp (htranslates.as_it_is hnone)
  exact ⟨chars "select 'no ", chars "here'", rfl⟩

end Fxmy
