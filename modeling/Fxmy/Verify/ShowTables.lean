import Fxmy.Verify.Procedures
import Fxmy.Verify.Refusal

/-!
# SHOW TABLES

The search for LIKE takes a turn for each token of the query and one more (`likeLoop_returns`), as does
the scan for LIMIT (`scans_return`). Of the token behind LIKE a character too many is copied, so that
the copy is terminated only if the query ends there (`showsTables_iff`).
-/

namespace Fxmy

open Exec

variable {ct : Ctype FxmyChar}

/-! ## The search for LIKE -/

/-- The search ends at once behind the last token. -/
theorem likeLoop_end {str stop : Option (List FxmyChar)}
    (h : fnextToken ct str = .ok (none, stop)) (fuel : Nat) :
    likeLoop ct str (fuel + 1) = .ok (none, none) := by
  rw [likeLoop, h, except_bind_ok]

/-- One turn of the search. -/
theorem likeLoop_token {p q : List FxmyChar} {t : Token} (ht : IsToken ct t)
    (h : fnextToken ct (some p) = .ok (some (t.text ++ q), some q)) (fuel : Nat) :
    ∃ isLike, (isLike = true ↔ t.Abbreviates ct "LIKE") ∧
      likeLoop ct (some p) (fuel + 1) =
        if isLike then fnextToken ct (some q) else likeLoop ct (some q) fuel := by
  obtain ⟨n, hn, hiff⟩ := fstrnicmp_token ht q "LIKE"
  refine ⟨decide (n = 0), by rw [decide_eq_true_iff, hiff], ?_⟩
  rw [likeLoop, h, except_bind_ok]
  simp only [List.length_append, Nat.add_sub_cancel, hn, except_bind_ok, decide_eq_true_eq]

/-- A token that abbreviates LIKE, the first of its query, and the token behind it. -/
structure LikeClause (ct : Ctype FxmyChar) (query : List FxmyChar) where
  front : List Token
  like : Token
  wildcard : Token
  behind : List FxmyChar
  yields : Yields ct query (front ++ [like, wildcard]) behind
  abbreviates : like.Abbreviates ct "LIKE"
  first : ∀ t ∈ front, ¬ t.Abbreviates ct "LIKE"

namespace LikeClause

variable {p q : List FxmyChar} {t : Token}

/-- A token in front that does not pass for LIKE. -/
def cons (clause : LikeClause ct q) (hfirst : Yields ct p [t] q) (ht : ¬ t.Abbreviates ct "LIKE") :
    LikeClause ct p where
  front := t :: clause.front
  like := clause.like
  wildcard := clause.wildcard
  behind := clause.behind
  yields := (Yields.append_iff : Yields ct p ([t] ++ _) _ ↔ _).mpr ⟨q, hfirst, clause.yields⟩
  abbreviates := clause.abbreviates
  first := List.forall_mem_cons.mpr ⟨ht, clause.first⟩

/-- Behind a token that does not pass for LIKE. -/
theorem tail (clause : LikeClause ct p) (hfirst : Yields ct p [t] q)
    (ht : ¬ t.Abbreviates ct "LIKE") : Nonempty (LikeClause ct q) := by
  obtain ⟨front, like, wildcard, behind, hyields, hlike, hfront⟩ := clause
  cases front with
  | nil =>
    obtain ⟨rfl, -⟩ := hfirst.of_cons hyields
    exact absurd hlike ht
  | cons u front =>
    obtain ⟨rfl, hrest⟩ := hfirst.of_cons hyields
    exact ⟨⟨front, like, wildcard, behind, hrest, hlike,
      fun v hv => hfront v (List.mem_cons_of_mem _ hv)⟩⟩

/-- A token that passes for LIKE is the one. -/
theorem of_first (clause : LikeClause ct p) (hfirst : Yields ct p [t] q)
    (ht : t.Abbreviates ct "LIKE") : Yields ct q [clause.wildcard] clause.behind := by
  obtain ⟨front, like, wildcard, behind, hyields, hlike, hfront⟩ := clause
  cases front with
  | nil => exact (hfirst.of_cons hyields).2
  | cons u front =>
    obtain ⟨rfl, -⟩ := hfirst.of_cons hyields
    exact absurd ht (hfront u List.mem_cons_self)

end LikeClause

/-- The search takes a turn for each token up to the LIKE, or for all of them and one more. -/
theorem likeLoop_returns {query : List FxmyChar} {ts : List Token} (h : Tokenizes ct query ts)
    {fuel : Nat} (hfuel : ts.length < fuel) :
    IsEmpty (LikeClause ct query) ∧ likeLoop ct (some query) fuel = .ok (none, none) ∨
      ∃ clause : LikeClause ct query, likeLoop ct (some query) fuel =
        .ok (some (clause.wildcard.text ++ clause.behind), some clause.behind) := by
  obtain ⟨r, hyields, hend⟩ := h
  obtain ⟨fuel, rfl⟩ := Nat.exists_eq_add_one.mpr (Nat.zero_lt_of_lt hfuel)
  induction hyields generalizing fuel with
  | done p =>
    refine .inl ⟨⟨fun clause => ?_⟩, likeLoop_end hend fuel⟩
    have hnil := Yields.eq_nil hend clause.yields
    simp at hnil
  | @token t q r ts hnext hrest ih =>
    have hfirst : Yields ct _ [t] q := .token t hnext (.done q)
    obtain ⟨isLike, hlike, heq⟩ := likeLoop_token (fnextToken_eq_some hnext) hnext fuel
    rw [heq]
    cases isLike with
    | true =>
      have ht := hlike.mp rfl
      rw [if_pos rfl]
      cases hrest with
      | done =>
        refine .inl ⟨⟨fun clause => ?_⟩, hend⟩
        cases Yields.eq_nil hend (clause.of_first hfirst ht)
      | token u hnext' hrest =>
        exact .inr ⟨⟨[], t, u, _, .token t hnext (.token u hnext' (.done _)), ht, nofun⟩, hnext'⟩
    | false =>
      have ht := mt hlike.mpr Bool.false_ne_true
      rw [if_neg Bool.false_ne_true]
      obtain ⟨fuel, rfl⟩ := Nat.exists_eq_add_one.mpr
        (Nat.zero_lt_of_lt (Nat.lt_of_succ_lt_succ hfuel))
      rcases ih hend fuel (Nat.lt_of_succ_lt_succ hfuel) with ⟨hnone, hloop⟩ | ⟨clause, hloop⟩
      · exact .inl ⟨⟨fun clause => (clause.tail hfirst ht).elim hnone.false⟩, hloop⟩
      · exact .inr ⟨clause.cons hfirst ht, hloop⟩

/-- **Both scans come to an end** within a turn more than the query has characters, and at once where
there is no token left, without reading through the NULL. -/
theorem scans_return {text : List FxmyChar} (htext : nul ∉ text) (rest : List FxmyChar) :
    (∀ fuel, text.length < fuel →
      (∃ scan, limitLoop ct none none (some (text ++ nul :: rest)) fuel = .ok scan) ∧
      ∃ wildcard, likeLoop ct (some (text ++ nul :: rest)) fuel = .ok wildcard) ∧
    ∀ str stop, fnextToken ct str = .ok (none, stop) → ∀ fuel,
      (∀ select next, ∃ scan, limitLoop ct select next str (fuel + 1) = .ok scan ∧
        scan.limitBegin = none) ∧
      likeLoop ct str (fuel + 1) = .ok (none, none) := by
  refine ⟨fun fuel hfuel => ?_, fun str stop hend fuel => ?_⟩
  · have htokens := tokenizes_words ct htext rest
    have hturns := Nat.lt_of_le_of_lt htokens.length_le hfuel
    obtain ⟨scan, hscan, -⟩ := limitLoop_returns htokens none none hturns
    refine ⟨⟨scan, hscan⟩, ?_⟩
    rcases likeLoop_returns htokens hturns with ⟨-, hloop⟩ | ⟨clause, hloop⟩
    · exact ⟨_, hloop⟩
    · exact ⟨_, hloop⟩
  · exact ⟨fun select next => limitLoop_end hend select next fuel, likeLoop_end hend fuel⟩

theorem scans_return_select :
    (∀ fuel, (chars "SELECT 'a" : List FxmyChar).length < fuel →
      (∃ scan, limitLoop cLocale none none (some (chars "SELECT 'a" ++ nul :: [])) fuel = .ok scan) ∧
      ∃ wildcard, likeLoop cLocale (some (chars "SELECT 'a" ++ nul :: [])) fuel = .ok wildcard) ∧
    ∀ str stop, fnextToken cLocale str = .ok (none, stop) → ∀ fuel,
      (∀ select next, ∃ scan, limitLoop cLocale select next str (fuel + 1) = .ok scan ∧
        scan.limitBegin = none) ∧
      likeLoop cLocale str (fuel + 1) = .ok (none, none) :=
  scans_return (by decide) []

/-! ## The statement -/

/-- The statement that `fxmy_show_tables` formats. -/
def showTablesStatement (ct : Ctype FxmyChar) (query : List FxmyChar) :
    Except Fault (List FxmyChar) := do
  let (start, stop) ← likeLoop ct (some query) (query.length + 1)
  let wildcard ← likeWildcard start stop
  showTablesFormat wildcard

/-- A buffer that is one longer than its text keeps the terminator it was allocated with. -/
theorem snprintf_exact (text : List FxmyChar) :
    snprintf (List.replicate (text.length + 1) nul) text.length text = .ok (text ++ [nul]) := by
  have hdrop : (List.replicate (text.length + 1) nul).drop text.length = [(nul : FxmyChar)] := by
    rw [List.drop_replicate, Nat.add_sub_cancel_left]
    rfl
  have hroom : text.length ≤ (List.replicate (text.length + 1) (nul : FxmyChar)).length := by
    rw [List.length_replicate]
    exact Nat.le_succ _
  unfold snprintf
  simp only [Nat.lt_irrefl, if_false, List.take_length, if_pos hroom, hdrop]

theorem nul_not_mem_showTablesFormat {wildcard : Option (List FxmyChar)} {formatted : List FxmyChar}
    (h : showTablesFormat wildcard = .ok formatted) : nul ∉ formatted := by
  cases wildcard with
  | none =>
    cases h
    decide
  | some block =>
    obtain ⟨w, hw, h⟩ := except_bind_eq_ok.mp h
    cases h
    have hcolumns : nul ∉ (chars "sp_tables @table_owner='dbo', @table_name=" : List FxmyChar) := by
      decide
    intro hmem
    exact (List.mem_append.mp hmem).elim hcolumns (stringText_eq_ok.mp hw).1

/-- From the format on, `fxmy_show_tables` hands over what is formatted. -/
theorem showTables_formatted {env : Env} {w : World} (hready : StatementReady env w)
    (wildcard : Option (List FxmyChar)) :
    (final ((do
      let formatted ← Prog.text (showTablesFormat wildcard)
      Prog.countAlloc
      let numElements := formatted.length
      let buffer ← Prog.text (snprintf (List.replicate (numElements + 1) nul) numElements formatted)
      let (_, queryHandle) ← exec env buffer
      showTablesRows env queryHandle
      Prog.fxmyFree wildcard
      Prog.fxmyFree (some buffer)
      pure 0 : Prog Int) w)).handed = w.handed ++ (showTablesFormat wildcard).toOption.toList := by
  cases hformat : showTablesFormat wildcard with
  | error f => exact (List.append_nil _).symm
  | ok formatted =>
    have htext := stringText_terminated (nul_not_mem_showTablesFormat hformat) []
    rw [bind_lift_ok, bind_modify, snprintf_exact, bind_lift_ok]
    refine (Keeps.final_bind (p := World.handed) ?_ _).trans ?_
    · intro result
      exact .bind (showTablesRows_keeps_handed env _) fun _ =>
        .bind (fxmyFree_keeps_handed _) fun _ => .bind (fxmyFree_keeps_handed _) fun _ => .pure _
    · refine (exec_handed (hready.count 1) _).trans ?_
      rw [htext]
      rfl

/-- The copy takes the character behind the token with it. -/
theorem wildcardCopy_eq (text : List FxmyChar) (c : FxmyChar) (q : List FxmyChar) :
    wildcardCopy (text ++ c :: q) (c :: q) = .ok (text ++ [c]) := by
  have hload : Block.load (text ++ c :: q) 0 (text.length + 1) = some (text ++ [c]) := by
    have hmid := Block.load_mid [] (text ++ [c]) q (n := text.length + 1) rfl (by simp)
    rwa [List.nil_append, List.append_assoc, List.singleton_append] at hmid
  unfold wildcardCopy
  rw [List.length_append, Nat.add_sub_cancel, hload]

/-- Something is left behind the token. -/
theorem LikeClause.exists_behind {query : List FxmyChar} (clause : LikeClause ct query)
    (hquery : nul ∈ query) : ∃ c q, clause.behind = c :: q := by
  rw [clause.yields.eq_append] at hquery
  have hmem := (List.mem_append.mp hquery).resolve_left clause.yields.nul_not_mem_spans
  exact List.exists_cons_of_ne_nil (List.ne_nil_of_mem hmem)

theorem copyWildcard_eq (text : List FxmyChar) (c : FxmyChar) (q : List FxmyChar) (w : World) :
    copyWildcard (some (text ++ c :: q)) (some (c :: q)) w = .ok (some (text ++ [c])) (w.count 1) := by
  have hle : (c :: q).length ≤ (text ++ c :: q).length := by simp
  unfold copyWildcard
  simp only
  rw [wildcardCopy_eq, decide_eq_true hle]
  rfl

/-- `fxmy_show_tables` hands over what it formats, if it can. -/
theorem showTables_handed {env : Env} {w : World} (hready : StatementReady env w)
    {query : List FxmyChar} (hquery : nul ∈ query) : (final (showTables env query w)).handed =
      w.handed ++ (showTablesStatement env.ctype query).toOption.toList := by
  obtain ⟨ts, htokens⟩ := exists_tokenizes env.ctype hquery
  unfold showTables showTablesStatement
  rcases likeLoop_returns htokens htokens.length_lt with ⟨-, hloop⟩ | ⟨clause, hloop⟩
  · rw [hloop, bind_lift_ok, except_bind_ok]
    exact showTables_formatted hready none
  · obtain ⟨c, q, hbehind⟩ := clause.exists_behind hquery
    rw [hloop, bind_lift_ok, except_bind_ok, hbehind]
    simp only
    rw [bind_of_ok (copyWildcard_eq _ c q w), likeWildcard, wildcardCopy_eq]
    exact showTables_formatted (hready.count 1) (some (clause.wildcard.text ++ [c]))

/-! ## The token behind LIKE -/

/-- The token behind the first one with `P` is the same wherever the calls are broken off. -/
theorem Yields.behind_first_eq {p q q' : List FxmyChar} {P : Token → Prop} {front front' : List Token}
    {key key' t t' : Token} (h : Yields ct p (front ++ [key, t]) q)
    (h' : Yields ct p (front' ++ [key', t']) q') (hkey : P key) (hkey' : P key')
    (hfront : ∀ u ∈ front, ¬ P u) (hfront' : ∀ u ∈ front', ¬ P u) :
    front = front' ∧ key = key' ∧ t = t' ∧ q = q' := by
  rw [List.append_cons] at h h'
  obtain ⟨r, hfirst, hsecond⟩ := Yields.append_iff.mp h
  obtain ⟨r', hfirst', hsecond'⟩ := Yields.append_iff.mp h'
  obtain ⟨hts, hk, rfl⟩ := hfirst.first_eq hfirst' hkey hkey' hfront hfront'
  obtain ⟨ht, hq⟩ := hsecond.eq_of_length_eq hsecond' rfl
  exact ⟨hts, hk, List.singleton_inj.mp ht, hq⟩

/-- What the search finds is what there is. -/
theorem LikeClause.likeLoop_eq {query : List FxmyChar} (clause : LikeClause ct query)
    (hquery : nul ∈ query) : likeLoop ct (some query) (query.length + 1) =
      .ok (some (clause.wildcard.text ++ clause.behind), some clause.behind) := by
  obtain ⟨ts, htokens⟩ := exists_tokenizes ct hquery
  rcases likeLoop_returns htokens htokens.length_lt with ⟨hnone, -⟩ | ⟨clause', hloop⟩
  · exact (hnone.false clause).elim
  · obtain ⟨-, -, hwildcard, hbehind⟩ := clause.yields.behind_first_eq clause'.yields
      clause.abbreviates clause'.abbreviates clause.first clause'.first
    rw [hwildcard, hbehind, hloop]

/-- The statement with a wildcard, if the copy is terminated. -/
theorem LikeClause.statement_eq {query : List FxmyChar} (clause : LikeClause ct query)
    (hquery : nul ∈ query) : showTablesStatement ct query =
      if clause.behind.head? = some nul then
        .ok (chars "sp_tables @table_owner='dbo', @table_name=" ++ clause.wildcard.text)
      else .error .outside := by
  have htoken := clause.yields.isToken clause.wildcard (by simp)
  unfold showTablesStatement
  rw [clause.likeLoop_eq hquery, except_bind_ok]
  obtain ⟨c, q, hbehind⟩ := clause.exists_behind hquery
  simp only [hbehind, likeWildcard, wildcardCopy_eq, List.head?_cons, Option.some.injEq]
  change (stringText (clause.wildcard.text ++ [c]) >>= fun w => .ok (_ ++ w)) = _
  by_cases hc : c = nul
  · rw [if_pos hc, hc, stringText_terminated htoken.nul_not_mem, except_bind_ok]
  · have hnot : nul ∉ clause.wildcard.text ++ [c] := by
      simpa [htoken.nul_not_mem, eq_comm] using hc
    rw [if_neg hc, stringText, if_neg hnot]
    rfl

/-- The statement without one. -/
theorem showTablesStatement_none {query : List FxmyChar} (hnone : IsEmpty (LikeClause ct query))
    (hquery : nul ∈ query) : likeLoop ct (some query) (query.length + 1) = .ok (none, none) ∧
      showTablesStatement ct query = .ok (chars "sp_tables @table_owner='dbo'") := by
  obtain ⟨ts, htokens⟩ := exists_tokenizes ct hquery
  rcases likeLoop_returns htokens htokens.length_lt with ⟨-, hloop⟩ | ⟨clause, -⟩
  · refine ⟨hloop, ?_⟩
    unfold showTablesStatement
    rw [hloop]
    rfl
  · exact (hnone.false clause).elim

/-- The token behind the first one that is LIKE. -/
def LikeWildcard (ct : Ctype FxmyChar) (query : List FxmyChar) (wildcard : Token) : Prop :=
  ∃ front like behind, Yields ct query (front ++ [like, wildcard]) behind ∧ like.Is ct "LIKE" ∧
    ∀ t ∈ front, ¬ t.Is ct "LIKE"

/-- The tables like the wildcard are asked for, all of them without one, and the copy of the wildcard
is terminated. -/
structure ShowsTables (ct : Ctype FxmyChar) (query : List FxmyChar) : Prop where
  wildcard : ∀ t, LikeWildcard ct query t → HandsOver ct (showTables · query)
    (chars "sp_tables @table_owner='dbo', @table_name=" ++ t.text)
  all : (¬ ∃ t, LikeWildcard ct query t) → HandsOver ct (showTables · query)
    (chars "sp_tables @table_owner='dbo'")
  terminated : ∀ start stop, likeLoop ct (some query) (query.length + 1) =
    .ok (some start, some stop) → ∃ copy, wildcardCopy start stop = .ok copy ∧ nul ∈ copy

/-- Behind a LIKE there is a token that passes for one. -/
theorem LikeWildcard.nonempty_clause {query : List FxmyChar} {t : Token}
    (h : LikeWildcard ct query t) : Nonempty (LikeClause ct query) := by
  obtain ⟨front, like, behind, hyields, hlike, -⟩ := h
  rcases forall_or_first (Token.Abbreviates ct · "LIKE") (front ++ [like]) with
    hnone | ⟨pre, key, post, hsplit, hkey, hpre⟩
  · exact absurd hlike.abbreviates (hnone like (by simp))
  · -- Whatever passes for LIKE has a token behind it.
    have htokens : front ++ [like, t] = pre ++ key :: (post ++ [t]) := by
      rw [List.append_cons, hsplit, List.append_assoc, List.cons_append]
    obtain ⟨wildcard, rest, hpost⟩ := List.exists_cons_of_ne_nil (List.concat_ne_nil t post)
    have hprefix : pre ++ key :: (post ++ [t]) = (pre ++ [key, wildcard]) ++ rest := by
      rw [hpost]
      simp
    rw [htokens, hprefix] at hyields
    obtain ⟨q, hclause, -⟩ := Yields.append_iff.mp hyields
    exact ⟨⟨pre, key, wildcard, q, hclause, hkey, hpre⟩⟩

theorem handsOver_showTables {query text : List FxmyChar} (hquery : nul ∈ query) :
    HandsOver ct (showTables · query) text ↔ showTablesStatement ct query = .ok text :=
  handsOver_iff fun _ _ hct hready => by rw [showTables_handed hready hquery, hct]

/-- Where the query ends behind the wildcard, no other LIKE has a token behind it. -/
theorem LikeClause.is_like_of_wildcard {query : List FxmyChar} (clause : LikeClause ct query)
    (hend : clause.behind.head? = some nul) {t : Token} (h : LikeWildcard ct query t) :
    clause.like.Is ct "LIKE" := by
  obtain ⟨front, like, behind, hyields, hlike, -⟩ := h
  have hnext : fnextToken ct (some clause.behind) = .ok (none, none) := by
    obtain ⟨q, hq⟩ := List.head?_eq_some_iff.mp hend
    rw [hq]
    exact fnextToken_nul q
  have htokens : Tokenizes ct query (clause.front ++ [clause.like, clause.wildcard]) :=
    ⟨clause.behind, clause.yields, hnext⟩
  obtain ⟨rest, hsplit, -⟩ := htokens.eq_append hyields
  have hmem : like ∈ clause.front ++ [clause.like] := by
    have hinit := congrArg List.dropLast hsplit
    rw [List.append_cons, List.dropLast_concat, List.append_assoc, List.cons_append,
      List.dropLast_append_cons, List.cons_append, List.dropLast_cons_cons] at hinit
    rw [hinit]
    simp
  rcases List.mem_append.mp hmem with hfront | hsame
  · exact absurd hlike.abbreviates (clause.first like hfront)
  · exact List.mem_singleton.mp hsame ▸ hlike

/-- A terminated copy ends with the query. -/
theorem ShowsTables.behind_eq {query : List FxmyChar} (h : ShowsTables ct query)
    (hquery : nul ∈ query) (clause : LikeClause ct query) : clause.behind.head? = some nul := by
  obtain ⟨copy, hcopy, hmem⟩ := h.terminated _ _ (clause.likeLoop_eq hquery)
  obtain ⟨c, q, hbehind⟩ := clause.exists_behind hquery
  rw [hbehind, wildcardCopy_eq] at hcopy
  cases hcopy
  have htoken := clause.yields.isToken clause.wildcard (by simp)
  have hc := (List.mem_append.mp hmem).resolve_left htoken.nul_not_mem
  rw [hbehind, List.head?_cons, List.mem_singleton.mp hc]

/-- With a wildcard not all tables are asked for. -/
theorem LikeClause.statement_ne_all {query : List FxmyChar} (clause : LikeClause ct query)
    (hquery : nul ∈ query) :
    showTablesStatement ct query ≠ .ok (chars "sp_tables @table_owner='dbo'") := by
  intro hall
  rw [clause.statement_eq hquery] at hall
  split at hall
  · have hlen := congrArg List.length (Except.ok.inj hall)
    rw [List.length_append] at hlen
    simp [chars] at hlen
    omega
  · cases hall

/-- A LIKE that is one, with a wildcard at the end of the query. -/
theorem LikeClause.showsTables {query : List FxmyChar} (clause : LikeClause ct query)
    (hquery : nul ∈ query) (hlike : clause.like.Is ct "LIKE")
    (hend : clause.behind.head? = some nul) : ShowsTables ct query := by
  have hfirst : ∀ t ∈ clause.front, ¬ t.Is ct "LIKE" := fun t ht his =>
    clause.first t ht his.abbreviates
  refine ⟨fun t ht => ?_, fun hnone => ?_, fun start stop hloop => ?_⟩
  · obtain ⟨front, like, behind, hyields, his, hfront⟩ := ht
    obtain ⟨-, -, rfl, -⟩ := hyields.behind_first_eq clause.yields his hlike hfront hfirst
    rw [handsOver_showTables hquery, clause.statement_eq hquery, if_pos hend]
  · exact absurd ⟨_, _, _, _, clause.yields, hlike, hfirst⟩ hnone
  · obtain ⟨q, hq⟩ := List.head?_eq_some_iff.mp hend
    rw [clause.likeLoop_eq hquery, hq] at hloop
    cases hloop
    exact ⟨_, wildcardCopy_eq _ _ _, by simp⟩

theorem showsTables_of_isEmpty {query : List FxmyChar} (hquery : nul ∈ query)
    (hclause : IsEmpty (LikeClause ct query)) : ShowsTables ct query := by
  obtain ⟨hnone, hstatement⟩ := showTablesStatement_none hclause hquery
  refine ⟨fun t ht => ?_, fun _ => ?_, fun start stop hloop => ?_⟩
  · exact absurd ht.nonempty_clause (not_nonempty_iff.mpr hclause)
  · exact (handsOver_showTables hquery).mpr hstatement
  · rw [hnone] at hloop
    cases hloop

/-- **When SHOW TABLES executes what it should**: what passes for LIKE with a token behind it is LIKE, and
the query ends with that token. -/
theorem showsTables_iff {query : List FxmyChar} (hquery : nul ∈ query) :
    ShowsTables ct query ↔ ∀ clause : LikeClause ct query,
      clause.like.Is ct "LIKE" ∧ clause.behind.head? = some nul := by
  constructor
  · intro h clause
    have hend := h.behind_eq hquery clause
    refine ⟨?_, hend⟩
    by_cases hlike : ∃ t, LikeWildcard ct query t
    · obtain ⟨t, ht⟩ := hlike
      exact clause.is_like_of_wildcard hend ht
    · have hall := (handsOver_showTables hquery).mp (h.all hlike)
      exact absurd hall (clause.statement_ne_all hquery)
  · intro h
    rcases isEmpty_or_nonempty (LikeClause ct query) with hclause | ⟨⟨clause⟩⟩
    · exact showsTables_of_isEmpty hquery hclause
    · obtain ⟨hlike, hend⟩ := h clause
      exact clause.showsTables hquery hlike hend

/-- A semicolon behind the wildcard takes the place of the terminator. -/
theorem wildcard_not_terminated : ¬ ∀ (ct : Ctype FxmyChar) (query : List FxmyChar), nul ∈ query →
    ShowsTables ct query := by
  intro h
  have hshows := h cLocale (cstring "SHOW TABLES LIKE 'a';") (by decide)
  obtain ⟨copy, hcopy, hmem⟩ := hshows.terminated (cstring "'a';") (cstring ";") rfl
  cases hcopy
  exact absurd hmem (by decide)

theorem showsTables_like : ShowsTables cLocale (cstring "SHOW TABLES LIKE 'a'") ↔
    ∀ clause : LikeClause cLocale (cstring "SHOW TABLES LIKE 'a'"),
      clause.like.Is cLocale "LIKE" ∧ clause.behind.head? = some nul :=
  showsTables_iff (by decide)

end Fxmy
