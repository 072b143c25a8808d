import Fxmy.Query
import Fxmy.Verify.Tokens

/-!
# Moving the LIMIT clause

`LimitClause` is a SELECT, a later LIMIT and the count behind it, as the scan of
`fxmy_rearrange_limit` takes them. The three moves put `TOP` and the count behind the SELECT and
close the gap that the clause leaves (`LimitClause.rearrangeLimit_eq`). They neither lose nor keep
too much where the inserted text is as long as the clause, which is so for a whole LIMIT and one
character before the count (`rearrangeLimit_counted`).
-/

namespace Fxmy

variable {ct : Ctype FxmyChar}

/-! ## The scan -/

theorem matchesKeyword_token {t : Token} (ht : IsToken ct t) (q : List FxmyChar)
    (keyword : String) : ∃ b, matchesKeyword ct (some (t.text ++ q)) (some q) keyword = .ok b ∧
      (b = true ↔ t.Abbreviates ct keyword) := by
  obtain ⟨n, hn, hiff⟩ := fstrnicmp_token ht q keyword
  refine ⟨decide (n = 0), ?_, by rw [decide_eq_true_iff, hiff]⟩
  have hlen : tokenLength (some (t.text ++ q)) (some q) = t.text.length := by
    unfold tokenLength
    simp
  unfold matchesKeyword
  rw [hlen, hn]
  rfl

/-- One turn of the loop. -/
theorem limitLoop_token {p q : List FxmyChar} {t : Token} (ht : IsToken ct t)
    (h : fnextToken ct (some p) = .ok (some (t.text ++ q), some q))
    (select next : Option (List FxmyChar)) (fuel : Nat) :
    ∃ isSelect isLimit, (isSelect = true ↔ select = none ∧ t.Abbreviates ct "SELECT") ∧
      (isLimit = true ↔ t.Abbreviates ct "LIMIT") ∧
      limitLoop ct select next (some p) (fuel + 1) =
        let select' := if isSelect then some (t.text ++ q) else select
        let next' := if !isSelect && next.isNone && select.isSome then some (t.text ++ q) else next
        if isLimit then .ok ⟨select', next', some (t.text ++ q), some q⟩
        else limitLoop ct select' next' (some q) fuel := by
  obtain ⟨isLimit, hlimit, hlimitIff⟩ := matchesKeyword_token ht q "LIMIT"
  have hselect : ∃ b, matchesSelect ct select (some (t.text ++ q)) (some q) = .ok b ∧
      (b = true ↔ select = none ∧ t.Abbreviates ct "SELECT") := by
    cases select with
    | none =>
      obtain ⟨b, hb, hiff⟩ := matchesKeyword_token ht q "SELECT"
      exact ⟨b, hb, by simpa using hiff⟩
    | some s => exact ⟨false, rfl, by simp⟩
  obtain ⟨isSelect, hmatch, hselectIff⟩ := hselect
  refine ⟨isSelect, isLimit, hselectIff, hlimitIff, ?_⟩
  rw [limitLoop, h, Exec.except_bind_ok]
  simp only
  rw [hmatch, Exec.except_bind_ok, hlimit, Exec.except_bind_ok]

/-- Tokens that do not matter are skipped: before the SELECT those that match neither keyword, and
behind the token after it those that do not match LIMIT. -/
theorem limitLoop_skip {p q : List FxmyChar} {ts : List Token} (h : Yields ct p ts q)
    (select next : Option (List FxmyChar)) (hlimit : ∀ t ∈ ts, ¬ t.Abbreviates ct "LIMIT")
    (hselect : (select = none ∧ ∀ t ∈ ts, ¬ t.Abbreviates ct "SELECT") ∨
      select.isSome = true ∧ next.isSome = true) (fuel : Nat) :
    limitLoop ct select next (some p) (fuel + ts.length) = limitLoop ct select next (some q) fuel := by
  induction h with
  | done p => rfl
  | @token t q r ts h rest ih =>
    have ht := (Yields.token t h rest).isToken t List.mem_cons_self
    obtain ⟨isSelect, isLimit, hs, hl, heq⟩ :=
      limitLoop_token ht h select next (fuel + ts.length)
    have hl' : isLimit = false := Bool.eq_false_iff.mpr fun h =>
      hlimit t List.mem_cons_self (hl.mp h)
    have hs' : isSelect = false := by
      refine Bool.eq_false_iff.mpr fun h => ?_
      rcases hselect with ⟨-, hselect⟩ | ⟨hselect, -⟩
      · exact hselect t List.mem_cons_self (hs.mp h).2
      · rw [(hs.mp h).1] at hselect
        cases hselect
    have hn' : (next.isNone && select.isSome) = false := by
      rcases hselect with ⟨hselect, -⟩ | ⟨-, hnext⟩
      · rw [hselect, Option.isSome_none, Bool.and_false]
      · rw [Option.isNone_eq_false_iff.mpr hnext, Bool.false_and]
    rw [List.length_cons, ← Nat.add_assoc, heq, hl', hs']
    simp only [Bool.not_false, Bool.true_and, hn', Bool.false_eq_true, if_false]
    refine ih (fun u hu => hlimit u (List.mem_cons_of_mem t hu)) ?_
    exact hselect.imp_left fun ⟨h, hts⟩ => ⟨h, fun u hu => hts u (List.mem_cons_of_mem t hu)⟩

/-- The white space in front of the first token behind the SELECT. -/
def firstGap (mid : List Token) (limit : Token) : List FxmyChar :=
  match mid with
  | [] => limit.gap
  | t :: _ => t.gap

/-- The text from the first token behind the SELECT to the LIMIT. -/
def between (mid : List Token) (limit : Token) : List FxmyChar :=
  match mid with
  | [] => []
  | t :: ts => t.text ++ (spans ts ++ limit.gap)

theorem firstGap_append_between (mid : List Token) (limit : Token) :
    firstGap mid limit ++ between mid limit = spans mid ++ limit.gap := by
  cases mid with
  | nil => exact List.append_nil _
  | cons t ts => simp [firstGap, between, Token.span]

/-- The scan behind the SELECT: the pointer behind it is that of the first token. -/
theorem limitLoop_behind_select {p q select : List FxmyChar} {mid : List Token} {limit : Token}
    (h : Yields ct p (mid ++ [limit]) q) (hmid : ∀ t ∈ mid, ¬ t.Abbreviates ct "LIMIT")
    (hlimit : limit.Abbreviates ct "LIMIT") (fuel : Nat) :
    limitLoop ct (some select) none (some p) (fuel + 1 + mid.length) =
      .ok ⟨some select, some (between mid limit ++ (limit.text ++ q)), some (limit.text ++ q),
        some q⟩ := by
  obtain ⟨q', hmids, hlimits⟩ := Yields.append_iff.mp h
  obtain ⟨r, rfl, hnext, hdone⟩ := Yields.cons_iff.mp hlimits
  cases hdone
  have ht := hlimits.isToken limit List.mem_cons_self
  cases mid with
  | nil =>
    cases hmids
    obtain ⟨isSelect, isLimit, hs, hl, heq⟩ := limitLoop_token ht hnext (some select) none fuel
    have hs' : isSelect = false := Bool.eq_false_iff.mpr fun h => nomatch (hs.mp h).1
    rw [List.length_nil, Nat.add_zero, heq, hl.mpr hlimit, hs']
    rfl
  | cons t mid =>
    obtain ⟨p', rfl, hfirst, hrest⟩ := Yields.cons_iff.mp hmids
    have ht' := hmids.isToken t List.mem_cons_self
    obtain ⟨isSelect, isLimit, hs, hl, heq⟩ :=
      limitLoop_token ht' hfirst (some select) none (fuel + 1 + mid.length)
    have hs' : isSelect = false := Bool.eq_false_iff.mpr fun h => nomatch (hs.mp h).1
    have hl' : isLimit = false :=
      Bool.eq_false_iff.mpr fun h => hmid t List.mem_cons_self (hl.mp h)
    rw [List.length_cons, ← Nat.add_assoc, heq, hl', hs']
    simp only [Bool.not_false, Bool.true_and, Option.isNone_none, Option.isSome_some, if_true,
      Bool.false_eq_true, if_false]
    rw [limitLoop_skip hrest _ _ (fun u hu => hmid u (List.mem_cons_of_mem t hu)) (.inr ⟨rfl, rfl⟩)]
    obtain ⟨isSelect, isLimit, hs, hl, heq⟩ :=
      limitLoop_token ht hnext (some select) (some (t.text ++ p')) fuel
    have hs' : isSelect = false := Bool.eq_false_iff.mpr fun h => nomatch (hs.mp h).1
    rw [heq, hl.mpr hlimit, hs', hrest.eq_append]
    simp [between]

/-- **What the scan finds** behind a SELECT. -/
theorem limitLoop_found {query q : List FxmyChar} {pre mid : List Token} {select limit : Token}
    (h : Yields ct query (pre ++ select :: (mid ++ [limit])) q)
    (hpre : ∀ t ∈ pre, ¬ t.Abbreviates ct "SELECT") (hselect : select.Abbreviates ct "SELECT")
    (hlimits : ∀ t ∈ pre ++ select :: mid, ¬ t.Abbreviates ct "LIMIT")
    (hlimit : limit.Abbreviates ct "LIMIT") :
    ∃ selectBegin, limitLoop ct none none (some query) (query.length + 1) =
      .ok ⟨some selectBegin, some (between mid limit ++ (limit.text ++ q)), some (limit.text ++ q),
        some q⟩ := by
  have hlen := h.length_le
  simp only [List.length_append, List.length_cons, List.length_nil] at hlen
  obtain ⟨p, hskips, hyields⟩ := Yields.append_iff.mp h
  have ht := hyields.isToken select List.mem_cons_self
  obtain ⟨p', rfl, hnext, hmid⟩ := Yields.cons_iff.mp hyields
  have hfuel : query.length + 1 =
      query.length - pre.length - mid.length - 1 + 1 + mid.length + 1 + pre.length := by omega
  have hskip := limitLoop_skip hskips none none
    (fun t ht => hlimits t (List.mem_append_left _ ht)) (.inl ⟨rfl, hpre⟩)
  obtain ⟨isSelect, isLimit, hs, hl, heq⟩ := limitLoop_token ht hnext none none
    (query.length - pre.length - mid.length - 1 + 1 + mid.length)
  have hl' : isLimit = false := Bool.eq_false_iff.mpr fun h => hlimits select (by simp) (hl.mp h)
  refine ⟨select.text ++ p', ?_⟩
  rw [hfuel, hskip, heq, hl', hs.mpr ⟨rfl, hselect⟩]
  simp only [Bool.not_true, Bool.false_and, Bool.false_eq_true, if_true, if_false]
  exact limitLoop_behind_select hmid
    (fun t ht => hlimits t (List.mem_append_right _ (List.mem_cons_of_mem _ ht))) hlimit _

/-- Without a SELECT the scan finds no token behind one. -/
theorem limitLoop_no_select {query q : List FxmyChar} {front : List Token} {limit : Token}
    (h : Yields ct query (front ++ [limit]) q)
    (hselect : ∀ t ∈ front, ¬ t.Abbreviates ct "SELECT")
    (hlimits : ∀ t ∈ front, ¬ t.Abbreviates ct "LIMIT") (hlimit : limit.Abbreviates ct "LIMIT") :
    ∃ selectBegin, limitLoop ct none none (some query) (query.length + 1) =
      .ok ⟨selectBegin, none, some (limit.text ++ q), some q⟩ := by
  have hlen := h.length_le
  simp only [List.length_append, List.length_cons, List.length_nil] at hlen
  obtain ⟨p, hskips, hyields⟩ := Yields.append_iff.mp h
  have ht := hyields.isToken limit List.mem_cons_self
  obtain ⟨p', rfl, hnext, hdone⟩ := Yields.cons_iff.mp hyields
  cases hdone
  have hfuel : query.length + 1 = query.length - front.length + 1 + front.length := by omega
  obtain ⟨isSelect, isLimit, hs, hl, heq⟩ := limitLoop_token ht hnext none none
    (query.length - front.length)
  rw [hfuel, limitLoop_skip hskips none none hlimits (.inl ⟨rfl, hselect⟩), heq, hl.mpr hlimit]
  refine ⟨if isSelect then some (limit.text ++ q) else none, ?_⟩
  simp

/-- A list has a first element with `P`, or none. -/
theorem forall_or_first {α : Type} (P : α → Prop) (l : List α) :
    (∀ x ∈ l, ¬ P x) ∨ ∃ pre x post, l = pre ++ x :: post ∧ P x ∧ ∀ y ∈ pre, ¬ P y := by
  induction l with
  | nil => exact .inl nofun
  | cons a l ih =>
    by_cases ha : P a
    · exact .inr ⟨[], a, l, rfl, ha, nofun⟩
    · rcases ih with hall | ⟨pre, x, post, rfl, hx, hpre⟩
      · exact .inl (List.forall_mem_cons.mpr ⟨ha, hall⟩)
      · exact .inr ⟨a :: pre, x, post, rfl, hx, List.forall_mem_cons.mpr ⟨ha, hpre⟩⟩

/-- The scan ends at the first token that passes for a LIMIT. -/
theorem limitLoop_limit {query q : List FxmyChar} {front : List Token} {limit : Token}
    (h : Yields ct query (front ++ [limit]) q) (hfront : ∀ t ∈ front, ¬ t.Abbreviates ct "LIMIT")
    (hlimit : limit.Abbreviates ct "LIMIT") :
    ∃ scan, limitLoop ct none none (some query) (query.length + 1) = .ok scan ∧
      scan.limitBegin = some (limit.text ++ q) := by
  rcases forall_or_first (Token.Abbreviates ct · "SELECT") front with
    hnot | ⟨pre, select, mid, rfl, hselect, hpre⟩
  · obtain ⟨selectBegin, heq⟩ := limitLoop_no_select h hnot hfront hlimit
    exact ⟨_, heq, rfl⟩
  · rw [List.append_assoc, List.cons_append] at h
    obtain ⟨selectBegin, heq⟩ := limitLoop_found h hpre hselect hfront hlimit
    exact ⟨_, heq, rfl⟩

/-- The scan that returns has come to the end of the text or to a token that passes for a LIMIT. -/
theorem limitLoop_eq_ok {p : List FxmyChar} {select next : Option (List FxmyChar)} {fuel : Nat}
    {scan : LimitScan} (h : limitLoop ct select next (some p) fuel = .ok scan) :
    scan.limitBegin = none ∨ ∃ front limit q, Yields ct p (front ++ [limit]) q ∧
      (∀ t ∈ front, ¬ t.Abbreviates ct "LIMIT") ∧ limit.Abbreviates ct "LIMIT" ∧
        scan.limitBegin = some (limit.text ++ q) := by
  induction fuel generalizing p select next with
  | zero => cases h
  | succ fuel ih =>
    rw [limitLoop] at h
    obtain ⟨⟨start, stop⟩, hnext, h₁⟩ := Exec.except_bind_eq_ok.mp h
    rcases fnextToken_eq_ok hnext with ⟨rfl, rfl, -⟩ | ⟨t, q, ht, rfl, rfl, rfl⟩
    · -- Behind the last token the comparison with LIMIT is over no characters.
      obtain ⟨isSelect, -, h₂⟩ := Exec.except_bind_eq_ok.mp h₁
      cases h₂
      exact .inl rfl
    · obtain ⟨isSelect, isLimit, -, hl, heq⟩ := limitLoop_token ht hnext select next fuel
      rw [limitLoop] at heq
      rw [heq] at h
      simp only at h
      cases isLimit with
      | true =>
        cases h
        exact .inr ⟨[], t, q, .token t hnext (.done q), nofun, hl.mp rfl, rfl⟩
      | false =>
        simp only [Bool.false_eq_true, if_false] at h
        apply (ih h).imp_right
        rintro ⟨front, limit, r, hyields, hfront, hlimit, hscan⟩
        refine ⟨t :: front, limit, r, .token t hnext hyields, ?_, hlimit, hscan⟩
        exact List.forall_mem_cons.mpr ⟨fun h => Bool.false_ne_true (hl.mpr h), hfront⟩

/-! ## The moves -/

/-- What is put behind the SELECT. -/
def insertedText (number : List FxmyChar) : List FxmyChar := top ++ (number ++ [C ' '])

theorem length_insertedText (number : List FxmyChar) :
    (insertedText number).length = number.length + 6 := by
  have htop : top.length = 5 := rfl
  simp only [insertedText, List.length_append, List.length_singleton]
  omega

theorem nul_not_mem_top : (nul : FxmyChar) ∉ top := by decide

theorem nul_not_mem_insertedText {number : List FxmyChar} (h : nul ∉ number) :
    nul ∉ insertedText number := by
  have hspace : (nul : FxmyChar) ≠ C ' ' := C_ne (by decide) (by decide) (by decide)
  simp [insertedText, nul_not_mem_top, h, hspace]

/-- What stands behind `before` once `body` has been moved up over `removed`. -/
def shiftedText (body removed behind : List FxmyChar) : List FxmyChar :=
  (body ++ removed).take removed.length ++ (body ++ behind)

theorem moveClause_append (before body removed behind number : List FxmyChar) :
    moveClause (before ++ (body ++ (removed ++ behind))) before.length
      (before.length + body.length) removed.length number =
        if (insertedText number).length ≤ (shiftedText body removed behind).length then
          some (before ++ (insertedText number ++
            (shiftedText body removed behind).drop (insertedText number).length))
        else none := by
  have hmove : Block.move (before ++ (body ++ (removed ++ behind)))
      (before.length + removed.length) before.length (before.length + body.length - before.length) =
        some (before ++ shiftedText body removed behind) :=
    Block.move_up _ _ _ _ rfl (Nat.add_sub_cancel_left _ _) rfl
  unfold moveClause
  rw [hmove]
  change (Block.store _ _ top).bind (fun query => Block.store query _ _) = _
  rw [← Block.store_append, Block.store_behind _ _ _ rfl]
  rfl

/-! ## The clause -/

/-- A SELECT, a later LIMIT and the count behind it, as `fxmy_rearrange_limit` takes them: the first
token that can pass for a SELECT, and the first that can pass for a LIMIT. -/
structure LimitClause (ct : Ctype FxmyChar) (query : List FxmyChar) where
  pre : List Token
  select : Token
  mid : List Token
  limit : Token
  count : Token
  behind : List FxmyChar
  yields : Yields ct query (pre ++ select :: (mid ++ [limit, count])) behind
  pre_not_select : ∀ t ∈ pre, ¬ t.Abbreviates ct "SELECT"
  select_abbreviates : select.Abbreviates ct "SELECT"
  not_limit : ∀ t ∈ pre ++ select :: mid, ¬ t.Abbreviates ct "LIMIT"
  limit_abbreviates : limit.Abbreviates ct "LIMIT"

namespace LimitClause

variable {query : List FxmyChar} (clause : LimitClause ct query)

/-- The text up to the first token behind the SELECT. -/
def before : List FxmyChar :=
  spans clause.pre ++ (clause.select.span ++ firstGap clause.mid clause.limit)

/-- The text from there to the LIMIT. -/
def body : List FxmyChar := between clause.mid clause.limit

/-- The LIMIT, the count and what stands between them. -/
def removed : List FxmyChar := clause.limit.text ++ (clause.count.gap ++ clause.count.text)

/-- What is put behind the SELECT. -/
def inserted : List FxmyChar := top ++ (clause.count.text ++ [C ' '])

theorem spans_eq : spans (clause.pre ++ clause.select :: (clause.mid ++ [clause.limit, clause.count])) =
    clause.before ++ (clause.body ++ clause.removed) := by
  have hgap := firstGap_append_between clause.mid clause.limit
  calc
    spans (clause.pre ++ clause.select :: (clause.mid ++ [clause.limit, clause.count])) =
        spans clause.pre ++ (clause.select.span ++ ((spans clause.mid ++ clause.limit.gap) ++
          clause.removed)) := by simp [removed, Token.span]
    _ = clause.before ++ (clause.body ++ clause.removed) := by
      rw [← hgap]
      simp [before, body]

theorem query_eq : query = clause.before ++ (clause.body ++ (clause.removed ++ clause.behind)) := by
  apply clause.yields.eq_append.trans
  rw [clause.spans_eq]
  simp only [List.append_assoc]

theorem isToken {t : Token}
    (h : t ∈ clause.pre ++ clause.select :: (clause.mid ++ [clause.limit, clause.count])) :
    IsToken ct t := clause.yields.isToken t h

theorem isToken_limit : IsToken ct clause.limit := clause.isToken (by simp)

theorem isToken_count : IsToken ct clause.count := clause.isToken (by simp)

/-- The scan takes the clause, and the call behind it the count. -/
theorem limitLoop_eq : ∃ select stop,
    stop = clause.count.gap ++ (clause.count.text ++ clause.behind) ∧
    fnextToken ct (some stop) =
      .ok (some (clause.count.text ++ clause.behind), some clause.behind) ∧
    limitLoop ct none none (some query) (query.length + 1) =
      .ok ⟨some select, some (clause.body ++ (clause.limit.text ++ stop)),
        some (clause.limit.text ++ stop), some stop⟩ := by
  have hsplit : clause.pre ++ clause.select :: (clause.mid ++ [clause.limit, clause.count]) =
      (clause.pre ++ clause.select :: (clause.mid ++ [clause.limit])) ++ [clause.count] := by simp
  have hyields := clause.yields
  rw [hsplit] at hyields
  obtain ⟨stop, hscan, hcount⟩ := Yields.append_iff.mp hyields
  obtain ⟨r, rfl, hnum, hdone⟩ := Yields.cons_iff.mp hcount
  cases hdone
  obtain ⟨select, heq⟩ := limitLoop_found hscan clause.pre_not_select clause.select_abbreviates
    clause.not_limit clause.limit_abbreviates
  exact ⟨select, _, rfl, hnum, heq⟩

/-- What stands behind the text up to the first token once the text in between has been moved to
the end of the clause: some of what stood there, that text and what follows the clause. -/
def shifted : List FxmyChar :=
  (clause.body ++ clause.removed).take clause.removed.length ++ (clause.body ++ clause.behind)

theorem moveClause_eq : moveClause query clause.before.length
    (clause.before.length + clause.body.length) clause.removed.length clause.count.text =
      if clause.inserted.length ≤ clause.shifted.length then
        some (clause.before ++ (clause.inserted ++ clause.shifted.drop clause.inserted.length))
      else none :=
  (congrArg (moveClause · _ _ _ _) clause.query_eq).trans (moveClause_append _ _ _ _ _)

/-- The function makes the three moves of its clause. -/
theorem rearrangeLimit_eq_moveClause : rearrangeLimit ct query =
    match moveClause query clause.before.length (clause.before.length + clause.body.length)
      clause.removed.length clause.count.text with
    | some moved => .ok (0, moved)
    | none => .error .outside := by
  obtain ⟨select, stop, hstop, hcount, hscan⟩ := clause.limitLoop_eq
  have hquery : query = clause.before ++ (clause.body ++ (clause.limit.text ++ stop)) := by
    rw [hstop]
    simpa [removed] using clause.query_eq
  have hnext : Block.offset query (clause.body ++ (clause.limit.text ++ stop)) =
      clause.before.length :=
    (congrArg (Block.offset · _) hquery).trans (Block.offset_append _ _)
  have hlimit : Block.offset query (clause.limit.text ++ stop) =
      clause.before.length + clause.body.length := by
    refine (congrArg (Block.offset · _) (hquery.trans (List.append_assoc _ _ _).symm)).trans ?_
    rw [Block.offset_append, List.length_append]
  have hshift : (clause.limit.text ++ stop).length - clause.behind.length =
      clause.removed.length := by
    rw [hstop]
    simp only [removed, List.length_append]
    omega
  have hnumber : (clause.count.text ++ clause.behind).take
      ((clause.count.text ++ clause.behind).length - clause.behind.length) = clause.count.text := by
    simp
  unfold rearrangeLimit
  rw [hscan, Exec.except_bind_ok]
  simp only
  rw [hcount, Exec.except_bind_ok]
  cases hmoved : moveClause query clause.before.length (clause.before.length + clause.body.length)
    clause.removed.length clause.count.text <;>
  simp only [hnext, hlimit, hshift, hnumber, hmoved]

/-- **What the moves make of the block**: the count stands behind the SELECT, in place of as many
characters of the shifted text. -/
theorem rearrangeLimit_eq : rearrangeLimit ct query =
    if clause.inserted.length ≤ clause.shifted.length then
      .ok (0, clause.before ++ (clause.inserted ++ clause.shifted.drop clause.inserted.length))
    else .error .outside := by
  rw [clause.rearrangeLimit_eq_moveClause, clause.moveClause_eq]
  by_cases hroom : clause.inserted.length ≤ clause.shifted.length
  · rw [if_pos hroom, if_pos hroom]
  · rw [if_neg hroom, if_neg hroom]

/-- What stays of the old text behind the inserted one, where the clause is wider. -/
def stale : List FxmyChar :=
  ((clause.body ++ clause.removed).take clause.removed.length).drop clause.inserted.length

/-- How much the inserted text takes of what is kept, where the clause is narrower. -/
def excess : Nat := clause.inserted.length - clause.removed.length

/-- What the inserted text takes of what is kept. -/
def lost : List FxmyChar := (clause.body ++ clause.behind).take clause.excess

/-- The text after the moves, where `after` follows the clause. -/
def rearranged (after : List FxmyChar) : List FxmyChar :=
  clause.before ++ (clause.inserted ++
    (clause.stale ++ (clause.body ++ after).drop clause.excess))

theorem drop_shifted : clause.shifted.drop clause.inserted.length =
    clause.stale ++ (clause.body ++ clause.behind).drop clause.excess := by
  have hlen : ((clause.body ++ clause.removed).take clause.removed.length).length =
      clause.removed.length := by
    rw [List.length_take, List.length_append]
    omega
  unfold shifted stale excess
  rw [List.drop_append, hlen]

/-- The moves keep the terminator unless the inserted text takes it. -/
theorem moved_eq (hlost : nul ∉ clause.lost) {after rest : List FxmyChar}
    (hbehind : clause.behind = after ++ nul :: rest) :
    clause.before ++ (clause.inserted ++ clause.shifted.drop clause.inserted.length) =
      clause.rearranged after ++ nul :: rest := by
  have hwhole : clause.body ++ clause.behind = (clause.body ++ after) ++ nul :: rest := by
    rw [hbehind, List.append_assoc]
  have hexcess : clause.excess ≤ (clause.body ++ after).length := by
    refine Nat.le_of_not_lt fun hlt => hlost ?_
    unfold lost
    rw [hwhole]
    refine List.mem_take_iff_getElem.mpr ⟨(clause.body ++ after).length, ?_, by simp⟩
    simp only [List.length_append, List.length_cons] at hlt ⊢
    omega
  rw [drop_shifted, hwhole, List.drop_append_of_le_length hexcess]
  simp only [rearranged, List.append_assoc]

/-- Where the clause is wide enough for the inserted text, all that is kept is kept. -/
theorem rearrangeLimit_of_length_le (h : clause.inserted.length ≤ clause.removed.length)
    {after rest : List FxmyChar} (hbehind : clause.behind = after ++ nul :: rest) :
    rearrangeLimit ct query = .ok (0, clause.rearranged after ++ nul :: rest) := by
  have hexcess : clause.excess = 0 := Nat.sub_eq_zero_of_le h
  have hroom : clause.inserted.length ≤ clause.shifted.length := by
    simp only [shifted, List.length_append, List.length_take]
    omega
  have hlost : nul ∉ clause.lost := by
    unfold lost
    rw [hexcess, List.take_zero]
    exact List.not_mem_nil
  rw [clause.rearrangeLimit_eq, if_pos hroom, clause.moved_eq hlost hbehind]

theorem length_rearranged (h : clause.inserted.length ≤ clause.removed.length)
    (after : List FxmyChar) : (clause.rearranged after).length =
      clause.before.length + (clause.body.length + (clause.removed.length + after.length)) := by
  have hexcess : clause.excess = 0 := Nat.sub_eq_zero_of_le h
  unfold rearranged stale
  rw [hexcess, List.drop_zero]
  simp only [List.length_append, List.length_drop, List.length_take]
  omega

/-- Where the inserted text is as long as the clause, all of the text in between is kept, once. -/
theorem rearranged_of_length_eq (h : clause.inserted.length = clause.removed.length)
    (after : List FxmyChar) :
    clause.rearranged after = clause.before ++ (clause.inserted ++ (clause.body ++ after)) := by
  have hstale : clause.stale = [] := by
    unfold stale
    rw [h]
    exact List.drop_eq_nil_of_le (List.length_take_le _ _)
  have hexcess : clause.excess = 0 := by
    unfold excess
    omega
  unfold rearranged
  rw [hstale, hexcess, List.nil_append, List.drop_zero]

end LimitClause

/-- A query has at most one clause that is taken. -/
theorem LimitClause.eq {query : List FxmyChar} (clause clause' : LimitClause ct query) :
    clause = clause' := by
  obtain ⟨pre, select, mid, limit, count, behind, hyields, hpre, hselect, hlimits, hlimit⟩ := clause
  obtain ⟨pre', select', mid', limit', count', behind', hyields', hpre', hselect', hlimits',
    hlimit'⟩ := clause'
  have hsplit : ∀ (pre mid : List Token) (select limit count : Token),
      pre ++ select :: (mid ++ [limit, count]) = ((pre ++ select :: mid) ++ [limit]) ++ [count] := by
    simp
  have h₁ := hyields
  have h₁' := hyields'
  rw [hsplit] at h₁ h₁'
  obtain ⟨p, hscan, hcount⟩ := Yields.append_iff.mp h₁
  obtain ⟨p', hscan', hcount'⟩ := Yields.append_iff.mp h₁'
  obtain ⟨hfront, rfl, rfl⟩ := hscan.first_eq hscan' hlimit hlimit' hlimits hlimits'
  obtain ⟨rfl, rfl, rfl⟩ := first_unique hfront hselect hselect' hpre hpre'
  obtain ⟨hcounts, rfl⟩ := hcount.eq_of_length_eq hcount' rfl
  obtain ⟨rfl, -⟩ := List.cons.inj hcounts
  rfl

/-- Where `fxmy_rearrange_limit` returns, it has refused the query as it is or taken a clause. -/
theorem rearrangeLimit_eq_ok {query moved : List FxmyChar} {r : Int}
    (h : rearrangeLimit ct query = .ok (r, moved)) :
    r = 1 ∧ moved = query ∨ r = 0 ∧ Nonempty (LimitClause ct query) := by
  unfold rearrangeLimit at h
  obtain ⟨scan, hscan, h₁⟩ := Exec.except_bind_eq_ok.mp h
  rcases limitLoop_eq_ok hscan with hnone | ⟨front, limit, q, hyields, hlimits, hlimit, hsome⟩
  · rw [hnone] at h₁
    cases h₁
    exact .inl ⟨rfl, rfl⟩
  · rw [hsome] at h₁
    obtain ⟨⟨start, stop⟩, hnext, h₂⟩ := Exec.except_bind_eq_ok.mp h₁
    rcases forall_or_first (Token.Abbreviates ct · "SELECT") front with
      hnot | ⟨pre, select, mid, rfl, hselect, hpre⟩
    · obtain ⟨selectBegin, heq⟩ := limitLoop_no_select hyields hnot hlimits hlimit
      cases hscan.symm.trans heq
      cases start <;> cases stop <;> cases h₂
    · rw [List.append_assoc, List.cons_append] at hyields
      obtain ⟨selectBegin, heq⟩ := limitLoop_found hyields hpre hselect hlimits hlimit
      cases hscan.symm.trans heq
      rcases fnextToken_eq_ok hnext with ⟨rfl, rfl, -⟩ | ⟨count, behind, -, rfl, rfl, rfl⟩
      · cases h₂
      · have hcount := Yields.append_iff.mpr ⟨_, hyields, .token count hnext (.done behind)⟩
        rw [List.append_assoc, List.cons_append, List.append_assoc] at hcount
        refine .inr ⟨?_, ⟨⟨pre, select, mid, limit, count, behind, hcount, hpre, hselect, hlimits,
          hlimit⟩⟩⟩
        simp only at h₂
        split at h₂
        · cases h₂
          rfl
        · cases h₂

/-- What follows the clause in a terminated text. -/
theorem LimitClause.text_eq {text rest : List FxmyChar}
    (clause : LimitClause ct (text ++ nul :: rest)) :
    ∃ after, text = clause.before ++ (clause.body ++ (clause.removed ++ after)) ∧
      clause.behind = after ++ nul :: rest := by
  obtain ⟨after, htext, hbehind⟩ := clause.yields.text_eq
  refine ⟨after, htext.trans ?_, hbehind⟩
  rw [clause.spans_eq]
  simp only [List.append_assoc]

theorem LimitClause.nul_not_mem_rearranged {text after rest : List FxmyChar}
    {clause : LimitClause ct (text ++ nul :: rest)} (ht : nul ∉ text)
    (htext : text = clause.before ++ (clause.body ++ (clause.removed ++ after))) :
    nul ∉ clause.rearranged after := by
  have hkept : nul ∉ clause.before ++ (clause.body ++ (clause.removed ++ after)) := by
    rw [← htext]
    exact ht
  simp only [List.mem_append, not_or] at hkept
  obtain ⟨hbefore, hbody, hremoved, hafter⟩ := hkept
  have hinserted : nul ∉ clause.inserted :=
    nul_not_mem_insertedText clause.isToken_count.nul_not_mem
  have hstale : nul ∉ clause.stale := fun h => by
    have := List.mem_of_mem_take (List.mem_of_mem_drop h)
    exact (List.mem_append.mp this).elim hbody hremoved
  have hdrop : nul ∉ (clause.body ++ after).drop clause.excess := fun h =>
    (List.mem_append.mp (List.mem_of_mem_drop h)).elim hbody hafter
  simp [LimitClause.rearranged, hbefore, hinserted, hstale, hdrop]

/-- **A LIMIT and its count become a TOP.** -/
theorem rearrangeLimit_counted {text rest : List FxmyChar} (ht : nul ∉ text)
    (clause : LimitClause ct (text ++ nul :: rest)) (hlimit : clause.limit.Is ct "LIMIT")
    (hgap : clause.count.gap.length = 1) :
    ∃ after moved,
      text = clause.before ++ (clause.body ++
        (clause.limit.text ++ (clause.count.gap ++ (clause.count.text ++ after)))) ∧
      moved = clause.before ++ (top ++ (clause.count.text ++ (C ' ' :: (clause.body ++ after)))) ∧
      rearrangeLimit ct (text ++ nul :: rest) = .ok (0, moved ++ nul :: rest) ∧
      moved.length = text.length ∧ nul ∉ moved := by
  obtain ⟨after, htext, hbehind⟩ := clause.text_eq
  have hwidth : clause.inserted.length = clause.removed.length := by
    have hlen : clause.limit.text.length = 5 := hlimit.length
    refine (length_insertedText clause.count.text).trans ?_
    simp only [LimitClause.removed, List.length_append]
    omega
  have hmoved : clause.before ++ (top ++ (clause.count.text ++ (C ' ' :: (clause.body ++ after)))) =
      clause.before ++ (clause.inserted ++ (clause.body ++ after)) := by
    simp [LimitClause.inserted]
  refine ⟨after, _, ?_, rfl, ?_⟩
  · simpa [LimitClause.removed] using htext
  rw [hmoved]
  refine ⟨?_, ?_, ?_⟩
  · rw [clause.rearrangeLimit_of_length_le (Nat.le_of_eq hwidth) hbehind,
      clause.rearranged_of_length_eq hwidth]
  · have hlen := congrArg List.length htext
    simp only [List.length_append] at hlen
    rw [← clause.rearranged_of_length_eq hwidth, clause.length_rearranged (Nat.le_of_eq hwidth), hlen]
  · rw [← clause.rearranged_of_length_eq hwidth]
    exact LimitClause.nul_not_mem_rearranged ht htext

theorem nothing_selects : ∀ t ∈ ([] : List Token), ¬ t.Abbreviates cLocale "SELECT" := nofun

theorem select_abbreviates_select : Token.Abbreviates cLocale ⟨[], chars "SELECT"⟩ "SELECT" :=
  List.prefix_refl _

theorem limit_abbreviates_limit : Token.Abbreviates cLocale ⟨chars " ", chars "LIMIT"⟩ "LIMIT" :=
  List.prefix_refl _

/-- A SELECT of one column. -/
def selectClause : LimitClause cLocale (chars "SELECT a LIMIT 5" ++ [nul]) where
  pre := []
  select := ⟨[], chars "SELECT"⟩
  mid := [⟨chars " ", chars "a"⟩]
  limit := ⟨chars " ", chars "LIMIT"⟩
  count := ⟨chars " ", chars "5"⟩
  behind := [nul]
  yields := .token ⟨[], chars "SELECT"⟩ rfl (.token ⟨chars " ", chars "a"⟩ rfl
    (.token ⟨chars " ", chars "LIMIT"⟩ rfl (.token ⟨chars " ", chars "5"⟩ rfl (.done _))))
  pre_not_select := nothing_selects
  select_abbreviates := select_abbreviates_select
  not_limit := by
    unfold Token.Abbreviates
    decide
  limit_abbreviates := limit_abbreviates_limit

theorem rearrangeLimit_select : rearrangeLimit cLocale (chars "SELECT a LIMIT 5" ++ [nul]) =
    .ok (0, chars "SELECT TOP  5 a " ++ [nul]) := by
  obtain ⟨after, moved, htext, hmoved, h, -, -⟩ :=
    rearrangeLimit_counted (by decide) selectClause rfl rfl
  have hafter : [] = after := congrArg (List.drop 16) htext
  rw [h, hmoved, ← hafter]
  rfl

end Fxmy
