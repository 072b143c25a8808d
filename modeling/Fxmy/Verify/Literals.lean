import Fxmy.Verify.Dispatch
import Fxmy.Verify.Refusal
import Fxmy.Verify.Widening

/-!
# LIMIT and string literals

The scan for LIMIT takes a literal for one token only where it stands at the start of one, and only
if no backslash stands before its quote. Otherwise a LIMIT inside the literal may be taken, and the
moves may cut the literal. The literals of a query stay what they are exactly if none reaches over an
end of a part that is moved, none is overwritten, and what stays of the old text opens none
(`literals_kept_iff`).
-/

namespace Fxmy

variable {ct : Ctype FxmyChar} {text rest : List FxmyChar}

/-- Every string literal that opens in the text closes in it. -/
abbrev Closed (text : List FxmyChar) : Prop := Quoting.Closed isQuote backslash text

/-- The literal `l` stands in the text at `i`. -/
abbrev LiteralAt (text : List FxmyChar) (i : Nat) (l : List FxmyChar) : Prop :=
  Quoting.LiteralAt isQuote backslash text i l

theorem closed_append_iff {s t : List FxmyChar} (hs : Closed s) : Closed (s ++ t) ↔ Closed t :=
  Quoting.closed_append_iff hs

/-! ## Texts without quotes -/

theorem closed_of_no_quote {s : List FxmyChar} (hs : ∀ c ∈ s, isQuote c = false) : Closed s :=
  Quoting.closed_of_no_quote hs

theorem isQuote_of_isspace {c : FxmyChar} (h : ct.isspace c = true) : isQuote c = false := by
  refine Bool.eq_false_iff.mpr fun hq => ?_
  rcases isQuote_iff.mp hq with hc | hc
  · exact ct.ne_of_isspace h '\'' (by decide) hc
  · exact ct.ne_of_isspace h '"' (by decide) hc

theorem IsToken.gap_no_quote {t : Token} (h : IsToken ct t) : ∀ c ∈ t.gap, isQuote c = false :=
  fun c hc => isQuote_of_isspace (h.gap_space c hc)

/-- What abbreviates a word without quotes has none. -/
theorem Token.Abbreviates.no_quote {t : Token} {keyword : String}
    (hword : ∀ c ∈ keyword.toList, c.toNat < 128 ∧ c.toLower ≠ '\'' ∧ c.toLower ≠ '"')
    (h : t.Abbreviates ct keyword) : ∀ c ∈ t.text, isQuote c = false := by
  intro c hc
  refine Bool.eq_false_iff.mpr fun hq => ?_
  obtain ⟨d, hd, heq⟩ := List.mem_map.mp (h.subset (List.mem_map_of_mem hc))
  obtain ⟨e, he, rfl⟩ := List.mem_map.mp hd
  obtain ⟨hlt, hsingle, hdouble⟩ := hword e he
  rcases isQuote_iff.mp hq with rfl | rfl
  · exact ct.lower_ne (d := '\'') hlt (by decide) hsingle heq
  · exact ct.lower_ne (d := '"') hlt (by decide) hdouble heq

theorem top_no_quote : ∀ c ∈ top, isQuote c = false :=
  List.all_iff_forall_prop.mp (by decide)

theorem getElem?_append_add {α : Type} (s t : List α) (i : Nat) : (s ++ t)[s.length + i]? = t[i]? := by
  rw [List.getElem?_append_right (Nat.le_add_right _ _), Nat.add_sub_cancel_left]

/-! ## What is kept -/

/-- The text that stands in a block: up to its first NUL, or to its end. -/
def blockText (block : List FxmyChar) : List FxmyChar := block.takeWhile (· ≠ nul)

section

variable (ct : Ctype FxmyChar) (text rest : List FxmyChar)

end

/-- Where the moves take the character at `i`. What stands between `before` and the LIMIT goes up by the
width of the clause, and the count behind `TOP`; the LIMIT itself goes, and what the inserted text
overwrites. -/
def LimitClause.movedTo {query : List FxmyChar} (clause : LimitClause ct query) (i : Nat) :
    Option Nat :=
  let next := clause.before.length
  let limit := next + clause.body.length
  let num := limit + (clause.limit.text.length + clause.count.gap.length)
  let kept (j : Nat) := if next + clause.inserted.length ≤ j then some j else none
  if i < next then some i
  else if i < limit then kept (i + clause.removed.length)
  else if i < num then none
  else if i < num + clause.count.text.length then some (next + top.length + (i - num))
  else kept i

/-- The literal `l` at `i` has been moved as a whole, and stands as a literal in the block where it has
been moved to. -/
def LimitClause.Keeps {query : List FxmyChar} (clause : LimitClause ct query)
    (moved : List FxmyChar) (i : Nat) (l : List FxmyChar) : Prop :=
  ∃ j, LiteralAt (blockText moved) j l ∧ ∀ k < l.length, clause.movedTo (i + k) = some (j + k)

section

variable (ct : Ctype FxmyChar) (text rest : List FxmyChar)

end

/-! ## Where it is kept -/

/-- The moves of the clause cut no literal: the text up to the first token behind the SELECT, the
text from there to the LIMIT and the count close theirs, and the inserted text overwrites no quote.
What stays of the old text closes its literals too, if there are any behind it. -/
structure LimitClause.CutsNone (clause : LimitClause ct (text ++ nul :: rest)) : Prop where
  before_closed : Closed clause.before
  body_closed : Closed clause.body
  count_closed : Closed clause.count.text
  lost_no_quote : ∀ c ∈ (clause.body ++ clause.after).take clause.excess, isQuote c = false
  stale_closed : (∃ c ∈ clause.body ++ clause.after, isQuote c = true) → Closed clause.stale

/-- What the clause puts in ends inside the block. -/
def LimitClause.Fits {query : List FxmyChar} (clause : LimitClause ct query) : Prop :=
  clause.before.length + clause.count.text.length + 6 ≤ query.length

namespace LimitClause

section

variable {query : List FxmyChar} (clause : LimitClause ct query)

/-! ### The places -/

theorem length_parts : clause.inserted.length = clause.count.text.length + 6 ∧
    clause.removed.length = clause.limit.text.length +
      (clause.count.gap.length + clause.count.text.length) ∧
    0 < clause.limit.text.length ∧ 0 < clause.count.text.length := by
  refine ⟨length_insertedText _, by simp only [removed, List.length_append], ?_, ?_⟩
  · exact List.length_pos_iff.mpr clause.isToken_limit.text_ne_nil
  · exact List.length_pos_iff.mpr clause.isToken_count.text_ne_nil

theorem length_stale : clause.stale.length = clause.removed.length - clause.inserted.length := by
  simp only [stale, List.length_drop, List.length_take, List.length_append]
  omega

theorem movedTo_before {i : Nat} (hi : i < clause.before.length) : clause.movedTo i = some i := by
  unfold movedTo
  exact if_pos hi

/-- The text up to the LIMIT goes up behind what is inserted, and what stays of the old text. -/
theorem movedTo_body {b : Nat} (hb : b < clause.body.length) :
    clause.movedTo (clause.before.length + b) = if b < clause.excess then none
      else some (clause.before.length + (clause.inserted.length +
        (clause.stale.length + (b - clause.excess)))) := by
  unfold movedTo
  simp only
  rw [if_neg (by omega), if_pos (by omega), length_stale]
  unfold excess
  split
  · rw [if_neg (by omega)]
    exact congrArg some (by omega)
  · rw [if_pos (by omega)]

theorem movedTo_limit {b : Nat} (hb : b < clause.limit.text.length + clause.count.gap.length) :
    clause.movedTo (clause.before.length + (clause.body.length + b)) = none := by
  unfold movedTo
  simp only
  rw [if_neg (by omega), if_neg (by omega), if_pos (by omega)]

theorem movedTo_count {b : Nat} (hb : b < clause.count.text.length) :
    clause.movedTo (clause.before.length + (clause.body.length +
        ((clause.limit.text.length + clause.count.gap.length) + b))) =
      some (clause.before.length + (top.length + b)) := by
  unfold movedTo
  simp only
  rw [if_neg (by omega), if_neg (by omega), if_neg (by omega), if_pos (by omega)]
  exact congrArg some (by omega)

/-- What follows the clause stays. -/
theorem movedTo_behind (b : Nat) :
    clause.movedTo (clause.before.length + (clause.body.length + (clause.removed.length + b))) =
      if clause.body.length + b < clause.excess then none
      else some (clause.before.length + (clause.inserted.length +
        (clause.stale.length + (clause.body.length + b - clause.excess)))) := by
  obtain ⟨hinserted, hremoved, -, -⟩ := clause.length_parts
  unfold movedTo
  simp only
  rw [if_neg (by omega), if_neg (by omega), if_neg (by omega), if_neg (by omega), length_stale]
  unfold excess
  split
  · rw [if_neg (by omega)]
    exact congrArg some (by omega)
  · rw [if_pos (by omega)]

/-- The characters are where they are said to be. -/
theorem getElem?_movedTo {moved : List FxmyChar} (h : rearrangeLimit ct query = .ok (0, moved))
    {i j : Nat} (hj : clause.movedTo i = some j) : moved[j]? = query[i]? := by
  obtain ⟨hinserted, hremoved, -, -⟩ := clause.length_parts
  have hmoved : moved = clause.before ++ (clause.inserted ++ (clause.stale ++
      (clause.body ++ clause.behind).drop clause.excess)) := by
    rw [clause.rearrangeLimit_eq, clause.drop_shifted] at h
    split at h
    · cases h
      rfl
    · cases h
  have hkept : ∀ b, ¬ b < clause.excess → moved[clause.before.length + (clause.inserted.length +
      (clause.stale.length + (b - clause.excess)))]? = (clause.body ++ clause.behind)[b]? := by
    intro b hb
    rw [hmoved, getElem?_append_add, getElem?_append_add, getElem?_append_add, List.getElem?_drop,
      Nat.add_sub_cancel' (Nat.le_of_not_lt hb)]
  rw [congrArg (·[i]?) clause.query_eq]
  rcases Nat.lt_or_ge i clause.before.length with hbefore | hbefore
  · rw [clause.movedTo_before hbefore] at hj
    cases hj
    rw [hmoved, List.getElem?_append_left hbefore, List.getElem?_append_left hbefore]
  obtain ⟨b, rfl⟩ := Nat.exists_eq_add_of_le hbefore
  rw [getElem?_append_add]
  rcases Nat.lt_or_ge b clause.body.length with hbody | hbody
  · rw [clause.movedTo_body hbody] at hj
    split at hj
    · cases hj
    · next hb =>
      cases hj
      rw [hkept b hb, List.getElem?_append_left hbody, List.getElem?_append_left hbody]
  obtain ⟨b, rfl⟩ := Nat.exists_eq_add_of_le hbody
  rw [getElem?_append_add]
  rcases Nat.lt_or_ge b clause.removed.length with hclause | hclause
  · rcases Nat.lt_or_ge b (clause.limit.text.length + clause.count.gap.length) with hlimit | hlimit
    · rw [clause.movedTo_limit hlimit] at hj
      cases hj
    obtain ⟨m, rfl⟩ := Nat.exists_eq_add_of_le hlimit
    have hcount : m < clause.count.text.length := by omega
    have hplace : clause.limit.text.length + clause.count.gap.length =
        (clause.limit.text ++ clause.count.gap).length := List.length_append.symm
    have hins : clause.inserted = top ++ (clause.count.text ++ [C ' ']) := rfl
    have hrem : clause.removed = (clause.limit.text ++ clause.count.gap) ++ clause.count.text :=
      (List.append_assoc ..).symm
    rw [clause.movedTo_count hcount] at hj
    cases hj
    rw [List.getElem?_append_left hclause, hrem, hplace,
      getElem?_append_add, hmoved, hins,
      getElem?_append_add, List.append_assoc,
      getElem?_append_add, List.append_assoc,
      List.getElem?_append_left hcount]
  · obtain ⟨b, rfl⟩ := Nat.exists_eq_add_of_le hclause
    rw [clause.movedTo_behind b] at hj
    split at hj
    · cases hj
    · next hb =>
      cases hj
      rw [hkept _ hb, getElem?_append_add,
        getElem?_append_add]

end

/-! ### The literals -/

variable {clause : LimitClause ct (text ++ nul :: rest)} {i : Nat} {l : List FxmyChar}

theorem removed_eq : clause.removed =
    (clause.limit.text ++ clause.count.gap) ++ clause.count.text := (List.append_assoc ..).symm

theorem limit_no_quote : ∀ c ∈ clause.limit.text ++ clause.count.gap, isQuote c = false :=
  List.forall_mem_append.mpr
    ⟨clause.limit_abbreviates.no_quote (List.all_iff_forall_prop.mp (by decide)),
      clause.isToken_count.gap_no_quote⟩

/-- The inserted text and the clause close their literals if the count does. -/
theorem closed_of_count (hcount : Closed clause.count.text) :
    Closed clause.inserted ∧ Closed clause.removed := by
  have hspace : ∀ c ∈ ([C ' '] : List FxmyChar), isQuote c = false :=
    List.all_iff_forall_prop.mp (by decide)
  constructor
  · apply (closed_append_iff (closed_of_no_quote top_no_quote)).mpr
    exact (closed_append_iff hcount).mpr (closed_of_no_quote hspace)
  · rw [removed_eq]
    exact (closed_append_iff (closed_of_no_quote limit_no_quote)).mpr hcount

theorem fits_iff : clause.Fits ↔ clause.inserted.length ≤ clause.shifted.length := by
  obtain ⟨hinserted, hremoved, -, -⟩ := clause.length_parts
  have hquery := congrArg List.length clause.query_eq
  simp only [List.length_append] at hquery
  unfold Fits
  simp only [shifted, List.length_append, List.length_take] at hquery ⊢
  omega

/-- Each part closes its literals, so that a literal of the text is one of a part. -/
theorem CutsNone.cases (h : clause.CutsNone) (hl : LiteralAt text i l) :
    LiteralAt clause.before i l ∨
      (∃ b, i = clause.before.length + b ∧ LiteralAt clause.body b l) ∨
      (∃ b, i = clause.before.length + (clause.body.length +
          ((clause.limit.text.length + clause.count.gap.length) + b)) ∧
        LiteralAt clause.count.text b l) ∨
      ∃ b, i = clause.before.length + (clause.body.length + (clause.removed.length + b)) ∧
        LiteralAt clause.after b l := by
  have hparts : LiteralAt (clause.before ++ (clause.body ++ (clause.removed ++ clause.after))) i l :=
    clause.text_eq_after.1.subst (motive := fun t => LiteralAt t i l) hl
  rcases hparts.of_append h.before_closed with hbefore | ⟨b, rfl, hbehind⟩
  · exact .inl hbefore
  right
  rcases hbehind.of_append h.body_closed with hbody | ⟨b, rfl, hclause⟩
  · exact .inl ⟨b, rfl, hbody⟩
  right
  rcases hclause.of_append (closed_of_count h.count_closed).2 with hremoved | ⟨b, rfl, hafter⟩
  · rw [removed_eq] at hremoved
    obtain ⟨b, rfl, hcount⟩ := hremoved.of_append_plain limit_no_quote
    rw [List.length_append]
    exact .inl ⟨b, rfl, hcount⟩
  · exact .inr ⟨b, rfl, hafter⟩

/-- A literal of what is moved up or stays stands behind the inserted text. -/
theorem CutsNone.kept (h : clause.CutsNone) {b : Nat}
    (hl : LiteralAt (clause.body ++ clause.after) b l) : clause.excess ≤ b ∧
      LiteralAt (clause.rearranged clause.after) (clause.before.length + (clause.inserted.length +
        (clause.stale.length + (b - clause.excess)))) l := by
  have hstale := h.stale_closed hl.exists_quote
  have hlen := hl.le_length
  have hpos := hl.isLiteral.length_pos
  rw [← List.take_append_drop clause.excess (clause.body ++ clause.after)] at hl
  obtain ⟨m, rfl, hleft⟩ := hl.of_append_plain h.lost_no_quote
  have hm := hleft.le_length
  rw [List.length_drop] at hm
  rw [List.length_take, Nat.min_eq_left (by omega), Nat.add_sub_cancel_left]
  refine ⟨Nat.le_add_right _ _, ?_⟩
  exact ((hleft.append_left hstale).append_left (closed_of_count h.count_closed).1).append_left
    h.before_closed

section

variable {moved more : List FxmyChar} (hclosed : Closed text)
  (hkeeps : ∀ i l, LiteralAt text i l → clause.Keeps moved i l)
include hclosed hkeeps

end

end LimitClause

/-! ## The LIMIT that is taken -/

end Fxmy
