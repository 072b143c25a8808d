import Fxmy.Verify.Limit
import Fxmy.Verify.Stream

/-!
# White space in front of the count

The text between the SELECT and the LIMIT is moved by the width of the clause, white space before the
count included, while what is put in front of it has a width of its own. So each further character of
white space brings in one more of the text that stood there, and the tokens stay the same only where
these are white space themselves and get into no literal (`widened_iff`).
-/

namespace Fxmy

open Lexing

variable {ct : Ctype FxmyChar} {text rest : List FxmyChar}

theorem isQuote_of_space (c : FxmyChar) (hc : (rules ct).isSpace c = true) :
    (rules ct).isQuote c = false := by
  refine decide_eq_false (not_or.mpr ⟨?_, ?_⟩)
  · exact ct.ne_of_isspace hc '\'' (by decide)
  · exact ct.ne_of_isspace hc '"' (by decide)

theorem ne_esc_of_space (c : FxmyChar) (hc : (rules ct).isSpace c = true) : c ≠ (rules ct).esc :=
  ct.ne_of_isspace hc '\\' (by decide)

variable (ct) in
theorem isSpace_blank : (rules ct).isSpace (C ' ') = true := ct.isspace_ascii ' ' (by decide)

namespace LimitClause

/-! ## The wider clause -/

/-- What follows the clause in the text. -/
def after (clause : LimitClause ct (text ++ nul :: rest)) : List FxmyChar :=
  text.drop (clause.before.length + (clause.body.length + clause.removed.length))

/-- The text with other white space between LIMIT and the count. -/
def widened (clause : LimitClause ct (text ++ nul :: rest)) (space : List FxmyChar) :
    List FxmyChar :=
  clause.before ++ (clause.body ++ (clause.limit.text ++ (space ++ (clause.count.text ++ clause.after))))

variable (clause : LimitClause ct (text ++ nul :: rest))

theorem text_eq_after :
    text = clause.before ++ (clause.body ++ (clause.removed ++ clause.after)) ∧
      clause.behind = clause.after ++ nul :: rest := by
  obtain ⟨after, htext, hbehind⟩ := clause.text_eq
  have hafter : clause.after = after := by
    unfold LimitClause.after
    refine (congrArg (List.drop _) htext).trans ?_
    rw [← List.append_assoc, ← List.append_assoc]
    exact List.drop_left' (by simp only [List.length_append, Nat.add_assoc])
  rw [hafter]
  exact ⟨htext, hbehind⟩

theorem nul_not_mem_parts (ht : nul ∉ text) :
    nul ∉ clause.before ∧ nul ∉ clause.body ∧
      (nul ∉ clause.limit.text ∧ nul ∉ clause.count.gap ∧ nul ∉ clause.count.text) ∧
        nul ∉ clause.after := by
  have hparts : nul ∉ clause.before ++ (clause.body ++ (clause.removed ++ clause.after)) :=
    fun h => ht ((congrArg (nul ∈ ·) clause.text_eq_after.1).mpr h)
  simpa only [removed, List.mem_append, not_or] using hparts

theorem widened_gap : clause.widened clause.count.gap = text := by
  refine Eq.trans ?_ clause.text_eq_after.1.symm
  simp only [widened, removed, List.append_assoc]

/-- The tokens up to the LIMIT. -/
def front : List Token := clause.pre ++ clause.select :: (clause.mid ++ [clause.limit])

theorem spans_front :
    spans clause.front = clause.before ++ (clause.body ++ clause.limit.text) := by
  have hall := clause.spans_eq
  have hsnoc : clause.pre ++ clause.select :: (clause.mid ++ [clause.limit, clause.count]) =
      clause.front ++ [clause.count] := by simp [front]
  rw [hsnoc, spans_append, spans_cons, spans_nil, List.append_nil] at hall
  have hright : clause.before ++ (clause.body ++ clause.removed) =
      (clause.before ++ (clause.body ++ clause.limit.text)) ++ clause.count.span := by
    simp only [removed, Token.span, List.append_assoc]
  exact List.append_cancel_right (hall.trans hright)

/-- The words of the text: those up to the LIMIT, the count, and those that follow. -/
theorem tokens_eq (ht : nul ∉ text) : tokens (rules ct) text =
    clause.front.map Token.word ++
      (clause.count.gap, clause.count.text) :: tokens (rules ct) clause.after := by
  have hyields := clause.yields
  rw [clause.text_eq_after.2] at hyields
  obtain ⟨-, htokens⟩ := hyields.tokens_eq ht
  have hsnoc : clause.pre ++ clause.select :: (clause.mid ++ [clause.limit, clause.count]) =
      clause.front ++ [clause.count] := by simp [front]
  rw [htokens, hsnoc, List.map_append, List.append_assoc]
  rfl

section Widened

variable {space : List FxmyChar} (hspace : ∀ c ∈ space, ct.isspace c = true) (hne : space ≠ [])
include hspace

theorem nul_not_mem_widened (ht : nul ∉ text) : nul ∉ clause.widened space := by
  simp [widened, clause.nul_not_mem_parts ht, nul_not_mem_space hspace]

include hne

/-- The wider text has the same words, but for the white space in front of the count. -/
theorem tokens_widened (ht : nul ∉ text) (hgap : clause.count.gap ≠ []) :
    tokens (rules ct) (clause.widened space) =
      clause.front.map Token.word ++
        (space, clause.count.text) :: tokens (rules ct) clause.after := by
  have hsplit : ∀ space, clause.widened space =
      (clause.before ++ (clause.body ++ clause.limit.text)) ++
        (space ++ (clause.count.text ++ clause.after)) := fun space => by
    simp only [widened, List.append_assoc]
  have htokens := (congrArg (tokens (rules ct)) clause.widened_gap).trans (clause.tokens_eq ht)
  rw [hsplit] at htokens ⊢
  have hspans : Lexing.spans (clause.front.map Token.word) =
      clause.before ++ (clause.body ++ clause.limit.text) := by
    rw [← spans_eq_spans_word, spans_front]
  exact tokens_widen isQuote_of_space htokens hspans hgap hne hspace

variable (ht : nul ∉ text) (hgap : clause.count.gap ≠ [])
include ht hgap

/-- So the function finds the wider clause in it. -/
theorem yields_widened (rest' : List FxmyChar) :
    Yields ct (clause.widened space ++ nul :: rest')
      (clause.pre ++ clause.select :: (clause.mid ++ [clause.limit, ⟨space, clause.count.text⟩]))
      (clause.after ++ nul :: rest') := by
  have htokens := clause.tokens_widened hspace hne ht hgap
  have hsnoc : clause.front.map Token.word ++
      (space, clause.count.text) :: tokens (rules ct) clause.after =
        (clause.front ++ [Token.mk space clause.count.text]).map Token.word ++
          tokens (rules ct) clause.after := by simp [Token.word]
  obtain ⟨after, hsplit, hyields⟩ :=
    yields_of_tokens (clause.nul_not_mem_widened hspace ht) (htokens.trans hsnoc) rest'
  rw [map_ofWord_word] at hyields
  rw [← spans_eq_spans_word, spans_append, spans_front, spans_cons, spans_nil, Token.span] at hsplit
  have hafter : clause.after = after := by
    simp only [widened, List.append_assoc, List.nil_append, List.append_cancel_left_eq] at hsplit
    exact hsplit
  rw [hafter]
  simpa [front] using hyields

omit hspace hne ht hgap in
/-- The wider clause. -/
def widen (hspace : ∀ c ∈ space, ct.isspace c = true) (hne : space ≠ []) (ht : nul ∉ text)
    (hgap : clause.count.gap ≠ []) (rest' : List FxmyChar) :
    LimitClause ct (clause.widened space ++ nul :: rest') where
  pre := clause.pre
  select := clause.select
  mid := clause.mid
  limit := clause.limit
  count := ⟨space, clause.count.text⟩
  behind := clause.after ++ nul :: rest'
  yields := clause.yields_widened hspace hne ht hgap rest'
  pre_not_select := clause.pre_not_select
  select_abbreviates := clause.select_abbreviates
  not_limit := clause.not_limit
  limit_abbreviates := clause.limit_abbreviates

end Widened

/-! ## What the function makes of it -/

section Kept

variable (space : List FxmyChar)

/-- Where `space` is in front of the count: the text from the first token behind the SELECT on, once
what is in between has been moved up. -/
def movedUp : List FxmyChar :=
  shiftedText clause.body (clause.limit.text ++ (space ++ clause.count.text)) clause.after

/-- What the inserted text leaves of it. -/
def kept : List FxmyChar := (clause.movedUp space).drop (clause.count.text.length + 6)

/-- As much of that as there are further characters of white space. -/
def left : List FxmyChar := (clause.kept space).take (space.length - 1)

/-- The text that is made. -/
def topped : List FxmyChar :=
  (clause.before ++ (top ++ clause.count.text)) ++ C ' ' :: clause.kept space

theorem length_movedUp : (clause.movedUp space).length =
    clause.limit.text.length + space.length + clause.count.text.length +
      (clause.body.length + clause.after.length) := by
  simp only [movedUp, shiftedText, List.length_append, List.length_take]
  omega

theorem length_text :
    text.length = clause.before.length + (clause.movedUp clause.count.gap).length := by
  have hlen := congrArg List.length clause.text_eq_after.1
  simp only [removed, List.length_append] at hlen
  rw [length_movedUp]
  omega

theorem length_limit_le : clause.limit.text.length ≤ 5 := by
  have hlen := List.IsPrefix.length_le clause.limit_abbreviates
  rw [List.length_map, List.length_map] at hlen
  exact hlen

variable {space}

/-- Behind the further characters the text goes on as it does without them. -/
theorem kept_eq (hne : space ≠ []) : clause.kept space =
    clause.left space ++ (clause.body ++ clause.after).drop (5 - clause.limit.text.length) := by
  have hpos : 0 < space.length := List.length_pos_iff.mpr hne
  have hlimit := clause.length_limit_le
  have hwidth : ((clause.body ++ (clause.limit.text ++ (space ++ clause.count.text))).take
      (clause.limit.text ++ (space ++ clause.count.text)).length).length =
        clause.limit.text.length + (space.length + clause.count.text.length) := by
    simp only [List.length_take, List.length_append]
    omega
  have hdrop : (clause.kept space).drop (space.length - 1) =
      (clause.body ++ clause.after).drop (5 - clause.limit.text.length) := by
    unfold kept movedUp shiftedText
    rw [List.drop_drop, List.drop_append, hwidth, List.drop_eq_nil_of_le (by omega),
      List.nil_append]
    congr 1
    omega
  rw [← hdrop]
  exact (List.take_append_drop _ _).symm

theorem left_of_length_eq_one (h : space.length = 1) : clause.left space = [] := by
  unfold left
  rw [h]
  rfl

theorem nul_not_mem_topped (ht : nul ∉ text) (hspace : ∀ c ∈ space, ct.isspace c = true) :
    nul ∉ clause.topped space := by
  have hparts := clause.nul_not_mem_parts ht
  have hinserted := nul_not_mem_insertedText hparts.2.2.1.2.2
  simp only [insertedText, List.mem_append, List.mem_singleton, not_or] at hinserted
  have hkept : nul ∉ clause.kept space := by
    intro h
    have hmem := List.mem_of_mem_drop h
    unfold movedUp shiftedText at hmem
    rcases List.mem_append.mp hmem with hmem | hmem
    · have hold := List.mem_of_mem_take hmem
      simp [hparts, nul_not_mem_space hspace] at hold
    · simp [hparts] at hmem
  simp [topped, hparts, hinserted, hkept]

end Kept

section Made

variable {space : List FxmyChar} (hspace : ∀ c ∈ space, ct.isspace c = true) (hne : space ≠ [])
  (ht : nul ∉ text) (hgap : clause.count.gap ≠ [])
include hspace hne ht hgap

theorem rearrangeLimit_widened (rest' : List FxmyChar) :
    rearrangeLimit ct (clause.widened space ++ nul :: rest') =
      if clause.count.text.length + 6 ≤ (clause.movedUp space ++ nul :: rest').length then
        .ok (0, clause.before ++ (clause.inserted ++
          (clause.movedUp space ++ nul :: rest').drop (clause.count.text.length + 6)))
      else .error .outside := by
  have hshifted : (clause.widen hspace hne ht hgap rest').shifted =
      clause.movedUp space ++ nul :: rest' := by
    simp only [shifted, movedUp, shiftedText, List.append_assoc]
    rfl
  rw [← hshifted, ← length_insertedText]
  exact (clause.widen hspace hne ht hgap rest').rearrangeLimit_eq

/-- In a long text the terminator stays. -/
theorem rearrangeLimit_topped (hroom : clause.count.text.length + 6 ≤ (clause.movedUp space).length)
    (rest' : List FxmyChar) : rearrangeLimit ct (clause.widened space ++ nul :: rest') =
      .ok (0, clause.topped space ++ nul :: rest') := by
  have hroom' : clause.count.text.length + 6 ≤ (clause.movedUp space ++ nul :: rest').length := by
    rw [List.length_append]
    omega
  rw [clause.rearrangeLimit_widened hspace hne ht hgap, if_pos hroom',
    List.drop_append_of_le_length hroom]
  simp only [topped, inserted, kept, List.append_assoc, List.cons_append, List.nil_append]

/-- With a whole LIMIT nothing is lost that stands outside the clause: behind the inserted text come the
further characters, and then all of it. -/
theorem rearrangeLimit_survives (hlimit : clause.limit.Is ct "LIMIT") (rest' : List FxmyChar) :
    rearrangeLimit ct (clause.widened space ++ nul :: rest') =
      .ok (0, (clause.before ++ (top ++ clause.count.text)) ++
        C ' ' :: (clause.left space ++ (clause.body ++ clause.after)) ++ nul :: rest') := by
  have hfive : clause.limit.text.length = 5 := by
    have hlen := congrArg List.length hlimit
    rwa [List.length_map, List.length_map] at hlen
  have hpos : 0 < space.length := List.length_pos_iff.mpr hne
  have hroom : clause.count.text.length + 6 ≤ (clause.movedUp space).length := by
    rw [length_movedUp]
    omega
  rw [clause.rearrangeLimit_topped hspace hne ht hgap hroom, topped, clause.kept_eq hne, hfive,
    Nat.sub_self, List.drop_zero]

/-- In a short one, with nothing behind it, it does not. -/
theorem nul_not_mem_short (hshort : (clause.movedUp space).length < clause.count.text.length + 6)
    {out : List FxmyChar} (h : rearrangeLimit ct (clause.widened space ++ nul :: []) = .ok (0, out)) :
    nul ∉ out := by
  have hparts := clause.nul_not_mem_parts ht
  have hinserted : nul ∉ clause.inserted := nul_not_mem_insertedText hparts.2.2.1.2.2
  have hdrop : (clause.movedUp space ++ nul :: []).drop (clause.count.text.length + 6) = [] := by
    apply List.drop_eq_nil_of_le
    rw [List.length_append, List.length_singleton]
    omega
  rw [clause.rearrangeLimit_widened hspace hne ht hgap, hdrop] at h
  split at h
  · cases h
    simp [hparts, hinserted]
  · cases h

end Made

/-! ## Its tokens -/

/-- The token behind the SELECT starts where the count is put. -/
theorem exists_word_behind_select (ht : nul ∉ text) : ∃ word us, word ≠ [] ∧
    tokens (rules ct) text = (clause.pre ++ [clause.select]).map Token.word ++
      (firstGap clause.mid clause.limit, word) :: us := by
  have htokens := clause.tokens_eq ht
  unfold front at htokens
  cases hmid : clause.mid with
  | nil =>
    rw [hmid] at htokens
    refine ⟨clause.limit.text, (clause.count.gap, clause.count.text) :: tokens (rules ct) clause.after,
      clause.isToken_limit.text_ne_nil, ?_⟩
    rw [htokens]
    simp [firstGap, Token.word]
  | cons t mid =>
    have htoken : IsToken ct t := clause.isToken (by simp [hmid])
    rw [hmid] at htokens
    refine ⟨t.text, (mid ++ [clause.limit]).map Token.word ++
      (clause.count.gap, clause.count.text) :: tokens (rules ct) clause.after, htoken.text_ne_nil, ?_⟩
    rw [htokens]
    simp [firstGap, Token.word]

/-- So no literal is open there. -/
theorem not_isLiteral_before (ht : nul ∉ text) :
    ¬ (Lexing.after (rules ct) (.gap []) clause.before).IsLiteral := by
  obtain ⟨word, us, hword, htokens⟩ := clause.exists_word_behind_select ht
  have hsplit := (congrArg (tokens (rules ct)) clause.text_eq_after.1).symm.trans htokens
  refine not_isLiteral_of_word hsplit ?_ hword ?_
  · rw [← spans_eq_spans_word]
    simp [before]
  · simp [removed, clause.isToken_limit.text_ne_nil]

/-- The count leaves a literal open behind the inserted text exactly if it does so by itself. -/
theorem isLiteral_count (ht : nul ∉ text) :
    (Lexing.after (rules ct) (.gap []) (clause.before ++ (top ++ clause.count.text))).IsLiteral ↔
      (Lexing.after (rules ct) (.gap []) clause.count.text).IsLiteral := by
  have htop : top = chars "TOP " ++ [C ' '] := rfl
  have hquotes : ∀ c ∈ chars "TOP ", (rules ct).isQuote c = false :=
    List.all_iff_forall_prop.mp rfl
  obtain ⟨space, hgap⟩ := exists_gap_of_space
    (not_isLiteral_after (clause.not_isLiteral_before ht) hquotes) (isSpace_blank ct)
  rw [htop, List.append_assoc, after_append, after_append, List.singleton_append, after_cons, hgap,
    isLiteral_after_gap]

/-- The texts that are made of a long text have the same tokens exactly if nothing comes in behind
the inserted text, or white space only, and that in no literal. -/
theorem sameTokens_topped (ht : nul ∉ text) (hgap : clause.count.gap.length = 1)
    {space : List FxmyChar} (hspace : ∀ c ∈ space, ct.isspace c = true) (hne : space ≠ [])
    (hroom : clause.count.text.length + 6 ≤ (clause.movedUp clause.count.gap).length)
    (rest' : List FxmyChar) : SameTokens ct (clause.topped clause.count.gap ++ nul :: rest')
        (clause.topped space ++ nul :: rest') ↔
      space.length = 1 ∨ (∀ c ∈ clause.left space, ct.isspace c = true) ∧
        ¬ (Lexing.after (rules ct) (.gap []) clause.count.text).IsLiteral := by
  have hgap' : clause.count.gap ≠ [] := fun h => by simp [h] at hgap
  have hnone : clause.left space = [] ↔ space.length = 1 := by
    have hpos : 0 < space.length := List.length_pos_iff.mpr hne
    rw [clause.length_movedUp, hgap] at hroom
    have hlen : (clause.left space).length = space.length - 1 := by
      simp only [left, kept, List.length_take, List.length_drop, length_movedUp]
      omega
    rw [← List.length_eq_zero_iff, hlen]
    omega
  rw [sameTokens_iff (clause.nul_not_mem_topped ht clause.isToken_count.gap_space)
    (clause.nul_not_mem_topped ht hspace), ← hnone, ← clause.isLiteral_count ht]
  unfold topped
  rw [clause.kept_eq hgap', clause.left_of_length_eq_one hgap, List.nil_append,
    clause.kept_eq hne, eq_comm]
  exact words_insert_iff isQuote_of_space ne_esc_of_space (isSpace_blank ct)

end LimitClause

/-- **White space in front of the count** leaves the tokens of the rearranged text alone exactly if
the text is long enough for what is inserted, and the white space is one character, or only white
space comes in behind the inserted text and the count is no literal that is left open. -/
theorem widened_iff (ht : nul ∉ text) (clause : LimitClause ct (text ++ nul :: rest))
    (hgap : clause.count.gap.length = 1) {space : List FxmyChar}
    (hspace : ∀ c ∈ space, ct.isspace c = true) (hne : space ≠ []) :
    (∀ rest, ∃ out out', rearrangeLimit ct (text ++ nul :: rest) = .ok (0, out) ∧
        rearrangeLimit ct (clause.widened space ++ nul :: rest) = .ok (0, out') ∧
        SameTokens ct out out') ↔
      clause.before.length + clause.count.text.length + 6 ≤ text.length ∧
        (space.length = 1 ∨ (∀ c ∈ clause.left space, ct.isspace c = true) ∧
          ¬ (after (rules ct) (.gap []) clause.count.text).IsLiteral) := by
  have hgap' : clause.count.gap ≠ [] := fun h => by simp [h] at hgap
  have hgaps := clause.isToken_count.gap_space
  have htext := clause.length_text
  have hwide : (clause.movedUp clause.count.gap).length ≤ (clause.movedUp space).length := by
    have hpos : 0 < space.length := List.length_pos_iff.mpr hne
    rw [clause.length_movedUp, clause.length_movedUp, hgap]
    omega
  have hplain : ∀ rest', rearrangeLimit ct (text ++ nul :: rest') =
      rearrangeLimit ct (clause.widened clause.count.gap ++ nul :: rest') := fun rest' =>
    congrArg (fun t => rearrangeLimit ct (t ++ nul :: rest')) clause.widened_gap.symm
  have hmade : clause.before.length + clause.count.text.length + 6 ≤ text.length → ∀ rest',
      rearrangeLimit ct (text ++ nul :: rest') =
          .ok (0, clause.topped clause.count.gap ++ nul :: rest') ∧
        rearrangeLimit ct (clause.widened space ++ nul :: rest') =
          .ok (0, clause.topped space ++ nul :: rest') := by
    intro hroom rest'
    rw [hplain]
    exact ⟨clause.rearrangeLimit_topped hgaps hgap' ht hgap' (by omega) rest',
      clause.rearrangeLimit_topped hspace hne ht hgap' (by omega) rest'⟩
  constructor
  · intro h
    obtain ⟨out, out', hout, hout', hsame⟩ := h []
    have hroom : clause.before.length + clause.count.text.length + 6 ≤ text.length := by
      refine Nat.le_of_not_lt fun hshort => ?_
      obtain ⟨ts, -, hts, -⟩ := hsame
      rw [hplain] at hout
      exact clause.nul_not_mem_short hgaps hgap' ht hgap' (by omega) hout hts.nul_mem
    obtain ⟨hgapped, hspaced⟩ := hmade hroom []
    cases hgapped.symm.trans hout
    cases hspaced.symm.trans hout'
    exact ⟨hroom, (clause.sameTokens_topped ht hgap hspace hne (by omega) []).mp hsame⟩
  · rintro ⟨hroom, hsame⟩ rest'
    obtain ⟨hgapped, hspaced⟩ := hmade hroom rest'
    exact ⟨_, _, hgapped, hspaced,
      (clause.sameTokens_topped ht hgap hspace hne (by omega) rest').mpr hsame⟩

/-- A SELECT of one column, with a longer name. -/
def columnClause : LimitClause cLocale (chars "SELECT abcdefgh LIMIT 5" ++ nul :: []) where
  pre := []
  select := ⟨[], chars "SELECT"⟩
  mid := [⟨chars " ", chars "abcdefgh"⟩]
  limit := ⟨chars " ", chars "LIMIT"⟩
  count := ⟨chars " ", chars "5"⟩
  behind := [nul]
  yields := .token ⟨[], chars "SELECT"⟩ rfl (.token ⟨chars " ", chars "abcdefgh"⟩ rfl
    (.token ⟨chars " ", chars "LIMIT"⟩ rfl (.token ⟨chars " ", chars "5"⟩ rfl (.done _))))
  pre_not_select := nothing_selects
  select_abbreviates := select_abbreviates_select
  not_limit := by
    unfold Token.Abbreviates
    decide
  limit_abbreviates := limit_abbreviates_limit

/-- With two blanks in front of the count the last letter of the column is left behind it. -/
theorem letter_left : ¬ ∀ (ct : Ctype FxmyChar) (text rest : List FxmyChar), nul ∉ text →
    ∀ clause : LimitClause ct (text ++ nul :: rest), clause.limit.Is ct "LIMIT" →
      clause.count.gap.length = 1 → ∀ space : List FxmyChar, (∀ c ∈ space, ct.isspace c = true) →
        space ≠ [] → ∀ rest, ∃ out out', rearrangeLimit ct (text ++ nul :: rest) = .ok (0, out) ∧
          rearrangeLimit ct (clause.widened space ++ nul :: rest) = .ok (0, out') ∧
          SameTokens ct out out' := by
  intro h
  have hone : rearrangeLimit cLocale (chars "SELECT abcdefgh LIMIT 5" ++ nul :: []) =
      .ok (0, chars "SELECT TOP  5 abcdefgh " ++ nul :: []) := rfl
  have htwo : rearrangeLimit cLocale (columnClause.widened (chars "  ") ++ nul :: []) =
      .ok (0, chars "SELECT TOP  5 habcdefgh " ++ nul :: []) := rfl
  obtain ⟨out, out', hout, hout', hsame⟩ := h cLocale (chars "SELECT abcdefgh LIMIT 5") []
    (by decide) columnClause rfl rfl (chars "  ") (List.all_iff_forall_prop.mp (by decide))
    (List.cons_ne_nil _ _) []
  cases hone.symm.trans hout
  cases htwo.symm.trans hout'
  rw [sameTokens_iff (by decide) (by decide)] at hsame
  exact absurd hsame (by decide)

theorem widened_select : (∀ rest, ∃ out out',
      rearrangeLimit cLocale (chars "SELECT a LIMIT 5" ++ nul :: rest) = .ok (0, out) ∧
        rearrangeLimit cLocale (selectClause.widened (chars "  ") ++ nul :: rest) = .ok (0, out') ∧
        SameTokens cLocale out out') ↔
      selectClause.before.length + selectClause.count.text.length + 6 ≤
          (chars "SELECT a LIMIT 5" : List FxmyChar).length ∧
        ((chars "  " : List FxmyChar).length = 1 ∨
          (∀ c ∈ selectClause.left (chars "  "), cLocale.isspace c = true) ∧
            ¬ (after (rules cLocale) (.gap []) selectClause.count.text).IsLiteral) :=
  widened_iff (by decide) selectClause rfl (List.all_iff_forall_prop.mp (by decide))
    (List.cons_ne_nil _ _)

end Fxmy
