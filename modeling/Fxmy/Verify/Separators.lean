import Fxmy.Verify.Stream

/-!
# Separators

A comma or a semicolon ends the token in front of it, but the scan of the token that it starts goes
on behind it without a look at it. So it is a token of its own, and white space can be put on both
sides of it, exactly if a break or the end follows it and the function takes no literal to be open
(`standsAlone_iff`, `separators_alone_iff`).
-/

namespace Fxmy

open Lexing

variable {ct : Ctype FxmyChar}

/-! ## Outside literals and comments -/

/-- What a position of a statement is in. -/
inductive Region where
  | code
  /-- Behind one dash. -/
  | dash
  | literal (quote : FxmyChar)
  /-- In a literal, behind a backslash that is not escaped. -/
  | escaped (quote : FxmyChar)
  | comment
  deriving DecidableEq

/-- The region after one more character. -/
def Region.next : Region → FxmyChar → Region
  | .literal quote, c =>
    if c = quote then .code else if c = C '\\' then .escaped quote else .literal quote
  | .escaped quote, _ => .literal quote
  | .comment, c => if c = C '\n' then .code else .comment
  | region, c =>
    if c = C '\'' ∨ c = C '"' then .literal c
    else if c = C '-' then if region = .dash then .comment else .dash
    else .code

/-- What stands behind the text is outside its string literals and comments. -/
def OutsideLiterals (before : List FxmyChar) : Prop :=
  before.foldl Region.next .code = .code ∨ before.foldl Region.next .code = .dash

/-! ## Separators -/

/-- A comma or a semicolon. -/
def IsSeparator (c : FxmyChar) : Prop := c = C ',' ∨ c = C ';'

/-- The separator between `before` and `behind` is a token of its own, and white space on either side
of it does not change the tokens. -/
structure StandsAlone (ct : Ctype FxmyChar) (before : List FxmyChar) (c : FxmyChar)
    (behind rest : List FxmyChar) : Prop where
  token : ∃ ts gap, Yields ct ((before ++ c :: behind) ++ nul :: rest) (ts ++ [⟨gap, [c]⟩])
    (behind ++ nul :: rest)
  space_before : ∀ space, (∀ d ∈ space, ct.isspace d = true) →
    SameTokens ct ((before ++ (space ++ c :: behind)) ++ nul :: rest)
      ((before ++ c :: behind) ++ nul :: rest)
  space_behind : ∀ space, (∀ d ∈ space, ct.isspace d = true) →
    SameTokens ct ((before ++ c :: (space ++ behind)) ++ nul :: rest)
      ((before ++ c :: behind) ++ nul :: rest)

section Separator

variable {c : FxmyChar} (hc : IsSeparator c)

section

variable (ct)
include hc

theorem IsSeparator.isSep : (rules ct).isSep c = true := by
  rcases hc with rfl | rfl <;> simp [rules]

theorem IsSeparator.isspace : ct.isspace c = false := by
  rcases hc with rfl | rfl
  · exact ct.isspace_ascii ',' (by decide)
  · exact ct.isspace_ascii ';' (by decide)

theorem IsSeparator.isQuote : (rules ct).isQuote c = false := by
  rcases hc with rfl | rfl
  · simp [rules, C_ne]
  · simp [rules, C_ne]

end

variable {before behind : List FxmyChar} (hnul : nul ∉ before ++ c :: behind) (rest : List FxmyChar)
include hnul

/-- A separator is a token of the stream exactly if it is a word of the text. -/
theorem token_iff_word :
    (∃ ts gap, Yields ct ((before ++ c :: behind) ++ nul :: rest) (ts ++ [⟨gap, [c]⟩])
        (behind ++ nul :: rest)) ↔
      ∃ ts gap us, tokens (rules ct) (before ++ c :: behind) = ts ++ (gap, [c]) :: us ∧
        Lexing.spans ts ++ gap = before := by
  constructor
  · rintro ⟨ts, gap, h⟩
    obtain ⟨hsplit, htokens⟩ := h.tokens_eq hnul
    refine ⟨ts.map Token.word, gap, tokens (rules ct) behind, ?_, ?_⟩
    · rw [htokens, List.map_append, List.append_assoc]
      rfl
    · rw [← spans_eq_spans_word]
      simp only [spans_append, spans_cons, spans_nil, Token.span, List.append_nil,
        List.append_assoc] at hsplit
      have hall : before ++ c :: behind = (spans ts ++ gap) ++ c :: behind :=
        hsplit.trans (List.append_assoc _ _ _).symm
      exact (List.append_cancel_right hall).symm
  · rintro ⟨ts, gap, us, h, hspan⟩
    have hsnoc : ts ++ (gap, [c]) :: us = (ts ++ [(gap, [c])]) ++ us := by simp
    obtain ⟨t', hsplit, hyields⟩ := yields_of_tokens hnul (h.trans hsnoc) rest
    rw [List.map_append] at hyields
    have hrest : behind = t' := by
      rw [Lexing.spans_append, Lexing.spans_cons, Lexing.spans_nil, List.append_nil,
        ← List.append_assoc, hspan, List.append_assoc] at hsplit
      exact (List.cons.inj (List.append_cancel_left hsplit)).2
    subst hrest
    exact ⟨ts.map Token.ofWord, gap, hyields⟩

include hc in
/-- **When a separator stands alone.** -/
theorem standsAlone_iff : StandsAlone ct before c behind rest ↔
    ¬ (after (rules ct) (.gap []) before).IsLiteral ∧ Front (rules ct) behind := by
  have htoken := (token_iff_word hnul rest).trans
    (sep_alone_iff (hc.isSep ct) (hc.isspace ct) (hc.isQuote ct))
  constructor
  · exact fun h => htoken.mp h.token
  · rintro ⟨hliteral, hfront⟩
    simp only [List.mem_append, List.mem_cons, not_or] at hnul
    have hwords {space : List FxmyChar} (h : ∀ d ∈ space, ct.isspace d = true) :=
      words_space_sep (hc.isSep ct) (hc.isspace ct) (hc.isQuote ct) h hliteral hfront
    refine ⟨htoken.mpr ⟨hliteral, hfront⟩, fun space h => ?_, fun space h => ?_⟩
    · rw [sameTokens_iff (by simp [nul_not_mem_space h, hnul]) (by simp [hnul])]
      exact (hwords h).1
    · rw [sameTokens_iff (by simp [nul_not_mem_space h, hnul]) (by simp [hnul])]
      exact (hwords h).2

end Separator

/-- **Every separator outside literals and comments stands alone** exactly if a break or the end is
behind each, and in front of none a literal is open as the function takes it. -/
theorem separators_alone_iff (ct : Ctype FxmyChar) {text : List FxmyChar} (ht : nul ∉ text)
    (rest : List FxmyChar) :
    (∀ before c behind, text = before ++ c :: behind → IsSeparator c → OutsideLiterals before →
        StandsAlone ct before c behind rest) ↔
      ∀ before c behind, text = before ++ c :: behind → IsSeparator c → OutsideLiterals before →
        ¬ (after (rules ct) (.gap []) before).IsLiteral ∧ Front (rules ct) behind := by
  have heach : ∀ before c behind, text = before ++ c :: behind → IsSeparator c →
      (StandsAlone ct before c behind rest ↔
        ¬ (after (rules ct) (.gap []) before).IsLiteral ∧ Front (rules ct) behind) := by
    rintro before c behind rfl hc
    exact standsAlone_iff hc ht rest
  constructor
  · intro h before c behind htext hc hout
    exact (heach before c behind htext hc).mp (h before c behind htext hc hout)
  · intro h before c behind htext hc hout
    exact (heach before c behind htext hc).mpr (h before c behind htext hc hout)

/-- A list of columns without white space. -/
theorem comma_in_token : ¬ ∀ (ct : Ctype FxmyChar) (text rest : List FxmyChar), nul ∉ text →
    ∀ before c behind, text = before ++ c :: behind → IsSeparator c → OutsideLiterals before →
      StandsAlone ct before c behind rest := by
  intro h
  have halone := h cLocale (chars "a,b") [] (by decide) (chars "a") (C ',') (chars "b") rfl
    (.inl rfl) (.inl (by decide))
  have hsame := halone.space_behind (chars " ") (List.all_iff_forall_prop.mp (by decide))
  rw [sameTokens_iff (by decide) (by decide)] at hsame
  exact absurd hsame (by decide)

theorem separators_alone_spaced :
    (∀ before c behind, chars "a , 'b,c';" = before ++ c :: behind → IsSeparator c →
        OutsideLiterals before → StandsAlone cLocale before c behind []) ↔
      ∀ before c behind, chars "a , 'b,c';" = before ++ c :: behind → IsSeparator c →
        OutsideLiterals before →
          ¬ (after (rules cLocale) (.gap []) before).IsLiteral ∧ Front (rules cLocale) behind :=
  separators_alone_iff cLocale (by decide) []

end Fxmy
