import Fxmy.Lib.Cuts
import Fxmy.Verify.Translate
import Fxmy.Verify.Widening

/-!
# What the server reads

The tokens of a query and those of what `fxmy_rearrange_limit` makes of it: the LIMIT and its count
go, and `TOP` and the count come behind the SELECT (`limit_becomes_top_iff`). The text that is put
in ends with a blank and does not begin with one, so it needs white space behind the SELECT.
-/

namespace Fxmy

open Lexing

variable {ct : Ctype FxmyChar} {text rest : List FxmyChar}

namespace LimitClause

variable (clause : LimitClause ct (text ++ nul :: rest))

/-- The tokens up to the SELECT. -/
def selecting : List Token := clause.pre ++ [clause.select]

/-- The text up to the SELECT's last letter. -/
theorem before_eq : clause.before = spans clause.selecting ++ firstGap clause.mid clause.limit := by
  simp [before, selecting]

theorem text_eq_selecting : text = spans clause.selecting ++
    (firstGap clause.mid clause.limit ++ (clause.body ++ (clause.removed ++ clause.after))) := by
  apply clause.text_eq_after.1.trans
  rw [before_eq, List.append_assoc]

/-- The text is cut behind the SELECT. -/
theorem cut_select (ht : nul ∉ text) :
    Boundary (rules ct) (spans clause.selecting) (firstGap clause.mid clause.limit ++
        (clause.body ++ (clause.removed ++ clause.after))) ∧
      tokens (rules ct) (spans clause.selecting) = clause.selecting.map Token.word ∧
      tokens (rules ct) (firstGap clause.mid clause.limit ++
          (clause.body ++ (clause.removed ++ clause.after))) =
        (clause.mid ++ [clause.limit]).map Token.word ++
          (clause.count.gap, clause.count.text) :: tokens (rules ct) clause.after := by
  have htokens := clause.tokens_eq ht
  rw [congrArg (tokens (rules ct)) clause.text_eq_selecting] at htokens
  have hsplit : clause.front.map Token.word ++
      (clause.count.gap, clause.count.text) :: tokens (rules ct) clause.after =
        clause.selecting.map Token.word ++ ((clause.mid ++ [clause.limit]).map Token.word ++
          (clause.count.gap, clause.count.text) :: tokens (rules ct) clause.after) := by
    simp [front, selecting]
  rw [hsplit] at htokens
  have hspans := (spans_eq_spans_word clause.selecting).symm
  cases hmid : clause.mid ++ [clause.limit] with
  | nil => simp at hmid
  | cons t ts =>
    rw [hmid] at htokens
    exact tokens_cut isQuote_of_space htokens hspans

/-- The text between the SELECT and the LIMIT, with the white space around it. -/
theorem firstGap_append_body (behind : List FxmyChar) :
    firstGap clause.mid clause.limit ++ (clause.body ++ behind) =
      spans clause.mid ++ (clause.limit.gap ++ behind) := by
  rw [← List.append_assoc, body, firstGap_append_between, List.append_assoc]

theorem isSpace_firstGap : ∀ c ∈ firstGap clause.mid clause.limit, (rules ct).isSpace c = true := by
  unfold firstGap
  cases hmid : clause.mid with
  | nil => exact clause.isToken_limit.gap_space
  | cons t mid =>
    have htoken : IsToken ct t := clause.isToken (by simp [hmid])
    exact htoken.gap_space

/-- No separator begins the LIMIT, and no white space. -/
theorem not_front_limit (ht : nul ∉ text) (behind : List FxmyChar) :
    ¬ Front (rules ct) (clause.limit.text ++ behind) := by
  have hword : IsWord (rules ct) clause.limit.word := by
    have hmem : clause.limit.word ∈ tokens (rules ct) text := by
      rw [clause.tokens_eq ht]
      simp [front]
    exact ok_gap_nil.tokensFrom _ hmem
  obtain ⟨-, c, cs, hhead, hspace⟩ := hword
  have htext : clause.limit.text = c :: cs := hhead
  have hletters {d : Char} (hd : d.toNat < 128)
      (hword : ∀ c ∈ "LIMIT".toList, c.toNat < 128 ∧ c.toLower ≠ d.toLower) : c ≠ C d := by
    intro hc
    have hmem := clause.limit_abbreviates.lower_ne hd hword
    rw [htext] at hmem
    exact hmem (hc ▸ List.mem_cons_self)
  have hsemicolon : c ≠ C ';' := hletters (by decide) (List.all_iff_forall_prop.mp (by decide))
  have hcomma : c ≠ C ',' := hletters (by decide) (List.all_iff_forall_prop.mp (by decide))
  rw [htext, List.cons_append, front_cons, rules_breaks]
  intro h
  rcases h with h | h | h
  · cases hspace.symm.trans h
  · exact hsemicolon h
  · exact hcomma h

/-- Without the clause the text behind the SELECT goes on with what follows the count. -/
theorem words_body (ht : nul ∉ text) : words (rules ct) (clause.body ++ clause.after) =
    clause.mid.map Token.text ++ words (rules ct) clause.after := by
  obtain ⟨-, -, htokens⟩ := clause.cut_select ht
  rw [firstGap_append_body, List.map_append, List.append_assoc] at htokens
  obtain ⟨⟨hm, hfront⟩, hmid, -⟩ :=
    tokens_cut isQuote_of_space htokens (spans_eq_spans_word clause.mid).symm
  have hboundary : Boundary (rules ct) (spans clause.mid) (clause.limit.gap ++ clause.after) := by
    refine ⟨hm, ?_⟩
    cases hgap : clause.limit.gap with
    | nil =>
      rw [hgap, List.nil_append, removed, List.append_assoc] at hfront
      exact .inr (hfront.resolve_left (clause.not_front_limit ht _))
    | cons c gap =>
      have hspace := clause.isToken_limit.gap_space
      rw [hgap] at hspace
      exact .inl (front_space (List.cons_ne_nil c gap) hspace _)
  have hwords : words (rules ct) (spans clause.mid) = clause.mid.map Token.text := by
    unfold words
    rw [hmid, List.map_map]
    rfl
  rw [← words_space clause.isSpace_firstGap, firstGap_append_body, hboundary.words, hwords,
    words_space clause.isToken_limit.gap_space]

end LimitClause

variable (ct) in
/-- The letters of `TOP` are no breaks and no quotes. -/
theorem plain_top : ∀ c ∈ (chars "TOP" : List FxmyChar),
    (rules ct).breaks c = false ∧ (rules ct).isQuote c = false := by
  intro c hc
  obtain ⟨d, hd, rfl⟩ := List.mem_map.mp hc
  have hall : ∀ d ∈ "TOP".toList, d.toNat < 128 ∧
      (d.toNat == 32 || 9 ≤ d.toNat && d.toNat ≤ 13) = false ∧
      d ≠ '\'' ∧ d ≠ '"' ∧ d ≠ ';' ∧ d ≠ ',' := List.all_iff_forall_prop.mp (by decide)
  obtain ⟨hlt, hplain, hquote, hdouble, hsemicolon, hcomma⟩ := hall d hd
  have hspace := (ct.isspace_ascii d hlt).trans hplain
  constructor
  · rw [Bool.eq_false_iff, ne_eq, rules_breaks, hspace]
    simp [C_ne hlt (by decide) hsemicolon, C_ne hlt (by decide) hcomma]
  · exact decide_eq_false (not_or.mpr ⟨C_ne hlt (by decide) hquote, C_ne hlt (by decide) hdouble⟩)

theorem isSpace_blanks : ∀ c ∈ ([C ' ', C ' '] : List FxmyChar), (rules ct).isSpace c = true := by
  intro c hc
  rcases List.mem_pair.mp hc with rfl | rfl
  · exact isSpace_blank ct
  · exact isSpace_blank ct

/-- `TOP` is a word, and behind it the words are those of the text behind it. -/
theorem words_top (t : List FxmyChar) :
    words (rules ct) (top ++ t) = chars "TOP" :: words (rules ct) t := by
  have hsplit : top ++ t = chars "TOP" ++ ([C ' ', C ' '] ++ t) := by
    rw [← List.append_assoc]
    rfl
  have hword : words (rules ct) (chars "TOP") = [chars "TOP"] :=
    words_plain (plain_top ct _ List.mem_cons_self).2 fun c hc => (plain_top ct c hc).1
  rw [hsplit, words_append (not_isLiteral_after id fun c hc => (plain_top ct c hc).2)
    (front_space (List.cons_ne_nil _ _) isSpace_blanks t), words_space isSpace_blanks, hword]
  rfl

namespace LimitClause

variable (clause : LimitClause ct (text ++ nul :: rest))

/-- What the query is rewritten to, where a LIMIT and one character before the count make room. -/
def made : List FxmyChar :=
  clause.before ++ (top ++ (clause.count.text ++ (C ' ' :: (clause.body ++ clause.after))))

/-- The words that are meant by it. -/
def meant : List (List FxmyChar) :=
  clause.selecting.map Token.text ++
    chars "TOP" :: clause.count.text :: (clause.mid.map Token.text ++ words (rules ct) clause.after)

/-- The count is a word of its own, and stays open if it is a literal that is not closed. -/
theorem word_count (ht : nul ∉ text) : words (rules ct) clause.count.text = [clause.count.text] ∧
    ((Lexing.after (rules ct) (.gap []) clause.count.text).IsLiteral →
      emitted (rules ct) (.gap []) clause.count.text = [] ∧
        ∃ quote prev, Lexing.after (rules ct) (.gap []) clause.count.text =
          .literal [] clause.count.text quote prev) := by
  have htokens := clause.tokens_eq ht
  have htext : text = spans clause.front ++
      (clause.count.gap ++ (clause.count.text ++ clause.after)) := by
    rw [spans_front]
    apply clause.text_eq_after.1.trans
    simp only [removed, List.append_assoc]
  rw [congrArg (tokens (rules ct)) htext] at htokens
  obtain ⟨-, -, hcount⟩ :=
    tokens_cut isQuote_of_space htokens (spans_eq_spans_word clause.front).symm
  exact tokens_word hcount

theorem words_selecting (ht : nul ∉ text) :
    words (rules ct) (spans clause.selecting) = clause.selecting.map Token.text := by
  obtain ⟨-, htokens, -⟩ := clause.cut_select ht
  unfold words
  rw [htokens, List.map_map]
  rfl

/-- With white space behind the SELECT, `TOP` is a word. -/
theorem words_made (ht : nul ∉ text) (hgap : firstGap clause.mid clause.limit ≠ []) :
    words (rules ct) clause.made = clause.selecting.map Token.text ++
      chars "TOP" ::
        words (rules ct) (clause.count.text ++ C ' ' :: (clause.body ++ clause.after)) := by
  obtain ⟨⟨hm, -⟩, -, -⟩ := clause.cut_select ht
  unfold made
  rw [before_eq, List.append_assoc, words_append hm (front_space hgap clause.isSpace_firstGap _),
    words_space clause.isSpace_firstGap, words_selecting _ ht, words_top]

/-- A count that leaves no literal open is followed by what stands behind it. -/
theorem words_made_eq (ht : nul ∉ text) (hgap : firstGap clause.mid clause.limit ≠ [])
    (hcount : ¬ (Lexing.after (rules ct) (.gap []) clause.count.text).IsLiteral) :
    words (rules ct) clause.made = clause.meant := by
  have hblank : ∀ c ∈ ([C ' '] : List FxmyChar), (rules ct).isSpace c = true :=
    List.forall_mem_singleton.mpr (isSpace_blank ct)
  have hbehind (t : List FxmyChar) : words (rules ct) (C ' ' :: t) = words (rules ct) t :=
    words_space hblank
  have hfront (t : List FxmyChar) : Front (rules ct) (C ' ' :: t) :=
    front_space (List.cons_ne_nil _ _) hblank t
  rw [words_made _ ht hgap, words_append hcount (hfront _), (clause.word_count ht).1, hbehind,
    words_body _ ht]
  rfl

/-- A count that leaves a literal open takes in what stands behind it. -/
theorem words_made_ne_of_literal (ht : nul ∉ text) (hgap : firstGap clause.mid clause.limit ≠ [])
    (hcount : (Lexing.after (rules ct) (.gap []) clause.count.text).IsLiteral) :
    words (rules ct) clause.made ≠ clause.meant := by
  obtain ⟨hnone, quote, prev, hopen⟩ := (clause.word_count ht).2 hcount
  obtain ⟨more, us, hmore, hwords⟩ := tokensFrom_open_literal (r := rules ct) quote prev
    (C ' ' :: (clause.body ++ clause.after))
  have hbehind : words (rules ct) (clause.count.text ++ C ' ' :: (clause.body ++ clause.after)) =
      (clause.count.text ++ more) :: us.map Prod.snd := by
    unfold words tokens
    rw [tokensFrom_append, hnone, hopen, hwords]
    rfl
  rw [words_made _ ht hgap, hbehind]
  intro h
  obtain ⟨hsame, -⟩ := List.cons.inj (List.cons.inj (List.append_cancel_left h)).2
  exact List.cons_ne_nil _ _ (hmore.mp (List.append_right_eq_self.mp hsame))

/-- Without white space behind the SELECT, `TOP` is a part of the word. -/
theorem words_made_ne_of_gap (ht : nul ∉ text) (hgap : firstGap clause.mid clause.limit = []) :
    words (rules ct) clause.made ≠ clause.meant := by
  obtain ⟨⟨hm, -⟩, htokens, -⟩ := clause.cut_select ht
  have hspans : Lexing.spans (emitted (rules ct) (.gap []) (spans clause.selecting)) ++
      (Lexing.after (rules ct) (.gap []) (spans clause.selecting)).pending =
        spans clause.selecting := spans_emitted
  have hmade : clause.made = spans clause.selecting ++
      (top ++ (clause.count.text ++ (C ' ' :: (clause.body ++ clause.after)))) := by
    unfold made
    rw [before_eq, hgap, List.append_nil]
  have hnot : ¬ Front (rules ct)
      (top ++ (clause.count.text ++ (C ' ' :: (clause.body ++ clause.after)))) := by
    intro h
    have hbreaks := (plain_top ct (C 'T') List.mem_cons_self).1
    cases hbreaks.symm.trans (front_cons.mp h)
  rw [tokens, tokensFrom] at htokens
  cases hmode : Lexing.after (rules ct) (.gap []) (spans clause.selecting) with
  | gap space =>
    -- The SELECT would end with a quote.
    rw [hmode] at htokens hspans
    have hemitted : emitted (rules ct) (.gap []) (spans clause.selecting) =
        clause.selecting.map Token.word := (List.append_nil _).symm.trans htokens
    rw [hemitted, ← spans_eq_spans_word] at hspans
    obtain rfl : space = [] := List.append_right_eq_self.mp hspans
    have hne : clause.select.text ≠ [] := (clause.isToken (by simp)).text_ne_nil
    have hlast : spans clause.selecting =
        (spans clause.pre ++ (clause.select.gap ++ clause.select.text.dropLast)) ++
          [clause.select.text.getLast hne] := by
      have htext := List.dropLast_append_getLast hne
      simp only [selecting, spans_append, spans_cons, spans_nil, Token.span, List.append_nil,
        List.append_assoc, htext]
    rw [hlast] at hmode
    have hquote := isQuote_of_after hmode
    have hplain := clause.select_abbreviates.no_quote (List.all_iff_forall_prop.mp (by decide)) _
      (List.getLast_mem hne)
    cases hplain.symm.trans (isQuote_iff.mpr (of_decide_eq_true hquote))
  | word space before =>
    rw [hmode] at htokens
    obtain ⟨more, us, hmore, hopen⟩ := tokensFrom_open_word (r := rules ct)
      (top ++ (clause.count.text ++ (C ' ' :: (clause.body ++ clause.after))))
    have hwords : words (rules ct) clause.made =
        (emitted (rules ct) (.gap []) (spans clause.selecting)).map Prod.snd ++
          (before ++ more) :: us.map Prod.snd := by
      unfold words tokens
      rw [hmade, tokensFrom_append, hmode, hopen, List.map_append]
      rfl
    have hmeant : clause.selecting.map Token.text =
        (emitted (rules ct) (.gap []) (spans clause.selecting)).map Prod.snd ++ [before] := by
      have hmap := congrArg (List.map Prod.snd) htokens
      rw [List.map_append, List.map_map] at hmap
      exact hmap.symm
    rw [hwords, meant, hmeant, List.append_assoc]
    intro h
    obtain ⟨hsame, -⟩ := List.cons.inj (List.append_cancel_left h)
    exact hnot (hmore.mp (List.append_right_eq_self.mp hsame))
  | literal space before quote prev => exact absurd (hmode ▸ trivial) hm

theorem words_made_iff (ht : nul ∉ text) : words (rules ct) clause.made = clause.meant ↔
    firstGap clause.mid clause.limit ≠ [] ∧
      ¬ (Lexing.after (rules ct) (.gap []) clause.count.text).IsLiteral := by
  constructor
  · intro h
    have hgap : firstGap clause.mid clause.limit ≠ [] := fun hgap =>
      words_made_ne_of_gap clause ht hgap h
    exact ⟨hgap, fun hcount => words_made_ne_of_literal clause ht hgap hcount h⟩
  · intro h
    exact words_made_eq clause ht h.1 h.2

end LimitClause

theorem map_text_ofWord (ws : List (List FxmyChar × List FxmyChar)) :
    (ws.map Token.ofWord).map Token.text = ws.map Prod.snd := by
  rw [List.map_map]
  rfl

/-- **A LIMIT becomes a TOP** in the tokens too, all others staying where they are, exactly if white
space stands behind the SELECT and the count is no literal that is left open. -/
theorem limit_becomes_top_iff (ht : nul ∉ text) (clause : LimitClause ct (text ++ nul :: rest))
    (hlimit : clause.limit.Is ct "LIMIT") (hgap : clause.count.gap.length = 1) :
    ∃ out ts us behind, rearrangeLimit ct (text ++ nul :: rest) = .ok (0, out) ∧
      Tokenizes ct (text ++ nul :: rest) ts ∧ Tokenizes ct out us ∧
      ts.map Token.text = (clause.pre ++ [clause.select]).map Token.text ++
        (clause.mid.map Token.text ++ clause.limit.text :: clause.count.text :: behind) ∧
      (us.map Token.text = (clause.pre ++ [clause.select]).map Token.text ++
          chars "TOP" :: clause.count.text :: (clause.mid.map Token.text ++ behind) ↔
        firstGap clause.mid clause.limit ≠ [] ∧
          ¬ (after (rules ct) (.gap []) clause.count.text).IsLiteral) := by
  obtain ⟨behind, moved, htext, hmoved, hrun, -, hnul⟩ :=
    rearrangeLimit_counted ht clause hlimit hgap
  have hbehind : clause.after = behind := by
    have hsplit := clause.text_eq_after.1.symm.trans htext
    simp only [LimitClause.removed, List.append_assoc, List.append_cancel_left_eq] at hsplit
    exact hsplit
  obtain rfl : moved = clause.made := by
    rw [hmoved, ← hbehind]
    rfl
  refine ⟨clause.made ++ nul :: rest, (tokens (rules ct) text).map Token.ofWord,
    (tokens (rules ct) clause.made).map Token.ofWord, words (rules ct) clause.after, hrun,
    tokenizes_words ct ht rest, tokenizes_words ct hnul rest, ?_, ?_⟩
  · rw [map_text_ofWord, clause.tokens_eq ht]
    simp [LimitClause.front, words, Token.word, Function.comp_def]
  · rw [map_text_ofWord]
    exact clause.words_made_iff ht

/-- `SELECT a LIMIT 5` becomes `SELECT TOP 5 a`. -/
theorem limit_becomes_top_select : ∃ out ts us behind,
    rearrangeLimit cLocale (chars "SELECT a LIMIT 5" ++ nul :: []) = .ok (0, out) ∧
      Tokenizes cLocale (chars "SELECT a LIMIT 5" ++ nul :: []) ts ∧ Tokenizes cLocale out us ∧
      ts.map Token.text = [chars "SELECT", chars "a", chars "LIMIT", chars "5"] ++ behind ∧
      us.map Token.text = [chars "SELECT", chars "TOP", chars "5", chars "a"] ++ behind := by
  obtain ⟨out, ts, us, behind, hrun, hts, hus, hold, hnew⟩ :=
    limit_becomes_top_iff (by decide) selectClause rfl rfl
  exact ⟨out, ts, us, behind, hrun, hts, hus, hold,
    hnew.mpr ⟨List.cons_ne_nil _ _, by decide⟩⟩

end Fxmy
