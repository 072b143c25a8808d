import Fxmy.Lib.Lexing
import Fxmy.Verify.Tokens

/-!
# The tokens of a text

Calls of `fxmy_fnext_token`, each from the end of the token before, come to NULL on every terminated
text and take it apart into tokens and white space (`tokenizes`). The tokens are the words into which
`Lexing` splits the text by the function's rules (`sameTokens_iff`). A comment is not skipped: its
dashes are part of a token (`comment_not_skipped`).
-/

namespace Fxmy

open Lexing

variable (ct : Ctype FxmyChar)

/-- The rules of `fxmy_fnext_token`. -/
def rules : Rules FxmyChar where
  isSpace := ct.isspace
  isQuote c := c = C '\'' ∨ c = C '"'
  isSep c := c = C ';' ∨ c = C ','
  esc := C '\\'

variable {ct}

theorem rules_breaks {c : FxmyChar} :
    (rules ct).breaks c = true ↔ ct.isspace c = true ∨ c = C ';' ∨ c = C ',' := by
  simp [Rules.breaks, rules]

/-! ## The loops -/

section Loops

variable (ct) {t : List FxmyChar} (ht : nul ∉ t) (rest : List FxmyChar)
include ht

theorem skipSpace_text : ∃ space t', t = space ++ t' ∧ (∀ c ∈ space, ct.isspace c = true) ∧
    (∀ c ∈ t'.head?, ct.isspace c = false) ∧
      skipSpace ct.isspace (t ++ nul :: rest) = .ok (t' ++ nul :: rest) := by
  induction t with
  | nil => exact ⟨[], [], rfl, nofun, nofun, if_neg (by simp [ct.isspace_nul])⟩
  | cons c t ih =>
    rw [List.cons_append, skipSpace]
    by_cases hc : ct.isspace c = true
    · obtain ⟨space, t', rfl, hspace, hhead, heq⟩ := ih fun h => ht (List.mem_cons_of_mem c h)
      exact ⟨c :: space, t', rfl, List.forall_mem_cons.mpr ⟨hc, hspace⟩, hhead, by rw [if_pos hc, heq]⟩
    · refine ⟨[], c :: t, rfl, nofun, ?_, if_neg hc⟩
      rintro d ⟨⟩
      exact Bool.eq_false_iff.mpr hc

theorem consumeWhitespace_text : ∃ space t', t = space ++ t' ∧
    (∀ c ∈ space, ct.isspace c = true) ∧ (∀ c ∈ t'.head?, ct.isspace c = false) ∧
      consumeWhitespace ct.isspace (t ++ nul :: rest) = .ok (t' ++ nul :: rest) := by
  have hskip := skipSpace_text ct ht rest
  cases t with
  | nil => exact ⟨[], [], rfl, nofun, nofun, by rw [List.nil_append, consumeWhitespace, if_pos rfl]⟩
  | cons c t =>
    have hc : c ≠ nul := fun h => ht (h ▸ List.mem_cons_self)
    rw [List.cons_append] at hskip ⊢
    rwa [consumeWhitespace, if_neg hc]

/-- The loop over a token that is not quoted, behind its first character. -/
theorem scanToken_text : ∃ body t', t = body ++ t' ∧ (∀ c ∈ body, ct.isspace c = false) ∧
    scanToken ct.isspace (t ++ nul :: rest) = .ok (t' ++ nul :: rest) ∧
      ∀ space text, tokensFrom (rules ct) (.word space text) t =
        (space, text ++ body) :: tokens (rules ct) t' := by
  induction t with
  | nil =>
    refine ⟨[], [], rfl, nofun, if_pos (by simp), fun space text => ?_⟩
    rw [List.append_nil]
    rfl
  | cons c t ih =>
    have hc : c ≠ nul := fun h => ht (h ▸ List.mem_cons_self)
    rw [List.cons_append, scanToken]
    by_cases hbreak : (rules ct).breaks c = true
    · have hfront : Front (rules ct) (c :: t) := front_cons.mpr hbreak
      refine ⟨[], c :: t, rfl, nofun, ?_, fun space text => ?_⟩
      · rw [rules_breaks] at hbreak
        rw [if_pos (by rcases hbreak with h | h | h <;> simp [h])]
        rfl
      · rw [List.append_nil, tokensFrom_word hfront]
    · obtain ⟨body, t', rfl, hbody, hscan, htokens⟩ := ih fun h => ht (List.mem_cons_of_mem c h)
      have hplain := hbreak
      simp only [rules_breaks, not_or, Bool.not_eq_true] at hplain
      obtain ⟨hspace, hsemi, hcomma⟩ := hplain
      refine ⟨c :: body, t', rfl, List.forall_mem_cons.mpr ⟨hspace, hbody⟩, ?_, fun space text => ?_⟩
      · rw [if_neg (by simp [hspace, hsemi, hcomma, hc]), hscan]
      · rw [tokensFrom_word_next hbreak, htokens, List.append_assoc, List.singleton_append]

/-- The loop over a literal. -/
theorem findEndLoop_text (quote prev : FxmyChar) : ∃ body t', t = body ++ t' ∧
    findEndLoop quote prev (t ++ nul :: rest) = .ok (t' ++ nul :: rest) ∧
      ∀ space text, tokensFrom (rules ct) (.literal space text quote prev) t =
        (space, text ++ body) :: tokens (rules ct) t' := by
  induction t generalizing prev with
  | nil =>
    refine ⟨[], [], rfl, if_pos rfl, fun space text => ?_⟩
    rw [List.append_nil]
    rfl
  | cons c t ih =>
    have hc : c ≠ nul := fun h => ht (h ▸ List.mem_cons_self)
    rw [List.cons_append, findEndLoop, if_neg hc]
    by_cases hend : c = quote ∧ prev ≠ C '\\'
    · exact ⟨[c], t, rfl, if_pos hend, fun space text => tokensFrom_literal_close hend⟩
    · obtain ⟨body, t', rfl, hfind, htokens⟩ := ih (fun h => ht (List.mem_cons_of_mem c h)) c
      refine ⟨c :: body, t', rfl, by rw [if_neg hend, hfind], fun space text => ?_⟩
      rw [tokensFrom_literal_next hend, htokens, List.append_assoc, List.singleton_append]

end Loops

/-! ## One call -/

/-- The token is a literal: it starts with a quote. -/
def Token.Quoted (t : Token) : Prop := ∃ c ∈ t.text.head?, c = C '\'' ∨ c = C '"'

variable (ct) in
/-- What one call makes of a terminated text: nothing of white space, and of any other text its
first word. -/
theorem fnextToken_text {t : List FxmyChar} (ht : nul ∉ t) (rest : List FxmyChar) :
    (∀ c ∈ t, ct.isspace c = true) ∧ tokens (rules ct) t = [] ∧
        fnextToken ct (some (t ++ nul :: rest)) = .ok (none, none) ∨
      ∃ (tok : Token) (t' : List FxmyChar), t = tok.span ++ t' ∧
        tokens (rules ct) t = (tok.gap, tok.text) :: tokens (rules ct) t' ∧
        (¬ tok.Quoted → ∀ c ∈ tok.text, ct.isspace c = false) ∧
        fnextToken ct (some (t ++ nul :: rest)) =
          .ok (some (tok.text ++ (t' ++ nul :: rest)), some (t' ++ nul :: rest)) := by
  obtain ⟨space, front, rfl, hspace, hhead, hskip⟩ := consumeWhitespace_text ct ht rest
  obtain ⟨comment, hcomment⟩ := consumeComment_total (p := front ++ nul :: rest) (by simp)
  have htokens : tokens (rules ct) (space ++ front) = tokensFrom (rules ct) (.gap space) front :=
    tokensFrom_space hspace []
  unfold fnextToken nextToken
  simp only [hskip, hcomment, Exec.except_bind_ok]
  cases front with
  | nil =>
    refine .inl ⟨by simpa using hspace, htokens, ?_⟩
    rw [List.nil_append]
    exact if_pos rfl
  | cons c front =>
    right
    have hc : c ≠ nul := fun h => ht (h ▸ List.mem_append_right _ List.mem_cons_self)
    have hfront : nul ∉ front := fun h => ht (List.mem_append_right _ (List.mem_cons_of_mem c h))
    have hnot : ct.isspace c = false := hhead c rfl
    simp only [List.cons_append, if_neg hc]
    by_cases hquote : c = C '\'' ∨ c = C '"'
    · obtain ⟨body, t', rfl, hfind, hliteral⟩ := findEndLoop_text ct hfront rest c c
      refine ⟨⟨space, c :: body⟩, t', by simp [Token.span], ?_, ?_, ?_⟩
      · rw [htokens, tokensFrom_start_literal hnot (decide_eq_true hquote), hliteral]
        rfl
      · exact fun h => absurd ⟨c, rfl, hquote⟩ h
      · rw [if_pos hquote, findEndOfString, hfind, Exec.except_bind_ok]
        simp
    · obtain ⟨body, t', rfl, hbody, hscan, hword⟩ := scanToken_text ct hfront rest
      refine ⟨⟨space, c :: body⟩, t', by simp [Token.span], ?_, ?_, ?_⟩
      · rw [htokens, tokensFrom_start_word hnot (decide_eq_false hquote), hword]
        rfl
      · exact fun _ => List.forall_mem_cons.mpr ⟨hnot, hbody⟩
      · rw [if_neg hquote, hscan, Exec.except_bind_ok]
        simp

/-! ## The whole text -/

/-- Calls of `fxmy_fnext_token`, each from the end of the token before, make these tokens of the
text, and then return NULL. -/
def Tokenizes (ct : Ctype FxmyChar) (p : List FxmyChar) (ts : List Token) : Prop :=
  ∃ r, Yields ct p ts r ∧ fnextToken ct (some r) = .ok (none, none)

theorem Tokenizes.nul_mem {p : List FxmyChar} {ts : List Token} (h : Tokenizes ct p ts) :
    nul ∈ p := by
  obtain ⟨r, hyields, hend⟩ := h
  rw [hyields.eq_append]
  rcases fnextToken_eq_ok hend with ⟨-, -, hmem⟩ | ⟨t, q, -, -, hstart, -⟩
  · exact List.mem_append_right _ hmem
  · cases hstart

theorem Yields.eq_nil {p q : List FxmyChar} {ts : List Token}
    (hend : fnextToken ct (some p) = .ok (none, none)) (h : Yields ct p ts q) : ts = [] := by
  cases ts with
  | nil => rfl
  | cons t ts =>
    obtain ⟨r, -, hnext, -⟩ := Yields.cons_iff.mp h
    rw [hend] at hnext
    cases hnext

theorem Tokenizes.eq_append {p q : List FxmyChar} {ts us : List Token} (h : Tokenizes ct p us)
    (h' : Yields ct p ts q) : ∃ vs, us = ts ++ vs ∧ Tokenizes ct q vs := by
  obtain ⟨r, hyields, hend⟩ := h
  have hle : ts.length ≤ us.length := by
    refine Nat.le_of_not_lt fun hlt => ?_
    obtain ⟨vs, rfl⟩ := hyields.prefix_of_length_le h' (Nat.le_of_lt hlt)
    obtain ⟨q', hus, hvs⟩ := Yields.append_iff.mp h'
    obtain ⟨-, rfl⟩ := hyields.eq_of_length_eq hus rfl
    rw [hvs.eq_nil hend] at hlt
    simp at hlt
  obtain ⟨vs, rfl⟩ := h'.prefix_of_length_le hyields hle
  obtain ⟨q', hts, hvs⟩ := Yields.append_iff.mp hyields
  obtain ⟨-, rfl⟩ := h'.eq_of_length_eq hts rfl
  exact ⟨vs, rfl, r, hvs, hend⟩

theorem Tokenizes.unique {p : List FxmyChar} {ts us : List Token} (h : Tokenizes ct p ts)
    (h' : Tokenizes ct p us) : ts = us := by
  obtain ⟨r, hyields, hend⟩ := h
  obtain ⟨vs, rfl, r', hvs, -⟩ := h'.eq_append hyields
  rw [hvs.eq_nil hend, List.append_nil]

/-- A word of the text as a token. -/
def Token.ofWord (w : List FxmyChar × List FxmyChar) : Token := ⟨w.1, w.2⟩

variable (ct) in
/-- The calls come to NULL on every terminated text, by induction on its length. -/
theorem yields_tokens {t : List FxmyChar} (ht : nul ∉ t) (rest : List FxmyChar) :
    ∃ trail, Yields ct (t ++ nul :: rest) ((tokens (rules ct) t).map Token.ofWord)
        (trail ++ nul :: rest) ∧
      fnextToken ct (some (trail ++ nul :: rest)) = .ok (none, none) ∧
      (∀ c ∈ trail, ct.isspace c = true) ∧
      ∀ w ∈ tokens (rules ct) t, ¬ (Token.ofWord w).Quoted → ∀ c ∈ w.2, ct.isspace c = false := by
  induction hn : t.length using Nat.strongRecOn generalizing t with
  | ind n ih =>
    rcases fnextToken_text ct ht rest with
      ⟨hspace, htokens, hnext⟩ | ⟨tok, t', rfl, htokens, hplain, hnext⟩
    · rw [htokens]
      exact ⟨t, .done _, hnext, hspace, nofun⟩
    · have hsplit : tok.span ++ t' ++ nul :: rest = tok.gap ++ (tok.text ++ (t' ++ nul :: rest)) := by
        simp [Token.span]
      rw [hsplit] at hnext ⊢
      have hpos : 0 < tok.text.length :=
        List.length_pos_iff.mpr (fnextToken_eq_some hnext).text_ne_nil
      have hshort : t'.length < n := by
        simp only [Token.span, List.length_append] at hn
        omega
      obtain ⟨trail, hyields, hend, htrail, hall⟩ :=
        ih _ hshort (fun h => ht (List.mem_append_right _ h)) rfl
      rw [htokens]
      exact ⟨trail, .token tok hnext hyields, hend, htrail, List.forall_mem_cons.mpr ⟨hplain, hall⟩⟩

/-- **A terminated text is taken apart** into tokens and white space. -/
theorem tokenizes (ct : Ctype FxmyChar) {text : List FxmyChar} (ht : nul ∉ text)
    (rest : List FxmyChar) :
    ∃ ts trail, Yields ct (text ++ nul :: rest) ts (trail ++ nul :: rest) ∧
      fnextToken ct (some (trail ++ nul :: rest)) = .ok (none, none) ∧
      text = spans ts ++ trail ∧ (∀ c ∈ trail, ct.isspace c = true) ∧
      ∀ t ∈ ts, t.text ≠ [] ∧ (∀ c ∈ t.gap, ct.isspace c = true) ∧
        (¬ t.Quoted → ∀ c ∈ t.text, ct.isspace c = false) := by
  obtain ⟨trail, hyields, hend, htrail, hplain⟩ := yields_tokens ct ht rest
  refine ⟨_, trail, hyields, hend, ?_, htrail, fun t hmem => ?_⟩
  · have hwhole := hyields.eq_append
    rw [← List.append_assoc] at hwhole
    exact List.append_cancel_right hwhole
  · have htoken := hyields.isToken t hmem
    obtain ⟨w, hw, rfl⟩ := List.mem_map.mp hmem
    exact ⟨htoken.text_ne_nil, htoken.gap_space, hplain w hw⟩

theorem tokenizes_select :
    ∃ ts trail, Yields cLocale (chars "SELECT 'a b' " ++ nul :: []) ts (trail ++ nul :: []) ∧
      fnextToken cLocale (some (trail ++ nul :: [])) = .ok (none, none) ∧
      chars "SELECT 'a b' " = spans ts ++ trail ∧ (∀ c ∈ trail, cLocale.isspace c = true) ∧
      ∀ t ∈ ts, t.text ≠ [] ∧ (∀ c ∈ t.gap, cLocale.isspace c = true) ∧
        (¬ t.Quoted → ∀ c ∈ t.text, cLocale.isspace c = false) :=
  tokenizes cLocale (by decide) []

theorem tokenizes_words (ct : Ctype FxmyChar) {t : List FxmyChar} (ht : nul ∉ t)
    (rest : List FxmyChar) :
    Tokenizes ct (t ++ nul :: rest) ((tokens (rules ct) t).map Token.ofWord) := by
  obtain ⟨trail, hyields, hend, -⟩ := yields_tokens ct ht rest
  exact ⟨_, hyields, hend⟩

variable (ct) in
/-- Whatever is terminated has its tokens. -/
theorem exists_tokenizes {p : List FxmyChar} (hp : nul ∈ p) : ∃ ts, Tokenizes ct p ts := by
  obtain ⟨t, rest, rfl, ht⟩ := List.eq_append_cons_of_mem hp
  exact ⟨_, tokenizes_words ct ht rest⟩

/-- The loops over the tokens have turns enough for all of them. -/
theorem Tokenizes.length_lt {p : List FxmyChar} {ts : List Token} (h : Tokenizes ct p ts) :
    ts.length < p.length + 1 := by
  obtain ⟨r, hyields, -⟩ := h
  have := hyields.length_le
  omega

/-- A text has no more tokens than characters. -/
theorem Tokenizes.length_le {text rest : List FxmyChar} {ts : List Token}
    (h : Tokenizes ct (text ++ nul :: rest) ts) : ts.length ≤ text.length := by
  obtain ⟨r, hyields, -⟩ := h
  obtain ⟨after, -, rfl⟩ := hyields.text_eq
  have hlen := hyields.length_le
  simp only [List.length_append, List.length_cons] at hlen
  omega

/-- A token as a word of the text. -/
def Token.word (t : Token) : List FxmyChar × List FxmyChar := (t.gap, t.text)

theorem spans_eq_spans_word (ts : List Token) : spans ts = Lexing.spans (ts.map Token.word) := by
  induction ts with
  | nil => rfl
  | cons t ts ih => rw [spans_cons, ih, List.map_cons, Lexing.spans_cons, ← List.append_assoc]; rfl

theorem map_word_ofWord (ws : List (List FxmyChar × List FxmyChar)) :
    (ws.map Token.ofWord).map Token.word = ws := by
  rw [List.map_map]
  exact List.map_id ws

theorem map_ofWord_word (ts : List Token) : (ts.map Token.word).map Token.ofWord = ts := by
  rw [List.map_map]
  exact List.map_id ts

/-- Tokens that the calls have made are the first words of the text, and the others those of the
rest. -/
theorem Yields.tokens_eq {t t' rest : List FxmyChar} {ts : List Token} (ht : nul ∉ t)
    (h : Yields ct (t ++ nul :: rest) ts (t' ++ nul :: rest)) :
    t = spans ts ++ t' ∧
      tokens (rules ct) t = ts.map Token.word ++ tokens (rules ct) t' := by
  have hwhole := h.eq_append
  rw [← List.append_assoc] at hwhole
  have hsplit := List.append_cancel_right hwhole
  refine ⟨hsplit, ?_⟩
  have ht' : nul ∉ t' := fun h => ht (hsplit ▸ List.mem_append_right _ h)
  obtain ⟨vs, htokens, hvs⟩ := (tokenizes_words ct ht rest).eq_append h
  have hwords := congrArg (List.map Token.word) htokens
  rwa [hvs.unique (tokenizes_words ct ht' rest), List.map_append, map_word_ofWord,
    map_word_ofWord] at hwords

/-- The first words of a text are tokens that the calls make of it. -/
theorem yields_of_tokens {t : List FxmyChar} {ws ws' : List (List FxmyChar × List FxmyChar)}
    (ht : nul ∉ t) (h : tokens (rules ct) t = ws ++ ws') (rest : List FxmyChar) :
    ∃ t', t = Lexing.spans ws ++ t' ∧
      Yields ct (t ++ nul :: rest) (ws.map Token.ofWord) (t' ++ nul :: rest) := by
  obtain ⟨r, hyields, -⟩ := tokenizes_words ct ht rest
  rw [h, List.map_append] at hyields
  obtain ⟨q, hws, -⟩ := Yields.append_iff.mp hyields
  obtain ⟨t', hsplit, rfl⟩ := hws.text_eq
  rw [spans_eq_spans_word, map_word_ofWord] at hsplit
  exact ⟨t', hsplit, hws⟩

/-! ## Two texts -/

/-- The calls make the same tokens of both texts. -/
def SameTokens (ct : Ctype FxmyChar) (p p' : List FxmyChar) : Prop :=
  ∃ ts ts', Tokenizes ct p ts ∧ Tokenizes ct p' ts' ∧ ts.map Token.text = ts'.map Token.text

/-- **The tokens of a text are its words.** -/
theorem sameTokens_iff {t t' : List FxmyChar} (ht : nul ∉ t) (ht' : nul ∉ t')
    (rest rest' : List FxmyChar) :
    SameTokens ct (t ++ nul :: rest) (t' ++ nul :: rest') ↔
      words (rules ct) t = words (rules ct) t' := by
  have hwords : ∀ ws : List (List FxmyChar × List FxmyChar),
      (ws.map Token.ofWord).map Token.text = ws.map Prod.snd := fun ws => by
    rw [List.map_map]
    rfl
  have htokens := tokenizes_words ct ht rest
  have htokens' := tokenizes_words ct ht' rest'
  constructor
  · rintro ⟨ts, us, hts, hus, heq⟩
    rwa [hts.unique htokens, hus.unique htokens', hwords, hwords] at heq
  · intro heq
    exact ⟨_, _, htokens, htokens', by rw [hwords, hwords]; exact heq⟩

/-- Texts with the same tokens differ in white space only. -/
theorem SameTokens.filter_eq {t t' rest rest' : List FxmyChar} (ht : nul ∉ t) (ht' : nul ∉ t')
    (h : SameTokens ct (t ++ nul :: rest) (t' ++ nul :: rest')) :
    t.filter (fun c => !ct.isspace c) = t'.filter fun c => !ct.isspace c := by
  have heq := (sameTokens_iff ht ht' rest rest').mp h
  exact (filter_words t).symm.trans ((congrArg (fun ws => (List.flatten ws).filter _) heq).trans
    (filter_words t'))

/-! ## Comments -/

/-- **A comment is not skipped**, wherever it stands: its dashes are in a token. -/
theorem comment_not_skipped (ct : Ctype FxmyChar) {lead comment u : List FxmyChar}
    (hlead : ∀ c ∈ lead, ct.isspace c = true) (hcomment : nul ∉ comment) (hu : nul ∉ u)
    (rest rest' : List FxmyChar) :
    ¬ SameTokens ct (lead ++ (chars "--" ++ (comment ++ C '\n' :: u)) ++ nul :: rest)
      (u ++ nul :: rest') := by
  intro h
  have hnul : nul ∉ lead ++ (chars "--" ++ (comment ++ C '\n' :: u)) := by
    have hlead' : nul ∉ lead := nul_not_mem_space hlead
    have hdashes : (nul : FxmyChar) ∉ chars "--" := by decide
    have hnewline : (nul : FxmyChar) ≠ C '\n' := by decide
    simp [hlead', hdashes, hnewline, hcomment, hu]
  have hdash : ct.isspace (C '-') = false := ct.isspace_ascii '-' (by decide)
  have hdashes : (chars "--").filter (fun c => !ct.isspace c) = chars "--" := by
    simp [chars, hdash]
  have hlen := congrArg List.length (h.filter_eq hnul hu)
  simp only [List.filter_append, List.length_append, hdashes, List.filter_cons] at hlen
  split at hlen
  · simp [chars] at hlen
    omega
  · simp [chars] at hlen
    omega

theorem comment_returned : ¬ ∀ (ct : Ctype FxmyChar) (lead comment u rest : List FxmyChar),
    (∀ c ∈ lead, ct.isspace c = true) → nul ∉ comment → C '\n' ∉ comment → nul ∉ u →
      SameTokens ct (lead ++ (chars "--" ++ (comment ++ C '\n' :: u)) ++ nul :: rest)
        (u ++ nul :: rest) := by
  intro h
  have hsame := h cLocale [] (chars " limit") (chars "SELECT") [] nofun (by decide) (by decide)
    (by decide)
  rw [sameTokens_iff (by decide) (by decide)] at hsame
  exact absurd hsame (by decide)

theorem comment_not_skipped_limit :
    ¬ SameTokens cLocale
      (chars " " ++ (chars "--" ++ (chars " limit" ++ C '\n' :: chars "SELECT")) ++ nul :: [])
      (chars "SELECT" ++ nul :: []) :=
  comment_not_skipped cLocale (List.all_iff_forall_prop.mp (by decide)) (by decide) (by decide) [] []

end Fxmy
