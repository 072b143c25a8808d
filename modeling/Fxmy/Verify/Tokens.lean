import Fxmy.String
import Fxmy.Lib.Exec

/-!
# Tokens

`fxmy_fnext_token` splits what it is given into white space, a token and what stands behind it
(`fnextToken_eq_ok`), and on a terminated text it always returns (`fnextToken_total`). `Yields`
is what repeated calls make of a text: its tokens, each with the white space before it. A token
passes for a keyword if it is a prefix of it in any case (`fstrnicmp_token`).
-/

namespace Fxmy

variable {ct : Ctype FxmyChar}

/-- A token, with the white space before it. -/
structure Token where
  gap : List FxmyChar
  text : List FxmyChar

/-- What a token takes up of the text. -/
def Token.span (t : Token) : List FxmyChar := t.gap ++ t.text

/-- What tokens take up of the text. -/
def spans (ts : List Token) : List FxmyChar := ts.flatMap Token.span

@[simp] theorem spans_nil : spans [] = [] := rfl

@[simp] theorem spans_cons (t : Token) (ts : List Token) : spans (t :: ts) = t.span ++ spans ts :=
  rfl

@[simp] theorem spans_append (ts us : List Token) : spans (ts ++ us) = spans ts ++ spans us :=
  List.flatMap_append

/-- The terminator is no white space. -/
theorem nul_not_mem_space {space : List FxmyChar} (h : ∀ c ∈ space, ct.isspace c = true) :
    nul ∉ space := by
  intro hmem
  have hnul := h nul hmem
  rw [ct.isspace_nul] at hnul
  cases hnul

/-- What holds of every token the program finds. -/
structure IsToken (ct : Ctype FxmyChar) (t : Token) : Prop where
  gap_space : ∀ c ∈ t.gap, ct.isspace c = true
  text_ne_nil : t.text ≠ []
  nul_not_mem : nul ∉ t.text

theorem IsToken.nul_not_mem_span {t : Token} (h : IsToken ct t) : nul ∉ t.span := by
  intro hmem
  rcases List.mem_append.mp hmem with hmem | hmem
  · exact nul_not_mem_space h.gap_space hmem
  · exact h.nul_not_mem hmem

/-! ## The loops -/

section Loops

variable {isspace : FxmyChar → Bool} {p q : List FxmyChar}

theorem skipSpace_eq_ok (h : skipSpace isspace p = .ok q) :
    ∃ gap, p = gap ++ q ∧ ∀ c ∈ gap, isspace c = true := by
  induction p with
  | nil => cases h
  | cons c p ih =>
    unfold skipSpace at h
    split at h
    · next hc =>
      obtain ⟨gap, rfl, hgap⟩ := ih h
      exact ⟨c :: gap, rfl, List.forall_mem_cons.mpr ⟨hc, hgap⟩⟩
    · cases h
      exact ⟨[], rfl, by simp⟩

theorem consumeWhitespace_eq_ok (h : consumeWhitespace isspace p = .ok q) :
    ∃ gap, p = gap ++ q ∧ ∀ c ∈ gap, isspace c = true := by
  cases p with
  | nil => cases h
  | cons c p =>
    rw [consumeWhitespace] at h
    split at h
    · cases h
      exact ⟨[], rfl, by simp⟩
    · exact skipSpace_eq_ok h

theorem findEndLoop_eq_ok {quote prev : FxmyChar} (h : findEndLoop quote prev p = .ok q) :
    ∃ body, p = body ++ q ∧ nul ∉ body := by
  induction p generalizing prev with
  | nil => cases h
  | cons c p ih =>
    unfold findEndLoop at h
    split at h
    · cases h
      exact ⟨[], rfl, by simp⟩
    · next hc =>
      split at h
      · cases h
        exact ⟨[c], rfl, by simpa [eq_comm] using hc⟩
      · obtain ⟨body, rfl, hbody⟩ := ih h
        exact ⟨c :: body, rfl, by simpa [hbody, eq_comm] using hc⟩

theorem scanToken_eq_ok (h : scanToken isspace p = .ok q) :
    ∃ body, p = body ++ q ∧ nul ∉ body := by
  induction p with
  | nil => cases h
  | cons c p ih =>
    unfold scanToken at h
    split at h
    · cases h
      exact ⟨[], rfl, by simp⟩
    · next hc =>
      obtain ⟨body, rfl, hbody⟩ := ih h
      refine ⟨c :: body, rfl, ?_⟩
      simp only [not_or] at hc
      simpa [hbody, eq_comm] using hc.2.2.2

variable (hspace : isspace nul = false)
include hspace

theorem skipSpace_total (hp : nul ∈ p) : ∃ q, skipSpace isspace p = .ok q ∧ nul ∈ q := by
  induction p with
  | nil => cases hp
  | cons c p ih =>
    unfold skipSpace
    split
    · next hc =>
      have hne : nul ≠ c := fun h => by rw [← h, hspace] at hc; cases hc
      exact ih ((List.mem_cons.mp hp).resolve_left hne)
    · exact ⟨_, rfl, hp⟩

theorem consumeWhitespace_total (hp : nul ∈ p) :
    ∃ q, consumeWhitespace isspace p = .ok q ∧ nul ∈ q := by
  cases p with
  | nil => cases hp
  | cons c p =>
    rw [consumeWhitespace]
    split
    · exact ⟨_, rfl, hp⟩
    · exact skipSpace_total hspace hp

omit hspace

theorem findEndLoop_total {quote : FxmyChar} (hp : nul ∈ p) :
    ∀ prev, ∃ q, findEndLoop quote prev p = .ok q := by
  induction p with
  | nil => cases hp
  | cons c p ih =>
    intro prev
    unfold findEndLoop
    split
    · exact ⟨_, rfl⟩
    · next hc =>
      split
      · exact ⟨_, rfl⟩
      · exact ih ((List.mem_cons.mp hp).resolve_left (Ne.symm hc)) c

theorem scanToken_total (hp : nul ∈ p) : ∃ q, scanToken isspace p = .ok q := by
  induction p with
  | nil => cases hp
  | cons c p ih =>
    unfold scanToken
    split
    · exact ⟨_, rfl⟩
    · next hc =>
      simp only [not_or] at hc
      exact ih ((List.mem_cons.mp hp).resolve_left (Ne.symm hc.2.2.2))

theorem skipComment_total (hp : nul ∈ p) : ∃ q, skipComment p = .ok q := by
  induction p with
  | nil => cases hp
  | cons c p ih =>
    unfold skipComment
    split
    · exact ⟨_, rfl⟩
    · next hc =>
      simp only [not_or] at hc
      exact ih ((List.mem_cons.mp hp).resolve_left (Ne.symm hc.1))

/-- The look at the second character of a comment stays before the terminator. -/
theorem consumeComment_total (hp : nul ∈ p) : ∃ q, consumeComment p = .ok q := by
  rcases p with _ | ⟨c, _ | ⟨d, p⟩⟩
  · cases hp
  · have hc : c ≠ C '-' := by
      rw [← List.mem_singleton.mp hp]
      exact C_ne (by decide) (by decide) (by decide)
    exact ⟨[c], if_neg hc⟩
  · obtain ⟨q, hq⟩ := skipComment_total hp
    by_cases hc : c = C '-'
    · by_cases hd : d = C '-'
      · exact ⟨q, by simp only [consumeComment, hc, hd, if_true, ← hq]⟩
      · exact ⟨c :: d :: p, by simp only [consumeComment, hc, hd, if_true, if_false]⟩
    · exact ⟨c :: d :: p, if_neg hc⟩

end Loops

/-! ## One token -/

/-- There is no token up to a terminator, or one behind white space, with what is left behind it. -/
theorem fnextToken_eq_ok {p : List FxmyChar} {start stop : Option (List FxmyChar)}
    (h : fnextToken ct (some p) = .ok (start, stop)) :
    start = none ∧ stop = none ∧ nul ∈ p ∨ ∃ (t : Token) (q : List FxmyChar), IsToken ct t ∧
      p = t.gap ++ (t.text ++ q) ∧ start = some (t.text ++ q) ∧ stop = some q := by
  unfold fnextToken nextToken at h
  obtain ⟨comment, -, h₁⟩ := Exec.except_bind_eq_ok.mp h
  obtain ⟨-, -, h₂⟩ := Exec.except_bind_eq_ok.mp h₁
  obtain ⟨front, hfront, h₃⟩ := Exec.except_bind_eq_ok.mp h₂
  clear h h₁ h₂
  obtain ⟨gap, rfl, hgap⟩ := consumeWhitespace_eq_ok hfront
  cases front with
  | nil => cases h₃
  | cons c p =>
    simp only at h₃
    split at h₃
    · next hc =>
      cases h₃
      exact .inl ⟨rfl, rfl, List.mem_append_right gap (hc ▸ List.mem_cons_self)⟩
    · next hc =>
      have htoken : ∀ body, nul ∉ body → IsToken ct ⟨gap, c :: body⟩ := fun body hbody =>
        ⟨hgap, List.cons_ne_nil c body, by simpa [hbody, eq_comm] using hc⟩
      split at h₃
      · obtain ⟨left, hleft, h₄⟩ := Exec.except_bind_eq_ok.mp h₃
        cases h₄
        obtain ⟨body, rfl, hbody⟩ := findEndLoop_eq_ok hleft
        exact .inr ⟨⟨gap, c :: body⟩, left, htoken body hbody, rfl, rfl, rfl⟩
      · obtain ⟨left, hleft, h₄⟩ := Exec.except_bind_eq_ok.mp h₃
        cases h₄
        obtain ⟨body, rfl, hbody⟩ := scanToken_eq_ok hleft
        exact .inr ⟨⟨gap, c :: body⟩, left, htoken body hbody, rfl, rfl, rfl⟩

theorem fnextToken_eq_some {gap text q : List FxmyChar}
    (h : fnextToken ct (some (gap ++ (text ++ q))) = .ok (some (text ++ q), some q)) :
    IsToken ct ⟨gap, text⟩ := by
  rcases fnextToken_eq_ok h with ⟨h', -⟩ | ⟨t, q', ht, hp, hstart, hstop⟩
  · cases h'
  · cases hstop
    have htext : text = t.text := List.append_cancel_right (Option.some.inj hstart)
    subst htext
    have hgap : gap = t.gap := List.append_cancel_right hp
    subst hgap
    exact ht

/-- On a terminated text the function returns, with a token or without. -/
theorem fnextToken_total {p : List FxmyChar} (hp : nul ∈ p) :
    fnextToken ct (some p) = .ok (none, none) ∨
      ∃ start stop, fnextToken ct (some p) = .ok (some start, some stop) := by
  unfold fnextToken nextToken
  obtain ⟨comment, hcomment, hmem⟩ := consumeWhitespace_total ct.isspace_nul hp
  obtain ⟨left, hleft⟩ := consumeComment_total hmem
  simp only [hcomment, hleft, Exec.except_bind_ok]
  cases comment with
  | nil => cases hmem
  | cons c p =>
    simp only
    split
    · exact .inl rfl
    · next hc =>
      have hp' : nul ∈ p := (List.mem_cons.mp hmem).resolve_left (Ne.symm hc)
      right
      split
      · obtain ⟨stop, hstop⟩ := findEndLoop_total hp' c
        exact ⟨c :: p, stop, by rw [findEndOfString, hstop, Exec.except_bind_ok]⟩
      · obtain ⟨stop, hstop⟩ := scanToken_total hp'
        exact ⟨c :: p, stop, by rw [hstop, Exec.except_bind_ok]⟩

/-- At the terminator there is no token. -/
theorem fnextToken_nul (rest : List FxmyChar) : fnextToken ct (some (nul :: rest)) = .ok (none, none) := by
  obtain ⟨left, hleft⟩ := @consumeComment_total (nul :: rest) List.mem_cons_self
  have hspace : consumeWhitespace ct.isspace (nul :: rest) = .ok (nul :: rest) := by
    rw [consumeWhitespace, if_pos rfl]
  unfold fnextToken nextToken
  simp only [hspace, hleft, Exec.except_bind_ok, if_true]

/-! ## Tokens one after the other -/

/-- Calls of `fxmy_fnext_token`, each from the end of the token before, make these tokens of the
text and leave the rest. -/
inductive Yields (ct : Ctype FxmyChar) : List FxmyChar → List Token → List FxmyChar → Prop where
  | done (p : List FxmyChar) : Yields ct p [] p
  | token (t : Token) {q r : List FxmyChar} {ts : List Token}
      (h : fnextToken ct (some (t.gap ++ (t.text ++ q))) = .ok (some (t.text ++ q), some q))
      (rest : Yields ct q ts r) : Yields ct (t.gap ++ (t.text ++ q)) (t :: ts) r

namespace Yields

variable {p q r : List FxmyChar} {ts us : List Token} {t : Token}

theorem cons_iff : Yields ct p (t :: ts) r ↔ ∃ q, p = t.gap ++ (t.text ++ q) ∧
    fnextToken ct (some p) = .ok (some (t.text ++ q), some q) ∧ Yields ct q ts r := by
  constructor
  · intro h
    cases h with
    | token _ h rest => exact ⟨_, rfl, h, rest⟩
  · rintro ⟨q, rfl, h, rest⟩
    exact .token t h rest

theorem append_iff : Yields ct p (ts ++ us) r ↔ ∃ q, Yields ct p ts q ∧ Yields ct q us r := by
  induction ts generalizing p with
  | nil =>
    constructor
    · exact fun h => ⟨p, .done p, h⟩
    · rintro ⟨_, h, h'⟩
      cases h
      exact h'
  | cons t ts ih =>
    simp only [List.cons_append, cons_iff, ih]
    constructor
    · rintro ⟨q, hp, h, q', hts, hus⟩
      exact ⟨q', ⟨q, hp, h, hts⟩, hus⟩
    · rintro ⟨q', ⟨q, hp, h, hts⟩, hus⟩
      exact ⟨q, hp, h, q', hts, hus⟩

/-- Nothing of the text is lost between tokens. -/
theorem eq_append (h : Yields ct p ts r) : p = spans ts ++ r := by
  induction h with
  | done p => rfl
  | token t _ _ ih =>
    rw [spans_cons, Token.span, List.append_assoc, List.append_assoc]
    exact congrArg _ (congrArg _ ih)

theorem isToken (h : Yields ct p ts r) : ∀ t ∈ ts, IsToken ct t := by
  induction h with
  | done p => simp
  | token t h _ ih => exact List.forall_mem_cons.mpr ⟨fnextToken_eq_some h, ih⟩

theorem nul_not_mem_spans (h : Yields ct p ts r) : nul ∉ spans ts := by
  intro hmem
  obtain ⟨t, ht, hmem⟩ := List.mem_flatMap.mp hmem
  exact (h.isToken t ht).nul_not_mem_span hmem

/-- The tokens of a terminated text are tokens of the text. -/
theorem text_eq {text rest : List FxmyChar} (h : Yields ct (text ++ nul :: rest) ts r) :
    ∃ after, text = spans ts ++ after ∧ r = after ++ nul :: rest := by
  rcases List.append_eq_append_iff.mp h.eq_append with ⟨after, hspans, hr⟩ | ⟨after, htext, hr⟩
  · cases after with
    | nil => exact ⟨[], by simpa using hspans.symm, by simpa using hr.symm⟩
    | cons c after =>
      obtain ⟨rfl, -⟩ := List.cons.inj hr
      refine absurd ?_ h.nul_not_mem_spans
      rw [hspans]
      exact List.mem_append_right _ List.mem_cons_self
  · exact ⟨after, htext, hr⟩

/-- Every token takes up some of the text. -/
theorem length_le (h : Yields ct p ts r) : ts.length + r.length ≤ p.length := by
  induction h with
  | done p => simp
  | token t h _ ih =>
    have : 0 < t.text.length := List.length_pos_iff.mpr (fnextToken_eq_some h).text_ne_nil
    simp only [List.length_append, List.length_cons]
    omega

/-- The calls make the same tokens of the same text, as far as both go. -/
theorem prefix_of_length_le {q' : List FxmyChar} (h : Yields ct p ts q) (h' : Yields ct p us q')
    (hlen : ts.length ≤ us.length) : ts <+: us := by
  induction h generalizing us with
  | done p => exact List.nil_prefix
  | @token t q r ts hnext _ ih =>
    cases us with
    | nil => exact absurd hlen (by simp)
    | cons u us =>
      obtain ⟨s, hp, hnext', hrest⟩ := cons_iff.mp h'
      rw [hnext, Except.ok.injEq, Prod.mk.injEq, Option.some.injEq, Option.some.injEq] at hnext'
      obtain ⟨htext, rfl⟩ := hnext'
      have hgap : t.gap = u.gap := by
        rw [htext] at hp
        exact List.append_cancel_right hp
      have htu : t = u := by
        cases t
        cases u
        simp only at hgap htext
        rw [hgap, List.append_cancel_right htext]
      rw [htu, List.cons_prefix_cons]
      exact ⟨rfl, ih hrest (by simpa using hlen)⟩

theorem eq_of_length_eq {q' : List FxmyChar} (h : Yields ct p ts q) (h' : Yields ct p us q')
    (hlen : ts.length = us.length) : ts = us ∧ q = q' := by
  have hts := (h.prefix_of_length_le h' (Nat.le_of_eq hlen)).eq_of_length hlen
  subst hts
  exact ⟨rfl, List.append_cancel_left (h.eq_append.symm.trans h'.eq_append)⟩

/-- The tokens behind the first one. -/
theorem of_cons {u : Token} (hfirst : Yields ct p [t] q) (h : Yields ct p (u :: us) r) :
    u = t ∧ Yields ct q us r := by
  obtain ⟨q', hu, hus⟩ := append_iff.mp (show Yields ct p ([u] ++ us) r from h)
  obtain ⟨heq, rfl⟩ := hfirst.eq_of_length_eq hu rfl
  exact ⟨(List.singleton_inj.mp heq).symm, hus⟩

end Yields

/-- A list is split at its first element with `P` in one way. -/
theorem first_unique {α : Type} {P : α → Prop} {pre pre' post post' : List α} {x x' : α}
    (h : pre ++ x :: post = pre' ++ x' :: post') (hx : P x) (hx' : P x')
    (hpre : ∀ y ∈ pre, ¬ P y) (hpre' : ∀ y ∈ pre', ¬ P y) : pre = pre' ∧ x = x' ∧ post = post' := by
  induction pre generalizing pre' with
  | nil =>
    cases pre' with
    | nil =>
      obtain ⟨rfl, rfl⟩ := List.cons.inj h
      exact ⟨rfl, rfl, rfl⟩
    | cons y pre' =>
      obtain ⟨rfl, -⟩ := List.cons.inj h
      exact absurd hx (hpre' x List.mem_cons_self)
  | cons y pre ih =>
    cases pre' with
    | nil =>
      obtain ⟨rfl, -⟩ := List.cons.inj h
      exact absurd hx' (hpre y List.mem_cons_self)
    | cons y' pre' =>
      obtain ⟨rfl, htail⟩ := List.cons.inj h
      obtain ⟨rfl, rfl, rfl⟩ := ih htail (fun z hz => hpre z (List.mem_cons_of_mem y hz))
        (fun z hz => hpre' z (List.mem_cons_of_mem y hz))
      exact ⟨rfl, rfl, rfl⟩

/-- The first token with `P` is the same wherever the calls are broken off behind it. -/
theorem Yields.first_eq {p q q' : List FxmyChar} {P : Token → Prop} {ts us : List Token}
    {t u : Token} (h : Yields ct p (ts ++ [t]) q) (h' : Yields ct p (us ++ [u]) q') (ht : P t)
    (hu : P u) (hts : ∀ x ∈ ts, ¬ P x) (hus : ∀ x ∈ us, ¬ P x) : ts = us ∧ t = u ∧ q = q' := by
  have hsplit : ∃ post post', ts ++ t :: post = us ++ u :: post' := by
    rcases Nat.le_total (ts ++ [t]).length (us ++ [u]).length with hlen | hlen
    · obtain ⟨post, heq⟩ := h.prefix_of_length_le h' hlen
      exact ⟨post, [], by simpa using heq⟩
    · obtain ⟨post, heq⟩ := h'.prefix_of_length_le h hlen
      exact ⟨[], post, by simpa using heq.symm⟩
  obtain ⟨post, post', heq⟩ := hsplit
  obtain ⟨rfl, rfl, -⟩ := first_unique heq ht hu hts hus
  exact ⟨rfl, rfl, (h.eq_of_length_eq h' rfl).2⟩

/-! ## Keywords -/

/-- The token is a prefix of the keyword, in any case. -/
def Token.Abbreviates (ct : Ctype FxmyChar) (t : Token) (keyword : String) : Prop :=
  t.text.map ct.lower <+: (chars keyword).map ct.lower

/-- The token is the keyword, in any case. -/
def Token.Is (ct : Ctype FxmyChar) (t : Token) (keyword : String) : Prop :=
  t.text.map ct.lower = (chars keyword).map ct.lower

theorem Token.Is.abbreviates {t : Token} {keyword : String} (h : t.Is ct keyword) :
    t.Abbreviates ct keyword := by
  unfold Token.Abbreviates
  exact h ▸ List.prefix_refl _

theorem Token.Is.length {t : Token} {keyword : String} (h : t.Is ct keyword) :
    t.text.length = keyword.toList.length := by
  have := congrArg List.length h
  rwa [List.length_map, List.length_map, chars, List.length_map] at this

/-- Different characters give an order other than 0. -/
theorem order_ne_zero {a b : FxmyChar} (h : a ≠ b) : (a.toNat : Int) - b.toNat ≠ 0 := by
  intro heq
  exact h (UInt16.toNat_inj.mp (by omega))

/-- The comparison over the length of the first text, which is shorter than its block. -/
theorem fstrnicmpLoop_prefix {text : List FxmyChar} (htext : nul ∉ text)
    (keyword q : List FxmyChar) : ∃ n, fstrnicmpLoop ct (text ++ q) (keyword ++ [nul]) text.length = .ok n ∧
      (n = 0 ↔ text.map ct.lower <+: keyword.map ct.lower) := by
  induction text generalizing keyword with
  | nil =>
    refine ⟨0, ?_, by simp⟩
    cases keyword <;> cases q <;> rfl
  | cons c text ih =>
    have hc : c ≠ nul := fun h => htext (h ▸ List.mem_cons_self)
    have hlow : ct.lower nul = nul := (ct.lower_eq_nul nul).mpr rfl
    have hne : ct.lower c ≠ ct.lower nul := by
      rw [hlow]
      exact fun h => hc ((ct.lower_eq_nul c).mp h)
    cases keyword with
    | nil =>
      refine ⟨(ct.lower c).toNat - (ct.lower nul).toNat, ?_, ?_⟩
      · simp [fstrnicmpLoop, hne]
      · exact iff_of_false (order_ne_zero hne) (by simp)
    | cons k keyword =>
      by_cases heq : ct.lower c = ct.lower k
      · obtain ⟨n, hn, hiff⟩ := ih (fun h => htext (List.mem_cons_of_mem c h)) keyword
        refine ⟨n, ?_, ?_⟩
        · simp only [List.cons_append, List.length_cons, fstrnicmpLoop, heq, ne_eq, not_true_eq_false,
            if_false]
          exact hn
        · rw [hiff, List.map_cons, List.map_cons, List.cons_prefix_cons]
          exact ⟨fun h => ⟨heq, h⟩, fun h => h.2⟩
      · refine ⟨(ct.lower c).toNat - (ct.lower k).toNat, ?_, ?_⟩
        · simp [fstrnicmpLoop, heq]
        · apply iff_of_false (order_ne_zero heq)
          rw [List.map_cons, List.map_cons, List.cons_prefix_cons]
          exact fun h => heq h.1

/-- **What `fxmy_fstrnicmp` finds of a token**: whether it abbreviates the keyword. -/
theorem fstrnicmp_token {t : Token} (ht : IsToken ct t) (q : List FxmyChar) (keyword : String) :
    ∃ n, fstrnicmp ct (some (t.text ++ q)) (cstring keyword) t.text.length = .ok n ∧
      (n = 0 ↔ t.Abbreviates ct keyword) := by
  obtain ⟨n, hn, hiff⟩ := fstrnicmpLoop_prefix ht.nul_not_mem (chars keyword) q
  refine ⟨n, ?_, hiff⟩
  obtain ⟨k, hk⟩ := Nat.exists_eq_add_one.mpr (List.length_pos_iff.mpr ht.text_ne_nil)
  rw [hk] at hn ⊢
  exact hn

/-- The token between two pointers that `fxmy_fnext_token` has returned. -/
def tokenText (start stop : List FxmyChar) : List FxmyChar :=
  start.take (start.length - stop.length)

/-- **When the keyword test tells a token from a keyword**: unless the token is a proper prefix of it,
in any case. -/
theorem keyword_test_iff {query start stop : List FxmyChar}
    (h : fnextToken ct (some query) = .ok (some start, some stop)) (keyword : String) :
    (∃ n, fstrnicmp ct (some start) (cstring keyword) (start.length - stop.length) = .ok n ∧
        (n = 0 ↔ (tokenText start stop).map ct.lower = (chars keyword).map ct.lower)) ↔
      ¬ ((tokenText start stop).map ct.lower <+: (chars keyword).map ct.lower ∧
        (tokenText start stop).length < keyword.length) := by
  rcases fnextToken_eq_ok h with ⟨hnone, -⟩ | ⟨t, q, ht, -, hstart, hstop⟩
  · cases hnone
  cases hstart
  cases hstop
  have hlen : (t.text ++ stop).length - stop.length = t.text.length := by simp
  have htext : tokenText (t.text ++ stop) stop = t.text := by simp [tokenText]
  have hkeyword : ((chars keyword).map ct.lower).length = keyword.length := by
    rw [List.length_map, chars, List.length_map, String.length_toList]
  obtain ⟨n, hn, hiff⟩ := fstrnicmp_token ht stop keyword
  rw [hlen, htext]
  constructor
  · rintro ⟨m, hm, hequal⟩ ⟨hpre, hshort⟩
    rw [hn, Except.ok.injEq] at hm
    subst hm
    have heq := congrArg List.length (hequal.mp (hiff.mpr hpre))
    rw [hkeyword, List.length_map] at heq
    omega
  · intro hlong
    refine ⟨n, hn, hiff.trans ⟨fun hpre => hpre.eq_of_length_le ?_, Token.Is.abbreviates⟩⟩
    rw [hkeyword, List.length_map]
    exact Nat.le_of_not_lt fun hshort => hlong ⟨hpre, hshort⟩

/-- The name `l` passes for LIMIT. -/
theorem l_passes_for_limit : ¬ ∀ (ct : Ctype FxmyChar) (query start stop : List FxmyChar),
    fnextToken ct (some query) = .ok (some start, some stop) →
      ∀ keyword ∈ ["SELECT", "LIMIT", "LIKE"],
        ∃ n, fstrnicmp ct (some start) (cstring keyword) (start.length - stop.length) = .ok n ∧
          (n = 0 ↔ (tokenText start stop).map ct.lower = (chars keyword).map ct.lower) := by
  intro h
  obtain ⟨n, hn, hiff⟩ := h cLocale (chars "l FROM t" ++ [nul]) (chars "l FROM t" ++ [nul])
    (chars " FROM t" ++ [nul]) rfl "LIMIT" (by decide)
  cases hn
  exact absurd (hiff.mp rfl) (by decide)

theorem keyword_test_limit :
    (∃ n, fstrnicmp cLocale (some (chars "limit 5" ++ [nul])) (cstring "LIMIT")
          ((chars "limit 5" ++ [nul] : List FxmyChar).length -
            (chars " 5" ++ [nul] : List FxmyChar).length) = .ok n ∧
        (n = 0 ↔ (tokenText (chars "limit 5" ++ [nul]) (chars " 5" ++ [nul])).map cLocale.lower =
          (chars "LIMIT").map cLocale.lower)) ↔
      ¬ ((tokenText (chars "limit 5" ++ [nul]) (chars " 5" ++ [nul])).map cLocale.lower <+:
          (chars "LIMIT").map cLocale.lower ∧
        (tokenText (chars "limit 5" ++ [nul]) (chars " 5" ++ [nul])).length < "LIMIT".length) :=
  @keyword_test_iff cLocale (chars " limit 5" ++ [nul]) _ _ rfl "LIMIT"

end Fxmy
