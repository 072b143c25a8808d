import Fxmy.String
import Fxmy.Lib.Exec

/-!
# Narrow and wide strings

The string functions are there twice, over `char` and over `wchar_t`. A map from one character type
into the other that keeps the constants, case and white space carries what they do over
(`CtypeMap.nextToken_eq`, `CtypeMap.stristr_eq`). On ASCII text there is one, in whatever locales the
two run, so the copies agree (`narrow_agrees`).
-/

namespace Fxmy

open Exec

variable {α β : Type} [CodeUnit α] [CodeUnit β]

/-- A map of the characters of `Plain` into another type, which keeps what the string functions ask
of them. -/
structure CtypeMap (ct : Ctype α) (ct' : Ctype β) where
  widen : α → β
  Plain : α → Prop
  inj : ∀ {a b : α}, Plain a → Plain b → widen a = widen b → a = b
  plain : ∀ c : Char, c.toNat < 128 → Plain (C c)
  const : ∀ c : Char, c.toNat < 128 → widen (C c) = C c
  plain_lower : ∀ {a : α}, Plain a → Plain (ct.lower a)
  lower : ∀ {a : α}, Plain a → widen (ct.lower a) = ct'.lower (widen a)
  isspace : ∀ {a : α}, Plain a → ct'.isspace (widen a) = ct.isspace a

namespace CtypeMap

variable {ct : Ctype α} {ct' : Ctype β} (f : CtypeMap ct ct')

/-- A text of plain characters. -/
def PlainText (text : List α) : Prop := ∀ c ∈ text, f.Plain c

/-- The text in the other type. -/
abbrev text (text : List α) : List β := text.map f.widen

variable {f}

theorem widen_eq_iff {a b : α} (ha : f.Plain a) (hb : f.Plain b) :
    f.widen a = f.widen b ↔ a = b := ⟨f.inj ha hb, congrArg f.widen⟩

/-- A plain character is compared with a constant as before. -/
theorem widen_eq_C {a : α} (ha : f.Plain a) {c : Char} (hc : c.toNat < 128) :
    f.widen a = C c ↔ a = C c := by
  rw [← f.const c hc]
  exact widen_eq_iff ha (f.plain c hc)

theorem widen_eq_nul {a : α} (ha : f.Plain a) : f.widen a = nul ↔ a = nul :=
  widen_eq_C ha (by decide)

theorem lower_eq_iff {a b : α} (ha : f.Plain a) (hb : f.Plain b) :
    ct'.lower (f.widen a) = ct'.lower (f.widen b) ↔ ct.lower a = ct.lower b := by
  rw [← f.lower ha, ← f.lower hb]
  exact widen_eq_iff (f.plain_lower ha) (f.plain_lower hb)

theorem skipSpace_eq {p : List α} (hp : f.PlainText p) :
    skipSpace ct'.isspace (f.text p) = f.text <$> skipSpace ct.isspace p := by
  induction p with
  | nil => rfl
  | cons c p ih =>
    obtain ⟨hc, hp⟩ := List.forall_mem_cons.mp hp
    rw [text, List.map_cons, skipSpace, skipSpace, f.isspace hc]
    cases ct.isspace c with
    | true => exact ih hp
    | false => rfl

/-- What stands behind white space is plain. -/
theorem skipSpace_plain {p q : List α} (hp : f.PlainText p) (h : skipSpace ct.isspace p = .ok q) :
    f.PlainText q := by
  induction p with
  | nil => cases h
  | cons c p ih =>
    rw [skipSpace] at h
    cases hc : ct.isspace c with
    | true =>
      rw [hc, if_pos rfl] at h
      exact ih (List.forall_mem_cons.mp hp).2 h
    | false =>
      rw [hc, if_neg Bool.false_ne_true] at h
      cases h
      exact hp

variable [DecidableEq α] [DecidableEq β]

/-! ## Searching -/

theorem matchHere_eq {haystack needle : List α} (hh : f.PlainText haystack)
    (hn : f.PlainText needle) :
    matchHere ct'.lower (f.text haystack) (f.text needle) = matchHere ct.lower haystack needle := by
  induction haystack generalizing needle with
  | nil => cases needle <;> rfl
  | cons a haystack ih =>
    cases needle with
    | nil => rfl
    | cons b needle =>
      obtain ⟨ha, hh⟩ := List.forall_mem_cons.mp hh
      obtain ⟨hb, hn⟩ := List.forall_mem_cons.mp hn
      simp only [text, List.map_cons, matchHere, lower_eq_iff ha hb, widen_eq_nul ha,
        widen_eq_nul hb]
      rw [← ih hh hn]

theorem stristrLoop_eq {haystack needle : List α} (hh : f.PlainText haystack)
    (hn : f.PlainText needle) : stristrLoop ct'.lower (f.text needle) (f.text haystack) =
      Option.map f.text <$> stristrLoop ct.lower needle haystack := by
  induction haystack with
  | nil => rfl
  | cons a haystack ih =>
    obtain ⟨ha, hrest⟩ := List.forall_mem_cons.mp hh
    have hhere := matchHere_eq hh hn
    simp only [text, List.map_cons] at hhere ⊢
    rw [stristrLoop, stristrLoop, hhere]
    cases matchHere ct.lower (a :: haystack) needle with
    | error e => rfl
    | ok found =>
      cases found with
      | true => rfl
      | false =>
        simp only [except_bind_ok, Bool.false_eq_true, if_false, widen_eq_nul ha]
        by_cases hnul : a = nul
        · rw [if_pos hnul, if_pos hnul]
          rfl
        · rw [if_neg hnul, if_neg hnul, ih hrest]

/-- A search finds the same place. -/
theorem stristr_eq {haystack needle : Option (List α)} (hh : ∀ h ∈ haystack, f.PlainText h)
    (hn : ∀ n ∈ needle, f.PlainText n) :
    stristr ct'.lower (haystack.map f.text) (needle.map f.text) =
      Option.map f.text <$> stristr ct.lower haystack needle := by
  cases haystack with
  | none => rfl
  | some haystack =>
    cases needle with
    | none => rfl
    | some needle => exact stristrLoop_eq (hh haystack rfl) (hn needle rfl)

/-! ## Tokens -/

theorem consumeWhitespace_eq {p : List α} (hp : f.PlainText p) :
    consumeWhitespace ct'.isspace (f.text p) = f.text <$> consumeWhitespace ct.isspace p := by
  cases p with
  | nil => rfl
  | cons c p =>
    have hskip := skipSpace_eq hp
    have hc := (List.forall_mem_cons.mp hp).1
    rw [text, List.map_cons] at hskip ⊢
    simp only [consumeWhitespace, widen_eq_nul hc]
    by_cases hnul : c = nul
    · rw [if_pos hnul, if_pos hnul]
      rfl
    · rw [if_neg hnul, if_neg hnul, hskip]

omit [DecidableEq β] in
theorem consumeWhitespace_plain {p q : List α} (hp : f.PlainText p)
    (h : consumeWhitespace ct.isspace p = .ok q) : f.PlainText q := by
  cases p with
  | nil => cases h
  | cons c p =>
    rw [consumeWhitespace] at h
    split at h
    · cases h
      exact hp
    · exact skipSpace_plain hp h

theorem findEndLoop_eq {stringChar prev : α} {p : List α} (hs : f.Plain stringChar)
    (hprev : f.Plain prev) (hp : f.PlainText p) :
    findEndLoop (f.widen stringChar) (f.widen prev) (f.text p) =
      f.text <$> findEndLoop stringChar prev p := by
  induction p generalizing prev with
  | nil => rfl
  | cons c p ih =>
    obtain ⟨hc, hp⟩ := List.forall_mem_cons.mp hp
    have hescape : f.widen prev ≠ C '\\' ↔ prev ≠ C '\\' :=
      not_congr (widen_eq_C hprev (by decide))
    simp only [text, List.map_cons, findEndLoop, widen_eq_nul hc, widen_eq_iff hc hs, hescape]
    by_cases hnul : c = nul
    · rw [if_pos hnul, if_pos hnul]
      rfl
    · rw [if_neg hnul, if_neg hnul]
      by_cases hend : c = stringChar ∧ prev ≠ C '\\'
      · rw [if_pos hend, if_pos hend]
        rfl
      · rw [if_neg hend, if_neg hend]
        exact ih hc hp

theorem findEndOfString_eq {start : List α} {stringChar : α} (hstart : f.PlainText start)
    (hs : f.Plain stringChar) : findEndOfString (f.text start) (f.widen stringChar) =
      f.text <$> findEndOfString start stringChar := by
  cases start with
  | nil => rfl
  | cons prev p =>
    obtain ⟨hprev, hp⟩ := List.forall_mem_cons.mp hstart
    exact findEndLoop_eq hs hprev hp

theorem skipComment_eq {p : List α} (hp : f.PlainText p) :
    skipComment (f.text p) = f.text <$> skipComment p := by
  induction p with
  | nil => rfl
  | cons c p ih =>
    obtain ⟨hc, hp⟩ := List.forall_mem_cons.mp hp
    have hnewline : f.widen c = C '\n' ↔ c = C '\n' := widen_eq_C hc (by decide)
    simp only [text, List.map_cons, skipComment, widen_eq_nul hc, hnewline]
    by_cases hend : c = nul ∨ c = C '\n'
    · rw [if_pos hend, if_pos hend]
      rfl
    · rw [if_neg hend, if_neg hend]
      exact ih hp

theorem consumeComment_eq {p : List α} (hp : f.PlainText p) :
    consumeComment (f.text p) = f.text <$> consumeComment p := by
  cases p with
  | nil => rfl
  | cons c p =>
    have hskip := skipComment_eq hp
    obtain ⟨hc, hrest⟩ := List.forall_mem_cons.mp hp
    have hdash {a : α} (ha : f.Plain a) : f.widen a = C '-' ↔ a = C '-' :=
      widen_eq_C ha (by decide)
    rw [text, List.map_cons] at hskip ⊢
    simp only [consumeComment, hdash hc]
    by_cases hfirst : c = C '-'
    · rw [if_pos hfirst, if_pos hfirst]
      cases p with
      | nil => rfl
      | cons d p =>
        simp only [List.map_cons, hdash (List.forall_mem_cons.mp hrest).1]
        by_cases hsecond : d = C '-'
        · rw [if_pos hsecond, if_pos hsecond]
          exact hskip
        · rw [if_neg hsecond, if_neg hsecond]
          rfl
    · rw [if_neg hfirst, if_neg hfirst]
      rfl

theorem scanToken_eq {p : List α} (hp : f.PlainText p) :
    scanToken ct'.isspace (f.text p) = f.text <$> scanToken ct.isspace p := by
  induction p with
  | nil => rfl
  | cons c p ih =>
    obtain ⟨hc, hp⟩ := List.forall_mem_cons.mp hp
    have hsemicolon : f.widen c = C ';' ↔ c = C ';' := widen_eq_C hc (by decide)
    have hcomma : f.widen c = C ',' ↔ c = C ',' := widen_eq_C hc (by decide)
    simp only [text, List.map_cons, scanToken, f.isspace hc, hsemicolon, hcomma, widen_eq_nul hc]
    by_cases hend : ct.isspace c = true ∨ c = C ';' ∨ c = C ',' ∨ c = nul
    · rw [if_pos hend, if_pos hend]
      rfl
    · rw [if_neg hend, if_neg hend]
      exact ih hp

/-- The pointers that a call gives back, in the other type. -/
abbrev tokenText (f : CtypeMap ct ct') (r : Option (List α) × Option (List α)) :
    Option (List β) × Option (List β) := (r.1.map f.text, r.2.map f.text)

/-- The next token is the same. -/
theorem nextToken_eq {str : Option (List α)} (hstr : ∀ p ∈ str, f.PlainText p) :
    nextToken ct'.isspace (str.map f.text) = f.tokenText <$> nextToken ct.isspace str := by
  cases str with
  | none => rfl
  | some p =>
    have hp : f.PlainText p := hstr p rfl
    have hspace := consumeWhitespace_eq hp
    simp only [Option.map_some, nextToken, hspace]
    cases hstart : consumeWhitespace ct.isspace p with
    | error e => rfl
    | ok start =>
      have hplain := consumeWhitespace_plain hp hstart
      have hcomment := consumeComment_eq hplain
      have hok : (f.text <$> Except.ok start : Except Fault (List β)) = .ok (f.text start) := rfl
      rw [hok]
      simp only [except_bind_ok, hcomment]
      cases consumeComment start with
      | error e => rfl
      | ok comment =>
        cases start with
        | nil => rfl
        | cons c p =>
          obtain ⟨hc, hp⟩ := List.forall_mem_cons.mp hplain
          have hquote : f.widen c = C '\'' ∨ f.widen c = C '"' ↔ c = C '\'' ∨ c = C '"' :=
            or_congr (widen_eq_C hc (by decide)) (widen_eq_C hc (by decide))
          have hend := findEndOfString_eq hplain hc
          have hscan := scanToken_eq hp
          simp only [text, List.map_cons] at hend hscan ⊢
          change (if f.widen c = nul then _ else _) = f.tokenText <$> (if c = nul then _ else _)
          simp only [widen_eq_nul hc, hquote, hend, hscan]
          by_cases hnul : c = nul
          · rw [if_pos hnul, if_pos hnul]
            rfl
          · rw [if_neg hnul, if_neg hnul]
            by_cases hq : c = C '\'' ∨ c = C '"'
            · rw [if_pos hq, if_pos hq]
              cases findEndOfString (c :: p) c <;> rfl
            · rw [if_neg hq, if_neg hq]
              cases scanToken ct.isspace p <;> rfl

end CtypeMap

/-! ## ASCII text -/

theorem eq_C_of_lt {a : UInt8} (ha : a.toNat < 128) : ∃ c : Char, c.toNat < 128 ∧ a = C c := by
  have hall : ∀ n < 128, (Char.ofNat n).toNat < 128 ∧ UInt8.ofNat n = C (Char.ofNat n) := by decide
  obtain ⟨hc, heq⟩ := hall a.toNat ha
  rw [UInt8.ofNat_toNat] at heq
  exact ⟨_, hc, heq⟩

theorem toNat_C {c : Char} (hc : c.toNat < 128) : (C c : UInt8).toNat = c.toNat := by
  change c.toNat.toUInt8.toNat = c.toNat
  rw [Nat.toUInt8, UInt8.toNat_ofNat', Nat.mod_eq_of_lt (by omega)]

theorem toUInt16_C {c : Char} (hc : c.toNat < 128) : (C c : UInt8).toUInt16 = C c := by
  apply UInt16.toNat_inj.mp
  rw [UInt8.toNat_toUInt16, toNat_C hc]
  change c.toNat = c.toNat.toUInt16.toNat
  rw [Nat.toUInt16, UInt16.toNat_ofNat', Nat.mod_eq_of_lt (by omega)]

/-- Lower case is ASCII, too. -/
theorem toLower_lt : ∀ c : Char, c.toNat < 128 → c.toLower.toNat < 128 := forall_ascii (by decide)

/-- ASCII characters are the same in both types, in any locales. -/
def ascii (ct : Ctype UInt8) (ct' : Ctype FxmyChar) : CtypeMap ct ct' where
  widen := UInt8.toUInt16
  Plain a := a.toNat < 128
  inj {a b} _ _ h := by
    have hnat := congrArg UInt16.toNat h
    rw [UInt8.toNat_toUInt16, UInt8.toNat_toUInt16] at hnat
    exact UInt8.toNat_inj.mp hnat
  plain c hc := by rwa [toNat_C hc]
  const c hc := toUInt16_C hc
  plain_lower {a} ha := by
    obtain ⟨c, hc, rfl⟩ := eq_C_of_lt ha
    rw [ct.lower_ascii c hc, toNat_C (toLower_lt c hc)]
    exact toLower_lt c hc
  lower {a} ha := by
    obtain ⟨c, hc, rfl⟩ := eq_C_of_lt ha
    rw [ct.lower_ascii c hc, toUInt16_C (toLower_lt c hc), toUInt16_C hc, ct'.lower_ascii c hc]
  isspace {a} ha := by
    obtain ⟨c, hc, rfl⟩ := eq_C_of_lt ha
    rw [toUInt16_C hc, ct.isspace_ascii c hc, ct'.isspace_ascii c hc]

/-- The characters of a narrow string as wide ones. -/
def widened (p : List UInt8) : List FxmyChar := p.map UInt8.toUInt16

/-- **The copies agree**: on ASCII strings, whatever locales they run in, the wide functions find what
the narrow ones find. -/
theorem narrow_agrees (ct : Ctype UInt8) (ct' : Ctype FxmyChar)
    {haystack needle str : Option (List UInt8)}
    (hascii : ∀ s ∈ [haystack, needle, str], ∀ p ∈ s, ∀ c ∈ p, c.toNat < 128) :
    fstristr ct' (haystack.map widened) (needle.map widened) =
        Option.map widened <$> Narrow.stristr ct haystack needle ∧
      fnextToken ct' (str.map widened) =
        (fun r => (r.1.map widened, r.2.map widened)) <$> Narrow.nextToken ct str := by
  simp only [List.forall_mem_cons] at hascii
  obtain ⟨hhaystack, hneedle, hstr, -⟩ := hascii
  constructor
  · exact (ascii ct ct').stristr_eq hhaystack hneedle
  · exact (ascii ct ct').nextToken_eq hstr

set_option maxRecDepth 4000 in
/-- A keyword in a query. -/
theorem narrow_agrees_select :
    fstristr cLocale ((some (cstring "SELECT 1")).map widened)
        ((some (cstring "select")).map widened) =
        Option.map widened <$> Narrow.stristr cLocaleNarrow (some (cstring "SELECT 1"))
          (some (cstring "select")) ∧
      fnextToken cLocale ((some (cstring " 'a'")).map widened) =
        (fun r => (r.1.map widened, r.2.map widened)) <$>
          Narrow.nextToken cLocaleNarrow (some (cstring " 'a'")) :=
  narrow_agrees cLocaleNarrow cLocale (by decide)

end Fxmy
