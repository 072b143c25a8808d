import Mathlib.Data.Bool.AllAny

/-!
# Characters (`fxmy_string_type.h`)

`fxmy_char` is `wchar_t`, a 16-bit unit. The string functions are macros over the character type;
`CodeUnit` is what they need of it, the constants `C('x')`. `Ctype` is the part of `ctype.h` and
`wctype.h` they call, with what the standard says of it in every locale for ASCII characters.
-/

namespace Fxmy

/-- A C character type, with the constants `C(x)`. -/
class CodeUnit (α : Type) where
  /-- The constant `C(x)`. -/
  C : Char → α
  C_inj : ∀ c d : Char, c.toNat < 128 → d.toNat < 128 → C c = C d → c = d

export CodeUnit (C)

instance : CodeUnit UInt8 where
  C c := c.toNat.toUInt8
  C_inj c d hc hd h := by
    have h' : c.toNat % 256 = d.toNat % 256 := by simpa using congrArg UInt8.toNat h
    rw [Nat.mod_eq_of_lt (by omega), Nat.mod_eq_of_lt (by omega)] at h'
    exact Char.toNat_inj.mp h'

instance : CodeUnit UInt16 where
  C c := c.toNat.toUInt16
  C_inj c d hc hd h := by
    have h' : c.toNat % 65536 = d.toNat % 65536 := by simpa using congrArg UInt16.toNat h
    rw [Nat.mod_eq_of_lt (by omega), Nat.mod_eq_of_lt (by omega)] at h'
    exact Char.toNat_inj.mp h'

/-- `fxmy_char`. -/
abbrev FxmyChar := UInt16

variable {α : Type} [CodeUnit α]

/-- The terminator of a C string. -/
def nul : α := C (Char.ofNat 0)

/-- The characters of the string constant `C("...")`, without the terminator. -/
def chars (s : String) : List α := s.toList.map C

/-- The string constant `C("...")` as it lies in memory. -/
def cstring (s : String) : List α := chars s ++ [nul]

theorem C_ne {c d : Char} (hc : c.toNat < 128) (hd : d.toNat < 128) (h : c ≠ d) :
    (C c : α) ≠ C d := fun he => h (CodeUnit.C_inj c d hc hd he)

/-- A statement about ASCII characters holds if it holds of the 128 of them. -/
theorem forall_ascii {P : Char → Prop} (h : ∀ n < 128, P (Char.ofNat n)) (c : Char)
    (hc : c.toNat < 128) : P c := by
  have := h c.toNat hc
  rwa [Char.ofNat_toNat] at this

/-- Case folding and white space, as the locale has them. -/
structure Ctype (α : Type) [CodeUnit α] where
  /-- `tolower`, `towlower`. -/
  lower : α → α
  /-- `isspace`, `iswspace`. -/
  isspace : α → Bool
  lower_eq_nul : ∀ c, lower c = nul ↔ c = nul
  lower_ascii : ∀ c : Char, c.toNat < 128 → lower (C c) = C c.toLower
  isspace_ascii : ∀ c : Char, c.toNat < 128 →
    isspace (C c) = (c.toNat == 32 || 9 ≤ c.toNat && c.toNat ≤ 13)

namespace Ctype

variable (ct : Ctype α)

theorem isspace_nul : ct.isspace nul = false := ct.isspace_ascii (Char.ofNat 0) (by decide)

/-- White space is none of the other ASCII characters. -/
theorem ne_of_isspace {c : α} (h : ct.isspace c = true) (d : Char)
    (hd : d.toNat < 128 ∧ (d.toNat == 32 || 9 ≤ d.toNat && d.toNat ≤ 13) = false) : c ≠ C d := by
  intro hc
  rw [hc, ct.isspace_ascii d hd.1, hd.2] at h
  cases h

/-- Folding keeps a character that is not a letter apart from every letter. -/
theorem lower_ne {c d : Char} (hc : c.toNat < 128) (hd : d.toNat < 128)
    (h : c.toLower ≠ d.toLower) : ct.lower (C c) ≠ ct.lower (C d) := by
  rw [ct.lower_ascii c hc, ct.lower_ascii d hd]
  have hlt : ∀ e : Char, e.toNat < 128 → e.toLower.toNat < 128 := forall_ascii (by decide)
  exact C_ne (hlt c hc) (hlt d hd) h

end Ctype

/-- `towlower` in the "C" locale. -/
def lowerC (c : FxmyChar) : FxmyChar := if 65 ≤ c ∧ c ≤ 90 then c + 32 else c

/-- `iswspace` in the "C" locale. -/
def isspaceC (c : FxmyChar) : Bool := c == 32 || 9 ≤ c && c ≤ 13

/-- The "C" locale, which the program runs in: `setlocale` is never called. -/
def cLocale : Ctype FxmyChar where
  lower := lowerC
  isspace := isspaceC
  lower_eq_nul c := by
    change lowerC c = 0 ↔ c = 0
    unfold lowerC
    split
    · next h =>
      simp only [UInt16.le_iff_toNat_le, ← UInt16.toNat_inj, UInt16.toNat_add,
        UInt16.reduceToNat] at h ⊢
      omega
    · rfl
  lower_ascii := forall_ascii (by decide)
  isspace_ascii := forall_ascii (by decide)

/-- The "C" locale for narrow characters. -/
def cLocaleNarrow : Ctype UInt8 where
  lower c := if 65 ≤ c ∧ c ≤ 90 then c + 32 else c
  isspace c := c == 32 || 9 ≤ c && c ≤ 13
  lower_eq_nul c := by
    change (if 65 ≤ c ∧ c ≤ 90 then c + 32 else c) = 0 ↔ c = 0
    split
    · next h =>
      simp only [UInt8.le_iff_toNat_le, ← UInt8.toNat_inj, UInt8.toNat_add,
        UInt8.reduceToNat] at h ⊢
      omega
    · rfl
  lower_ascii := forall_ascii (by decide)
  isspace_ascii := forall_ascii (by decide)

end Fxmy
