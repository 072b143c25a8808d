import Mathlib.Algebra.Group.Nat.Defs

/-!
# UTF-8 of 16-bit code points

The forms of one, two and three bytes that a code point can take, whether or not a shorter one
holds it, and the encoding, which takes the shortest. On the code points of characters it is that
of the language (`encodeChar_eq`).

A decoder puts the bits of a form together again with masks and shifts; `toNat_two` and `toNat_three`
say what number comes of that.
-/

namespace Utf8

/-! ## Encoding -/

/-- The form of two bytes, for a code point below `0x800`. -/
def twoBytes (v : Nat) : List UInt8 :=
  [UInt8.ofNat (v / 64 % 32 + 0xC0), UInt8.ofNat (v % 64 + 0x80)]

/-- The form of three bytes. -/
def threeBytes (v : Nat) : List UInt8 :=
  [UInt8.ofNat (v / 4096 % 16 + 0xE0), UInt8.ofNat (v / 64 % 64 + 0x80), UInt8.ofNat (v % 64 + 0x80)]

theorem twoBytes_eq (v : Nat) : ∃ a b : UInt8, twoBytes v = [a, b] ∧
    a.toNat = v / 64 % 32 + 0xC0 ∧ b.toNat = v % 64 + 0x80 :=
  ⟨_, _, rfl, UInt8.toNat_ofNat_of_lt' (show _ < 256 by omega),
    UInt8.toNat_ofNat_of_lt' (show _ < 256 by omega)⟩

theorem threeBytes_eq (v : Nat) : ∃ a b c : UInt8, threeBytes v = [a, b, c] ∧
    a.toNat = v / 4096 % 16 + 0xE0 ∧ b.toNat = v / 64 % 64 + 0x80 ∧ c.toNat = v % 64 + 0x80 :=
  ⟨_, _, _, rfl, UInt8.toNat_ofNat_of_lt' (show _ < 256 by omega),
    UInt8.toNat_ofNat_of_lt' (show _ < 256 by omega),
    UInt8.toNat_ofNat_of_lt' (show _ < 256 by omega)⟩

theorem zero_not_mem_twoBytes (v : Nat) : 0 ∉ twoBytes v := by
  obtain ⟨a, b, heq, ha, hb⟩ := twoBytes_eq v
  rw [heq]
  simp only [List.mem_cons, List.not_mem_nil, or_false]
  rintro (rfl | rfl)
  · cases ha
  · cases hb

theorem zero_not_mem_threeBytes (v : Nat) : 0 ∉ threeBytes v := by
  obtain ⟨a, b, c, heq, ha, hb, hc⟩ := threeBytes_eq v
  rw [heq]
  simp only [List.mem_cons, List.not_mem_nil, or_false]
  rintro (rfl | rfl | rfl)
  · cases ha
  · cases hb
  · cases hc

/-- The shortest form of a code point. -/
def encodeChar (c : UInt16) : List UInt8 :=
  if c.toNat < 0x80 then [UInt8.ofNat c.toNat]
  else if c.toNat < 0x800 then twoBytes c.toNat
  else threeBytes c.toNat

/-- The encoding of a text. -/
def encode (cs : List UInt16) : List UInt8 := cs.flatMap encodeChar

@[simp] theorem encode_nil : encode [] = [] := rfl

@[simp] theorem encode_cons (c : UInt16) (cs : List UInt16) :
    encode (c :: cs) = encodeChar c ++ encode cs := rfl

theorem encodeChar_eq (c : Char) (h : c.toNat < 0x10000) :
    encodeChar (UInt16.ofNat c.toNat) = String.utf8EncodeChar c := by
  have hv : (UInt16.ofNat c.toNat).toNat = c.toNat := by
    rw [UInt16.toNat_ofNat']
    exact Nat.mod_eq_of_lt h
  have hval : c.val.toNat = c.toNat := rfl
  unfold encodeChar String.utf8EncodeChar twoBytes threeBytes
  simp only [hv, hval]
  by_cases h1 : c.toNat < 0x80
  · rw [if_pos h1, if_pos (by omega)]
  · by_cases h2 : c.toNat < 0x800
    · rw [if_neg h1, if_pos h2, if_neg (by omega), if_pos (by omega)]
    · rw [if_neg h1, if_neg h2, if_neg (by omega), if_neg (by omega), if_pos (by omega)]

/-! ## Characters of the language -/

/-- The code point of a character, which is whole if it has 16 bits at most. -/
def unit (c : Char) : UInt16 := UInt16.ofNat c.toNat

/-- The bytes of a text. -/
def bytes (s : List Char) : List UInt8 := s.flatMap String.utf8EncodeChar

/-- Whether all characters of a text have 16 bits. -/
def fits (s : List Char) : Bool := s.all fun c => decide (c.toNat < 0x10000)

theorem fits_iff {s : List Char} : fits s = true ↔ ∀ c ∈ s, c.toNat < 0x10000 := by
  simp only [fits, List.all_eq_true, decide_eq_true_eq]

@[simp] theorem bytes_cons (c : Char) (s : List Char) :
    bytes (c :: s) = String.utf8EncodeChar c ++ bytes s := rfl

theorem bytes_eq_encode {s : List Char} (h : ∀ c ∈ s, c.toNat < 0x10000) :
    bytes s = encode (s.map unit) := by
  induction s with
  | nil => rfl
  | cons c s ih =>
    obtain ⟨hc, hs⟩ := List.forall_mem_cons.mp h
    rw [bytes_cons, List.map_cons, encode_cons, ih hs, unit, encodeChar_eq c hc]

/-- A character of more than 16 bits takes four bytes. -/
theorem utf8EncodeChar_four {c : Char} (h : 0x10000 ≤ c.toNat) : ∃ b₀ b₁ b₂ b₃ : UInt8,
    String.utf8EncodeChar c = [b₀, b₁, b₂, b₃] ∧ 0xF0 ≤ b₀.toNat ∧ 0x80 ≤ b₁.toNat ∧
      0x80 ≤ b₂.toNat ∧ 0x80 ≤ b₃.toNat ∧ b₃.toNat < 0xC0 := by
  have hval : c.val.toNat = c.toNat := rfl
  have hlead (n : Nat) : (UInt8.ofNat (n % 8 + 0xF0)).toNat = n % 8 + 0xF0 :=
    UInt8.toNat_ofNat_of_lt' (show _ < 256 by omega)
  have htail (n : Nat) : (UInt8.ofNat (n % 64 + 0x80)).toNat = n % 64 + 0x80 :=
    UInt8.toNat_ofNat_of_lt' (show _ < 256 by omega)
  unfold String.utf8EncodeChar
  simp only [hval]
  rw [if_neg (by omega), if_neg (by omega), if_neg (by omega)]
  refine ⟨_, _, _, _, rfl, ?_⟩
  rw [hlead, htail, htail, htail]
  omega

/-! ## Decoding -/

section Bits

variable {x y m : UInt16} {n : Nat}

theorem toNat_mask (hm : m.toNat = 2 ^ n - 1) : (x &&& m).toNat = x.toNat % 2 ^ n := by
  rw [UInt16.toNat_and, hm, Nat.and_two_pow_sub_one_eq_mod]

theorem toNat_shift (hm : m.toNat = n) (hn : n < 16) (hx : x.toNat * 2 ^ n < 2 ^ 16) :
    (x <<< m).toNat = x.toNat * 2 ^ n := by
  rw [UInt16.toNat_shiftLeft, hm, Nat.mod_eq_of_lt hn, Nat.shiftLeft_eq, Nat.mod_eq_of_lt hx]

/-- Bits put behind others that leave room for them. -/
theorem toNat_or_of_lt {a : Nat} (hx : x.toNat = a * 2 ^ n) (hy : y.toNat < 2 ^ n) :
    (x ||| y).toNat = a * 2 ^ n + y.toNat := by
  rw [UInt16.toNat_or, hx, Nat.mul_comm, Nat.two_pow_add_eq_or_of_lt hy]

end Bits

theorem toNat_two (a b : UInt8) :
    (((a.toUInt16 &&& 0x1F) <<< 6) ||| (b.toUInt16 &&& 0x3F)).toNat =
      a.toNat % 32 * 64 + b.toNat % 64 := by
  have ha : (a.toUInt16 &&& 0x1F).toNat = a.toNat % 32 := toNat_mask (n := 5) rfl
  have hb : (b.toUInt16 &&& 0x3F).toNat = b.toNat % 64 := toNat_mask (n := 6) rfl
  have hshift : ((a.toUInt16 &&& 0x1F) <<< 6).toNat = a.toNat % 32 * 64 := by
    rw [← ha]
    exact toNat_shift (n := 6) rfl (by decide) (by omega)
  rw [← hb]
  exact toNat_or_of_lt (n := 6) hshift (by omega)

theorem toNat_three (a b c : UInt8) :
    (((a.toUInt16 &&& 0xF) <<< 12) ||| ((b.toUInt16 &&& 0x3F) <<< 6) |||
      (c.toUInt16 &&& 0x3F)).toNat = a.toNat % 16 * 4096 + b.toNat % 64 * 64 + c.toNat % 64 := by
  have ha : (a.toUInt16 &&& 0xF).toNat = a.toNat % 16 := toNat_mask (n := 4) rfl
  have hb : (b.toUInt16 &&& 0x3F).toNat = b.toNat % 64 := toNat_mask (n := 6) rfl
  have hc : (c.toUInt16 &&& 0x3F).toNat = c.toNat % 64 := toNat_mask (n := 6) rfl
  have hshift : ((a.toUInt16 &&& 0xF) <<< 12).toNat = a.toNat % 16 * 4096 := by
    rw [← ha]
    exact toNat_shift (n := 12) rfl (by decide) (by omega)
  have hshift' : ((b.toUInt16 &&& 0x3F) <<< 6).toNat = b.toNat % 64 * 64 := by
    rw [← hb]
    exact toNat_shift (n := 6) rfl (by decide) (by omega)
  have hhigh : (((a.toUInt16 &&& 0xF) <<< 12) ||| ((b.toUInt16 &&& 0x3F) <<< 6)).toNat =
      (a.toNat % 16 * 64 + b.toNat % 64) * 64 := by
    rw [toNat_or_of_lt (n := 12) hshift (by omega), hshift']
    omega
  rw [toNat_or_of_lt (n := 6) hhigh (by omega), hc]
  omega

end Utf8
