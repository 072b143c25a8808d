import Fxmy.String
import Fxmy.Lib.Exec

/-!
# Decoding bytes

`fxmy_fstrfromchar` walks over a block from character to character. `Decoded` is that walk, as a
relation between a position of the block and the characters before it; it goes on as long as
`charWidth` gives the character at the position a width. The loop ends in the way that the position
it gets stuck at decides (`LoopEnd`).

Over a packet and its terminator the function ends without leaving its memory exactly if the walk
meets no NUL and no lead of three bytes in the last byte (`fstrfromchar_ends_iff`).
-/

namespace Fxmy

/-- The width of the character at the start of `s`; `none` where the decoder does not get past it:
at a NUL, a byte that is no lead, zero continuation bytes that an `ASSERT` refuses, or the end of
the block. -/
def charWidth (build : Build) : List UInt8 → Option Nat
  | [] => none
  | in0 :: rest =>
    if in0 = 0 then none
    else if in0 < 0x80 then some 1
    else if 0xE0 ≤ in0 then
      match rest with
      | in1 :: in2 :: _ => if build.ndebug || in1 ≠ 0 || in2 ≠ 0 then some 3 else none
      | _ => none
    else if 0xC0 ≤ in0 then
      match rest with
      | in1 :: _ => if build.ndebug || in1 ≠ 0 then some 2 else none
      | _ => none
    else none

/-- The value of the character at the start of `s`. -/
def charValue : List UInt8 → FxmyChar
  | [] => 0
  | in0 :: rest =>
    if in0 < 0x80 then in0.toUInt16
    else if 0xE0 ≤ in0 then
      ((in0.toUInt16 &&& 0xF) <<< 12) ||| (((rest.getD 0 0).toUInt16 &&& 0x3F) <<< 6) |||
        ((rest.getD 1 0).toUInt16 &&& 0x3F)
    else ((in0.toUInt16 &&& 0x1F) <<< 6) ||| ((rest.getD 0 0).toUInt16 &&& 0x3F)

/-- The bytes that the lead at the start of `s` asks for are in the block. -/
def Complete : List UInt8 → Prop
  | [] => False
  | in0 :: rest => (0xC0 ≤ in0 → 1 ≤ rest.length) ∧ (0xE0 ≤ in0 → 2 ≤ rest.length)

/-- What `fxmy_utf8_to_ucs2` does at the start of `s`. -/
inductive DecodeStep (build : Build) (s : List UInt8) : Except Stop (FxmyChar × List UInt8) → Prop
  /-- A NUL is returned and not passed. -/
  | stuck (hw : charWidth build s = none) (h : s.head? = some 0) : DecodeStep build s (.ok (0, s))
  | char (w : Nat) (hw : charWidth build s = some w) (hpos : 0 < w) (hc : Complete s) :
      DecodeStep build s (.ok (charValue s, s.drop w))
  | refused (hw : charWidth build s = none) (h : s.head? ≠ some 0) (hc : Complete s) :
      DecodeStep build s (.error .abort)
  | beyond (hw : charWidth build s = none) (h : s.head? ≠ some 0) (hc : ¬ Complete s) :
      DecodeStep build s (.error .bytes)

/-- A statement about bytes holds if it holds of the 256 of them. -/
theorem forall_byte {P : UInt8 → Prop} (h : ∀ n < 256, P (UInt8.ofNat n)) (b : UInt8) : P b := by
  have := h b.toNat b.toNat_lt
  rwa [UInt8.ofNat_toNat] at this

set_option maxRecDepth 4000 in
theorem and_E0_eq_iff (b : UInt8) : b &&& 0xE0 = 0xE0 ↔ 0xE0 ≤ b := by
  revert b
  exact forall_byte (by decide)

set_option maxRecDepth 4000 in
theorem and_C0_eq_iff (b : UInt8) : b &&& 0xC0 = 0xC0 ↔ 0xC0 ≤ b := by
  revert b
  exact forall_byte (by decide)

section

variable (build : Build) {in0 : UInt8} (rest : List UInt8)

/-- One byte. -/
theorem utf8ToUcs2_ascii (h0 : in0 ≠ 0) (h1 : in0 < 0x80) :
    DecodeStep build (in0 :: rest) (utf8ToUcs2 build (in0 :: rest)) := by
  have hv : charValue (in0 :: rest) = in0.toUInt16 := by simp only [charValue, h1, if_true]
  have hw : charWidth build (in0 :: rest) = some 1 := by
    simp only [charWidth, h0, h1, if_false, if_true]
  have hC0 : ¬ 0xC0 ≤ in0 := fun h => absurd (UInt8.lt_of_le_of_lt h h1) (by decide)
  have hE0 : ¬ 0xE0 ≤ in0 := fun h => absurd (UInt8.lt_of_le_of_lt h h1) (by decide)
  unfold utf8ToUcs2
  simp only
  rw [if_neg h0, if_pos h1, ← hv]
  exact .char 1 hw Nat.one_pos ⟨fun h => absurd h hC0, fun h => absurd h hE0⟩

/-- Three bytes. -/
theorem utf8ToUcs2_three (h0 : in0 ≠ 0) (h1 : ¬ in0 < 0x80) (h3 : 0xE0 ≤ in0) :
    DecodeStep build (in0 :: rest) (utf8ToUcs2 build (in0 :: rest)) := by
  have hhead : (in0 :: rest).head? ≠ some 0 := by simpa using h0
  unfold utf8ToUcs2
  simp only [and_E0_eq_iff]
  rw [if_neg h0, if_neg h1, if_pos h3]
  rcases rest with _ | ⟨in1, _ | ⟨in2, out⟩⟩
  · have hw : charWidth build [in0] = none := by
      simp only [charWidth, h0, h1, h3, if_false, if_true]
    exact .beyond hw hhead (fun hc => absurd (hc.2 h3) (by simp))
  · have hw : charWidth build [in0, in1] = none := by
      simp only [charWidth, h0, h1, h3, if_false, if_true]
    exact .beyond hw hhead (fun hc => absurd (hc.2 h3) (by simp))
  · by_cases hok : (build.ndebug || in1 ≠ 0 || in2 ≠ 0) = true
    · have hw : charWidth build (in0 :: in1 :: in2 :: out) = some 3 := by
        simp only [charWidth, h0, h1, h3, if_false, if_true]
        rw [if_pos hok]
      have := DecodeStep.char 3 hw (by decide) ⟨fun _ => by simp, fun _ => by simp⟩
      simp only [charValue, h1, h3, if_false, if_true, List.getD_cons_zero,
        List.getD_cons_succ, List.drop_succ_cons, List.drop_zero] at this
      simp only [assert_eq, ← Bool.or_assoc, hok, if_true]
      exact this
    · have hw : charWidth build (in0 :: in1 :: in2 :: out) = none := by
        simp only [charWidth, h0, h1, h3, if_false, if_true]
        rw [if_neg hok]
      simp only [assert_eq, ← Bool.or_assoc, hok, Bool.false_eq_true, if_false]
      exact .refused hw hhead ⟨fun _ => by simp, fun _ => by simp⟩

/-- Two bytes. -/
theorem utf8ToUcs2_two (h0 : in0 ≠ 0) (h1 : ¬ in0 < 0x80) (h3 : ¬ 0xE0 ≤ in0) (h2 : 0xC0 ≤ in0) :
    DecodeStep build (in0 :: rest) (utf8ToUcs2 build (in0 :: rest)) := by
  have hhead : (in0 :: rest).head? ≠ some 0 := by simpa using h0
  unfold utf8ToUcs2
  simp only [and_E0_eq_iff, and_C0_eq_iff]
  rw [if_neg h0, if_neg h1, if_neg h3, if_pos h2]
  rcases rest with _ | ⟨in1, out⟩
  · have hw : charWidth build [in0] = none := by
      simp only [charWidth, h0, h1, h2, h3, if_false, if_true]
    exact .beyond hw hhead (fun hc => absurd (hc.1 h2) (by simp))
  · by_cases hok : (build.ndebug || in1 ≠ 0) = true
    · have hw : charWidth build (in0 :: in1 :: out) = some 2 := by
        simp only [charWidth, h0, h1, h2, h3, if_false, if_true]
        rw [if_pos hok]
      have := DecodeStep.char 2 hw (by decide) ⟨fun _ => by simp, fun h => absurd h h3⟩
      simp only [charValue, h1, h3, if_false, List.getD_cons_zero, List.drop_succ_cons,
        List.drop_zero] at this
      simp only [assert_eq, hok, if_true]
      exact this
    · have hw : charWidth build (in0 :: in1 :: out) = none := by
        simp only [charWidth, h0, h1, h2, h3, if_false, if_true]
        rw [if_neg hok]
      simp only [assert_eq, hok, Bool.false_eq_true, if_false]
      exact .refused hw hhead ⟨fun _ => by simp, fun h => absurd h h3⟩

end

theorem utf8ToUcs2_step (build : Build) (s : List UInt8) :
    DecodeStep build s (utf8ToUcs2 build s) := by
  cases s with
  | nil => exact .beyond rfl (by simp) id
  | cons in0 rest =>
    by_cases h0 : in0 = 0
    · subst h0
      exact .stuck rfl rfl
    by_cases h1 : in0 < 0x80
    · exact utf8ToUcs2_ascii build rest h0 h1
    by_cases h3 : 0xE0 ≤ in0
    · exact utf8ToUcs2_three build rest h0 h1 h3
    by_cases h2 : 0xC0 ≤ in0
    · exact utf8ToUcs2_two build rest h0 h1 h3 h2
    · -- No lead at all.
      have hhead : (in0 :: rest).head? ≠ some 0 := by simpa using h0
      have hw : charWidth build (in0 :: rest) = none := by
        simp only [charWidth, h0, h1, h2, h3, if_false]
      unfold utf8ToUcs2
      simp only [and_E0_eq_iff, and_C0_eq_iff]
      rw [if_neg h0, if_neg h1, if_neg h3, if_neg h2]
      exact .refused hw hhead ⟨fun h => absurd h h2, fun h => absurd h h3⟩

/-- A character with a width is decoded, and its bytes are in the block. -/
theorem utf8ToUcs2_char {build : Build} {s : List UInt8} {w : Nat}
    (hw : charWidth build s = some w) :
    utf8ToUcs2 build s = .ok (charValue s, s.drop w) ∧ 0 < w ∧ Complete s := by
  have hstep := utf8ToUcs2_step build s
  generalize utf8ToUcs2 build s = r at hstep
  cases hstep with
  | stuck hn _ => simp [hw] at hn
  | char w' hw' hpos hc =>
    rw [hw] at hw'
    cases hw'
    exact ⟨rfl, hpos, hc⟩
  | refused hn _ _ => simp [hw] at hn
  | beyond hn _ _ => simp [hw] at hn

theorem charWidth_of_not_complete {build : Build} {s : List UInt8} (hc : ¬ Complete s) :
    charWidth build s = none := by
  cases hw : charWidth build s with
  | none => rfl
  | some w => exact absurd (utf8ToUcs2_char hw).2.2 hc

@[simp] theorem charWidth_zero (build : Build) (rest : List UInt8) :
    charWidth build (0 :: rest) = none := by
  simp [charWidth]

/-! ## The walk -/

section Walk

variable (build : Build) (block : List UInt8) (size : Nat)

/-- Decoding `size` bytes of the block gets to position `p`, with `cs` behind it. -/
inductive Decoded : Nat → List FxmyChar → Prop where
  | first : Decoded 0 []
  | next {p w : Nat} {cs : List FxmyChar} (h : Decoded p cs) (hp : p < size)
      (hw : charWidth build (block.drop p) = some w) :
      Decoded (p + w) (cs ++ [charValue (block.drop p)])

/-- A character starts at position `p`, or the walk ends there. -/
def CharStart (p : Nat) : Prop := ∃ cs, Decoded build block size p cs

/-- How `fxmy_fstrfromchar` over `size` bytes ends, by the position its walk gets to. -/
inductive LoopEnd : Except Stop (List FxmyChar) → Prop where
  | returned {p : Nat} {cs rest : List FxmyChar} (h : Decoded build block size p cs)
      (hp : size ≤ p) : LoopEnd (.ok (cs ++ rest))
  /-- The cursor stays at a NUL, and every turn writes one more character. -/
  | stuck {p : Nat} (h : CharStart build block size p) (hp : p < size) (h0 : block[p]? = some 0) :
      LoopEnd (.error (.text .outside))
  | refused {p : Nat} (h : CharStart build block size p) (hp : p < size)
      (hw : charWidth build (block.drop p) = none) (h0 : block[p]? ≠ some 0)
      (hc : Complete (block.drop p)) : LoopEnd (.error .abort)
  | beyond {p : Nat} (h : CharStart build block size p) (hp : p < size)
      (h0 : block[p]? ≠ some 0) (hc : ¬ Complete (block.drop p)) : LoopEnd (.error .bytes)

variable {build block size}

/-- The walk reads at least one byte for each character. -/
theorem Decoded.length_le {p : Nat} {cs : List FxmyChar} (h : Decoded build block size p cs) :
    cs.length ≤ p := by
  induction h with
  | first => exact Nat.le_refl 0
  | next _ _ hw ih =>
    have hpos := (utf8ToUcs2_char hw).2.1
    rw [List.length_append, List.length_singleton]
    omega

/-! ## The loop -/

section Loop

variable {remaining : Nat} {src : List UInt8} (hmore : remaining < src.length)
include hmore

theorem fstrfromcharLoop_char {w : Nat} (hw : charWidth build src = some w) (d : FxmyChar)
    (dest : List FxmyChar) :
    fstrfromcharLoop build remaining (d :: dest) src =
      (charValue src :: ·) <$> fstrfromcharLoop build remaining dest (src.drop w) := by
  rw [fstrfromcharLoop, if_neg (by omega), (utf8ToUcs2_char hw).1]
  simp only [bind, Except.bind]
  cases fstrfromcharLoop build remaining dest (src.drop w) <;> rfl

/-- At a NUL the loop never ends: whatever the size of `dest`, it writes past it. -/
theorem fstrfromcharLoop_nul (h0 : src.head? = some 0) (dest : List FxmyChar) :
    fstrfromcharLoop build remaining dest src = .error (.text .outside) := by
  have hstep : utf8ToUcs2 build src = .ok (0, src) := by
    obtain ⟨rest, rfl⟩ := List.head?_eq_some_iff.mp h0
    rfl
  induction dest with
  | nil =>
    rw [fstrfromcharLoop, if_neg (by omega), hstep]
    rfl
  | cons d dest ih =>
    rw [fstrfromcharLoop, if_neg (by omega), hstep]
    simp only [bind, Except.bind, ih]

theorem fstrfromcharLoop_error {e : Stop} (he : utf8ToUcs2 build src = .error e)
    (dest : List FxmyChar) : fstrfromcharLoop build remaining dest src = .error e := by
  rw [fstrfromcharLoop, if_neg (by omega), he]
  rfl

end Loop

variable (hsize : size ≤ block.length) {dest : List FxmyChar} (hdest : size ≤ dest.length)
include hsize hdest

/-- Where the walk has got to, the loop goes on behind the characters it has written. -/
theorem Decoded.loop {p : Nat} {cs : List FxmyChar} (h : Decoded build block size p cs) :
    fstrfromcharLoop build (block.length - size) dest block =
      (cs ++ ·) <$>
        fstrfromcharLoop build (block.length - size) (dest.drop cs.length) (block.drop p) := by
  induction h with
  | first =>
    simp only [List.length_nil, List.drop_zero, List.nil_append]
    exact (id_map _).symm
  | @next p w cs h hp hw ih =>
    have hlen := h.length_le
    have hmore : block.length - size < (block.drop p).length := by
      rw [List.length_drop]
      omega
    have hcons : dest.drop cs.length = dest[cs.length] :: dest.drop (cs.length + 1) :=
      List.drop_eq_getElem_cons (by omega)
    rw [ih, hcons, fstrfromcharLoop_char hmore hw, List.drop_drop, List.length_append,
      List.length_singleton]
    cases fstrfromcharLoop build (block.length - size) (dest.drop (cs.length + 1))
        (block.drop (p + w)) with
    | error e => rfl
    | ok rest => simp

/-- An error at a position the walk gets to is the error of the whole loop. -/
theorem CharStart.loop_error {p : Nat} (h : CharStart build block size p) {e : Stop}
    (he : ∀ dest, fstrfromcharLoop build (block.length - size) dest (block.drop p) = .error e) :
    fstrfromcharLoop build (block.length - size) dest block = .error e := by
  obtain ⟨cs, h⟩ := h
  rw [h.loop hsize hdest, he]
  rfl

/-- From a position the walk gets to it goes on to the end, by induction on the bytes left. -/
theorem loopEnd_of_decoded (n : Nat) : ∀ {p : Nat} {cs : List FxmyChar}, size - p ≤ n →
    Decoded build block size p cs →
      LoopEnd build block size (fstrfromcharLoop build (block.length - size) dest block) := by
  induction n with
  | zero =>
    intro p cs hn h
    have hdone : (block.drop p).length ≤ block.length - size := by
      rw [List.length_drop]
      omega
    rw [h.loop hsize hdest, fstrfromcharLoop, if_pos hdone]
    exact .returned h (by omega)
  | succ n ih =>
    intro p cs hn h
    by_cases hp : size ≤ p
    · exact ih (by omega) h
    have hp : p < size := by omega
    have hmore : block.length - size < (block.drop p).length := by
      rw [List.length_drop]
      omega
    have hstep := utf8ToUcs2_step build (block.drop p)
    generalize hr : utf8ToUcs2 build (block.drop p) = r at hstep
    cases hstep with
    | stuck _ h0 =>
      rw [CharStart.loop_error hsize hdest ⟨cs, h⟩ (fstrfromcharLoop_nul hmore h0)]
      exact .stuck ⟨cs, h⟩ hp (by rwa [List.head?_drop] at h0)
    | char w hw hpos _ => exact ih (by omega) (h.next hp hw)
    | refused hw h0 hc =>
      rw [CharStart.loop_error hsize hdest ⟨cs, h⟩ (fstrfromcharLoop_error hmore hr)]
      exact .refused ⟨cs, h⟩ hp hw (by rwa [List.head?_drop] at h0) hc
    | beyond _ h0 hc =>
      rw [CharStart.loop_error hsize hdest ⟨cs, h⟩ (fstrfromcharLoop_error hmore hr)]
      exact .beyond ⟨cs, h⟩ hp (by rwa [List.head?_drop] at h0) hc

omit hsize in
theorem fstrfromchar_eq :
    ∃ dest' : List FxmyChar, size ≤ dest'.length ∧
      fstrfromchar build dest block size =
        fstrfromcharLoop build (block.length - size) dest' block := by
  refine ⟨List.replicate size 0 ++ dest.drop size, ?_, if_pos hdest⟩
  rw [List.length_append, List.length_replicate]
  exact Nat.le_add_right _ _

variable (build) in
/-- **How `fxmy_fstrfromchar` ends**, for a destination of at least `size` characters. -/
theorem fstrfromchar_loopEnd :
    LoopEnd build block size (fstrfromchar build dest block size) := by
  obtain ⟨dest', hdest', heq⟩ := fstrfromchar_eq hdest
  rw [heq]
  exact loopEnd_of_decoded hsize hdest' size (by omega) .first

/-- What the walk gets to decides how `fxmy_fstrfromchar` ends. -/
theorem CharStart.fstrfromchar_error {p : Nat} (h : CharStart build block size p) {e : Stop}
    (he : ∀ dest, fstrfromcharLoop build (block.length - size) dest (block.drop p) = .error e) :
    fstrfromchar build dest block size = .error e := by
  obtain ⟨dest', hdest', heq⟩ := fstrfromchar_eq hdest
  rw [heq]
  exact h.loop_error hsize hdest' he

omit hsize hdest in
/-- A walk of a size has no more characters than bytes in it. -/
theorem Decoded.length_le_size {p : Nat} {cs : List FxmyChar} (h : Decoded build block size p cs) :
    cs.length ≤ size := by
  cases h with
  | first => exact Nat.zero_le size
  | next h hq _ =>
    have hlen := h.length_le
    rw [List.length_append, List.length_singleton]
    omega

/-- **What `fxmy_fstrfromchar` returns**: the characters of a walk to the end, zeros up to `size`,
and the rest of `dest`. -/
theorem fstrfromchar_eq_ok_iff {out : List FxmyChar} :
    fstrfromchar build dest block size = .ok out ↔
      ∃ p cs, Decoded build block size p cs ∧ size ≤ p ∧
        out = cs ++ (List.replicate (size - cs.length) 0 ++ dest.drop size) := by
  have hzeros : fstrfromchar build dest block size = fstrfromcharLoop build (block.length - size)
      (List.replicate size 0 ++ dest.drop size) block := if_pos hdest
  have hroom : size ≤ (List.replicate size (0 : FxmyChar) ++ dest.drop size).length := by
    rw [List.length_append, List.length_replicate]
    exact Nat.le_add_right _ _
  have hreturns : ∀ {p : Nat} {cs : List FxmyChar}, Decoded build block size p cs → size ≤ p →
      fstrfromchar build dest block size =
        .ok (cs ++ (List.replicate (size - cs.length) 0 ++ dest.drop size)) := by
    intro p cs h hp
    have hlen := h.length_le_size
    have hdone : (block.drop p).length ≤ block.length - size := by
      rw [List.length_drop]
      omega
    have hdrop : (List.replicate size (0 : FxmyChar) ++ dest.drop size).drop cs.length =
        List.replicate (size - cs.length) 0 ++ dest.drop size := by
      rw [List.drop_append_of_le_length (by simpa using hlen), List.drop_replicate]
    rw [hzeros, h.loop hsize hroom, fstrfromcharLoop, if_pos hdone, hdrop]
    rfl
  constructor
  · intro h
    have hend := fstrfromchar_loopEnd build hsize hdest
    rw [h] at hend
    cases hend with
    | returned hwalk hp =>
      have hout := hreturns hwalk hp
      rw [h, Except.ok.injEq] at hout
      exact ⟨_, _, hwalk, hp, hout⟩
  · rintro ⟨p, cs, h, hp, rfl⟩
    exact hreturns h hp

end Walk

/-! ## A packet and its terminator -/

/-- A computation returns or is ended by `abort`. -/
def Ends {α : Type} (r : Except Stop α) : Prop := (∃ a, r = .ok a) ∨ r = .error .abort

/-- Over the bytes `src` and the terminator behind them, with room for one character for each byte,
`fxmy_fstrfromchar` ends, and neither reads behind the terminator nor writes more. -/
def EndsInside (build : Build) (src : List UInt8) : Prop :=
  ∀ dest, dest.length = src.length → Ends (fstrfromchar build dest (src ++ [0]) src.length)

/-- As `EndsInside`, and the process is not aborted. -/
def ReturnsInside (build : Build) (src : List UInt8) : Prop :=
  ∀ dest, dest.length = src.length →
    ∃ out, fstrfromchar build dest (src ++ [0]) src.length = .ok out

section Packet

variable {build : Build} {src : List UInt8} {p : Nat} {b : UInt8}

theorem drop_packet (hb : src[p]? = some b) :
    (src ++ [0]).drop p = b :: (src ++ [0]).drop (p + 1) := by
  obtain ⟨hp, rfl⟩ := List.getElem?_eq_some_iff.mp hb
  rw [List.drop_eq_getElem_cons (by simp; omega), List.getElem_append_left hp]

/-- In a packet only a lead of three bytes can ask for bytes that are not there, in the last byte
before the terminator. -/
theorem complete_packet (hb : src[p]? = some b) :
    Complete ((src ++ [0]).drop p) ↔ (0xE0 ≤ b → p + 1 < src.length) := by
  have hp : p < src.length := (List.getElem?_eq_some_iff.mp hb).1
  rw [drop_packet hb]
  unfold Complete
  simp only [List.length_drop, List.length_append, List.length_singleton]
  constructor
  · rintro ⟨-, h⟩ hE0
    have := h hE0
    omega
  · intro h
    refine ⟨fun _ => by omega, fun hE0 => ?_⟩
    have := h hE0
    omega

/-- A character start that the decoder does not get past stops it, in one of three ways. -/
theorem fstrfromchar_stops (h : CharStart build (src ++ [0]) src.length p)
    (hb : src[p]? = some b) (hw : charWidth build ((src ++ [0]).drop p) = none)
    {dest : List FxmyChar} (hdest : src.length ≤ dest.length) :
    ∃ e, fstrfromchar build dest (src ++ [0]) src.length = .error e ∧
      (b = 0 ∧ e = .text .outside ∨ b ≠ 0 ∧ Complete ((src ++ [0]).drop p) ∧ e = .abort ∨
        b ≠ 0 ∧ ¬ Complete ((src ++ [0]).drop p) ∧ e = .bytes) := by
  have hp : p < src.length := (List.getElem?_eq_some_iff.mp hb).1
  have hsize : src.length ≤ (src ++ [0]).length := by simp
  have hmore : (src ++ [0]).length - src.length < ((src ++ [0]).drop p).length := by
    simp only [List.length_drop, List.length_append, List.length_singleton]
    omega
  have hhead : ((src ++ [0]).drop p).head? = some b := by
    rw [drop_packet hb]
    rfl
  have hstep := utf8ToUcs2_step build ((src ++ [0]).drop p)
  generalize hr : utf8ToUcs2 build ((src ++ [0]).drop p) = r at hstep
  cases hstep with
  | stuck _ h0 =>
    rw [hhead, Option.some.injEq] at h0
    refine ⟨_, h.fstrfromchar_error hsize hdest (fstrfromcharLoop_nul hmore ?_), .inl ⟨h0, rfl⟩⟩
    rw [hhead, h0]
  | char w hw' _ _ => simp [hw] at hw'
  | refused _ h0 hc =>
    rw [hhead, ne_eq, Option.some.injEq] at h0
    exact ⟨_, h.fstrfromchar_error hsize hdest (fstrfromcharLoop_error hmore hr),
      .inr (.inl ⟨h0, hc, rfl⟩)⟩
  | beyond _ h0 hc =>
    rw [hhead, ne_eq, Option.some.injEq] at h0
    exact ⟨_, h.fstrfromchar_error hsize hdest (fstrfromcharLoop_error hmore hr),
      .inr (.inr ⟨h0, hc, rfl⟩)⟩

end Packet

theorem endsInside_iff (build : Build) (src : List UInt8) :
    EndsInside build src ↔ ∀ p b, CharStart build (src ++ [0]) src.length p → src[p]? = some b →
      b ≠ 0 ∧ (0xE0 ≤ b → p + 1 < src.length) := by
  have hroom : (List.replicate src.length (0 : FxmyChar)).length = src.length :=
    List.length_replicate
  constructor
  · intro hends p b hstart hb
    by_cases hw : charWidth build ((src ++ [0]).drop p) = none
    · obtain ⟨e, he, hwhy⟩ := fstrfromchar_stops hstart hb hw (Nat.le_of_eq hroom.symm)
      rcases hends _ hroom with ⟨out, hout⟩ | hout
      · rw [he] at hout
        cases hout
      · rw [he, Except.error.injEq] at hout
        subst hout
        obtain ⟨-, h⟩ | ⟨h0, hc, -⟩ | ⟨-, -, h⟩ := hwhy
        · cases h
        · exact ⟨h0, (complete_packet hb).mp hc⟩
        · cases h
    · refine ⟨?_, ?_⟩
      · rintro rfl
        exact hw (by rw [drop_packet hb, charWidth_zero])
      · rw [← complete_packet hb]
        exact Classical.byContradiction fun hc => hw (charWidth_of_not_complete hc)
  · intro hcond dest hdest
    have hsize : src.length ≤ (src ++ [0]).length := by simp
    have hend := fstrfromchar_loopEnd build hsize (Nat.le_of_eq hdest.symm)
    generalize fstrfromchar build dest (src ++ [0]) src.length = r at hend
    cases hend with
    | returned _ _ => exact .inl ⟨_, rfl⟩
    | @stuck p h hp h0 =>
      rw [List.getElem?_append_left hp] at h0
      exact absurd rfl (hcond p 0 h h0).1
    | refused => exact .inr rfl
    | @beyond p h hp _ hc =>
      have hb := List.getElem?_eq_getElem hp
      exact absurd ((complete_packet hb).mpr (hcond p _ h hb).2) hc

theorem returnsInside_iff (build : Build) (src : List UInt8) :
    ReturnsInside build src ↔ ∀ p, CharStart build (src ++ [0]) src.length p → p < src.length →
      charWidth build ((src ++ [0]).drop p) ≠ none := by
  have hroom : (List.replicate src.length (0 : FxmyChar)).length = src.length :=
    List.length_replicate
  constructor
  · intro hreturns p hstart hp hw
    obtain ⟨e, he, -⟩ :=
      fstrfromchar_stops hstart (List.getElem?_eq_getElem hp) hw (Nat.le_of_eq hroom.symm)
    obtain ⟨out, hout⟩ := hreturns _ hroom
    rw [he] at hout
    cases hout
  · intro hcond dest hdest
    have hsize : src.length ≤ (src ++ [0]).length := by simp
    have hend := fstrfromchar_loopEnd build hsize (Nat.le_of_eq hdest.symm)
    generalize fstrfromchar build dest (src ++ [0]) src.length = r at hend
    cases hend with
    | returned _ _ => exact ⟨_, rfl⟩
    | @stuck p h hp h0 =>
      rw [List.getElem?_append_left hp] at h0
      exact absurd (by rw [drop_packet h0, charWidth_zero]) (hcond p h hp)
    | @refused p h hp hw _ _ => exact absurd hw (hcond p h hp)
    | @beyond p h hp _ hc => exact absurd (charWidth_of_not_complete hc) (hcond p h hp)

/-- **Decoding a packet's text** ends inside its blocks exactly if no character starts with a NUL
and none with a lead of three bytes in the last byte; it returns exactly if every character has a
width. -/
theorem fstrfromchar_ends_iff (build : Build) (src : List UInt8) :
    (EndsInside build src ↔ ∀ p b, CharStart build (src ++ [0]) src.length p → src[p]? = some b →
      b ≠ 0 ∧ (0xE0 ≤ b → p + 1 < src.length)) ∧
    (ReturnsInside build src ↔ ∀ p, CharStart build (src ++ [0]) src.length p → p < src.length →
      charWidth build ((src ++ [0]).drop p) ≠ none) :=
  ⟨endsInside_iff build src, returnsInside_iff build src⟩

/-- ASCII text is decoded byte by byte. -/
theorem decoded_ascii (build : Build) {src : List UInt8} (hsrc : ∀ b ∈ src, b ≠ 0 ∧ b < 0x80)
    (rest : List UInt8) {n : Nat} (hn : n ≤ src.length) :
    Decoded build (src ++ rest) src.length n ((src.take n).map UInt8.toUInt16) := by
  induction n with
  | zero => exact .first
  | succ n ih =>
    have hlt : n < src.length := hn
    obtain ⟨h0, h80⟩ := hsrc src[n] (List.getElem_mem hlt)
    have hdrop : (src ++ rest).drop n = src[n] :: (src ++ rest).drop (n + 1) := by
      rw [List.drop_eq_getElem_cons (by rw [List.length_append]; omega),
        List.getElem_append_left hlt]
    have hw : charWidth build ((src ++ rest).drop n) = some 1 := by
      rw [hdrop]
      simp only [charWidth, h0, h80, if_false, if_true]
    have hv : charValue ((src ++ rest).drop n) = src[n].toUInt16 := by
      rw [hdrop]
      simp only [charValue, h80, if_true]
    have hnext := (ih (Nat.le_of_lt hlt)).next hlt hw
    have htake : (src.take (n + 1)).map UInt8.toUInt16 =
        (src.take n).map UInt8.toUInt16 ++ [src[n].toUInt16] := by
      rw [← List.take_append_getElem hlt, List.map_append]
      rfl
    rwa [hv, ← htake] at hnext

/-- A query of one NUL: the cursor stays at it. -/
theorem nul_never_ends : ¬ ∀ build src, EndsInside build src := by
  intro h
  rcases h ⟨true, false⟩ [0] [0] rfl with ⟨out, hout⟩ | hout
  · exact nomatch hout
  · exact nomatch hout

end Fxmy
