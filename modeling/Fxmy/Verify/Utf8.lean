import Fxmy.Lib.Utf8
import Fxmy.Verify.Decode

/-!
# UTF-8 and the decoder

`Reads` follows the decoder from character to character, as the bytes that are left. Over the
encoding of a text it makes the text again (`fstrfromchar_encode`). It takes a character in more
than one form, though, so no text but the empty one comes from one string of bytes only
(`stores_unique_iff`).
-/

namespace Fxmy

open Utf8

variable {build : Build}

/-! ## One character -/

section Forms

variable (build) (rest : List UInt8)

theorem charWidth_ascii {b : UInt8} (h0 : b ≠ 0) (h : b < 0x80) :
    charWidth build (b :: rest) = some 1 := by
  simp only [charWidth, h0, h, if_false, if_true]

theorem charValue_ascii {b : UInt8} (h : b < 0x80) : charValue (b :: rest) = b.toUInt16 := by
  simp only [charValue, h, if_true]

/-- The bytes of the longer forms are told from the terminator and from the short form. -/
theorem not_ascii {b : UInt8} (h : 0x80 ≤ b.toNat) : b ≠ 0 ∧ ¬ b < 0x80 := by
  constructor
  · intro hb
    rw [hb] at h
    exact Nat.not_succ_le_zero _ h
  · intro hb
    exact Nat.not_lt_of_le h hb

/-- The form of two bytes is decoded, whether or not one byte would do. -/
theorem decodes_twoBytes {c : FxmyChar} (hc : c.toNat < 0x800) :
    charWidth build (twoBytes c.toNat ++ rest) = some 2 ∧
      charValue (twoBytes c.toNat ++ rest) = c := by
  obtain ⟨a, b, heq, ha, hb⟩ := twoBytes_eq c.toNat
  obtain ⟨h0, h1⟩ : a ≠ 0 ∧ ¬ a < 0x80 := not_ascii (by omega)
  have h2 : 0xC0 ≤ a := UInt8.le_iff_toNat_le.mpr (by simp; omega)
  have h3 : ¬ 0xE0 ≤ a := fun h => by
    have : 0xE0 ≤ a.toNat := h
    omega
  have hb0 : b ≠ 0 := (not_ascii (by omega)).1
  rw [heq]
  constructor
  · simp [charWidth, h0, h1, h2, h3, hb0]
  · apply UInt16.toNat_inj.mp
    simp only [List.cons_append, charValue, h1, h3, if_false, List.getD_cons_zero]
    rw [toNat_two]
    omega

/-- So is the form of three bytes. -/
theorem decodes_threeBytes (c : FxmyChar) :
    charWidth build (threeBytes c.toNat ++ rest) = some 3 ∧
      charValue (threeBytes c.toNat ++ rest) = c := by
  have hlt := c.toNat_lt
  obtain ⟨a, b, d, heq, ha, hb, hd⟩ := threeBytes_eq c.toNat
  obtain ⟨h0, h1⟩ : a ≠ 0 ∧ ¬ a < 0x80 := not_ascii (by omega)
  have h3 : 0xE0 ≤ a := UInt8.le_iff_toNat_le.mpr (by simp; omega)
  have hb0 : b ≠ 0 := (not_ascii (by omega)).1
  rw [heq]
  constructor
  · simp [charWidth, h0, h1, h3, hb0]
  · apply UInt16.toNat_inj.mp
    simp only [List.cons_append, charValue, h1, h3, if_false, if_true, List.getD_cons_zero,
      List.getD_cons_succ]
    rw [toNat_three]
    omega

/-- The shortest form is decoded, unless it is the terminator. -/
theorem decodes_encodeChar {c : FxmyChar} (hc : c ≠ 0) :
    charWidth build (encodeChar c ++ rest) = some (encodeChar c).length ∧
      charValue (encodeChar c ++ rest) = c := by
  unfold encodeChar
  by_cases h1 : c.toNat < 0x80
  · rw [if_pos h1]
    have hb : (UInt8.ofNat c.toNat).toNat = c.toNat :=
      UInt8.toNat_ofNat_of_lt' (show _ < 256 by omega)
    have h0 : UInt8.ofNat c.toNat ≠ 0 := fun h => by
      rw [h] at hb
      exact hc (UInt16.toNat_inj.mp hb.symm)
    have hlt : UInt8.ofNat c.toNat < 0x80 := by
      rw [UInt8.lt_iff_toNat_lt, hb]
      exact h1
    refine ⟨charWidth_ascii build rest h0 hlt, ?_⟩
    rw [List.singleton_append, charValue_ascii rest hlt]
    apply UInt16.toNat_inj.mp
    rw [UInt8.toNat_toUInt16, hb]
  rw [if_neg h1]
  by_cases h2 : c.toNat < 0x800
  · rw [if_pos h2]
    exact decodes_twoBytes build rest h2
  · rw [if_neg h2]
    exact decodes_threeBytes build rest c

end Forms

/-! ## A text -/

/-- The decoder gets through the bytes up to the last `remaining` of the block, and makes these
characters of them. The last one may take some of the bytes behind. -/
inductive Reads (build : Build) (remaining : Nat) : List UInt8 → List FxmyChar → Prop where
  | done {src : List UInt8} (h : src.length ≤ remaining) : Reads build remaining src []
  | char {src : List UInt8} {w : Nat} {cs : List FxmyChar} (h : remaining < src.length)
      (hw : charWidth build src = some w) (rest : Reads build remaining (src.drop w) cs) :
      Reads build remaining src (charValue src :: cs)

namespace Reads

variable {remaining : Nat} {src : List UInt8} {cs : List FxmyChar}

/-- Each character takes a byte that is counted. -/
theorem length_le (h : Reads build remaining src cs) : cs.length ≤ src.length - remaining := by
  induction h with
  | done h => simp
  | @char src w cs h hw _ ih =>
    have hpos := (utf8ToUcs2_char hw).2.1
    rw [List.length_drop] at ih
    rw [List.length_cons]
    omega

theorem fstrfromcharLoop_eq (h : Reads build remaining src cs) {dest : List FxmyChar}
    (hdest : cs.length ≤ dest.length) :
    fstrfromcharLoop build remaining dest src = .ok (cs ++ dest.drop cs.length) := by
  induction h generalizing dest with
  | done h =>
    rw [fstrfromcharLoop, if_pos h]
    rfl
  | @char src w cs h hw _ ih =>
    cases dest with
    | nil => exact absurd hdest (by simp)
    | cons d dest =>
      rw [fstrfromcharLoop_char h hw, ih (Nat.le_of_succ_le_succ hdest)]
      rfl

theorem fstrlenfromcharLoop_eq (h : Reads build remaining src cs) (i : Nat) {fuel : Nat}
    (hfuel : cs.length < fuel) :
    fstrlenfromcharLoop build remaining i src fuel = .ok (i + cs.length) := by
  induction h generalizing i fuel with
  | done h =>
    obtain ⟨fuel, rfl⟩ := Nat.exists_eq_add_one.mpr hfuel
    rw [fstrlenfromcharLoop, if_pos h]
    rfl
  | @char src w cs h hw _ ih =>
    obtain ⟨fuel, rfl⟩ := Nat.exists_eq_add_one.mpr (Nat.lt_of_le_of_lt (Nat.zero_le _) hfuel)
    rw [fstrlenfromcharLoop, if_neg (Nat.not_le_of_lt h), (utf8ToUcs2_char hw).1,
      Exec.except_bind_ok]
    simp only
    rw [ih (i + 1) (Nat.lt_of_succ_lt_succ hfuel), List.length_cons, Nat.add_assoc,
      Nat.add_comm 1]

/-- A character in some form, in front of what is read already. -/
theorem form {bytes : List UInt8} {c : FxmyChar}
    (hw : charWidth build (bytes ++ src) = some bytes.length) (hv : charValue (bytes ++ src) = c)
    (hsrc : remaining ≤ src.length) (h : Reads build remaining src cs) :
    Reads build remaining (bytes ++ src) (c :: cs) := by
  have hpos := (utf8ToUcs2_char hw).2.1
  have hmore : remaining < (bytes ++ src).length := by
    rw [List.length_append]
    omega
  have hdrop : (bytes ++ src).drop bytes.length = src := List.drop_left
  rw [← hdrop] at h
  have hread := char hmore hw h
  rwa [hv] at hread

/-- Where the loop returns, it has got through the bytes. -/
theorem of_eq_ok {dest out : List FxmyChar}
    (h : fstrfromcharLoop build remaining dest src = .ok out) :
    ∃ cs, Reads build remaining src cs := by
  induction dest generalizing src out with
  | nil =>
    rw [fstrfromcharLoop] at h
    split at h
    · next hdone => exact ⟨[], .done hdone⟩
    · obtain ⟨_, _, h₁⟩ := Exec.except_bind_eq_ok.mp h
      cases h₁
  | cons d dest ih =>
    by_cases hdone : src.length ≤ remaining
    · exact ⟨[], .done hdone⟩
    have hmore : remaining < src.length := Nat.lt_of_not_le hdone
    have hstep := utf8ToUcs2_step build src
    generalize hr : utf8ToUcs2 build src = r at hstep
    cases hstep with
    | stuck _ h0 =>
      rw [fstrfromcharLoop_nul hmore h0] at h
      cases h
    | char w hw _ _ =>
      rw [fstrfromcharLoop_char hmore hw] at h
      cases hrest : fstrfromcharLoop build remaining dest (src.drop w) with
      | error e =>
        rw [hrest] at h
        cases h
      | ok out' =>
        obtain ⟨cs, hcs⟩ := ih hrest
        exact ⟨_, .char hmore hw hcs⟩
    | refused =>
      rw [fstrfromcharLoop_error hmore hr] at h
      cases h
    | beyond =>
      rw [fstrfromcharLoop_error hmore hr] at h
      cases h

end Reads

/-- Over the bytes, with `behind` behind them in the block, `fxmy_fstrfromchar` returns with these
characters as the elements it has stored, and zeros after them up to the number of bytes. -/
structure Stores (build : Build) (behind bytes : List UInt8) (cs : List FxmyChar) : Prop where
  length_eq : fstrlenfromchar build (bytes ++ behind) bytes.length = .ok cs.length
  dest_eq : ∀ dest : List FxmyChar, bytes.length ≤ dest.length →
    fstrfromchar build dest (bytes ++ behind) bytes.length =
      .ok (cs ++ (List.replicate (bytes.length - cs.length) 0 ++ dest.drop bytes.length))

section Text

variable {bytes behind : List UInt8} {cs : List FxmyChar}

theorem Reads.stores (h : Reads build behind.length (bytes ++ behind) cs) :
    Stores build behind bytes cs := by
  have hremaining : (bytes ++ behind).length - bytes.length = behind.length := by simp
  have hlen := h.length_le
  rw [List.length_append, Nat.add_sub_cancel] at hlen
  constructor
  · unfold fstrlenfromchar
    rw [hremaining, h.fstrlenfromcharLoop_eq 0 (Nat.lt_succ_of_le hlen), Nat.zero_add]
  · intro dest hdest
    have hroom : cs.length ≤ (List.replicate bytes.length (0 : FxmyChar) ++
        dest.drop bytes.length).length := by
      rw [List.length_append, List.length_replicate]
      omega
    unfold fstrfromchar
    rw [if_pos hdest, hremaining, h.fstrfromcharLoop_eq hroom,
      List.drop_append_of_le_length (by simpa using hlen), List.drop_replicate]

/-- Bytes that `fxmy_fstrfromchar` returns on are accepted with the characters it has read. -/
theorem exists_reads_of_eq_ok {dest out : List FxmyChar} (hdest : bytes.length ≤ dest.length)
    (h : fstrfromchar build dest (bytes ++ behind) bytes.length = .ok out) :
    ∃ cs, Reads build behind.length (bytes ++ behind) cs := by
  unfold fstrfromchar at h
  rw [if_pos hdest, List.length_append, Nat.add_sub_cancel_left] at h
  exact Reads.of_eq_ok h

theorem stores_iff_reads : Stores build behind bytes cs ↔
    Reads build behind.length (bytes ++ behind) cs := by
  constructor
  · intro h
    have hroom : bytes.length ≤ (List.replicate bytes.length (0 : FxmyChar)).length :=
      Nat.le_of_eq List.length_replicate.symm
    obtain ⟨cs', h'⟩ := exists_reads_of_eq_ok hroom (h.dest_eq _ hroom)
    have hlen := h'.stores.length_eq
    rw [h.length_eq, Except.ok.injEq] at hlen
    have hdest := h'.stores.dest_eq _ hroom
    rw [h.dest_eq _ hroom, Except.ok.injEq, hlen] at hdest
    rw [List.append_cancel_right hdest]
    exact h'
  · exact Reads.stores

/-- The decoder reads the encoding of a text without its terminator as that text. -/
theorem reads_encode (hcs : 0 ∉ cs) : Reads build behind.length (encode cs ++ behind) cs := by
  induction cs with
  | nil => exact .done (Nat.le_refl _)
  | cons c cs ih =>
    have hc : c ≠ 0 := fun h => hcs (h ▸ List.mem_cons_self)
    rw [encode_cons, List.append_assoc]
    obtain ⟨hw, hv⟩ := decodes_encodeChar build (encode cs ++ behind) hc
    refine .form hw hv ?_ (ih fun h => hcs (List.mem_cons_of_mem c h))
    rw [List.length_append]
    exact Nat.le_add_left _ _

end Text

/-- **The round trip**: over the encoding of a text, whatever stands behind it, `fxmy_fstrfromchar`
makes the text with zeros after it, and `fxmy_fstrlenfromchar` counts its characters. -/
theorem fstrfromchar_encode (build : Build) {cs dest : List FxmyChar} (behind : List UInt8)
    (hcs : 0 ∉ cs) (hdest : (encode cs).length ≤ dest.length) :
    fstrfromchar build dest (encode cs ++ behind) (encode cs).length =
        .ok (cs ++ (List.replicate ((encode cs).length - cs.length) 0 ++
          dest.drop (encode cs).length)) ∧
      fstrlenfromchar build (encode cs ++ behind) (encode cs).length = .ok cs.length := by
  have hstores : Stores build behind (encode cs) cs := (reads_encode hcs).stores
  exact ⟨hstores.dest_eq dest hdest, hstores.length_eq⟩

/-- The text of the euro sign, of three bytes, and a letter. -/
theorem fstrfromchar_encode_euro :
    fstrfromchar ⟨true, false⟩ (List.replicate 4 7) (encode [0x20AC, 0x61] ++ [])
        (encode [0x20AC, 0x61]).length =
        .ok ([0x20AC, 0x61] ++ (List.replicate ((encode [0x20AC, 0x61]).length - 2) 0 ++
          (List.replicate 4 (7 : FxmyChar)).drop (encode [0x20AC, 0x61]).length)) ∧
      fstrlenfromchar ⟨true, false⟩ (encode [0x20AC, 0x61] ++ []) (encode [0x20AC, 0x61]).length =
        .ok 2 :=
  fstrfromchar_encode ⟨true, false⟩ [] (by decide) (by decide)

/-! ## Other forms -/

/-- The lead of three bytes with a bit changed that the decoder does not look at. -/
def otherLead (b : UInt8) : UInt8 := b ^^^ 0x10

set_option maxRecDepth 4000 in
theorem otherLead_spec (b : UInt8) : 0xE0 ≤ b → 0xE0 ≤ otherLead b ∧ otherLead b ≠ b ∧
    (otherLead b).toUInt16 &&& 0xF = b.toUInt16 &&& 0xF := by
  revert b
  exact forall_byte (by decide)

variable (build) in
/-- With the other lead the character is the same. -/
theorem decodes_otherLead {b : UInt8} (hb : 0xE0 ≤ b) (rest : List UInt8) :
    charWidth build (otherLead b :: rest) = charWidth build (b :: rest) ∧
      charValue (otherLead b :: rest) = charValue (b :: rest) := by
  obtain ⟨ho, -, hlow⟩ := otherLead_spec b hb
  have hne : ∀ a : UInt8, 0xE0 ≤ a → a ≠ 0 ∧ ¬ a < 0x80 := by
    intro a ha
    have hle : 0xE0 ≤ a.toNat := ha
    exact not_ascii (by omega)
  simp only [charWidth, charValue, hne b hb, hne _ ho, hb, ho, if_false, if_true, hlow, and_self]

/-- A character of one byte has a form of two, one of two bytes a form of three, and one of three
bytes another lead. -/
theorem charWidth_cases {b : UInt8} {rest : List UInt8} {w : Nat}
    (hw : charWidth build (b :: rest) = some w) :
    w = 1 ∧ (charValue (b :: rest)).toNat < 0x80 ∧ b < 0x80 ∨
      w = 2 ∧ (charValue (b :: rest)).toNat < 0x800 ∧ b < 0xE0 ∨ w = 3 ∧ 0xE0 ≤ b := by
  by_cases h0 : b = 0
  · rw [h0, charWidth_zero] at hw
    cases hw
  by_cases h1 : b < 0x80
  · rw [charWidth_ascii build rest h0 h1, Option.some.injEq] at hw
    rw [charValue_ascii rest h1, UInt8.toNat_toUInt16]
    exact .inl ⟨hw.symm, h1, h1⟩
  by_cases h3 : 0xE0 ≤ b
  · have hthree : w = 3 := by
      simp only [charWidth, h0, h1, h3, if_false, if_true] at hw
      split at hw
      · split at hw
        · exact (Option.some.inj hw).symm
        · cases hw
      · cases hw
    exact .inr (.inr ⟨hthree, h3⟩)
  · have htwo : w = 2 := by
      simp only [charWidth, h0, h1, h3, if_false] at hw
      split at hw
      · split at hw
        · split at hw
          · exact (Option.some.inj hw).symm
          · cases hw
        · cases hw
      · cases hw
    refine .inr (.inl ⟨htwo, ?_, UInt8.not_le.mp h3⟩)
    simp only [charValue, h1, h3, if_false]
    rw [toNat_two]
    omega

section Other

variable {bytes behind : List UInt8} {cs : List FxmyChar}

/-- Bytes in front of the block's last ones that have been read up to those. -/
theorem Reads.drop_one {b : UInt8} {rest : List UInt8}
    (h : Reads build behind.length ((b :: (rest ++ behind)).drop 2) cs) :
    Reads build behind.length (rest.drop 1 ++ behind) cs := by
  cases rest with
  | nil =>
    obtain rfl : cs = [] := by
      have hlen := h.length_le
      simp only [List.nil_append, List.drop_succ_cons, List.length_drop] at hlen
      exact List.eq_nil_of_length_eq_zero (by omega)
    exact .done (Nat.le_refl _)
  | cons c rest => exact h

/-- A form with another lead, in front of what has been read, is another form of the text. -/
theorem Reads.exists_form {lead b : UInt8} {form tail rest : List UInt8} {c : FxmyChar}
    (h : Reads build behind.length (tail ++ behind) cs)
    (hw : charWidth build (lead :: form ++ (tail ++ behind)) = some (lead :: form).length)
    (hv : charValue (lead :: form ++ (tail ++ behind)) = c) (hform : 0 ∉ lead :: form)
    (htail : 0 ∉ tail) (hlead : lead ≠ b) :
    ∃ bytes', 0 ∉ bytes' ∧ bytes' ≠ b :: rest ∧
      Reads build behind.length (bytes' ++ behind) (c :: cs) := by
  refine ⟨lead :: form ++ tail, ?_, fun heq => hlead (List.cons.inj heq).1, ?_⟩
  · exact fun hmem => (List.mem_append.mp hmem).elim hform htail
  · rw [List.append_assoc]
    exact .form hw hv (by simp) h

/-- **Every text has another form**, unless it is empty. -/
theorem Reads.exists_other (h : Reads build behind.length (bytes ++ behind) cs) (hne : bytes ≠ [])
    (h0 : 0 ∉ bytes) :
    ∃ bytes', 0 ∉ bytes' ∧ bytes' ≠ bytes ∧ Reads build behind.length (bytes' ++ behind) cs := by
  cases bytes with
  | nil => exact absurd rfl hne
  | cons b rest =>
    have hrest : 0 ∉ rest := fun h => h0 (List.mem_cons_of_mem b h)
    rw [List.cons_append] at h
    cases h with
    | done h =>
      rw [List.length_cons, List.length_append] at h
      omega
    | @char _ w cs hmore hw hread =>
      rcases charWidth_cases hw with ⟨rfl, hvalue, hb⟩ | ⟨rfl, hvalue, hb⟩ | ⟨rfl, hb⟩
      · -- The same character in two bytes.
        obtain ⟨lead, c, heq, hlead, -⟩ := twoBytes_eq (charValue (b :: (rest ++ behind))).toNat
        obtain ⟨hw', hv'⟩ := decodes_twoBytes build (rest ++ behind)
          (Nat.lt_trans hvalue (by decide))
        have hform := zero_not_mem_twoBytes (charValue (b :: (rest ++ behind))).toNat
        have hne : lead ≠ b := by
          rintro rfl
          have : lead.toNat < 0x80 := hb
          omega
        rw [heq] at hw' hv' hform
        exact hread.exists_form hw' hv' hform hrest hne
      · -- The same character in three bytes.
        obtain ⟨lead, c, d, heq, hlead, -⟩ :=
          threeBytes_eq (charValue (b :: (rest ++ behind))).toNat
        obtain ⟨hw', hv'⟩ := decodes_threeBytes build (rest.drop 1 ++ behind)
          (charValue (b :: (rest ++ behind)))
        have hform := zero_not_mem_threeBytes (charValue (b :: (rest ++ behind))).toNat
        have hne : lead ≠ b := by
          rintro rfl
          have : lead.toNat < 0xE0 := hb
          omega
        rw [heq] at hw' hv' hform
        exact hread.drop_one.exists_form hw' hv' hform (fun h => hrest (List.mem_of_mem_drop h)) hne
      · -- The other lead.
        obtain ⟨hw', hv'⟩ := decodes_otherLead build hb (rest ++ behind)
        obtain ⟨hlead, hne', -⟩ := otherLead_spec b hb
        refine ⟨otherLead b :: rest, ?_, fun h => hne' (List.cons.inj h).1, ?_⟩
        · refine fun h => (List.mem_cons.mp h).elim (fun h => ?_) hrest
          rw [← h] at hlead
          exact absurd hlead (by decide)
        · rw [← hv']
          exact .char hmore (hw'.trans hw) hread

end Other

/-- **Only the empty text has one form.** -/
theorem stores_unique_iff (build : Build) {behind bytes : List UInt8} {cs : List FxmyChar}
    (h0 : 0 ∉ bytes) (h : Stores build behind bytes cs) :
    (∀ bytes' cs', 0 ∉ bytes' → Stores build behind bytes' cs' → bytes' ≠ bytes → cs' ≠ cs) ↔
      bytes = [] := by
  constructor
  · intro halone
    refine Classical.byContradiction fun hne => ?_
    obtain ⟨bytes', h0', hne', h'⟩ := (stores_iff_reads.mp h).exists_other hne h0
    exact halone bytes' cs h0' h'.stores hne' rfl
  · rintro rfl bytes' cs' - h' hne rfl
    have hempty := (stores_iff_reads.mp h).length_le
    rw [List.nil_append, Nat.sub_self, Nat.le_zero, List.length_eq_zero_iff] at hempty
    subst hempty
    have hread := stores_iff_reads.mp h'
    cases hread with
    | done hdone =>
      rw [List.length_append] at hdone
      exact hne (List.eq_nil_of_length_eq_zero (by omega))

/-- A quote has a form of two bytes. -/
theorem quote_of_two_bytes :
    ¬ ∀ build behind bytes bytes' cs cs', 0 ∉ bytes → 0 ∉ bytes' → Stores build behind bytes cs →
      Stores build behind bytes' cs' → bytes ≠ bytes' → cs ≠ cs' := by
  intro h
  have hone : Stores ⟨false, false⟩ [0] [0x27] [0x27] :=
    Reads.stores (.char (by decide) rfl (.done (by decide)))
  have htwo : Stores ⟨false, false⟩ [0] [0xC0, 0xA7] [0x27] :=
    Reads.stores (.char (by decide) rfl (.done (by decide)))
  exact h _ _ _ _ _ _ (by decide) (by decide) hone htwo (by decide) rfl

theorem stores_unique_quote :
    (∀ bytes' cs', 0 ∉ bytes' → Stores ⟨true, false⟩ [0] bytes' cs' → bytes' ≠ [0x27] →
      cs' ≠ [0x27]) ↔ ([0x27] : List UInt8) = [] :=
  stores_unique_iff ⟨true, false⟩ (by decide)
    (Reads.stores (.char (by decide) rfl (.done (by decide))))

end Fxmy
