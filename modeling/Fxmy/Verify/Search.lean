import Mathlib.Order.Bounds.Basic
import Mathlib.Order.Nat
import Fxmy.Query

/-!
# Searching a text for a word

A terminated block is `text ++ nul :: rest`, where `text` has no NUL. `FXMY_STRISTR_BODY` returns the
first position of the haystack at which the folded needle stands (`stristr_leftmost`), for every
character type and every folding that keeps the terminator apart. So `fxmy_fstristr` finds a word in
a text exactly if the folded word occurs in the folded text (`mentions_iff`).
-/

namespace Fxmy

section Search

variable {α : Type} (lower : α → α)

/-- The needle stands at position `i` of the text, whatever the case of the letters. -/
def MatchesAt (needle text : List α) (i : Nat) : Prop :=
  i ≤ text.length ∧ needle.map lower <+: (text.drop i).map lower

variable {lower} {needle text : List α}

theorem matchesAt_zero : MatchesAt lower needle text 0 ↔ needle.map lower <+: text.map lower :=
  ⟨fun h => h.2, fun h => ⟨Nat.zero_le _, h⟩⟩

theorem matchesAt_cons_succ {c : α} {i : Nat} :
    MatchesAt lower needle (c :: text) (i + 1) ↔ MatchesAt lower needle text i := by
  unfold MatchesAt
  rw [List.length_cons, Nat.add_le_add_iff_right, List.drop_succ_cons]

/-- The needle stands somewhere exactly if it is an infix. -/
theorem exists_matchesAt : (∃ i, MatchesAt lower needle text i) ↔
    needle.map lower <:+: text.map lower := by
  induction text with
  | nil =>
    rw [List.map_nil, List.infix_nil]
    constructor
    · rintro ⟨i, -, h⟩
      simpa using h
    · intro h
      exact ⟨0, matchesAt_zero.mpr (by simp [h])⟩
  | cons c text ih =>
    rw [List.map_cons, List.infix_cons_iff, ← ih, ← List.map_cons, ← matchesAt_zero]
    constructor
    · rintro ⟨_ | i, h⟩
      · exact .inl h
      · exact .inr ⟨i, matchesAt_cons_succ.mp h⟩
    · rintro (h | ⟨i, h⟩)
      · exact ⟨0, h⟩
      · exact ⟨i + 1, matchesAt_cons_succ.mpr h⟩

theorem isLeast_zero {P : Nat → Prop} (h : P 0) (i : Nat) :
    some 0 = some i ↔ IsLeast {i | P i} i := by
  have hleast : IsLeast {i | P i} 0 := ⟨h, fun _ _ => Nat.zero_le _⟩
  rw [Option.some.injEq]
  exact ⟨fun hi => hi ▸ hleast, fun hi => IsLeast.unique hleast hi⟩

theorem isLeast_succ {P : Nat → Prop} (h : ¬ P 0) {found : Option Nat}
    (hfound : ∀ i, found = some i ↔ IsLeast {i | P (i + 1)} i) (i : Nat) :
    found.map (· + 1) = some i ↔ IsLeast {i | P i} i := by
  rw [Option.map_eq_some_iff]
  constructor
  · rintro ⟨j, hj, rfl⟩
    obtain ⟨hmem, hlow⟩ := (hfound j).mp hj
    refine ⟨hmem, ?_⟩
    rintro (_ | k) hk
    · exact absurd hk h
    · exact Nat.succ_le_succ (hlow hk)
  · rintro ⟨hmem, hlow⟩
    cases i with
    | zero => exact absurd hmem h
    | succ j =>
      exact ⟨j, (hfound j).mpr ⟨hmem, fun k hk => Nat.le_of_succ_le_succ (hlow hk)⟩, rfl⟩

/-- A search for the least position returns nothing exactly if there is none. -/
theorem eq_none_iff_of_isLeast {P : Nat → Prop} {found : Option Nat}
    (h : ∀ i, found = some i ↔ IsLeast {i | P i} i) : found = none ↔ ∀ i, ¬ P i := by
  classical
  constructor
  · rintro rfl i hi
    exact nomatch (h _).mpr (Nat.isLeast_find ⟨i, hi⟩)
  · intro hnone
    exact Option.eq_none_iff_forall_ne_some.mpr fun i hi => hnone i ((h i).mp hi).1

variable [CodeUnit α] [DecidableEq α] (hlower : ∀ c, lower c = nul ↔ c = nul) (hn : nul ∉ needle)
  (rest rest' : List α)
include hlower hn

/-- The inner loop compares the needle with the front of the text, by induction on the needle. It
reads neither behind the text's terminator nor behind the needle's. -/
theorem matchHere_iff (ht : nul ∉ text) :
    ∃ b, matchHere lower (text ++ nul :: rest) (needle ++ nul :: rest') = .ok b ∧
      (b = true ↔ needle.map lower <+: text.map lower) := by
  have hlow : lower nul = nul := (hlower nul).mpr rfl
  induction needle generalizing text with
  | nil =>
    refine ⟨true, ?_, by simp⟩
    cases text with
    | nil => simp [matchHere]
    | cons c text =>
      have hc : c ≠ nul := fun h => ht (h ▸ List.mem_cons_self)
      have hne : lower c ≠ nul := fun h => hc ((hlower c).mp h)
      simp [matchHere, hlow, hne]
  | cons n needle ih =>
    have hn' : n ≠ nul := fun h => hn (h ▸ List.mem_cons_self)
    have hne : lower n ≠ nul := fun h => hn' ((hlower n).mp h)
    cases text with
    | nil =>
      refine ⟨false, ?_, by simp⟩
      simp [matchHere, hlow, Ne.symm hne, hn']
    | cons c text =>
      have hc : c ≠ nul := fun h => ht (h ▸ List.mem_cons_self)
      by_cases heq : lower c = lower n
      · obtain ⟨b, hb, hiff⟩ := ih (fun h => hn (List.mem_cons_of_mem _ h))
          (fun h => ht (List.mem_cons_of_mem _ h))
        refine ⟨b, ?_, ?_⟩
        · simp only [List.cons_append, matchHere, heq, if_true, hc, if_false]
          exact hb
        · rw [hiff, List.map_cons, List.map_cons, List.cons_prefix_cons]
          exact ⟨fun h => ⟨heq.symm, h⟩, fun h => h.2⟩
      · refine ⟨false, ?_, ?_⟩
        · simp [matchHere, heq, hn']
        · rw [List.map_cons, List.map_cons, List.cons_prefix_cons]
          exact ⟨fun h => absurd h Bool.false_ne_true, fun h => absurd h.1.symm heq⟩

/-- The outer loop tries every position of the text from the first on, the terminator's included. -/
theorem stristrLoop_isLeast (ht : nul ∉ text) : ∃ found : Option Nat,
    stristrLoop lower (needle ++ nul :: rest') (text ++ nul :: rest) =
      .ok (found.map fun i => text.drop i ++ nul :: rest) ∧
    ∀ i, found = some i ↔ IsLeast {i | MatchesAt lower needle text i} i := by
  induction text with
  | nil =>
    obtain ⟨b, hb, hiff⟩ := matchHere_iff hlower hn rest rest' ht
    rw [← matchesAt_zero] at hiff
    rw [List.nil_append] at hb ⊢
    rw [stristrLoop, hb, Exec.except_bind_ok]
    cases b with
    | true => exact ⟨some 0, rfl, isLeast_zero (hiff.mp rfl)⟩
    | false =>
      refine ⟨none, by simp, fun i => iff_of_false nofun ?_⟩
      rintro ⟨hi, -⟩
      obtain rfl : i = 0 := Nat.le_zero.mp hi.1
      exact Bool.false_ne_true (hiff.mpr hi)
  | cons c text ih =>
    have hc : c ≠ nul := fun h => ht (h ▸ List.mem_cons_self)
    obtain ⟨b, hb, hiff⟩ := matchHere_iff hlower hn rest rest' ht
    rw [← matchesAt_zero] at hiff
    rw [List.cons_append] at hb ⊢
    rw [stristrLoop, hb, Exec.except_bind_ok]
    cases b with
    | true => exact ⟨some 0, rfl, isLeast_zero (hiff.mp rfl)⟩
    | false =>
      obtain ⟨found, hf, hleast⟩ := ih fun h => ht (List.mem_cons_of_mem _ h)
      have hleast' : ∀ i, found = some i ↔
          IsLeast {i | MatchesAt lower needle (c :: text) (i + 1)} i := by
        simpa only [matchesAt_cons_succ] using hleast
      refine ⟨found.map (· + 1), ?_, isLeast_succ (by simpa using hiff) hleast'⟩
      rw [if_neg Bool.false_ne_true, if_neg hc, hf, Option.map_map]
      rfl

/-- **What `FXMY_STRISTR_BODY` returns**: the first position at which the needle stands, or NULL if
there is none. -/
theorem stristr_leftmost (ht : nul ∉ text) : ∃ found : Option Nat,
    stristr lower (some (text ++ nul :: rest)) (some (needle ++ nul :: rest')) =
      .ok (found.map fun i => text.drop i ++ nul :: rest) ∧
    (∀ i, found = some i ↔ IsLeast {i | MatchesAt lower needle text i} i) ∧
    (found = none ↔ ∀ i, ¬ MatchesAt lower needle text i) ∧ (needle = [] → found = some 0) := by
  obtain ⟨found, hf, hleast⟩ := stristrLoop_isLeast hlower hn rest rest' ht
  refine ⟨found, hf, hleast, eq_none_iff_of_isLeast hleast, ?_⟩
  rintro rfl
  exact (hleast 0).mpr ⟨matchesAt_zero.mpr List.nil_prefix, fun _ _ => Nat.zero_le _⟩

end Search

theorem stristr_leftmost_limit : ∃ found : Option Nat,
    stristr lowerC (some (chars "SELECT a LIMIT 5" ++ [nul])) (some (chars "limit" ++ [nul])) =
      .ok (found.map fun i => (chars "SELECT a LIMIT 5").drop i ++ [nul]) ∧
    (∀ i, found = some i ↔
      IsLeast {i | MatchesAt lowerC (chars "limit") (chars "SELECT a LIMIT 5") i} i) ∧
    (found = none ↔ ∀ i, ¬ MatchesAt lowerC (chars "limit") (chars "SELECT a LIMIT 5") i) ∧
    (chars "limit" = ([] : List FxmyChar) → found = some 0) :=
  stristr_leftmost cLocale.lower_eq_nul (by decide) [] [] (by decide)

/-! ## Words of the program -/

variable (ct : Ctype FxmyChar)

/-- The word occurs in the text, whatever the case of the letters. -/
def Occurs (word : String) (text : List FxmyChar) : Prop :=
  (chars word).map ct.lower <:+: text.map ct.lower

theorem not_occurs_of_not_mem {word : String} {text : List FxmyChar} {c : FxmyChar}
    (hc : c ∈ chars word) (h : ct.lower c ∉ text.map ct.lower) : ¬ Occurs ct word text :=
  fun hword => h (hword.subset (List.mem_map_of_mem hc))

/-- **What the search finds.** -/
theorem mentions_iff (word : String) (hword : (nul : FxmyChar) ∉ chars word)
    {text : List FxmyChar} (ht : nul ∉ text) (rest : List FxmyChar) :
    ∃ b, mentions ct (text ++ nul :: rest) word = .ok b ∧ (b = true ↔ Occurs ct word text) := by
  obtain ⟨found, hf, hleast⟩ := stristrLoop_isLeast ct.lower_eq_nul hword rest [] ht
  refine ⟨found.isSome, ?_, ?_⟩
  · unfold mentions fstristr stristr cstring
    simp only [hf, Exec.except_bind_ok, Option.isSome_map]
  · have hnone := eq_none_iff_of_isLeast hleast
    unfold Occurs
    rw [← exists_matchesAt, Option.isSome_iff_ne_none, ne_eq, hnone, not_forall_not]

end Fxmy
