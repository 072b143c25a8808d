import Fxmy.String

/-!
# Escaped literals

`FXMY_FIND_END_OF_STRING_BODY` remembers one character, so it takes a quote behind a backslash for an
escaped one even where the backslash is escaped itself. Of a text whose quotes and backslashes are
escaped it finds the end exactly if the text does not end in a backslash, or nothing follows
(`findEndOfString_escape_iff`).
-/

namespace Fxmy

variable {α : Type} [CodeUnit α] [DecidableEq α]

/-- The content of a literal in quotes `q`: a backslash before each backslash and each quote. -/
def escape (q : α) (content : List α) : List α :=
  content.flatMap fun c => if c = C '\\' ∨ c = q then [C '\\', c] else [c]

theorem escape_cons (q c : α) (content : List α) :
    escape q (c :: content) =
      (if c = C '\\' ∨ c = q then [C '\\', c] else [c]) ++ escape q content := rfl

section Loop

variable {q prev : α} {p : List α}

theorem findEndLoop_nul (rest : List α) : findEndLoop q prev (nul :: rest) = .ok (nul :: rest) :=
  if_pos rfl

theorem findEndLoop_skip {c : α} (hc : c ≠ nul) (h : ¬ (c = q ∧ prev ≠ C '\\')) :
    findEndLoop q prev (c :: p) = findEndLoop q c p := by
  rw [findEndLoop, if_neg hc, if_neg h]

theorem findEndLoop_close (hq : q ≠ nul) (h : prev ≠ C '\\') :
    findEndLoop q prev (q :: p) = .ok p := by
  rw [findEndLoop, if_neg hq, if_pos ⟨rfl, h⟩]

/-- No quote of the escaped content is taken for the end, by induction on the content; the loop
leaves it with its last character. -/
theorem findEndLoop_escape (hesc : q ≠ C '\\') {content : List α} (hc : nul ∉ content) :
    findEndLoop q prev (escape q content ++ p) =
      findEndLoop q (content.getLast?.getD prev) p := by
  induction content generalizing prev with
  | nil => rfl
  | cons c content ih =>
    have hne : c ≠ nul := fun h => hc (h ▸ List.mem_cons_self)
    have hslash : (C '\\' : α) ≠ nul := C_ne (by decide) (by decide) (by decide)
    have hlast : (c :: content).getLast?.getD prev = content.getLast?.getD c := by
      rw [List.getLast?_cons, Option.getD_some]
    rw [escape_cons, hlast, List.append_assoc, ← ih fun h => hc (List.mem_cons_of_mem c h)]
    by_cases hspecial : c = C '\\' ∨ c = q
    · rw [if_pos hspecial]
      have hfirst : ¬ ((C '\\' : α) = q ∧ prev ≠ C '\\') := fun h => hesc h.1.symm
      exact (findEndLoop_skip hslash hfirst).trans (findEndLoop_skip hne fun h => h.2 rfl)
    · rw [if_neg hspecial]
      exact findEndLoop_skip hne fun h => hspecial (.inr h.1)

theorem findEndLoop_length_le {stop : List α} (h : findEndLoop q prev p = .ok stop) :
    stop.length ≤ p.length := by
  induction p generalizing prev with
  | nil => cases h
  | cons c p ih =>
    unfold findEndLoop at h
    split at h
    · cases h
      exact Nat.le_refl _
    · split at h
      · cases h
        exact Nat.le_succ _
      · exact Nat.le_succ_of_le (ih h)

/-- In front of a text the loop stops where it stands only if the text is empty. -/
theorem findEndLoop_stays {rest : List α} (hr : nul ∉ rest) (tail : List α) :
    findEndLoop q prev (rest ++ nul :: tail) = .ok (rest ++ nul :: tail) ↔ rest = [] := by
  constructor
  · intro h
    cases rest with
    | nil => rfl
    | cons c rest =>
      exfalso
      have hne : c ≠ nul := fun h => hr (h ▸ List.mem_cons_self)
      rw [List.cons_append, findEndLoop, if_neg hne] at h
      have hle : (c :: (rest ++ nul :: tail)).length ≤ (rest ++ nul :: tail).length := by
        split at h
        · rw [Except.ok.injEq] at h
          exact Nat.le_of_eq (congrArg List.length h).symm
        · exact findEndLoop_length_le h
      exact Nat.not_succ_le_self _ hle
  · rintro rfl
    exact findEndLoop_nul tail

end Loop

/-- **The end of an escaped literal** is found exactly if the content does not end in a backslash, or
nothing follows the literal. -/
theorem findEndOfString_escape_iff {q : α} (hq : q = C '\'' ∨ q = C '"') {content rest : List α}
    (hc : nul ∉ content) (hr : nul ∉ rest) (tail : List α) :
    findEndOfString (q :: (escape q content ++ q :: (rest ++ nul :: tail))) q =
        .ok (rest ++ nul :: tail) ↔
      content.getLast? ≠ some (C '\\') ∨ rest = [] := by
  have hne : ∀ d : Char, d.toNat < 128 → d ≠ '\'' → d ≠ '"' → q ≠ C d := by
    intro d hd h₁ h₂
    rcases hq with rfl | rfl
    · exact C_ne (by decide) hd h₁.symm
    · exact C_ne (by decide) hd h₂.symm
  have hesc : q ≠ C '\\' := hne '\\' (by decide) (by decide) (by decide)
  have hnul : q ≠ nul := hne (Char.ofNat 0) (by decide) (by decide) (by decide)
  rw [findEndOfString, findEndLoop_escape hesc hc]
  by_cases hlast : content.getLast? = some (C '\\')
  · -- The closing quote is taken for an escaped one.
    rw [hlast, Option.getD_some, findEndLoop_skip hnul fun h => h.2 rfl, findEndLoop_stays hr]
    simp
  · have hprev : content.getLast?.getD q ≠ C '\\' := by
      cases hcase : content.getLast? with
      | none => exact hesc
      | some c => exact fun h => hlast (by rw [hcase, ← h, Option.getD_some])
    rw [findEndLoop_close hnul hprev]
    exact iff_of_true rfl (.inl hlast)

/-- A literal with one backslash, and a comma behind it. -/
theorem backslash_literal_not_ended : ¬ ∀ (q : FxmyChar) (content rest tail : List FxmyChar),
    q = C '\'' ∨ q = C '"' → nul ∉ content → nul ∉ rest →
      findEndOfString (q :: (escape q content ++ q :: (rest ++ nul :: tail))) q =
        .ok (rest ++ nul :: tail) := by
  intro h
  have hend := h (C '\'') [C '\\'] [C ','] [] (.inl rfl) (by decide) (by decide)
  exact absurd (congrArg Except.toOption hend) (by decide)

theorem findEndOfString_escape_quotes :
    findEndOfString (C '\'' :: (escape (C '\'') (chars "it's") ++ C '\'' :: (chars ", 5" ++ [nul])))
        (C '\'' : FxmyChar) = .ok (chars ", 5" ++ nul :: []) ↔
      (chars "it's").getLast? ≠ some (C '\\' : FxmyChar) ∨ (chars ", 5" : List FxmyChar) = [] :=
  findEndOfString_escape_iff (.inl rfl) (by decide) (by decide) []

end Fxmy
