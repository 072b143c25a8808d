import Fxmy.Verify.Limit

/-!
# What the moves touch

The three moves of `fxmy_rearrange_limit` stay inside the text, and so leave its terminator alone,
exactly if the inserted text ends inside it (`staysInside_iff`). Nothing tests that: a LIMIT that is
abbreviated, or one whose count stands close behind it, at the end of a short text, is narrower than
what is inserted.
-/

namespace Fxmy

variable {ct : Ctype FxmyChar} {text rest : List FxmyChar}

/-- The moves read and write only the text in front of the terminator; the terminator stays where it
was, and no other comes in front of it. -/
def LimitClause.StaysInside (clause : LimitClause ct (text ++ nul :: rest)) : Prop :=
  ∃ moved, moveClause text clause.before.length (clause.before.length + clause.body.length)
      clause.removed.length clause.count.text = some moved ∧
    rearrangeLimit ct (text ++ nul :: rest) = .ok (0, moved ++ nul :: rest) ∧
    moved.length = text.length ∧ nul ∉ moved

theorem length_shiftedText (body removed behind : List FxmyChar) :
    (shiftedText body removed behind).length = removed.length + (body.length + behind.length) := by
  simp only [shiftedText, List.length_append, List.length_take]
  omega

/-- Moves that stay inside a text leave its length alone, and what stands behind it. -/
theorem moveClause_text (before body removed after number : List FxmyChar)
    (hroom : (insertedText number).length ≤ (shiftedText body removed after).length) :
    ∃ moved, (∀ rest, moveClause (before ++ (body ++ (removed ++ (after ++ rest)))) before.length
        (before.length + body.length) removed.length number = some (moved ++ rest)) ∧
      moved.length = (before ++ (body ++ (removed ++ after))).length ∧
      ∀ c ∈ moved, c ∈ before ++ (body ++ (removed ++ after)) ∨ c ∈ insertedText number := by
  refine ⟨before ++ (insertedText number ++
    (shiftedText body removed after).drop (insertedText number).length), fun rest => ?_, ?_, ?_⟩
  · have hshifted : shiftedText body removed (after ++ rest) =
        shiftedText body removed after ++ rest := by simp [shiftedText]
    have hroom' : (insertedText number).length ≤
        (shiftedText body removed (after ++ rest)).length := by
      rw [hshifted, List.length_append]
      omega
    rw [moveClause_append, if_pos hroom', hshifted, List.drop_append_of_le_length hroom]
    simp only [List.append_assoc]
  · have hlen := length_shiftedText body removed after
    simp only [List.length_append, List.length_drop]
    omega
  · intro c hc
    rcases List.mem_append.mp hc with hc | hc
    · exact .inl (List.mem_append_left _ hc)
    rcases List.mem_append.mp hc with hc | hc
    · exact .inr hc
    rcases List.mem_append.mp (List.mem_of_mem_drop hc) with hc | hc
    · have hold := List.mem_of_mem_take hc
      refine .inl ?_
      simp only [List.mem_append] at hold ⊢
      rcases hold with h | h
      · exact .inr (.inl h)
      · exact .inr (.inr (.inl h))
    · refine .inl ?_
      simp only [List.mem_append] at hc ⊢
      rcases hc with h | h
      · exact .inr (.inl h)
      · exact .inr (.inr (.inr h))

/-- **The moves stay inside the text** exactly if the inserted text does: from the first token behind
the SELECT on there are at least six characters more than the count has. -/
theorem staysInside_iff (ht : nul ∉ text) (clause : LimitClause ct (text ++ nul :: rest)) :
    clause.StaysInside ↔ clause.before.length + clause.count.text.length + 6 ≤ text.length := by
  obtain ⟨after, htext, -⟩ := clause.text_eq
  have hlen := congrArg List.length htext
  simp only [List.length_append] at hlen
  have hshifted := length_shiftedText clause.body clause.removed after
  have hinserted := length_insertedText clause.count.text
  constructor
  · rintro ⟨moved, hmoved, -⟩
    refine Nat.le_of_not_lt fun hshort => ?_
    have hrefused := (congrArg (moveClause · _ _ _ _) htext).trans
      (moveClause_append _ _ _ _ clause.count.text)
    rw [if_neg (by omega)] at hrefused
    cases hmoved.symm.trans hrefused
  · intro hroom
    obtain ⟨moved, hmoves, hmoved, hmem⟩ :=
      moveClause_text clause.before clause.body clause.removed after clause.count.text (by omega)
    have hmove : ∀ rest, moveClause (text ++ rest) clause.before.length
        (clause.before.length + clause.body.length) clause.removed.length clause.count.text =
          some (moved ++ rest) := by
      intro rest
      have hsplit : text ++ rest =
          clause.before ++ (clause.body ++ (clause.removed ++ (after ++ rest))) :=
        (congrArg (· ++ rest) htext).trans (by simp only [List.append_assoc])
      exact (congrArg (moveClause · _ _ _ _) hsplit).trans (hmoves rest)
    refine ⟨moved, by simpa using hmove [], ?_, hmoved.trans (congrArg _ htext.symm), fun h => ?_⟩
    · rw [clause.rearrangeLimit_eq_moveClause, hmove]
    · rcases hmem nul h with h | h
      · exact ht (htext ▸ h)
      · exact nul_not_mem_insertedText clause.isToken_count.nul_not_mem h

/-- A LIMIT that is abbreviated, at the end of a short text. -/
def abbreviatedClause : LimitClause cLocale (chars "SELECT a L 5" ++ nul :: []) where
  pre := []
  select := ⟨[], chars "SELECT"⟩
  mid := [⟨chars " ", chars "a"⟩]
  limit := ⟨chars " ", chars "L"⟩
  count := ⟨chars " ", chars "5"⟩
  behind := [nul]
  yields := .token ⟨[], chars "SELECT"⟩ rfl (.token ⟨chars " ", chars "a"⟩ rfl
    (.token ⟨chars " ", chars "L"⟩ rfl (.token ⟨chars " ", chars "5"⟩ rfl (.done _))))
  pre_not_select := nothing_selects
  select_abbreviates := select_abbreviates_select
  not_limit := selectClause.not_limit
  limit_abbreviates := ⟨(chars "IMIT").map cLocale.lower, rfl⟩

theorem moves_leave_text : ¬ ∀ (ct : Ctype FxmyChar) (text rest : List FxmyChar), nul ∉ text →
    ∀ clause : LimitClause ct (text ++ nul :: rest), clause.StaysInside := by
  intro h
  obtain ⟨moved, hmoved, -⟩ := h cLocale (chars "SELECT a L 5") [] (by decide) abbreviatedClause
  exact nomatch hmoved.symm.trans (show _ = none from rfl)

theorem staysInside_select : selectClause.StaysInside ↔
    selectClause.before.length + selectClause.count.text.length + 6 ≤
      (chars "SELECT a LIMIT 5" : List FxmyChar).length :=
  staysInside_iff (by decide) selectClause

end Fxmy
