/-!
# Dialogues

A program that makes calls and is answered, where an answer may depend on the calls before it.
`Talks` says which calls were made between two points, with their answers; there is only one such
dialogue (`Talks.answered_eq`), and dialogues in a row are one (`Talks.append`).
-/

namespace Dialogue

universe u v

variable {κ : Type u} {ρ : Type v} {oracle : List κ → κ → ρ}

/-- The calls of a list with their answers, after the calls `before`. -/
def answered (oracle : List κ → κ → ρ) : List κ → List κ → List (κ × ρ)
  | _, [] => []
  | before, call :: made => (call, oracle before call) :: answered oracle (before ++ [call]) made

/-- Every call is answered. -/
theorem exists_mem_answered (oracle : List κ → κ → ρ) (before : List κ) {call : κ} {made : List κ}
    (h : call ∈ made) :
    ∃ earlier, (call, oracle earlier call) ∈ answered oracle before made := by
  induction made generalizing before with
  | nil => cases h
  | cons first made ih =>
    rcases List.mem_cons.mp h with rfl | h
    · exact ⟨before, List.mem_cons_self⟩
    · obtain ⟨earlier, hmem⟩ := ih (before ++ [first]) h
      exact ⟨earlier, List.mem_cons_of_mem _ hmem⟩

/-- Between `before` and `after` the calls of `talk` were made, with these answers. -/
inductive Talks (oracle : List κ → κ → ρ) : List κ → List (κ × ρ) → List κ → Prop where
  | nil (before : List κ) : Talks oracle before [] before
  | cons {before : List κ} {call : κ} {talk : List (κ × ρ)} {after : List κ} :
      Talks oracle (before ++ [call]) talk after →
      Talks oracle before ((call, oracle before call) :: talk) after

theorem Talks.append {before between after : List κ} {talk talk' : List (κ × ρ)}
    (h : Talks oracle before talk between) (h' : Talks oracle between talk' after) :
    Talks oracle before (talk ++ talk') after := by
  induction h with
  | nil => exact h'
  | cons _ ih => exact .cons (ih h')

theorem Talks.after_eq {before after : List κ} {talk : List (κ × ρ)}
    (h : Talks oracle before talk after) : after = before ++ talk.map Prod.fst := by
  induction h with
  | nil => exact (List.append_nil _).symm
  | cons _ ih => rw [ih, List.append_assoc, List.map_cons, List.singleton_append]

theorem Talks.answered_map {before after : List κ} {talk : List (κ × ρ)}
    (h : Talks oracle before talk after) : answered oracle before (talk.map Prod.fst) = talk := by
  induction h with
  | nil => rfl
  | cons _ ih => rw [List.map_cons, answered, ih]

/-- **The dialogue** is read off the calls. -/
theorem Talks.answered_eq {before after : List κ} {talk : List (κ × ρ)}
    (h : Talks oracle before talk after) :
    answered oracle before (after.drop before.length) = talk := by
  rw [h.after_eq, List.drop_left, h.answered_map]

end Dialogue
