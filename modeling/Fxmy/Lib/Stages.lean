import Mathlib.Data.List.Forall2

/-!
# Stages

A machine that goes through a list of stages while events come in, and leaves a stage at the first event
that passes it. It has come to the end when some of the events pass all stages in order
(`List.SublistForall₂`), and it is `InTime` if no event finds it there.
-/

namespace Stages

universe u v

variable {σ : Type u} {ε : Type v}

/-- The event `e` passes the stage `s`. -/
abbrev Passed (passes : σ → ε → Bool) (s : σ) (e : ε) : Prop := passes s e = true

/-- The stages left after an event. -/
def step (passes : σ → ε → Bool) : List σ → ε → List σ
  | [], _ => []
  | s :: stages, e => if passes s e then stages else s :: stages

/-- No event comes after events that pass all stages. -/
def InTime (passes : σ → ε → Bool) (stages : List σ) (events : List ε) : Prop :=
  ∀ before e, before ++ [e] <+: events → ¬ List.SublistForall₂ (Passed passes) stages before

variable {passes : σ → ε → Bool} {stages : List σ} {e : ε} {events : List ε}

/-- Events that pass all stages pass all but the first. -/
theorem passed_tail {s : σ} (h : List.SublistForall₂ (Passed passes) (s :: stages) events) :
    List.SublistForall₂ (Passed passes) stages events := by
  induction events with
  | nil => cases h
  | cons e events ih =>
    cases h with
    | cons _ hrest => exact .cons_right hrest
    | cons_right hrest => exact .cons_right (ih hrest)

/-- It loses nothing to leave a stage as early as possible. -/
theorem passed_cons : List.SublistForall₂ (Passed passes) stages (e :: events) ↔
    List.SublistForall₂ (Passed passes) (step passes stages e) events := by
  cases stages with
  | nil => exact iff_of_true .nil .nil
  | cons s stages =>
    by_cases hpass : passes s e = true
    · rw [step, if_pos hpass]
      constructor
      · intro h
        cases h with
        | cons _ hrest => exact hrest
        | cons_right hrest => exact passed_tail hrest
      · exact fun h => .cons hpass h
    · rw [step, if_neg hpass]
      constructor
      · intro h
        cases h with
        | cons hpass' _ => exact absurd hpass' hpass
        | cons_right hrest => exact hrest
      · exact fun h => .cons_right h

theorem inTime_nil : InTime passes stages [] := by
  intro before e h
  exact absurd (List.prefix_nil.mp h) (List.append_ne_nil_of_right_ne_nil _ (List.cons_ne_nil e []))

/-- The first event finds a stage, and the others come in time for those it leaves. -/
theorem inTime_cons :
    InTime passes stages (e :: events) ↔ stages ≠ [] ∧ InTime passes (step passes stages e) events := by
  constructor
  · intro h
    refine ⟨?_, fun before e' hbefore => ?_⟩
    · rintro rfl
      exact h [] e (List.prefix_append [e] events) .nil
    · rw [← passed_cons]
      exact h (e :: before) e' (List.cons_prefix_cons.mpr ⟨rfl, hbefore⟩)
  · rintro ⟨hne, h⟩ before e' hbefore hpassed
    cases before with
    | nil =>
      cases hpassed
      exact hne rfl
    | cons first before =>
      obtain ⟨rfl, hrest⟩ := List.cons_prefix_cons.mp hbefore
      exact h before e' hrest (passed_cons.mp hpassed)

end Stages
