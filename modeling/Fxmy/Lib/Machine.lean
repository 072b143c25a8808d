import Fxmy.Lib.Exec

/-!
# Machines

A machine takes actions one after another and may stop at one (`run`). What every step keeps, a run
keeps (`run_keeps`), and what is said of a run may be said of its actions too (`run_induction`). A run
that stops does so at one of its actions (`exists_of_run_error`). What happens in a run happens at some
of its moments (`moments`).
-/

namespace Machine

universe u v

variable {σ ε : Type u} {α : Type v}

/-- The actions in order, up to the first that stops the machine. -/
def run (step : σ → α → Except ε σ) : σ → List α → Except ε σ
  | s, [] => .ok s
  | s, a :: actions => do
    let s ← step s a
    run step s actions

variable {step : σ → α → Except ε σ}

theorem run_append (s : σ) (actions later : List α) :
    run step s (actions ++ later) = (run step s actions >>= fun s => run step s later) := by
  induction actions generalizing s with
  | nil => rfl
  | cons a actions ih =>
    rw [List.cons_append, run, run]
    cases step s a with
    | error e => rfl
    | ok s' => exact ih s'

theorem run_concat {s s' : σ} {actions : List α} {a : α} :
    run step s (actions ++ [a]) = .ok s' ↔ ∃ s₁, run step s actions = .ok s₁ ∧ step s₁ a = .ok s' := by
  rw [run_append, Exec.except_bind_eq_ok]
  refine exists_congr fun s₁ => and_congr_right fun _ => ?_
  rw [run]
  cases step s₁ a with
  | error e => exact iff_of_false nofun nofun
  | ok s₂ => rfl

/-- **The invariant rule.** -/
theorem run_keeps {P : σ → Prop} (hstep : ∀ {s a s'}, P s → step s a = .ok s' → P s')
    {s s' : σ} {actions : List α} (h : P s) (hrun : run step s actions = .ok s') : P s' := by
  induction actions generalizing s with
  | nil =>
    cases hrun
    exact h
  | cons a actions ih =>
    obtain ⟨s₁, hfirst, hrest⟩ := Exec.except_bind_eq_ok.mp hrun
    exact ih (hstep h hfirst) hrest

/-- What is said of a run and the state it leads to. -/
theorem run_induction {s : σ} {P : List α → σ → Prop} (hnil : P [] s)
    (hstep : ∀ {actions s₁ a s₂}, run step s actions = .ok s₁ → P actions s₁ → step s₁ a = .ok s₂ →
      P (actions ++ [a]) s₂) {actions : List α} {s' : σ} (hrun : run step s actions = .ok s') :
    P actions s' := by
  have haux : ∀ {later earlier : List α} {s₁ : σ}, run step s earlier = .ok s₁ → P earlier s₁ →
      run step s₁ later = .ok s' → P (earlier ++ later) s' := by
    intro later
    induction later with
    | nil =>
      intro earlier s₁ _ h hrest
      cases hrest
      rwa [List.append_nil]
    | cons a later ih =>
      intro earlier s₁ hearlier h hrest
      obtain ⟨s₂, hfirst, hrest⟩ := Exec.except_bind_eq_ok.mp hrest
      have := ih (run_concat.mpr ⟨s₁, hearlier, hfirst⟩) (hstep hearlier h hfirst) hrest
      rwa [List.append_assoc] at this
  exact haux rfl hnil hrun

/-- The action at which a run stops. -/
theorem exists_of_run_error {s : σ} {actions : List α} {e : ε} (hrun : run step s actions = .error e) :
    ∃ earlier a s₁, earlier ++ [a] <+: actions ∧ run step s earlier = .ok s₁ ∧
      step s₁ a = .error e := by
  induction actions generalizing s with
  | nil => cases hrun
  | cons a actions ih =>
    rcases Exec.except_bind_eq_error.mp hrun with hfirst | ⟨s₁, hfirst, hrest⟩
    · exact ⟨[], a, s, List.prefix_append [a] actions, rfl, hfirst⟩
    · obtain ⟨earlier, a', s₂, hlonger, hearlier, hstop⟩ := ih hrest
      refine ⟨a :: earlier, a', s₂, List.cons_prefix_cons.mpr ⟨rfl, hlonger⟩, ?_, hstop⟩
      exact Exec.except_bind_eq_ok.mpr ⟨s₁, hfirst, hearlier⟩

/-! ## Moments -/

variable (step) in
/-- The actions up to each one that takes the machine from one state to another as `P` says. -/
def moments (P : σ → σ → Bool) : σ → List α → List (List α)
  | _, [] => []
  | s, a :: actions =>
    match step s a with
    | .error _ => []
    | .ok s' =>
      let later := (moments P s' actions).map (a :: ·)
      if P s s' then [a] :: later else later

variable {P : σ → σ → Bool} {s s₁ s₂ : σ}

theorem moments_append {earlier : List α} (hrun : run step s earlier = .ok s₁) (later : List α) :
    moments step P s (earlier ++ later) =
      moments step P s earlier ++ (moments step P s₁ later).map (earlier ++ ·) := by
  induction earlier generalizing s with
  | nil =>
    cases hrun
    simp [moments]
  | cons a earlier ih =>
    obtain ⟨s', hfirst, hrest⟩ := Exec.except_bind_eq_ok.mp hrun
    rw [List.cons_append, moments, moments, hfirst]
    simp only [ih hrest, List.map_append, List.map_map]
    split <;> rfl

/-- One more action is one more moment, or not. -/
theorem moments_concat {actions : List α} {a : α} (hrun : run step s actions = .ok s₁)
    (hstep : step s₁ a = .ok s₂) : moments step P s (actions ++ [a]) =
      moments step P s actions ++ if P s₁ s₂ then [actions ++ [a]] else [] := by
  rw [moments_append hrun, moments, hstep]
  simp only [moments, List.map_nil]
  split <;> rfl

/-- Behind the action at which a run stops there are none. -/
theorem moments_of_stop {earlier : List α} {a : α} {e : ε} (hrun : run step s earlier = .ok s₁)
    (hstop : step s₁ a = .error e) (later : List α) :
    moments step P s (earlier ++ a :: later) = moments step P s earlier := by
  rw [moments_append hrun, moments, hstop]
  exact List.append_nil _

end Machine
