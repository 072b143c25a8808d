/-!
# Computations over a state that may stop

Rules for `EStateM ε σ`, a program over a state `σ` that returns a value or stops with an `ε` and
keeps the state it had reached. `bind_eq_ok` and `bind_eq_error` take a sequence apart; `Keeps p x`
is the frame rule for a part `p` of the state, `Ensures Q x` says that `Q` holds where `x` returns,
and `Avoids E x` that `x` never stops with an error of `E`. Each is closed under the ways a program
is built.
-/

namespace Exec

universe u

variable {ε σ α β γ δ : Type u}

/-- The state a computation ends in, whether it returned or stopped. -/
def final : EStateM.Result ε σ α → σ
  | .ok _ s => s
  | .error _ s => s

/-- What a computation has returned. -/
def value : EStateM.Result ε σ α → Option α
  | .ok a _ => some a
  | .error _ _ => none

theorem value_eq_some {r : EStateM.Result ε σ α} {a : α} : value r = some a ↔ ∃ s, r = .ok a s := by
  cases r with
  | ok b s => simp [value]
  | error e s => simp [value]

/-- The value of a computation that does not touch the state, its errors renamed by `g`. -/
def lift (g : δ → ε) (x : Except δ α) : EStateM ε σ α := fun s =>
  match x with
  | .ok a => .ok a s
  | .error e => .error (g e) s

@[simp] theorem lift_ok (g : δ → ε) (a : α) (s : σ) : lift g (.ok a) s = .ok a s := rfl

@[simp] theorem lift_error (g : δ → ε) (e : δ) (s : σ) :
    lift (α := α) g (.error e) s = .error (g e) s := rfl

theorem bind_eq_ok {x : EStateM ε σ α} {f : α → EStateM ε σ β} {s s'' : σ} {b : β} :
    (x >>= f) s = .ok b s'' ↔ ∃ a s', x s = .ok a s' ∧ f a s' = .ok b s'' := by
  change EStateM.bind x f s = _ ↔ _
  unfold EStateM.bind
  cases x s with
  | ok a s' =>
    constructor
    · exact fun h => ⟨a, s', rfl, h⟩
    · rintro ⟨_, _, h, hf⟩
      cases h
      exact hf
  | error e s' => simp

theorem bind_eq_error {x : EStateM ε σ α} {f : α → EStateM ε σ β} {s s'' : σ} {e : ε} :
    (x >>= f) s = .error e s'' ↔
      x s = .error e s'' ∨ ∃ a s', x s = .ok a s' ∧ f a s' = .error e s'' := by
  change EStateM.bind x f s = _ ↔ _
  unfold EStateM.bind
  cases x s with
  | ok a s' =>
    constructor
    · exact fun h => .inr ⟨a, s', rfl, h⟩
    · intro h
      rcases h with h | ⟨_, _, h, hf⟩
      · cases h
      · cases h
        exact hf
  | error e' s' => simp

/-- Running the rest of a sequence once its first part is known to return. -/
theorem bind_of_ok {x : EStateM ε σ α} {s s' : σ} {a : α} (h : x s = .ok a s')
    (f : α → EStateM ε σ β) : (x >>= f) s = f a s' := by
  change EStateM.bind x f s = _
  unfold EStateM.bind
  rw [h]

theorem bind_of_error {x : EStateM ε σ α} {s s' : σ} {e : ε} (h : x s = .error e s')
    (f : α → EStateM ε σ β) : (x >>= f) s = .error e s' := by
  change EStateM.bind x f s = _
  unfold EStateM.bind
  rw [h]

theorem lift_eq_ok {g : δ → ε} {x : Except δ α} {s s' : σ} {a : α} :
    lift g x s = .ok a s' ↔ x = .ok a ∧ s' = s := by
  cases x with
  | ok b => simp [eq_comm]
  | error e => simp

/-! ## Sequences that start with one step -/

theorem bind_get (f : σ → EStateM ε σ β) (s : σ) : (get >>= f) s = f s s := rfl

theorem bind_modify (g : σ → σ) (f : PUnit → EStateM ε σ β) (s : σ) :
    (modify g >>= f) s = f ⟨⟩ (g s) := rfl

theorem bind_lift_ok (g : δ → ε) (a : α) (f : α → EStateM ε σ β) (s : σ) :
    (lift g (.ok a) >>= f) s = f a s := rfl

theorem bind_lift_error (g : δ → ε) (e : δ) (f : α → EStateM ε σ β) (s : σ) :
    (lift g (.error e) >>= f) s = .error (g e) s := rfl

theorem bind_lift_eq_ok {g : δ → ε} {x : Except δ α} {f : α → EStateM ε σ β} {s s' : σ} {b : β} :
    (lift g x >>= f) s = .ok b s' ↔ ∃ a, x = .ok a ∧ f a s = .ok b s' := by
  cases x with
  | ok a =>
    rw [bind_lift_ok]
    constructor
    · exact fun h => ⟨a, rfl, h⟩
    · rintro ⟨_, h, hf⟩
      cases h
      exact hf
  | error e =>
    rw [bind_lift_error]
    constructor
    · exact fun h => nomatch h
    · rintro ⟨_, h, -⟩
      cases h

/-! ## Without a state -/

theorem except_bind_ok {ε α β : Type u} (a : α) (f : α → Except ε β) : (.ok a >>= f) = f a := rfl

theorem eq_ok_of_toOption {ε α : Type u} {x : Except ε α} {a : α} (h : x.toOption = some a) :
    x = .ok a := by
  cases x with
  | ok b =>
    cases h
    rfl
  | error e => cases h

theorem except_bind_eq_ok {ε α β : Type u} {x : Except ε α} {f : α → Except ε β} {b : β} :
    (x >>= f) = .ok b ↔ ∃ a, x = .ok a ∧ f a = .ok b := by
  cases x with
  | ok a =>
    constructor
    · exact fun h => ⟨a, rfl, h⟩
    · rintro ⟨_, h, hf⟩
      cases h
      exact hf
  | error e =>
    constructor
    · exact fun h => nomatch h
    · rintro ⟨_, h, _⟩
      cases h

theorem except_bind_eq_error {ε α β : Type u} {x : Except ε α} {f : α → Except ε β} {e : ε} :
    (x >>= f) = .error e ↔ x = .error e ∨ ∃ a, x = .ok a ∧ f a = .error e := by
  cases x with
  | ok a =>
    constructor
    · exact fun h => .inr ⟨a, rfl, h⟩
    · intro h
      rcases h with h | ⟨_, h, hf⟩
      · cases h
      · cases h
        exact hf
  | error e' =>
    constructor
    · intro h
      cases h
      exact .inl rfl
    · intro h
      rcases h with h | ⟨_, h, _⟩
      · cases h
        rfl
      · cases h

/-! ## Frames -/

section Keeps

/-- `x` leaves the part `p` of the state as it was, also when it stops. -/
def Keeps (p : σ → γ) (x : EStateM ε σ α) : Prop := ∀ s, p (final (x s)) = p s

variable {p : σ → γ}

theorem Keeps.of_ok {x : EStateM ε σ α} (h : Keeps p x) {s s' : σ} {a : α} (hx : x s = .ok a s') :
    p s' = p s := by
  have := h s
  rwa [hx] at this

theorem Keeps.comp {x : EStateM ε σ α} (h : Keeps p x) (g : γ → δ) : Keeps (fun s => g (p s)) x :=
  fun s => congrArg g (h s)

theorem Keeps.pure (a : α) : Keeps p (pure a : EStateM ε σ α) := fun _ => rfl

theorem Keeps.get : Keeps p (get : EStateM ε σ σ) := fun _ => rfl

theorem Keeps.throw (e : ε) : Keeps p (throw e : EStateM ε σ α) := fun _ => rfl

theorem Keeps.lift (g : δ → ε) (x : Except δ α) : Keeps p (lift g x : EStateM ε σ α) := fun _ => by
  cases x <;> rfl

theorem Keeps.modify {f : σ → σ} (h : ∀ s, p (f s) = p s) :
    Keeps p (modify f : EStateM ε σ PUnit) := fun s => h s

theorem Keeps.bind {x : EStateM ε σ α} {f : α → EStateM ε σ β} (hx : Keeps p x)
    (hf : ∀ a, Keeps p (f a)) : Keeps p (x >>= f) := by
  intro s
  cases h : x s with
  | ok a s' =>
    rw [bind_of_ok h, hf a s', hx.of_ok h]
  | error e s' =>
    rw [bind_of_error h]
    have := hx s
    rwa [h] at this

/-- What comes last and keeps `p` does not show in it. -/
theorem Keeps.final_bind {x : EStateM ε σ α} {f : α → EStateM ε σ β} (hf : ∀ a, Keeps p (f a))
    (s : σ) : p (final ((x >>= f) s)) = p (final (x s)) := by
  cases h : x s with
  | ok a s' => rw [bind_of_ok h, hf a s', final]
  | error e s' => rw [bind_of_error h, final, final]

theorem Keeps.ite {c : Prop} [Decidable c] {x y : EStateM ε σ α} (hx : Keeps p x)
    (hy : Keeps p y) : Keeps p (if c then x else y) := by
  split
  · exact hx
  · exact hy

end Keeps

/-! ## What holds at the end -/

/-- Wherever `x` returns, the state satisfies `Q`. -/
def Ensures (Q : σ → Prop) (x : EStateM ε σ α) : Prop := ∀ s a s', x s = .ok a s' → Q s'

/-- What the last part of a sequence ensures, the sequence does. -/
theorem Ensures.bind {Q : σ → Prop} {x : EStateM ε σ α} {f : α → EStateM ε σ β}
    (hf : ∀ a, Ensures Q (f a)) : Ensures Q (x >>= f) := by
  intro s b s'' h
  obtain ⟨a, s', -, h⟩ := bind_eq_ok.mp h
  exact hf a s' b s'' h

theorem Ensures.modify {Q : σ → Prop} {g : σ → σ} (h : ∀ s, Q (g s)) :
    Ensures Q (modify g : EStateM ε σ PUnit) := by
  rintro s _ _ ⟨⟩
  exact h s

/-! ## Errors that cannot happen -/

section Avoids

/-- `x` is no error of `E`. -/
def Never (E : ε → Prop) (x : Except ε α) : Prop := ∀ e, x = .error e → ¬ E e

/-- `x` stops with no error of `E`. -/
def Avoids (E : ε → Prop) (x : EStateM ε σ α) : Prop := ∀ s e s', x s = .error e s' → ¬ E e

variable {E : ε → Prop}

theorem Never.ok (a : α) : Never E (.ok a) := fun _ h => nomatch h

theorem Never.error {e : ε} (h : ¬ E e) : Never E (.error e : Except ε α) := by
  rintro _ ⟨⟩
  exact h

theorem Never.bind {α β : Type u} {x : Except ε α} {f : α → Except ε β} (hx : Never E x)
    (hf : ∀ a, Never E (f a)) : Never E (x >>= f) := by
  intro e h
  rcases except_bind_eq_error.mp h with h | ⟨a, -, h⟩
  · exact hx e h
  · exact hf a e h

theorem Never.map {α β : Type u} {x : Except ε α} {f : α → β} (hx : Never E x) :
    Never E (f <$> x) := by
  intro e h
  cases x with
  | ok a => cases h
  | error e' =>
    cases h
    exact hx e rfl

theorem Never.ite {c : Prop} [Decidable c] {x y : Except ε α} (hx : Never E x) (hy : Never E y) :
    Never E (if c then x else y) := by
  split
  · exact hx
  · exact hy

theorem Avoids.pure (a : α) : Avoids E (pure a : EStateM ε σ α) := fun _ _ _ h => by cases h

theorem Avoids.get : Avoids E (get : EStateM ε σ σ) := fun _ _ _ h => by cases h

theorem Avoids.modify (f : σ → σ) : Avoids E (modify f : EStateM ε σ PUnit) :=
  fun _ _ _ h => by cases h

theorem Avoids.throw {e : ε} (h : ¬ E e) : Avoids E (throw e : EStateM ε σ α) := by
  intro _ _ _ he
  cases he
  exact h

/-- A renamed error is one of `E` only if it was one of those that `g` takes there. -/
theorem Avoids.lift {g : δ → ε} {x : Except δ α} (h : Never (fun e => E (g e)) x) :
    Avoids E (lift g x : EStateM ε σ α) := by
  intro s e s' he
  cases x with
  | ok a => cases he
  | error d =>
    cases he
    exact h d rfl

theorem Avoids.bind {x : EStateM ε σ α} {f : α → EStateM ε σ β} (hx : Avoids E x)
    (hf : ∀ a, Avoids E (f a)) : Avoids E (x >>= f) := by
  intro s e s'' h
  rcases bind_eq_error.mp h with h | ⟨a, s', -, h⟩
  · exact hx s e s'' h
  · exact hf a s' e s'' h

theorem Avoids.ite {c : Prop} [Decidable c] {x y : EStateM ε σ α} (hx : Avoids E x)
    (hy : Avoids E y) : Avoids E (if c then x else y) := by
  split
  · exact hx
  · exact hy

end Avoids

end Exec
