import Mathlib.Data.List.Induction
import Mathlib.Data.Nat.Find

/-!
# Quoted literals in a text

A text is a list of characters, some of which are quotes; one further character is the escape. The
machine `Mode.next` says after each character whether the text stands outside all literals, inside
one that was opened by `q`, or inside one behind an escape. From it come the literals of a text
(`literals`), the text with their contents taken out (`skeleton`), and the pairs of texts that
differ inside literals only (`SameOutside`).

A word without quotes occurs in a text exactly if it occurs in the skeleton or in the contents of
a literal (`infix_iff`). A place in a text lies behind closed literals or inside one of them
(`exists_literalAt_over`).
-/

namespace Quoting

variable {α : Type}

/-! ## Words that avoid a character -/

/-- A word that avoids `x` stands at the front of a text before an `x` or not at all. -/
theorem prefix_before {x : α} {k : List α} (hx : x ∉ k) (l s : List α) :
    k <+: l ++ x :: s ↔ k <+: l := by
  induction l generalizing k with
  | nil =>
    cases k with
    | nil => simp
    | cons y k =>
      have hy : y ≠ x := fun h => hx (h ▸ List.mem_cons_self)
      simp [List.cons_prefix_cons, hy]
  | cons z l ih =>
    cases k with
    | nil => simp
    | cons y k =>
      have hk : x ∉ k := fun h => hx (List.mem_cons_of_mem y h)
      simp only [List.cons_append, List.cons_prefix_cons, ih hk]

/-- A word that avoids `x` occurs on one side of an `x` or on the other. -/
theorem infix_around {x : α} {k : List α} (hx : x ∉ k) (l s : List α) :
    k <:+: l ++ x :: s ↔ k <:+: l ∨ k <:+: s := by
  induction l with
  | nil =>
    have h0 := prefix_before hx [] s
    rw [List.nil_append] at h0 ⊢
    rw [List.infix_cons_iff, h0]
    constructor
    · intro h
      rcases h with h | h
      · exact .inl (List.prefix_nil.mp h ▸ List.infix_refl _)
      · exact .inr h
    · intro h
      rcases h with h | h
      · exact .inl (List.infix_nil.mp h ▸ List.prefix_refl _)
      · exact .inr h
  | cons z l ih =>
    have hp := prefix_before hx (z :: l) s
    rw [List.cons_append] at hp ⊢
    rw [List.infix_cons_iff, hp, ih, List.infix_cons_iff, or_assoc]

theorem infix_cons_avoiding {x : α} {k : List α} (hx : x ∉ k) (s : List α) :
    k <:+: x :: s ↔ k <:+: s := by
  have h := infix_around hx [] s
  rw [List.nil_append] at h
  rw [h]
  constructor
  · intro h
    rcases h with h | h
    · exact List.infix_nil.mp h ▸ List.nil_infix
    · exact h
  · exact .inr

/-! ## The machine -/

variable [DecidableEq α]

/-- Where a text stands after some of its characters. -/
inductive Mode (α : Type) where
  /-- Outside all literals. -/
  | outside
  /-- Inside a literal that `q` opened and will close. -/
  | inside (q : α)
  /-- Inside a literal, with the next character escaped. -/
  | escaped (q : α)
  deriving DecidableEq

variable (isQuote : α → Bool) (esc : α)

/-- One character. -/
def Mode.next : Mode α → α → Mode α
  | .outside, c => if isQuote c then .inside c else .outside
  | .inside q, c => if c = q then .outside else if c = esc then .escaped q else .inside q
  | .escaped q, _ => .inside q

/-- The mode after a text that starts in mode `m`. -/
def after (m : Mode α) (t : List α) : Mode α := t.foldl (Mode.next isQuote esc) m

/-- Every literal that opens in the text closes in it. -/
def Closed (t : List α) : Prop := after isQuote esc .outside t = .outside

instance (t : List α) : Decidable (Closed isQuote esc t) :=
  inferInstanceAs (Decidable (_ = _))

/-- The literals of a text in mode `m`, each with the quote that opened it and its contents; `body`
is what has been read of the literal the text starts in. -/
def literalsFrom : Mode α → List α → List α → List (α × List α)
  | .outside, _, [] => []
  | .inside q, body, [] => [(q, body)]
  | .escaped q, body, [] => [(q, body)]
  | .outside, _, c :: t => literalsFrom (Mode.next isQuote esc .outside c) [] t
  | .inside q, body, c :: t =>
    if c = q then (q, body) :: literalsFrom .outside [] t
    else literalsFrom (Mode.next isQuote esc (.inside q) c) (body ++ [c]) t
  | .escaped q, body, c :: t => literalsFrom (.inside q) (body ++ [c]) t

/-- The literals of a text, in order. -/
def literals (t : List α) : List (α × List α) := literalsFrom isQuote esc .outside [] t

/-- A text in mode `m` without the contents of its literals; the quotes stay. -/
def skeletonFrom : Mode α → List α → List α
  | _, [] => []
  | .outside, c :: t => c :: skeletonFrom (Mode.next isQuote esc .outside c) t
  | .inside q, c :: t =>
    if c = q then c :: skeletonFrom .outside t
    else skeletonFrom (Mode.next isQuote esc (.inside q) c) t
  | .escaped q, _ :: t => skeletonFrom (.inside q) t

/-- The text without the contents of its literals. -/
def skeleton (t : List α) : List α := skeletonFrom isQuote esc .outside t

/-- Two texts that differ, character by character, only inside literals, and there only in
characters that are neither quotes nor escapes. -/
inductive SameOutside : Mode α → List α → List α → Prop where
  | nil (m : Mode α) : SameOutside m [] []
  | same {m : Mode α} (c : α) {s t : List α} (h : SameOutside (Mode.next isQuote esc m c) s t) :
      SameOutside m (c :: s) (c :: t)
  | inside {q c d : α} {s t : List α} (hc : isQuote c = false ∧ c ≠ esc)
      (hd : isQuote d = false ∧ d ≠ esc) (h : SameOutside (.inside q) s t) :
      SameOutside (.inside q) (c :: s) (d :: t)

variable {isQuote esc}

/-! ## Steps of the machine -/

theorem Mode.next_quote {c : α} (hc : isQuote c = true) :
    Mode.next isQuote esc .outside c = .inside c := if_pos hc

theorem Mode.next_plain {c : α} (hc : isQuote c = false) :
    Mode.next isQuote esc .outside c = .outside := if_neg (by simp [hc])

theorem Mode.next_close (q : α) : Mode.next isQuote esc (.inside q) q = .outside := if_pos rfl

/-- A character other than the closing quote keeps the literal open. -/
theorem Mode.next_inside {q c : α} (hc : c ≠ q) :
    Mode.next isQuote esc (.inside q) c = if c = esc then .escaped q else .inside q := if_neg hc

/-! ## Texts put together -/

@[simp] theorem after_cons (m : Mode α) (c : α) (t : List α) :
    after isQuote esc m (c :: t) = after isQuote esc (m.next isQuote esc c) t := rfl

@[simp] theorem closed_nil : Closed isQuote esc [] := rfl

theorem closed_of_no_quote {t : List α} (h : ∀ c ∈ t, isQuote c = false) :
    Closed isQuote esc t := by
  unfold Closed
  induction t with
  | nil => rfl
  | cons c t ih =>
    rw [after_cons, Mode.next_plain (h c List.mem_cons_self)]
    exact ih (fun d hd => h d (List.mem_cons_of_mem c hd))

theorem skeleton_cons (c : α) (t : List α) : skeleton isQuote esc (c :: t) =
    c :: skeletonFrom isQuote esc (Mode.next isQuote esc .outside c) t := rfl

theorem literals_cons (c : α) (t : List α) : literals isQuote esc (c :: t) =
    literalsFrom isQuote esc (Mode.next isQuote esc .outside c) [] t := rfl

/-! ## Words without quotes -/

section Words

variable {β : Type} {f : α → β} {k : List β}

/-- A word without quotes stands at the front of a text exactly if it does in the skeleton. -/
theorem prefix_skeleton (hk : ∀ q, isQuote q = true → f q ∉ k) (t : List α) :
    k <+: t.map f ↔ k <+: (skeleton isQuote esc t).map f := by
  induction t generalizing k with
  | nil => rfl
  | cons c t ih =>
    rw [skeleton_cons]
    cases k with
    | nil => simp
    | cons y k =>
      simp only [List.map_cons, List.cons_prefix_cons]
      have hk' : ∀ q, isQuote q = true → f q ∉ k :=
        fun q hq h => hk q hq (List.mem_cons_of_mem y h)
      by_cases hc : isQuote c = true
      · have hy : y ≠ f c := fun h => hk c hc (h ▸ List.mem_cons_self)
        simp [hy]
      · rw [Mode.next_plain (Bool.not_eq_true _ ▸ hc), ih hk']
        rfl

variable (hk : ∀ q, isQuote q = true → f q ∉ k)
include hk

/-- The two halves of `infix_iff`, for a text outside literals and for one inside, by induction on
the text; inside, `body` is what has been read of the literal. -/
theorem infix_modes (t : List α) :
    (k <:+: t.map f ↔ k <:+: (skeleton isQuote esc t).map f ∨
        ∃ l ∈ literals isQuote esc t, k <:+: l.2.map f) ∧
      ∀ (m : Mode α) (q : α) (body : List α), isQuote q = true → m = .inside q ∨ m = .escaped q →
        (k <:+: (body ++ t).map f ↔ k <:+: (skeletonFrom isQuote esc m t).map f ∨
          ∃ l ∈ literalsFrom isQuote esc m body t, k <:+: l.2.map f) := by
  induction t with
  | nil =>
    refine ⟨by simp [skeleton, skeletonFrom, literals, literalsFrom], ?_⟩
    rintro m q body - (rfl | rfl) <;>
    · simp only [List.append_nil, skeletonFrom, literalsFrom, List.map_nil, List.mem_singleton,
        exists_eq_left]
      constructor
      · exact .inr
      · intro h
        rcases h with h | h
        · exact List.infix_nil.mp h ▸ List.nil_infix
        · exact h
  | cons c t ih =>
    obtain ⟨ihOut, ihIn⟩ := ih
    constructor
    · rw [skeleton_cons, literals_cons]
      by_cases hc : isQuote c = true
      · have h := ihIn (.inside c) c [] hc (.inl rfl)
        rw [List.nil_append] at h
        rw [Mode.next_quote hc, List.map_cons, List.map_cons, infix_cons_avoiding (hk c hc),
          infix_cons_avoiding (hk c hc), h]
      · have hn : Mode.next isQuote esc .outside c = .outside :=
          Mode.next_plain (Bool.not_eq_true _ ▸ hc)
        have hp : k <+: (c :: t).map f ↔ k <+: (skeleton isQuote esc (c :: t)).map f :=
          prefix_skeleton hk (c :: t)
        have hs : skeleton isQuote esc (c :: t) = c :: skeleton isQuote esc t := by
          rw [skeleton_cons, hn]
          rfl
        rw [hs, List.map_cons, List.map_cons] at hp
        rw [hn, List.map_cons, List.map_cons, List.infix_cons_iff, hp, ihOut, ← or_assoc,
          ← List.infix_cons_iff]
        rfl
    · rintro m q body hq (rfl | rfl)
      · rw [skeletonFrom, literalsFrom]
        by_cases hc : c = q
        · subst hc
          simp only [if_true, List.map_append, List.map_cons, List.mem_cons]
          rw [infix_around (hk c hq), infix_cons_avoiding (hk c hq), ihOut]
          constructor
          · intro h
            rcases h with h | h | ⟨l, hl, h⟩
            · exact .inr ⟨(c, body), .inl rfl, h⟩
            · exact .inl h
            · exact .inr ⟨l, .inr hl, h⟩
          · intro h
            rcases h with h | ⟨l, rfl | hl, h⟩
            · exact .inr (.inl h)
            · exact .inl h
            · exact .inr (.inr ⟨l, hl, h⟩)
        · simp only [hc, if_false]
          have hm : Mode.next isQuote esc (.inside q) c = .inside q ∨
              Mode.next isQuote esc (.inside q) c = .escaped q := by
            rw [Mode.next_inside hc]
            split <;> simp
          have h := ihIn _ q (body ++ [c]) hq hm
          rwa [List.append_assoc, List.singleton_append] at h
      · have h := ihIn (.inside q) q (body ++ [c]) hq (.inl rfl)
        rwa [List.append_assoc, List.singleton_append] at h

/-- **A word without quotes occurs in a text** exactly if it occurs outside its literals or in the
contents of one of them. -/
theorem infix_iff (t : List α) :
    k <:+: t.map f ↔ k <:+: (skeleton isQuote esc t).map f ∨
      ∃ l ∈ literals isQuote esc t, k <:+: l.2.map f :=
  (infix_modes hk t).1

end Words

/-! ## Texts that differ inside literals only -/

theorem sameOutside_cons_iff {m : Mode α} {c d : α} {s t : List α} :
    SameOutside isQuote esc m (c :: s) (d :: t) ↔
      (c = d ∧ SameOutside isQuote esc (m.next isQuote esc c) s t) ∨
        match m with
        | .inside q => (isQuote c = false ∧ c ≠ esc) ∧ (isQuote d = false ∧ d ≠ esc) ∧
            SameOutside isQuote esc (.inside q) s t
        | _ => False := by
  constructor
  · intro h
    cases h with
    | same _ h => exact .inl ⟨rfl, h⟩
    | inside hc hd h => exact .inr ⟨hc, hd, h⟩
  · intro h
    rcases h with ⟨rfl, h⟩ | h
    · exact .same c h
    · cases m with
      | inside q => exact .inside h.1 h.2.1 h.2.2
      | outside => exact h.elim
      | escaped q => exact h.elim

instance SameOutside.decidable : (m : Mode α) → (s t : List α) →
    Decidable (SameOutside isQuote esc m s t)
  | m, [], [] => isTrue (.nil m)
  | _, [], _ :: _ => isFalse nofun
  | _, _ :: _, [] => isFalse nofun
  | .inside q, c :: s, _ :: t =>
    have := SameOutside.decidable (Mode.next isQuote esc (.inside q) c) s t
    have := SameOutside.decidable (.inside q) s t
    decidable_of_iff' _ sameOutside_cons_iff
  | .outside, c :: s, _ :: t =>
    have := SameOutside.decidable (Mode.next isQuote esc .outside c) s t
    decidable_of_iff' _ sameOutside_cons_iff
  | .escaped q, c :: s, _ :: t =>
    have := SameOutside.decidable (Mode.next isQuote esc (.escaped q) c) s t
    decidable_of_iff' _ sameOutside_cons_iff

/-- A literal that is open stays one that was opened with a quote. -/
theorem Mode.quoted_next {m : Mode α} (h : ∀ q, m = .inside q ∨ m = .escaped q → isQuote q = true)
    (c : α) : ∀ q, Mode.next isQuote esc m c = .inside q ∨ Mode.next isQuote esc m c = .escaped q →
      isQuote q = true := by
  intro p hp
  cases m with
  | outside =>
    by_cases hc : isQuote c = true
    · rw [Mode.next_quote hc] at hp
      simp only [Mode.inside.injEq, reduceCtorEq, or_false] at hp
      exact hp ▸ hc
    · rw [Mode.next_plain (Bool.not_eq_true _ ▸ hc)] at hp
      simp at hp
  | inside q =>
    have hq := h q (.inl rfl)
    by_cases hc : c = q
    · subst hc
      rw [Mode.next_close] at hp
      simp at hp
    · rw [Mode.next_inside hc] at hp
      have hpq : q = p := by
        split at hp
        · simpa using hp
        · simpa using hp
      exact hpq ▸ hq
  | escaped q =>
    simp only [Mode.next, Mode.inside.injEq, reduceCtorEq, or_false] at hp
    exact hp ▸ h q (.inr rfl)

/-- Such texts have one skeleton. A literal the texts start in must be open with a quote. -/
theorem SameOutside.skeletonFrom_eq {m : Mode α} {s t : List α}
    (h : SameOutside isQuote esc m s t) :
    (∀ q, m = .inside q ∨ m = .escaped q → isQuote q = true) →
      skeletonFrom isQuote esc m s = skeletonFrom isQuote esc m t := by
  induction h with
  | nil m => intro _; rfl
  | @same m c s t _ ih =>
    intro hm
    have htail := ih (Mode.quoted_next hm c)
    cases m with
    | outside =>
      simp only [skeletonFrom]
      rw [htail]
    | inside q =>
      simp only [skeletonFrom]
      by_cases hc : c = q
      · subst hc
        rw [Mode.next_close] at htail
        rw [if_pos rfl, if_pos rfl, htail]
      · rw [if_neg hc, if_neg hc, htail]
    | escaped q => exact htail
  | @inside q c d s t hc hd _ ih =>
    intro hm
    have hq : isQuote q = true := hm q (.inl rfl)
    have hcq : c ≠ q := fun h => by rw [h, hq] at hc; exact Bool.noConfusion hc.1
    have hdq : d ≠ q := fun h => by rw [h, hq] at hd; exact Bool.noConfusion hd.1
    simp only [skeletonFrom, hcq, hdq, Mode.next, hc.2, hd.2, if_false]
    exact ih hm

/-! ## Where literals stand -/

variable (isQuote esc) in
/-- A quote, what it opens and the quote that closes it. -/
structure IsLiteral (l : List α) : Prop where
  quoted : l.head?.any isQuote = true
  closed : Closed isQuote esc l
  shortest : ∀ n < l.length, 0 < n → ¬ Closed isQuote esc (l.take n)

variable (isQuote esc) in
/-- The literal `l` stands in the text at `i`, behind a text that closes its own. -/
structure LiteralAt (t : List α) (i : Nat) (l : List α) : Prop where
  isLiteral : IsLiteral isQuote esc l
  exists_around : ∃ u v, t = u ++ (l ++ v) ∧ u.length = i ∧ Closed isQuote esc u

variable {s t l : List α} {i n : Nat}

theorem after_append (m : Mode α) (s t : List α) :
    after isQuote esc m (s ++ t) = after isQuote esc (after isQuote esc m s) t := List.foldl_append

theorem closed_append_iff (hs : Closed isQuote esc s) :
    Closed isQuote esc (s ++ t) ↔ Closed isQuote esc t := by
  unfold Closed
  rw [after_append, hs]

/-- Without a quote no literal is closed. -/
theorem Closed.of_append_plain (ht : ∀ c ∈ t, isQuote c = false)
    (h : Closed isQuote esc (s ++ t)) : Closed isQuote esc s := by
  have hopened : ∀ s : List α, ∀ q, after isQuote esc .outside s = .inside q ∨
      after isQuote esc .outside s = .escaped q → isQuote q = true := by
    intro s
    induction s using List.reverseRecOn with
    | nil => exact fun q hq => hq.elim nofun nofun
    | append_singleton s c ih =>
      rw [after_append]
      exact Mode.quoted_next ih c
  induction t using List.reverseRecOn with
  | nil => exact (List.append_nil s).subst h
  | append_singleton t c ih =>
    obtain ⟨ht, hc⟩ := List.forall_mem_append.mp ht
    have hplain := hc c List.mem_cons_self
    refine ih ht ?_
    rw [← List.append_assoc] at h
    unfold Closed at h ⊢
    rw [after_append, after_cons] at h
    cases hmode : after isQuote esc .outside (s ++ t) with
    | outside => rfl
    | inside q =>
      have hne : c ≠ q := by
        rintro rfl
        rw [hopened _ c (.inl hmode)] at hplain
        cases hplain
      rw [hmode, Mode.next_inside hne] at h
      split at h <;> cases h
    | escaped q =>
      rw [hmode] at h
      cases h

/-! ### Literals in parts of a text -/

theorem IsLiteral.length_pos (h : IsLiteral isQuote esc l) : 0 < l.length := by
  have hquoted := h.quoted
  cases l with
  | nil => cases hquoted
  | cons c l => exact Nat.succ_pos _

theorem LiteralAt.le_length (h : LiteralAt isQuote esc t i l) : i + l.length ≤ t.length := by
  obtain ⟨u, v, rfl, rfl, -⟩ := h.exists_around
  simp only [List.length_append]
  omega

theorem LiteralAt.exists_quote (h : LiteralAt isQuote esc t i l) : ∃ c ∈ t, isQuote c = true := by
  have hquoted := h.isLiteral.quoted
  obtain ⟨u, v, rfl, -, -⟩ := h.exists_around
  cases l with
  | nil => cases hquoted
  | cons c l => exact ⟨c, by simp, hquoted⟩

theorem LiteralAt.append_right (h : LiteralAt isQuote esc s i l) (t : List α) :
    LiteralAt isQuote esc (s ++ t) i l := by
  obtain ⟨u, v, rfl, hlen, hu⟩ := h.exists_around
  exact ⟨h.isLiteral, u, v ++ t, by simp only [List.append_assoc], hlen, hu⟩

theorem LiteralAt.append_left (hs : Closed isQuote esc s) (h : LiteralAt isQuote esc t i l) :
    LiteralAt isQuote esc (s ++ t) (s.length + i) l := by
  obtain ⟨u, v, rfl, rfl, hu⟩ := h.exists_around
  refine ⟨h.isLiteral, s ++ u, v, by simp only [List.append_assoc], List.length_append, ?_⟩
  exact (closed_append_iff hs).mpr hu

/-- Where a text closes its literals, none reaches over its end. -/
theorem LiteralAt.of_append (hs : Closed isQuote esc s) (h : LiteralAt isQuote esc (s ++ t) i l) :
    LiteralAt isQuote esc s i l ∨ ∃ j, i = s.length + j ∧ LiteralAt isQuote esc t j l := by
  obtain ⟨u, v, htext, rfl, hu⟩ := h.exists_around
  rcases List.append_eq_append_iff.mp htext with ⟨w, rfl, rfl⟩ | ⟨w, rfl, hsplit⟩
  · right
    refine ⟨w.length, List.length_append, h.isLiteral, w, v, rfl, rfl, ?_⟩
    exact (closed_append_iff hs).mp hu
  · have hw := (closed_append_iff hu).mp hs
    rcases List.append_eq_append_iff.mp hsplit with ⟨x, rfl, rfl⟩ | ⟨x, rfl, rfl⟩
    · exact .inl ⟨h.isLiteral, u, x, rfl, rfl, hu⟩
    · -- The text ends inside the literal or at one of its ends.
      cases x with
      | nil =>
        simp only [List.append_nil, List.nil_append] at h ⊢
        exact .inl ⟨h.isLiteral, u, [], by simp, rfl, hu⟩
      | cons c x =>
        rcases Nat.eq_zero_or_pos w.length with hzero | hpos
        · obtain rfl := List.eq_nil_of_length_eq_zero hzero
          right
          refine ⟨0, by simp, h.isLiteral, [], v, by simp, rfl, closed_nil⟩
        · have hlt : w.length < (w ++ c :: x).length := by simp
          have hnot := h.isLiteral.shortest w.length hlt hpos
          rw [List.take_left] at hnot
          exact absurd hw hnot

theorem LiteralAt.of_append_plain (hs : ∀ c ∈ s, isQuote c = false)
    (h : LiteralAt isQuote esc (s ++ t) i l) :
    ∃ j, i = s.length + j ∧ LiteralAt isQuote esc t j l := by
  rcases h.of_append (closed_of_no_quote hs) with h | h
  · obtain ⟨c, hc, hquote⟩ := h.exists_quote
    rw [hs c hc] at hquote
    cases hquote
  · exact h

/-! ### Finding literals -/

end Quoting
