/-!
# Splitting a text into words

A machine reads a text character by character. Outside all words it skips white space; any other
character starts a word, and a quote a literal. A word ends before white space and before a
separator, which starts the next one without being looked at again, and a literal ends behind the next
quote of its kind that does not stand behind an escape. So a separator is a word of its own only if
another break follows it.

`tokens` are the words of a text with the white space before each. A text put together of two is
split as the first, and from there on as the second in the mode the first ends in
(`tokensFrom_append`); nothing is lost (`spans_emitted`), and white space in front of a word does
not matter to it (`words_gap`).
-/

namespace Lexing

/-- What the machine asks of a character. -/
structure Rules (α : Type) where
  isSpace : α → Bool
  isQuote : α → Bool
  isSep : α → Bool
  esc : α

variable {α : Type}

/-- What words take up of a text, with the white space before each. -/
def spans (ts : List (List α × List α)) : List α := ts.flatMap fun t => t.1 ++ t.2

@[simp] theorem spans_nil : spans ([] : List (List α × List α)) = [] := rfl

@[simp] theorem spans_cons (t : List α × List α) (ts : List (List α × List α)) :
    spans (t :: ts) = t.1 ++ (t.2 ++ spans ts) := List.append_assoc _ _ _

@[simp] theorem spans_append (ts us : List (List α × List α)) :
    spans (ts ++ us) = spans ts ++ spans us := List.flatMap_append

/-- Where the machine stands, with the white space and the word it has read so far. -/
inductive Mode (α : Type) where
  | gap (space : List α)
  | word (space text : List α)
  /-- A literal that `quote` has opened; `prev` is the last character read. -/
  | literal (space text : List α) (quote prev : α)

/-- What has been read of the text since the last word. -/
def Mode.pending : Mode α → List α
  | .gap space => space
  | .word space text => space ++ text
  | .literal space text _ _ => space ++ text

/-- The word that is ended by the end of the text. -/
def Mode.finish : Mode α → List (List α × List α)
  | .gap _ => []
  | .word space text => [(space, text)]
  | .literal space text _ _ => [(space, text)]

/-- The white space behind the last word. -/
def Mode.trail : Mode α → List α
  | .gap space => space
  | _ => []

/-- A literal is open. -/
def Mode.IsLiteral : Mode α → Prop
  | .literal .. => True
  | _ => False

instance : DecidablePred (Mode.IsLiteral (α := α))
  | .gap _ => isFalse id
  | .word _ _ => isFalse id
  | .literal .. => isTrue trivial

/-- The mode without the white space in front of the word. -/
def Mode.forget : Mode α → Mode α
  | .gap _ => .gap []
  | .word _ text => .word [] text
  | .literal _ text quote prev => .literal [] text quote prev

section Rules

variable (r : Rules α)

/-- The character ends a word in front of it. -/
def Rules.breaks (c : α) : Bool := r.isSpace c || r.isSep c

/-- The text ends or goes on with a character that ends a word in front of it. -/
def Front (t : List α) : Prop := ∀ c ∈ t.head?, r.breaks c = true

instance (t : List α) : Decidable (Front r t) :=
  inferInstanceAs (Decidable (∀ c ∈ t.head?, _))

/-- A character outside all words. -/
def Mode.start (space : List α) (c : α) : Mode α :=
  if r.isSpace c then .gap (space ++ [c])
  else if r.isQuote c then .literal space [c] c c
  else .word space [c]

/-- A word of a text: white space, and something that starts with another character. -/
def IsWord (t : List α × List α) : Prop :=
  (∀ c ∈ t.1, r.isSpace c = true) ∧ ∃ c text, t.2 = c :: text ∧ r.isSpace c = false

/-- What is pending is white space, or a word so far; only a quote opens a literal. -/
def Mode.Ok : Mode α → Prop
  | .gap space => ∀ c ∈ space, r.isSpace c = true
  | .word space text => IsWord r (space, text)
  | .literal space text quote _ => IsWord r (space, text) ∧ r.isQuote quote = true

variable {r} {m : Mode α}

theorem Rules.breaks_space {c : α} (h : r.isSpace c = true) : r.breaks c = true :=
  Bool.or_eq_true_iff.mpr (.inl h)

theorem Rules.breaks_sep {c : α} (h : r.isSep c = true) : r.breaks c = true :=
  Bool.or_eq_true_iff.mpr (.inr h)

theorem front_cons {c : α} {t : List α} : Front r (c :: t) ↔ r.breaks c = true := by
  constructor
  · exact fun h => h c rfl
  · intro h d hd
    cases hd
    exact h

theorem front_sep {c : α} (h : r.isSep c = true) (t : List α) : Front r (c :: t) :=
  front_cons.mpr (Rules.breaks_sep h)

theorem front_space {space : List α} (hne : space ≠ []) (h : ∀ c ∈ space, r.isSpace c = true)
    (t : List α) : Front r (space ++ t) := by
  cases space with
  | nil => exact absurd rfl hne
  | cons c space => exact front_cons.mpr (Rules.breaks_space (h c List.mem_cons_self))

theorem front_append {space t : List α} (h : ∀ c ∈ space, r.isSpace c = true) (ht : Front r t) :
    Front r (space ++ t) := by
  cases space with
  | nil => exact ht
  | cons c space => exact front_space (List.cons_ne_nil c space) h t

theorem Mode.start_space {c : α} (hspace : r.isSpace c = true) (space : List α) :
    Mode.start r space c = .gap (space ++ [c]) := if_pos hspace

theorem Mode.start_literal {c : α} (hspace : r.isSpace c = false) (hquote : r.isQuote c = true)
    (space : List α) : Mode.start r space c = .literal space [c] c c := by
  simp [Mode.start, hspace, hquote]

theorem Mode.start_word {c : α} (hspace : r.isSpace c = false) (hquote : r.isQuote c = false)
    (space : List α) : Mode.start r space c = .word space [c] := by
  simp [Mode.start, hspace, hquote]

theorem Mode.pending_start (space : List α) (c : α) :
    (Mode.start r space c).pending = space ++ [c] := by
  unfold Mode.start
  split
  · rfl
  · split <;> rfl

theorem Mode.forget_start (space : List α) (c : α) :
    (Mode.start r space c).forget = (Mode.start r [] c).forget := by
  unfold Mode.start
  split
  · rfl
  · split <;> rfl

theorem Mode.ok_start {space : List α} (h : ∀ c ∈ space, r.isSpace c = true) (c : α) :
    (Mode.start r space c).Ok r := by
  unfold Mode.start
  split
  · next hc =>
    intro d hd
    rcases List.mem_append.mp hd with hd | hd
    · exact h d hd
    · rw [List.mem_singleton.mp hd]
      exact hc
  · split
    · next hc hq => exact ⟨⟨h, c, [], rfl, Bool.eq_false_iff.mpr hc⟩, hq⟩
    · next hc _ => exact ⟨h, c, [], rfl, Bool.eq_false_iff.mpr hc⟩

theorem IsWord.snoc {space text : List α} (h : IsWord r (space, text)) (c : α) :
    IsWord r (space, text ++ [c]) := by
  obtain ⟨hspace, d, rest, rfl, hd⟩ := h
  exact ⟨hspace, d, rest ++ [c], rfl, hd⟩

theorem IsWord.ne_nil {t : List α × List α} (h : IsWord r t) : t.2 ≠ [] := by
  obtain ⟨-, c, text, htext, -⟩ := h
  exact htext ▸ List.cons_ne_nil c text

/-- The mode in front of a text. -/
theorem ok_gap_nil : (Mode.gap []).Ok r := nofun

theorem Mode.Ok.finish (h : m.Ok r) : ∀ t ∈ m.finish, IsWord r t := by
  cases m with
  | gap space => exact nofun
  | word space text => exact List.forall_mem_singleton.mpr h
  | literal space text quote prev => exact List.forall_mem_singleton.mpr h.1

theorem Mode.Ok.trail (h : m.Ok r) : ∀ c ∈ m.trail, r.isSpace c = true := by
  cases m with
  | gap space => exact h
  | word space text => exact nofun
  | literal space text quote prev => exact nofun

theorem spans_finish (m : Mode α) : spans m.finish ++ m.trail = m.pending := by
  cases m <;> simp [Mode.finish, Mode.trail, Mode.pending]

theorem filter_eq_nil_of_space {s : List α} (h : ∀ c ∈ s, r.isSpace c = true) :
    s.filter (fun c => !r.isSpace c) = [] := by
  rw [List.filter_eq_nil_iff]
  intro c hc
  simp [h c hc]

theorem filter_spans {ts : List (List α × List α)} (h : ∀ t ∈ ts, IsWord r t) :
    (spans ts).filter (fun c => !r.isSpace c) =
      (ts.map Prod.snd).flatten.filter fun c => !r.isSpace c := by
  induction ts with
  | nil => rfl
  | cons t ts ih =>
    rw [spans_cons, List.filter_append, filter_eq_nil_of_space (h t List.mem_cons_self).1,
      List.nil_append, List.filter_append, ih fun u hu => h u (List.mem_cons_of_mem t hu),
      List.map_cons, List.flatten_cons, List.filter_append]

end Rules

variable [DecidableEq α] (r : Rules α)

/-- The mode after one more character. -/
def Mode.next : Mode α → α → Mode α
  | .gap space, c => Mode.start r space c
  | .word space text, c => if r.breaks c then Mode.start r [] c else .word space (text ++ [c])
  | .literal space text quote prev, c =>
    if c = quote ∧ prev ≠ r.esc then .gap [] else .literal space (text ++ [c]) quote c

/-- The word that one more character ends. -/
def Mode.emit : Mode α → α → List (List α × List α)
  | .gap _, _ => []
  | .word space text, c => if r.breaks c then [(space, text)] else []
  | .literal space text quote prev, c =>
    if c = quote ∧ prev ≠ r.esc then [(space, text ++ [c])] else []

/-- The mode after a text that starts in mode `m`. -/
def after (m : Mode α) (t : List α) : Mode α := t.foldl (Mode.next r) m

/-- The words that end in the text. -/
def emitted (m : Mode α) : List α → List (List α × List α)
  | [] => []
  | c :: t => m.emit r c ++ emitted (m.next r c) t

/-- The words of a text that starts in mode `m`. -/
def tokensFrom (m : Mode α) (t : List α) : List (List α × List α) :=
  emitted r m t ++ (after r m t).finish

/-- The words of a text, with the white space before each. -/
def tokens (t : List α) : List (List α × List α) := tokensFrom r (.gap []) t

/-- The words of a text. -/
def words (t : List α) : List (List α) := (tokens r t).map Prod.snd

variable {r} {m : Mode α} {c : α} {s t : List α}

/-! ## Texts put together -/

@[simp] theorem after_cons : after r m (c :: t) = after r (m.next r c) t := rfl

theorem after_append : after r m (s ++ t) = after r (after r m s) t := List.foldl_append

theorem tokensFrom_cons : tokensFrom r m (c :: t) = m.emit r c ++ tokensFrom r (m.next r c) t :=
  List.append_assoc _ _ _

/-- **A text put together** is split as its first part, and from there on as its second. -/
theorem tokensFrom_append :
    tokensFrom r m (s ++ t) = emitted r m s ++ tokensFrom r (after r m s) t := by
  induction s generalizing m with
  | nil => rfl
  | cons c s ih => rw [List.cons_append, tokensFrom_cons, ih, emitted, List.append_assoc, after_cons]

/-! ## Nothing is lost -/

theorem emit_append_pending : spans (m.emit r c) ++ (m.next r c).pending = m.pending ++ [c] := by
  cases m with
  | gap space => exact Mode.pending_start space c
  | word space text =>
    simp only [Mode.emit, Mode.next]
    split
    · rw [Mode.pending_start]
      simp [Mode.pending]
    · simp [Mode.pending]
  | literal space text quote prev =>
    simp only [Mode.emit, Mode.next]
    split <;> simp [Mode.pending]

/-- **Nothing is lost**: the words, and what is pending, make up the text. -/
theorem spans_emitted : spans (emitted r m t) ++ (after r m t).pending = m.pending ++ t := by
  induction t generalizing m with
  | nil => rw [emitted, List.append_nil]; rfl
  | cons c t ih =>
    rw [emitted, spans_append, List.append_assoc, after_cons, ih, ← List.append_assoc,
      emit_append_pending, List.append_assoc, List.singleton_append]

theorem spans_tokensFrom :
    spans (tokensFrom r m t) ++ (after r m t).trail = m.pending ++ t := by
  rw [tokensFrom, spans_append, List.append_assoc, spans_finish, spans_emitted]

theorem spans_tokens (t : List α) : spans (tokens r t) ++ (after r (.gap []) t).trail = t :=
  spans_tokensFrom

/-! ## What words are made of -/

theorem Mode.Ok.next (h : m.Ok r) (c : α) : (m.next r c).Ok r := by
  cases m with
  | gap space => exact Mode.ok_start h c
  | word space text =>
    simp only [Mode.next]
    split
    · exact Mode.ok_start nofun c
    · exact h.snoc c
  | literal space text quote prev =>
    simp only [Mode.next]
    split
    · exact nofun
    · exact ⟨h.1.snoc c, h.2⟩

theorem Mode.Ok.emit (h : m.Ok r) (c : α) : ∀ t ∈ m.emit r c, IsWord r t := by
  cases m with
  | gap space => exact nofun
  | word space text =>
    simp only [Mode.emit]
    split
    · exact List.forall_mem_singleton.mpr h
    · exact nofun
  | literal space text quote prev =>
    simp only [Mode.emit]
    split
    · exact List.forall_mem_singleton.mpr (h.1.snoc c)
    · exact nofun

theorem Mode.Ok.after (h : m.Ok r) : (after r m t).Ok r := by
  induction t generalizing m with
  | nil => exact h
  | cons c t ih => exact ih (h.next c)

theorem Mode.Ok.tokensFrom (h : m.Ok r) : ∀ w ∈ tokensFrom r m t, IsWord r w := by
  induction t generalizing m with
  | nil => exact h.finish
  | cons c t ih =>
    rw [tokensFrom_cons]
    intro w hw
    exact (List.mem_append.mp hw).elim (h.emit c w) (ih (h.next c) w)

/-- **Only white space is not in words.** -/
theorem filter_words (t : List α) :
    (words r t).flatten.filter (fun c => !r.isSpace c) = t.filter fun c => !r.isSpace c := by
  have hfilter := congrArg (List.filter fun c => !r.isSpace c) (spans_tokens (r := r) t)
  rw [List.filter_append, filter_eq_nil_of_space ok_gap_nil.after.trail, List.append_nil] at hfilter
  exact (filter_spans ok_gap_nil.tokensFrom).symm.trans hfilter

/-! ## White space -/

theorem forget_next (m : Mode α) (c : α) : (m.forget.next r c).forget = (m.next r c).forget := by
  cases m with
  | gap space => exact (Mode.forget_start space c).symm
  | word space text =>
    by_cases hc : r.breaks c = true
    · simp only [Mode.forget, Mode.next, hc, if_true]
    · simp only [Mode.forget, Mode.next, hc, if_false, Bool.false_eq_true]
  | literal space text quote prev =>
    by_cases hc : c = quote ∧ prev ≠ r.esc
    · simp only [Mode.forget, Mode.next, if_pos hc]
    · simp only [Mode.forget, Mode.next, if_neg hc]

theorem emit_forget (m : Mode α) (c : α) :
    (m.forget.emit r c).map Prod.snd = (m.emit r c).map Prod.snd := by
  cases m with
  | gap space => rfl
  | word space text =>
    by_cases hc : r.breaks c = true
    · simp only [Mode.forget, Mode.emit, hc, if_true, List.map_cons]
    · simp only [Mode.forget, Mode.emit, hc, if_false, Bool.false_eq_true]
  | literal space text quote prev =>
    by_cases hc : c = quote ∧ prev ≠ r.esc
    · simp only [Mode.forget, Mode.emit, if_pos hc, List.map_cons]
    · simp only [Mode.forget, Mode.emit, if_neg hc]

/-- The white space in front of a word does not matter to the words. -/
theorem words_congr {m m' : Mode α} (h : m.forget = m'.forget) :
    (tokensFrom r m t).map Prod.snd = (tokensFrom r m' t).map Prod.snd := by
  induction t generalizing m m' with
  | nil => cases m <;> cases m' <;> cases h <;> rfl
  | cons c t ih =>
    have hnext : (m.next r c).forget = (m'.next r c).forget := by
      rw [← forget_next m, ← forget_next m', h]
    rw [tokensFrom_cons, tokensFrom_cons, List.map_append, List.map_append, ih hnext,
      ← emit_forget m, ← emit_forget m', h]

theorem words_gap (space t : List α) :
    (tokensFrom r (.gap space) t).map Prod.snd = words r t := words_congr rfl

/-- Outside all words white space is skipped. -/
theorem tokensFrom_space {space t : List α} (h : ∀ c ∈ space, r.isSpace c = true) :
    ∀ before, tokensFrom r (.gap before) (space ++ t) = tokensFrom r (.gap (before ++ space)) t := by
  induction space with
  | nil => simp
  | cons c space ih =>
    intro before
    have hnext : Mode.next r (.gap before) c = .gap (before ++ [c]) :=
      Mode.start_space (h c List.mem_cons_self) before
    rw [List.cons_append, tokensFrom_cons, hnext,
      ih (fun d hd => h d (List.mem_cons_of_mem c hd)), List.append_assoc]
    rfl

theorem words_space {space t : List α} (h : ∀ c ∈ space, r.isSpace c = true) :
    words r (space ++ t) = words r t := by
  unfold words tokens
  rw [tokensFrom_space h, words_gap]
  rfl

theorem after_forget {m m' : Mode α} (h : m.forget = m'.forget) :
    (after r m t).forget = (after r m' t).forget := by
  induction t generalizing m m' with
  | nil => exact h
  | cons c t ih =>
    apply ih
    rw [← forget_next m, ← forget_next m', h]

omit [DecidableEq α] in
theorem Mode.isLiteral_forget (m : Mode α) : m.forget.IsLiteral ↔ m.IsLiteral := by
  cases m <;> exact Iff.rfl

/-- White space in front of a text does not open a literal in it. -/
theorem isLiteral_after_gap (space : List α) :
    (after r (.gap space) t).IsLiteral ↔ (after r (.gap []) t).IsLiteral := by
  have hforget : (after r (.gap space) t).forget = (after r (.gap []) t).forget := after_forget rfl
  rw [← Mode.isLiteral_forget, hforget, Mode.isLiteral_forget]

/-! ## Breaks -/

/-- Without a quote no literal is opened. -/
theorem not_isLiteral_after (hm : ¬ m.IsLiteral) (ht : ∀ c ∈ t, r.isQuote c = false) :
    ¬ (after r m t).IsLiteral := by
  induction t generalizing m with
  | nil => exact hm
  | cons c t ih =>
    have hstart : ∀ space, ¬ (Mode.start r space c).IsLiteral := by
      intro space
      unfold Mode.start
      rw [ht c List.mem_cons_self]
      split <;> exact id
    have hnext : ¬ (m.next r c).IsLiteral := by
      cases m with
      | gap space => exact hstart space
      | word space text =>
        rw [Mode.next]
        split
        · exact hstart []
        · exact id
      | literal space text quote prev => exact absurd trivial hm
    exact ih hnext fun d hd => ht d (List.mem_cons_of_mem c hd)

/-- Behind white space nothing but white space is pending, unless a literal is open. -/
theorem exists_gap_of_space (hm : ¬ m.IsLiteral) (hc : r.isSpace c = true) :
    ∃ space, m.next r c = .gap space := by
  cases m with
  | gap space => exact ⟨_, Mode.start_space hc space⟩
  | word space text =>
    rw [Mode.next, if_pos (Rules.breaks_space hc), Mode.start_space hc]
    exact ⟨_, rfl⟩
  | literal space text quote prev => exact absurd trivial hm

theorem tokensFrom_start_literal (hspace : r.isSpace c = false) (hquote : r.isQuote c = true)
    (space t : List α) :
    tokensFrom r (.gap space) (c :: t) = tokensFrom r (.literal space [c] c c) t := by
  rw [tokensFrom_cons, Mode.emit, Mode.next, Mode.start_literal hspace hquote, List.nil_append]

theorem tokensFrom_start_word (hspace : r.isSpace c = false) (hquote : r.isQuote c = false)
    (space t : List α) : tokensFrom r (.gap space) (c :: t) = tokensFrom r (.word space [c]) t := by
  rw [tokensFrom_cons, Mode.emit, Mode.next, Mode.start_word hspace hquote, List.nil_append]

/-- In front of a break, or of the end, a word is complete. -/
theorem tokensFrom_word {space text : List α} (ht : Front r t) :
    tokensFrom r (.word space text) t = (space, text) :: tokens r t := by
  cases t with
  | nil => rfl
  | cons c t =>
    have hc : r.breaks c = true := front_cons.mp ht
    rw [tokens, tokensFrom_cons, tokensFrom_cons]
    simp only [Mode.emit, Mode.next, hc, if_true]
    rfl

theorem tokensFrom_word_next {space text : List α} (hc : ¬ r.breaks c = true) :
    tokensFrom r (.word space text) (c :: t) = tokensFrom r (.word space (text ++ [c])) t := by
  rw [tokensFrom_cons, Mode.emit, Mode.next, if_neg hc, if_neg hc, List.nil_append]

theorem tokensFrom_literal_close {space text : List α} {quote prev : α}
    (hc : c = quote ∧ prev ≠ r.esc) :
    tokensFrom r (.literal space text quote prev) (c :: t) = (space, text ++ [c]) :: tokens r t := by
  rw [tokensFrom_cons, Mode.emit, Mode.next, if_pos hc, if_pos hc]
  rfl

theorem tokensFrom_literal_next {space text : List α} {quote prev : α}
    (hc : ¬ (c = quote ∧ prev ≠ r.esc)) :
    tokensFrom r (.literal space text quote prev) (c :: t) =
      tokensFrom r (.literal space (text ++ [c]) quote c) t := by
  rw [tokensFrom_cons, Mode.emit, Mode.next, if_neg hc, if_neg hc, List.nil_append]

/-- Where no literal is open, what follows is split on its own. -/
theorem words_of_front (hm : ¬ m.IsLiteral) (ht : Front r t) :
    (tokensFrom r m t).map Prod.snd = m.finish.map Prod.snd ++ words r t := by
  cases m with
  | gap space => exact words_gap space t
  | word space text =>
    rw [tokensFrom_word ht]
    rfl
  | literal space text quote prev => exact absurd trivial hm

/-- As `words_of_front`, for a text in front. -/
theorem words_append (hs : ¬ (after r (.gap []) s).IsLiteral) (ht : Front r t) :
    words r (s ++ t) = words r s ++ words r t := by
  unfold words tokens
  rw [tokensFrom_append, List.map_append, words_of_front hs ht, ← List.append_assoc,
    ← List.map_append]
  rfl

/-! ## Words that are not complete -/

/-- What is added to an open word does not depend on what it has been so far; it is something unless
a break comes at once. -/
theorem tokensFrom_open_word (t : List α) : ∃ more us, (more = [] ↔ Front r t) ∧
    ∀ space text, tokensFrom r (.word space text) t = (space, text ++ more) :: us := by
  induction t with
  | nil => exact ⟨[], [], iff_of_true rfl nofun, fun space text => by rw [List.append_nil]; rfl⟩
  | cons c t ih =>
    by_cases hc : r.breaks c = true
    · have hfront : Front r (c :: t) := front_cons.mpr hc
      refine ⟨[], tokens r (c :: t), iff_of_true rfl hfront, fun space text => ?_⟩
      rw [List.append_nil, tokensFrom_word hfront]
    · obtain ⟨more, us, -, hmore⟩ := ih
      refine ⟨c :: more, us, iff_of_false (List.cons_ne_nil _ _) fun h => hc (front_cons.mp h), ?_⟩
      intro space text
      rw [tokensFrom_word_next hc, hmore, List.append_assoc, List.singleton_append]

/-- As `tokensFrom_open_word`, for a literal. -/
theorem tokensFrom_open_literal (quote prev : α) (t : List α) :
    ∃ more us, (more = [] ↔ t = []) ∧ ∀ space text,
      tokensFrom r (.literal space text quote prev) t = (space, text ++ more) :: us := by
  induction t generalizing prev with
  | nil => exact ⟨[], [], iff_of_true rfl rfl, fun space text => by rw [List.append_nil]; rfl⟩
  | cons c t ih =>
    by_cases hc : c = quote ∧ prev ≠ r.esc
    · exact ⟨[c], tokens r t, iff_of_false (List.cons_ne_nil _ _) (List.cons_ne_nil _ _),
        fun _ _ => tokensFrom_literal_close hc⟩
    · obtain ⟨more, us, -, hmore⟩ := ih c
      refine ⟨c :: more, us, iff_of_false (List.cons_ne_nil _ _) (List.cons_ne_nil _ _), ?_⟩
      intro space text
      rw [tokensFrom_literal_next hc, hmore, List.append_assoc, List.singleton_append]

/-- The last character does not matter to an open literal unless it is the escape. -/
theorem tokensFrom_prev {prev prev' : α} (h : prev ≠ r.esc) (h' : prev' ≠ r.esc)
    (space text : List α) (quote : α) (t : List α) :
    tokensFrom r (.literal space text quote prev) t =
      tokensFrom r (.literal space text quote prev') t := by
  cases t with
  | nil => rfl
  | cons c t => simp only [tokensFrom_cons, Mode.emit, Mode.next, ne_eq, h, h', not_false_eq_true]

/-! ## Positions -/

/-- Words that start at one position of a text are one word. The second may have been begun before
the position, with `front`; then it has been begun there after all. -/
theorem word_unique {ts ts' us us' : List (List α × List α)} {space space' text front text' : List α}
    (h : ts ++ (space, text) :: us = ts' ++ (space', front ++ text') :: us')
    (hspan : spans ts ++ space = spans ts' ++ (space' ++ front)) (htext : text ≠ [])
    (htext' : text' ≠ []) :
    front = [] ∧ ts = ts' ∧ text = text' ∧ us = us' := by
  have hts : ts = ts' := by
    have hlen := congrArg List.length hspan
    simp only [List.length_append] at hlen
    have hpos : 0 < text.length := List.length_pos_iff.mpr htext
    have hpos' : 0 < text'.length := List.length_pos_iff.mpr htext'
    rcases List.append_eq_append_iff.mp h with ⟨l, rfl, hl⟩ | ⟨l, rfl, hl⟩
    · cases l with
      | nil => exact (List.append_nil ts).symm
      | cons t l =>
        obtain ⟨rfl, -⟩ := List.cons.inj hl
        simp only [spans_append, spans_cons, List.length_append] at hlen
        omega
    · cases l with
      | nil => exact List.append_nil ts'
      | cons t l =>
        obtain ⟨rfl, -⟩ := List.cons.inj hl
        simp only [spans_append, spans_cons, List.length_append] at hlen
        omega
  subst hts
  obtain ⟨htoken, rfl⟩ := List.cons.inj (List.append_cancel_left h)
  obtain ⟨rfl, rfl⟩ := Prod.mk.inj htoken
  have hfront : front = [] := List.self_eq_append_right.mp (List.append_cancel_left hspan)
  subst hfront
  exact ⟨rfl, rfl, rfl, rfl⟩

/-- No literal is open where a word starts. -/
theorem not_isLiteral_of_word {ts us : List (List α × List α)} {space text : List α}
    (h : tokens r (s ++ t) = ts ++ (space, text) :: us) (hs : spans ts ++ space = s)
    (htext : text ≠ []) (ht : t ≠ []) : ¬ (after r (.gap []) s).IsLiteral := by
  have hspans : spans (emitted r (.gap []) s) ++ (after r (.gap []) s).pending = s := spans_emitted
  have hok : (after r (.gap []) s).Ok r := ok_gap_nil.after
  rw [tokens, tokensFrom_append] at h
  cases hm : after r (.gap []) s with
  | gap space' => exact id
  | word space' text' => exact id
  | literal space' text' quote prev =>
    rw [hm] at h hspans hok
    obtain ⟨more, us', hmore, heq⟩ := tokensFrom_open_literal (r := r) quote prev t
    rw [heq] at h
    have hunique := word_unique h.symm (hs.trans hspans.symm) htext fun h => ht (hmore.mp h)
    exact absurd hunique.1 hok.1.ne_nil

/-! ## Separators -/

section Separator

variable (hsep : r.isSep c = true) (hspace : r.isSpace c = false) (hquote : r.isQuote c = false)
include hsep hspace hquote

/-- Where no literal is open a separator starts a word. -/
theorem exists_word_sep (hs : ¬ (after r (.gap []) s).IsLiteral) :
    ∃ ts space, spans ts ++ space = s ∧
      ∀ t, tokens r (s ++ c :: t) = ts ++ tokensFrom r (.word space [c]) t := by
  have hspans : spans (emitted r (.gap []) s) ++ (after r (.gap []) s).pending = s := spans_emitted
  cases hm : after r (.gap []) s with
  | gap space =>
    rw [hm] at hspans
    refine ⟨_, space, hspans, fun t => ?_⟩
    rw [tokens, tokensFrom_append, hm, tokensFrom_start_word hspace hquote]
  | word space text =>
    rw [hm] at hspans
    refine ⟨emitted r (.gap []) s ++ [(space, text)], [], ?_, fun t => ?_⟩
    · rw [List.append_nil, spans_append, spans_cons, spans_nil, List.append_nil]
      exact hspans
    · have hc : r.breaks c = true := Rules.breaks_sep hsep
      rw [tokens, tokensFrom_append, hm, tokensFrom_cons, Mode.emit, Mode.next, if_pos hc,
        if_pos hc, Mode.start_word hspace hquote, List.append_assoc]
  | literal space text quote prev => exact absurd (hm ▸ trivial) hs

/-- **A separator is a word of its own** exactly if no literal is open in front of it and a break
follows. -/
theorem sep_alone_iff :
    (∃ ts space us, tokens r (s ++ c :: t) = ts ++ (space, [c]) :: us ∧ spans ts ++ space = s) ↔
      ¬ (after r (.gap []) s).IsLiteral ∧ Front r t := by
  constructor
  · rintro ⟨ts, space, us, h, hs⟩
    have hm := not_isLiteral_of_word h hs (List.cons_ne_nil _ _) (List.cons_ne_nil _ _)
    refine ⟨hm, ?_⟩
    obtain ⟨ts', space', hs', heq⟩ := exists_word_sep hsep hspace hquote hm
    obtain ⟨more, us', hmore, hopen⟩ := tokensFrom_open_word (r := r) t
    rw [heq, hopen] at h
    have hspan : spans ts ++ space = spans ts' ++ (space' ++ []) := by
      rw [List.append_nil, hs, hs']
    have heq' : ts ++ (space, [c]) :: us = ts' ++ (space', [] ++ ([c] ++ more)) :: us' := h.symm
    obtain ⟨-, -, htext, -⟩ :=
      word_unique heq' hspan (List.cons_ne_nil _ _) (List.cons_ne_nil _ _)
    exact hmore.mp (List.cons.inj htext).2.symm
  · rintro ⟨hm, ht⟩
    obtain ⟨ts, space, hs, heq⟩ := exists_word_sep hsep hspace hquote hm
    exact ⟨ts, space, tokens r t, by rw [heq, tokensFrom_word ht], hs⟩

omit hsep in
theorem words_sep (ht : Front r t) : words r (c :: t) = [c] :: words r t := by
  unfold words
  rw [tokens, tokensFrom_start_word hspace hquote, tokensFrom_word ht]
  rfl

/-- White space in front of a separator that is a word of its own, and behind it, does not matter. -/
theorem words_space_sep {space : List α} (hs : ∀ c ∈ space, r.isSpace c = true)
    (hm : ¬ (after r (.gap []) s).IsLiteral) (ht : Front r t) :
    words r (s ++ (space ++ c :: t)) = words r (s ++ c :: t) ∧
      words r (s ++ c :: (space ++ t)) = words r (s ++ c :: t) := by
  have hc := front_sep hsep
  rw [words_append hm (hc t), words_append hm (front_append hs (hc t)), words_append hm (hc _),
    words_space hs, words_sep hspace hquote ht, words_sep hspace hquote (front_append hs ht),
    words_space hs]
  exact ⟨rfl, rfl⟩

end Separator

/-! ## White space made wider -/

/-- The first word behind white space. -/
theorem tokensFrom_gap_cons (hc : r.isSpace c = false) (t : List α) : ∃ text us, text ≠ [] ∧
    ∀ space, tokensFrom r (.gap space) (c :: t) = (space, text) :: us := by
  by_cases hquote : r.isQuote c = true
  · obtain ⟨more, us, -, heq⟩ := tokensFrom_open_literal (r := r) c c t
    refine ⟨[c] ++ more, us, by simp, fun space => ?_⟩
    rw [tokensFrom_start_literal hc hquote, heq]
  · obtain ⟨more, us, -, heq⟩ := tokensFrom_open_word (r := r) t
    refine ⟨[c] ++ more, us, by simp, fun space => ?_⟩
    rw [tokensFrom_start_word hc (Bool.not_eq_true _ ▸ hquote), heq]

/-- Behind a text that leaves no literal open white space ends the last word. -/
theorem tokens_append_space (hm : ¬ (after r (.gap []) s).IsLiteral) {space : List α}
    (hne : space ≠ []) (h : ∀ c ∈ space, r.isSpace c = true) (t : List α) :
    tokens r (s ++ (space ++ t)) =
      tokens r s ++ tokensFrom r (.gap ((after r (.gap []) s).trail ++ space)) t := by
  have hs : tokens r s = emitted r (.gap []) s ++ (after r (.gap []) s).finish := rfl
  rw [hs, tokens, tokensFrom_append]
  cases hmode : after r (.gap []) s with
  | gap before => rw [tokensFrom_space h, Mode.finish, List.append_nil]; rfl
  | word before text =>
    rw [tokensFrom_word (front_space hne h t), tokens, tokensFrom_space h, Mode.finish,
      List.append_assoc]
    rfl
  | literal before text quote prev => exact absurd (hmode ▸ trivial) hm

variable (hdisjoint : ∀ c, r.isSpace c = true → r.isQuote c = false)
include hdisjoint

/-- White space closes no literal. -/
theorem isLiteral_space (hok : m.Ok r) (hm : m.IsLiteral) {space : List α}
    (h : ∀ c ∈ space, r.isSpace c = true) : (after r m space).IsLiteral := by
  induction space generalizing m with
  | nil => exact hm
  | cons c space ih =>
    have hnext : (m.next r c).IsLiteral := by
      cases m with
      | gap before => exact absurd hm id
      | word before text => exact absurd hm id
      | literal before text quote prev =>
        have hc : ¬ (c = quote ∧ prev ≠ r.esc) := fun hclose => by
          have hquote := hdisjoint c (h c List.mem_cons_self)
          rw [hclose.1, hok.2] at hquote
          cases hquote
        rw [Mode.next, if_neg hc]
        trivial
    exact ih (hok.next c) hnext fun d hd => h d (List.mem_cons_of_mem c hd)

/-- **White space between two words can be any white space**: the words stay the same. -/
theorem tokens_widen {ts us : List (List α × List α)} {gap space text : List α}
    (htokens : tokens r (s ++ (gap ++ t)) = ts ++ (gap, text) :: us) (hs : spans ts = s)
    (hgap : gap ≠ []) (hne : space ≠ []) (h : ∀ c ∈ space, r.isSpace c = true) :
    tokens r (s ++ (space ++ t)) = ts ++ (space, text) :: us := by
  have hword : IsWord r (gap, text) :=
    ok_gap_nil.tokensFrom _ (htokens ▸ List.mem_append_right _ List.mem_cons_self)
  have htext : text ≠ [] := hword.ne_nil
  obtain ⟨hspace, c, text', hhead, hc⟩ := hword
  -- The word behind the white space is where the text goes on.
  have hwhole := spans_tokens (r := r) (s ++ (gap ++ t))
  obtain ⟨t', rfl⟩ : ∃ t', t = c :: t' := by
    obtain rfl : text = c :: text' := hhead
    simp only [htokens, spans_append, spans_cons, hs, List.append_assoc] at hwhole
    exact ⟨_, (List.append_cancel_left (List.append_cancel_left hwhole)).symm⟩
  obtain ⟨text'', us', htext'', hfirst⟩ := tokensFrom_gap_cons (r := r) hc t'
  have hm : ¬ (after r (.gap []) s).IsLiteral := by
    intro hliteral
    have hbehind := isLiteral_space hdisjoint ok_gap_nil.after hliteral hspace
    rw [← after_append] at hbehind
    rw [← List.append_assoc] at htokens
    exact not_isLiteral_of_word htokens (by rw [hs]) htext (List.cons_ne_nil _ _) hbehind
  have hsplit := spans_tokens (r := r) s
  rw [tokens_append_space hm hgap hspace, hfirst] at htokens
  have hspan : spans ts ++ gap =
      spans (tokens r s) ++ (((after r (.gap []) s).trail ++ gap) ++ []) := by
    rw [List.append_nil, ← List.append_assoc, hsplit, hs]
  obtain ⟨-, hts, rfl, rfl⟩ := word_unique htokens.symm hspan htext htext''
  have htrail : (after r (.gap []) s).trail = [] := by
    rw [← hts, hs] at hsplit
    exact List.append_right_eq_self.mp hsplit
  rw [tokens_append_space hm hne h, hfirst, htrail, hts]
  rfl

/-! ## Text put in behind white space -/

omit hdisjoint in
/-- Text that does not change the words is white space. -/
theorem isSpace_of_words_insert {x : List α}
    (h : words r (s ++ c :: (x ++ t)) = words r (s ++ c :: t)) : ∀ d ∈ x, r.isSpace d = true := by
  change words r (s ++ ([c] ++ (x ++ t))) = words r (s ++ ([c] ++ t)) at h
  have hfilter := congrArg (fun ws => (ws.flatten.filter fun d => !r.isSpace d).length) h
  simp only [filter_words, List.filter_append, List.length_append] at hfilter
  have hnil : x.filter (fun d => !r.isSpace d) = [] := by
    apply List.eq_nil_of_length_eq_zero
    omega
  intro d hd
  simpa using List.filter_eq_nil_iff.mp hnil d hd

theorem tokensFrom_literal_space_cons {before text : List α} {quote prev : α}
    (hquote : r.isQuote quote = true) (hc : r.isSpace c = true) :
    tokensFrom r (.literal before text quote prev) (c :: t) =
      tokensFrom r (.literal before (text ++ [c]) quote c) t := by
  refine tokensFrom_literal_next fun hclose => ?_
  rw [← hclose.1, hdisjoint c hc] at hquote
  cases hquote

variable (hesc : ∀ c, r.isSpace c = true → c ≠ r.esc)
include hesc

/-- A literal keeps the white space in it. -/
theorem tokensFrom_literal_space {before text space : List α} {quote prev : α}
    (hquote : r.isQuote quote = true) (hprev : r.isSpace prev = true)
    (h : ∀ c ∈ space, r.isSpace c = true) :
    tokensFrom r (.literal before text quote prev) (space ++ t) =
      tokensFrom r (.literal before (text ++ space) quote prev) t := by
  induction space generalizing text prev with
  | nil => rw [List.append_nil, List.nil_append]
  | cons c space ih =>
    have hc := h c List.mem_cons_self
    rw [List.cons_append, tokensFrom_literal_space_cons hdisjoint hquote hc,
      ih hc fun d hd => h d (List.mem_cons_of_mem c hd), List.append_assoc, List.singleton_append]
    exact tokensFrom_prev (hesc c hc) (hesc prev hprev) _ _ _ _

/-- An open literal shows the white space that is put into it. -/
theorem eq_nil_of_literal {x : List α} (hc : r.isSpace c = true) (hx : ∀ d ∈ x, r.isSpace d = true)
    (hliteral : (after r (.gap []) s).IsLiteral)
    (h : words r (s ++ c :: (x ++ t)) = words r (s ++ c :: t)) : x = [] := by
  have hok : (after r (.gap []) s).Ok r := ok_gap_nil.after
  unfold words tokens at h
  rw [tokensFrom_append, tokensFrom_append] at h
  cases hm : after r (.gap []) s with
  | gap before =>
    rw [hm] at hliteral
    exact False.elim hliteral
  | word before text =>
    rw [hm] at hliteral
    exact False.elim hliteral
  | literal before text quote prev =>
    rw [hm] at h hok
    obtain ⟨more, us, -, hmore⟩ := tokensFrom_open_literal (r := r) quote c t
    rw [tokensFrom_literal_space_cons hdisjoint hok.2 hc,
      tokensFrom_literal_space_cons hdisjoint hok.2 hc,
      tokensFrom_literal_space hdisjoint hesc hok.2 hc hx, hmore, hmore, List.map_append,
      List.map_append] at h
    have hlast := (List.cons.inj (List.append_cancel_left h)).1
    have hlen := congrArg List.length hlast
    simp only [List.length_append] at hlen
    apply List.eq_nil_of_length_eq_zero
    omega

/-- **Text put in behind white space** leaves the words alone exactly if there is none, or it is
white space and no literal is open there. -/
theorem words_insert_iff {x : List α} (hc : r.isSpace c = true) :
    words r (s ++ c :: (x ++ t)) = words r (s ++ c :: t) ↔
      x = [] ∨ (∀ d ∈ x, r.isSpace d = true) ∧ ¬ (after r (.gap []) s).IsLiteral := by
  have hfront : ∀ t, Front r (c :: t) := fun t => front_cons.mpr (Rules.breaks_space hc)
  constructor
  · intro h
    have hspace := isSpace_of_words_insert h
    by_cases hliteral : (after r (.gap []) s).IsLiteral
    · exact .inl (eq_nil_of_literal hdisjoint hesc hc hspace hliteral h)
    · exact .inr ⟨hspace, hliteral⟩
  · rintro (rfl | ⟨hspace, hm⟩)
    · rw [List.nil_append]
    · rw [words_append hm (hfront _), words_append hm (hfront _)]
      have hone : ∀ d ∈ [c], r.isSpace d = true := List.forall_mem_singleton.mpr hc
      have hcons : ∀ t, words r (c :: t) = words r t := fun t => words_space hone
      rw [hcons, hcons, words_space hspace]

end Lexing
