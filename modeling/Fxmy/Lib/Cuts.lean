import Fxmy.Lib.Lexing

/-!
# Cutting a text between words

Where a word of a text starts, the text is cut in two that are split on their own (`tokens_cut`), and
a word is the only one of its own text (`tokens_word`). So words can be put behind others
(`Boundary.words`), as long as none is begun there.
-/

namespace Lexing

variable {α : Type} [DecidableEq α] {r : Rules α} {s t : List α}

/-- No word goes on from `s` into `t`. -/
def Boundary (r : Rules α) (s t : List α) : Prop :=
  ¬ (after r (.gap []) s).IsLiteral ∧ (Front r t ∨ after r (.gap []) s = .gap [])

/-- Behind a boundary the words are those of the text behind it. -/
theorem Boundary.words (h : Boundary r s t) : words r (s ++ t) = words r s ++ words r t := by
  obtain ⟨hm, hfront | hgap⟩ := h
  · exact words_append hm hfront
  · unfold Lexing.words tokens
    rw [tokensFrom_append, hgap, List.map_append]
    congr 2
    rw [tokensFrom, hgap]
    exact (List.append_nil _).symm

/-- Only a quote ends a word with nothing behind it. -/
theorem isQuote_of_after {c : α} (h : after r (.gap []) (s ++ [c]) = .gap []) :
    r.isQuote c = true := by
  have hok : (after r (.gap []) s).Ok r := ok_gap_nil.after
  have hstart (space : List α) : Mode.start r space c ≠ .gap [] := by
    unfold Mode.start
    split
    · simp
    · split <;> nofun
  rw [after_append] at h
  change (after r (.gap []) s).next r c = .gap [] at h
  cases hmode : after r (.gap []) s with
  | gap space =>
    rw [hmode] at h
    exact absurd h (hstart space)
  | word space text =>
    rw [hmode, Mode.next] at h
    split at h
    · exact absurd h (hstart [])
    · cases h
  | literal space text quote prev =>
    rw [hmode] at h hok
    rw [Mode.next] at h
    split at h
    · next hclose => exact hclose.1 ▸ hok.2
    · cases h

/-- The text behind some words begins with what stands there. -/
theorem eq_append_of_tokens {ts us : List (List α × List α)} {gap text : List α}
    (h : tokens r (s ++ t) = ts ++ (gap, text) :: us) (hs : spans ts = s) :
    ∃ behind, t = gap ++ (text ++ behind) := by
  have hwhole := spans_tokens (r := r) (s ++ t)
  rw [h, spans_append, spans_cons, hs, List.append_assoc] at hwhole
  refine ⟨spans us ++ (after r (.gap []) (s ++ t)).trail, ?_⟩
  apply (List.append_cancel_left hwhole).symm.trans
  simp only [List.append_assoc]

/-- **A text is cut** in front of a word: both parts are split on their own. -/
theorem tokens_cut (hdisjoint : ∀ c, r.isSpace c = true → r.isQuote c = false)
    {ts us : List (List α × List α)} {gap text : List α}
    (h : tokens r (s ++ t) = ts ++ (gap, text) :: us) (hs : spans ts = s) :
    Boundary r s t ∧ tokens r s = ts ∧ tokens r t = (gap, text) :: us := by
  have hword : IsWord r (gap, text) :=
    ok_gap_nil.tokensFrom _ (h ▸ List.mem_append_right _ List.mem_cons_self)
  obtain ⟨behind, rfl⟩ := eq_append_of_tokens h hs
  have htext : text ≠ [] := hword.ne_nil
  obtain ⟨hspace, c, text', rfl, hc⟩ := hword
  -- No literal is open where the word starts, so none is in front of the white space.
  have hm : ¬ (after r (.gap []) s).IsLiteral := by
    intro hliteral
    have hbehind := isLiteral_space hdisjoint ok_gap_nil.after hliteral hspace
    rw [← after_append] at hbehind
    rw [← List.append_assoc] at h
    exact not_isLiteral_of_word h (by rw [hs]) htext (by simp) hbehind
  obtain ⟨text'', us', htext'', hfirst⟩ := tokensFrom_gap_cons (r := r) hc (text' ++ behind)
  have hright : tokens r (gap ++ (c :: text' ++ behind)) = (gap, text'') :: us' := by
    rw [tokens, tokensFrom_space hspace]
    exact hfirst _
  have hspans : spans (emitted r (.gap []) s) ++ (after r (.gap []) s).pending = s := spans_emitted
  have hok : (after r (.gap []) s).Ok r := ok_gap_nil.after
  cases hmode : after r (.gap []) s with
  | gap space =>
    rw [hmode] at hspans
    have hsplit := h
    rw [tokens, tokensFrom_append, hmode, tokensFrom_space hspace, List.cons_append, hfirst] at hsplit
    have hspan : spans ts ++ gap =
        spans (emitted r (.gap []) s) ++ ((space ++ gap) ++ []) := by
      rw [List.append_nil, ← List.append_assoc, hs]
      exact congrArg (· ++ gap) hspans.symm
    obtain ⟨-, rfl, rfl, rfl⟩ := word_unique hsplit.symm hspan htext htext''
    obtain rfl : space = [] := by
      have hgap := (List.cons.inj (List.append_cancel_left hsplit)).1
      exact List.append_left_eq_self.mp (congrArg Prod.fst hgap)
    refine ⟨⟨hm, .inr hmode⟩, ?_, hright⟩
    rw [tokens, tokensFrom, hmode]
    exact List.append_nil _
  | word space before =>
    rw [hmode] at hspans hok
    obtain ⟨more, us'', hmore, hopen⟩ := tokensFrom_open_word (r := r) (gap ++ (c :: text' ++ behind))
    have hsplit := h
    rw [tokens, tokensFrom_append, hmode, hopen] at hsplit
    -- The word in front is complete, or else it would be the one behind.
    have hfront : Front r (gap ++ (c :: text' ++ behind)) := by
      refine Decidable.byContradiction fun hnot => ?_
      obtain rfl : gap = [] :=
        Decidable.byContradiction fun hne => hnot (front_space hne hspace _)
      have hspan : spans ts ++ [] = spans (emitted r (.gap []) s) ++ (space ++ before) := by
        rw [List.append_nil, hs]
        exact hspans.symm
      obtain ⟨hnil, -⟩ := word_unique hsplit.symm hspan htext (mt hmore.mp hnot)
      exact hok.ne_nil hnil
    have hcomplete := h
    rw [tokens, tokensFrom_append, hmode, tokensFrom_word hfront, hright, List.append_cons]
      at hcomplete
    have hspan : spans ts ++ gap =
        spans (emitted r (.gap []) s ++ [(space, before)]) ++ (gap ++ []) := by
      rw [List.append_nil, spans_append, spans_cons, spans_nil, List.append_nil, hs]
      exact congrArg (· ++ gap) hspans.symm
    obtain ⟨-, rfl, rfl, rfl⟩ := word_unique hcomplete.symm hspan htext htext''
    refine ⟨⟨hm, .inl hfront⟩, ?_, hright⟩
    rw [tokens, tokensFrom, hmode]
    rfl
  | literal space before quote prev => exact absurd (hmode ▸ trivial) hm

/-- What is pending where nothing else has been read is the whole text. -/
theorem emitted_eq_nil {text us : List (List α × List α)} {word more space before : List α}
    (hsplit : emitted r (.gap []) s ++ (space, before ++ more) :: text = ([], word) :: us)
    (hspans : spans (emitted r (.gap []) s) ++ (space ++ before) = s) (hs : s = word)
    (hbefore : before ≠ []) : emitted r (.gap []) s = [] ∧ space = [] ∧ before = word := by
  cases hemitted : emitted r (.gap []) s with
  | nil =>
    rw [hemitted] at hsplit hspans
    obtain ⟨hfirst, -⟩ := List.cons.inj hsplit
    obtain ⟨rfl, -⟩ := Prod.mk.inj hfirst
    exact ⟨rfl, rfl, hspans.trans hs⟩
  | cons first rest =>
    rw [hemitted] at hsplit hspans
    obtain ⟨rfl, -⟩ := List.cons.inj hsplit
    have hlen := congrArg List.length (hspans.trans hs)
    simp only [spans_cons, List.length_append, List.length_nil] at hlen
    have hpos : 0 < before.length := List.length_pos_iff.mpr hbefore
    omega

/-- **A word is the only one of its own text**, and a literal that is open behind it is the word. -/
theorem tokens_word {us : List (List α × List α)} {gap word : List α}
    (h : tokens r (gap ++ (word ++ t)) = (gap, word) :: us) :
    words r word = [word] ∧ ((after r (.gap []) word).IsLiteral →
      emitted r (.gap []) word = [] ∧
        ∃ quote prev, after r (.gap []) word = .literal [] word quote prev) := by
  have hword : IsWord r (gap, word) := ok_gap_nil.tokensFrom _ (h ▸ List.mem_cons_self)
  obtain ⟨hspace, c, text, hhead, hc⟩ := hword
  obtain rfl : word = c :: text := hhead
  obtain ⟨word', us', -, hfirst⟩ := tokensFrom_gap_cons (r := r) hc (text ++ t)
  have hsplit : tokensFrom r (.gap []) (c :: text ++ t) = ([], c :: text) :: us := by
    rw [tokens, tokensFrom_space hspace, List.cons_append, hfirst] at h
    obtain ⟨hsame, rfl⟩ := List.cons.inj h
    rw [List.cons_append, hfirst, (Prod.mk.inj hsame).2]
  rw [tokensFrom_append] at hsplit
  have hspans : spans (emitted r (.gap []) (c :: text)) ++
      (after r (.gap []) (c :: text)).pending = c :: text := spans_emitted
  have hok : (after r (.gap []) (c :: text)).Ok r := ok_gap_nil.after
  have hwords : words r (c :: text) = (emitted r (.gap []) (c :: text)).map Prod.snd ++
      (after r (.gap []) (c :: text)).finish.map Prod.snd := List.map_append
  rw [hwords]
  cases hmode : after r (.gap []) (c :: text) with
  | gap space =>
    rw [hmode] at hsplit hspans hok
    refine ⟨?_, fun h => absurd h id⟩
    cases hemitted : emitted r (.gap []) (c :: text) with
    | nil =>
      rw [hemitted] at hspans
      obtain rfl : space = c :: text := hspans
      rw [hok c List.mem_cons_self] at hc
      cases hc
    | cons first rest =>
      rw [hemitted] at hsplit hspans
      obtain ⟨rfl, -⟩ := List.cons.inj hsplit
      have hrest : ∀ w ∈ rest, w.2 ≠ [] := fun w hw =>
        (ok_gap_nil.tokensFrom (t := c :: text) w (List.mem_append_left _
          (hemitted ▸ List.mem_cons_of_mem _ hw))).ne_nil
      cases rest with
      | nil => rfl
      | cons w rest =>
        have hlen := congrArg List.length hspans
        have hpos : 0 < w.2.length := List.length_pos_iff.mpr (hrest w List.mem_cons_self)
        simp only [spans_cons, List.length_append, List.length_nil] at hlen
        omega
  | word space before =>
    rw [hmode] at hsplit hspans hok
    obtain ⟨more, us'', -, hopen⟩ := tokensFrom_open_word (r := r) t
    rw [hopen] at hsplit
    obtain ⟨hnone, rfl, rfl⟩ := emitted_eq_nil hsplit hspans rfl hok.ne_nil
    rw [hnone]
    exact ⟨rfl, fun h => absurd h id⟩
  | literal space before quote prev =>
    rw [hmode] at hsplit hspans hok
    obtain ⟨more, us'', -, hopen⟩ := tokensFrom_open_literal (r := r) quote prev t
    rw [hopen] at hsplit
    obtain ⟨hnone, rfl, rfl⟩ := emitted_eq_nil hsplit hspans rfl hok.1.ne_nil
    rw [hnone]
    exact ⟨rfl, fun _ => ⟨rfl, quote, prev, rfl⟩⟩

/-- A text with no break in it goes on a word. -/
theorem tokensFrom_plain {plain : List α} (h : ∀ c ∈ plain, r.breaks c = false)
    (space before : List α) :
    tokensFrom r (.word space before) plain = [(space, before ++ plain)] := by
  induction plain generalizing before with
  | nil => rw [List.append_nil]; rfl
  | cons c plain ih =>
    obtain ⟨hc, hplain⟩ := List.forall_mem_cons.mp h
    rw [tokensFrom_word_next (Bool.eq_false_iff.mp hc), ih hplain, List.append_assoc,
      List.singleton_append]

/-- A text of other characters is a word. -/
theorem words_plain {c : α} {plain : List α} (hquote : r.isQuote c = false)
    (h : ∀ d ∈ c :: plain, r.breaks d = false) : words r (c :: plain) = [c :: plain] := by
  obtain ⟨hc, hplain⟩ := List.forall_mem_cons.mp h
  have hspace : r.isSpace c = false := (Bool.or_eq_false_iff.mp hc).1
  unfold words
  rw [tokens, tokensFrom_start_word hspace hquote, tokensFrom_plain hplain]
  rfl

end Lexing
