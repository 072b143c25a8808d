/-!
# Blocks of memory

A block of memory is the list of its elements. `load`, `store` and `move` are the reads, writes
and overlapping moves of a run of elements at an offset; each is refused (`none`) when it would
leave the block. A pointer into a block that is only read forward is the list of the elements from
it to the end of the block.

Several writes are a list of offsets and runs. Writes that `Tiles` a range follow one another in it,
so they touch each of its indices once (`Tiles.indices`) and fill it with their runs
(`Tiles.storeAll_eq_some`).
-/

namespace Block

variable {α : Type}

/-- The `n` elements at offset `off`. -/
def load (b : List α) (off n : Nat) : Option (List α) :=
  if off + n ≤ b.length then some ((b.drop off).take n) else none

/-- The block with `xs` written at offset `off`. -/
def store (b : List α) (off : Nat) (xs : List α) : Option (List α) :=
  if off + xs.length ≤ b.length then some (b.take off ++ xs ++ b.drop (off + xs.length)) else none

/-- The block with the `n` elements at `src` moved to `dst`; the two ranges may overlap. -/
def move (b : List α) (dst src n : Nat) : Option (List α) :=
  (load b src n).bind (store b dst)

/-- The offset of a forward pointer into `b`. -/
def offset (b p : List α) : Nat := b.length - p.length

@[simp] theorem offset_append (s p : List α) : offset (s ++ p) p = s.length := by
  simp [offset]

theorem load_mid (s m t : List α) {off n : Nat} (ho : off = s.length) (hn : n = m.length) :
    load (s ++ (m ++ t)) off n = some m := by
  subst ho hn
  simp [load]

theorem store_mid (s old t xs : List α) {off : Nat} (ho : off = s.length)
    (hl : xs.length = old.length) : store (s ++ (old ++ t)) off xs = some (s ++ (xs ++ t)) := by
  subst ho
  simp [store, hl]

/-- What stands behind `s` is overwritten. -/
theorem store_behind (s t xs : List α) {off : Nat} (ho : off = s.length) :
    store (s ++ t) off xs =
      if xs.length ≤ t.length then some (s ++ (xs ++ t.drop xs.length)) else none := by
  subst ho
  have hs : s.drop (s.length + xs.length) = [] := List.drop_eq_nil_of_le (Nat.le_add_right _ _)
  simp [store, List.drop_append, hs]

/-- Two writes, the second behind the first, are one. -/
theorem store_append (b xs ys : List α) (off : Nat) :
    store b off (xs ++ ys) = (store b off xs).bind fun b => store b (off + xs.length) ys := by
  by_cases hx : off + xs.length ≤ b.length
  · have hb : b = b.take off ++ b.drop off := (List.take_append_drop off b).symm
    have hs : off = (b.take off).length := by
      rw [List.length_take]
      omega
    have hlen : xs.length ≤ (b.drop off).length := by
      rw [List.length_drop]
      omega
    generalize b.take off = s at hb hs
    generalize b.drop off = t at hb hlen
    subst hb
    rw [store_behind s t _ hs, store_behind s t _ hs, if_pos hlen, Option.bind_some,
      ← List.append_assoc s xs, store_behind (s ++ xs) _ ys (by simp [hs])]
    simp only [List.length_append, List.length_drop, List.append_assoc, List.drop_drop]
    by_cases hy : xs.length + ys.length ≤ t.length
    · rw [if_pos hy, if_pos (by omega)]
    · rw [if_neg hy, if_neg (by omega)]
  · have hnone : store b off xs = none := if_neg hx
    rw [hnone, Option.bind_none]
    apply if_neg
    rw [List.length_append]
    omega

theorem length_store {b b' xs : List α} {off : Nat} (h : store b off xs = some b') :
    b'.length = b.length := by
  unfold store at h
  split at h
  · cases h
    simp
    omega
  · cases h

/-- What is outside the range of a write stays as it was. -/
theorem getElem?_store {b b' xs : List α} {off : Nat} (h : store b off xs = some b') {i : Nat}
    (hi : i < off ∨ off + xs.length ≤ i) : b'[i]? = b[i]? := by
  unfold store at h
  split at h
  · next hroom =>
    cases h
    have hoff : (b.take off).length = off := by
      rw [List.length_take]
      omega
    rcases hi with hi | hi
    · rw [List.append_assoc, List.getElem?_append_left (by omega), List.getElem?_take, if_pos hi]
    · rw [List.getElem?_append_right (by rw [List.length_append]; omega), List.length_append, hoff,
        List.getElem?_drop, Nat.add_sub_cancel' hi]
  · cases h

/-! ## Several writes -/

/-- The block after the writes, each a run of elements at an offset. -/
def storeAll (b : List α) : List (Nat × List α) → Option (List α)
  | [] => some b
  | (off, xs) :: writes => (store b off xs).bind fun b => storeAll b writes

/-- The indices that the writes touch, in order. -/
def indices (writes : List (Nat × List α)) : List Nat :=
  writes.flatMap fun write => List.range' write.1 write.2.length

/-- What the writes leave, in order. -/
def contents (writes : List (Nat × List α)) : List α := writes.flatMap (·.2)

/-- From `off` on, each write starts where the one before it ends. -/
def Tiles (off : Nat) : List (Nat × List α) → Prop
  | [] => True
  | (dest, xs) :: writes => dest = off ∧ Tiles (off + xs.length) writes

@[simp] theorem contents_append (writes writes' : List (Nat × List α)) :
    contents (writes ++ writes') = contents writes ++ contents writes' := List.flatMap_append

theorem Tiles.append {writes writes' : List (Nat × List α)} {off : Nat} (h : Tiles off writes)
    (h' : Tiles (off + (contents writes).length) writes') : Tiles off (writes ++ writes') := by
  induction writes generalizing off with
  | nil => exact h'
  | cons write writes ih =>
    obtain ⟨dest, xs⟩ := write
    obtain ⟨rfl, h⟩ := h
    have hcontents : contents ((dest, xs) :: writes) = xs ++ contents writes := rfl
    rw [hcontents, List.length_append, ← Nat.add_assoc] at h'
    exact ⟨rfl, ih h h'⟩

/-- No index is touched twice, and none is left out. -/
theorem Tiles.indices {writes : List (Nat × List α)} {off : Nat} (h : Tiles off writes) :
    indices writes = List.range' off (contents writes).length := by
  induction writes generalizing off with
  | nil => rfl
  | cons write writes ih =>
    obtain ⟨dest, xs⟩ := write
    obtain ⟨rfl, h⟩ := h
    have hcons : Block.indices ((dest, xs) :: writes) =
        List.range' dest xs.length ++ Block.indices writes := rfl
    have hcontents : contents ((dest, xs) :: writes) = xs ++ contents writes := rfl
    rw [hcons, ih h, hcontents, List.length_append, List.range'_append_1]

theorem storeAll_append (b : List α) (writes writes' : List (Nat × List α)) :
    storeAll b (writes ++ writes') = (storeAll b writes).bind fun b => storeAll b writes' := by
  induction writes generalizing b with
  | nil => rfl
  | cons write writes ih =>
    obtain ⟨dest, xs⟩ := write
    rw [List.cons_append, storeAll, storeAll, Option.bind_assoc]
    exact congrArg _ (funext ih)

/-- Writes that follow one another are one write. -/
theorem Tiles.storeAll_eq_store {writes : List (Nat × List α)} {off : Nat} (h : Tiles off writes)
    (hne : writes ≠ []) (b : List α) : storeAll b writes = store b off (contents writes) := by
  induction writes generalizing b off with
  | nil => exact absurd rfl hne
  | cons write writes ih =>
    obtain ⟨dest, xs⟩ := write
    obtain ⟨rfl, h⟩ := h
    have hcontents : contents ((dest, xs) :: writes) = xs ++ contents writes := rfl
    rw [storeAll, hcontents]
    cases writes with
    | nil =>
      have hnil : contents ([] : List (Nat × List α)) = [] := rfl
      rw [hnil, List.append_nil]
      exact Option.bind_fun_some _
    | cons write writes =>
      rw [store_append]
      exact congrArg _ (funext fun b => ih h (List.cons_ne_nil _ _) b)

/-- A block is filled by writes that tile it. -/
theorem Tiles.storeAll_eq_some {writes : List (Nat × List α)} (h : Tiles 0 writes) {b : List α}
    (hlen : b.length = (contents writes).length) : storeAll b writes = some (contents writes) := by
  cases writes with
  | nil => exact congrArg some (List.eq_nil_of_length_eq_zero hlen)
  | cons write writes =>
    have hstore := store_behind [] b (contents (write :: writes)) rfl
    rw [List.nil_append, if_pos (Nat.le_of_eq hlen.symm), ← hlen, List.drop_length,
      List.append_nil] at hstore
    rw [h.storeAll_eq_store (List.cons_ne_nil _ _)]
    exact hstore

/-! ## Overlapping moves -/

/-- Moving a run that stands behind `s` up by the length of what is inserted leaves `s` and the
elements the move skips over. -/
theorem move_up (s m x t : List α) {dst src n : Nat} (hs : src = s.length) (hn : n = m.length)
    (hd : dst = s.length + x.length) :
    move (s ++ (m ++ (x ++ t))) dst src n = some (s ++ ((m ++ x).take x.length ++ (m ++ t))) := by
  subst hs hn hd
  unfold move
  rw [load_mid s m (x ++ t) rfl rfl, Option.bind_some]
  have hsplit : s ++ (m ++ (x ++ t)) =
      (s ++ (m ++ x).take x.length) ++ ((m ++ x).drop x.length ++ t) := by
    simp only [List.append_assoc]
    rw [← List.append_assoc ((m ++ x).take x.length), List.take_append_drop, List.append_assoc]
  rw [hsplit, store_mid _ ((m ++ x).drop x.length) t m (by simp) (by simp)]
  simp

end Block
