import Mathlib.Data.List.SplitLengths

/-!
# Lists in pieces

A list cut into `k` pieces of `n` elements, the last of which may be shorter: `Packed` says that no
piece is empty and that only the last is not full. With the least `k` that is enough the pieces are
packed (`packed_splitLengths`).

A stream that arrives in pieces is cut where one of them ends (`CutAt`).
-/

namespace Chunks

variable {α : Type*} {n k : Nat} {l : List α}

/-- Pieces of at most `n` elements, none of them empty and all but the last full. -/
structure Packed (n : Nat) (pieces : List (List α)) : Prop where
  pos : ∀ p ∈ pieces, 0 < p.length
  le : ∀ p ∈ pieces, p.length ≤ n
  full : ∀ p ∈ pieces.dropLast, p.length = n

theorem Packed.nil : Packed n ([] : List (List α)) where
  pos _ h := nomatch h
  le _ h := nomatch h
  full _ h := nomatch h

theorem Packed.singleton {p : List α} (hpos : 0 < p.length) (hle : p.length ≤ n) :
    Packed n [p] where
  pos := by simpa using hpos
  le := by simpa using hle
  full _ h := nomatch h

/-- A full piece in front. -/
theorem Packed.cons {p : List α} {pieces : List (List α)} (hpos : 0 < n) (hp : p.length = n)
    (h : Packed n pieces) : Packed n (p :: pieces) := by
  refine ⟨?_, ?_, ?_⟩
  · exact List.forall_mem_cons.mpr ⟨by omega, h.pos⟩
  · exact List.forall_mem_cons.mpr ⟨by omega, h.le⟩
  · cases pieces with
    | nil => exact fun _ h => nomatch h
    | cons q pieces =>
      rw [List.dropLast_cons_cons]
      exact List.forall_mem_cons.mpr ⟨hp, h.full⟩

/-- The pieces are packed if there is no room for one piece more. -/
theorem packed_splitLengths (hle : l.length ≤ k * n) (hlt : k * n < l.length + n) :
    Packed n ((List.replicate k n).splitLengths l) := by
  induction k generalizing l with
  | zero => exact .nil
  | succ k ih =>
    rw [List.replicate_succ, List.splitLengths_cons]
    rw [Nat.succ_mul] at hle hlt
    cases k with
    | zero => exact .singleton (by rw [List.length_take]; omega) (List.length_take_le n l)
    | succ k =>
      rw [Nat.succ_mul] at hle hlt ih
      have hfull : (l.take n).length = n := by
        rw [List.length_take]
        omega
      apply Packed.cons (by omega) hfull
      apply ih
      · rw [List.length_drop]
        omega
      · rw [List.length_drop]
        omega

/-! ## Streams -/

/-- A stream as it arrives: pieces that are not empty. -/
structure Segmentation (l : List α) where
  pieces : List (List α)
  nonempty : ∀ p ∈ pieces, p ≠ []
  flatten : pieces.flatten = l

/-- The pieces of a stream are cut behind its first `i` elements. -/
def CutAt (pieces : List (List α)) (i : Nat) : Prop := ∃ k, (pieces.take k).flatten.length = i

theorem cutAt_zero (pieces : List (List α)) : CutAt pieces 0 := ⟨0, rfl⟩

/-- A cut is in front of the first piece or a cut of those behind it. -/
theorem cutAt_cons {p : List α} {pieces : List (List α)} {i : Nat} :
    CutAt (p :: pieces) i ↔ i = 0 ∨ ∃ j, CutAt pieces j ∧ i = p.length + j := by
  constructor
  · rintro ⟨k, rfl⟩
    cases k with
    | zero => exact .inl rfl
    | succ k => exact .inr ⟨_, ⟨k, rfl⟩, by simp⟩
  · rintro (rfl | ⟨_, ⟨k, rfl⟩, rfl⟩)
    · exact cutAt_zero _
    · exact ⟨k + 1, by simp⟩

theorem cutAt_singleton {p : List α} {i : Nat} : CutAt [p] i ↔ i = 0 ∨ i = p.length := by
  rw [cutAt_cons]
  apply or_congr_right
  constructor
  · rintro ⟨_, ⟨k, rfl⟩, rfl⟩
    rw [List.take_nil, List.flatten_nil, List.length_nil, Nat.add_zero]
  · rintro rfl
    exact ⟨0, cutAt_zero [], rfl⟩

/-- Of two ways to cut a stream in two, the first is cut no later or further on. -/
theorem append_eq_append_cases {p q front rest : List α} (h : p ++ q = front ++ rest) :
    (∃ more, front = p ++ more ∧ q = more ++ rest) ∨
      ∃ more, more ≠ [] ∧ p = front ++ more ∧ rest = more ++ q := by
  rcases List.append_eq_append_iff.mp h with ⟨more, hfront, hq⟩ | ⟨more, hp, hrest⟩
  · exact .inl ⟨more, hfront, hq⟩
  · by_cases hmore : more = []
    · subst hmore
      exact .inl ⟨[], by simpa using hp.symm, by simpa using hrest.symm⟩
    · exact .inr ⟨more, hmore, hp, hrest⟩

/-- A stream that arrives in one piece. -/
def Segmentation.one (h : l ≠ []) : Segmentation l where
  pieces := [l]
  nonempty p hp := by rwa [List.mem_singleton.mp hp]
  flatten := List.flatten_singleton

/-- What is left of a stream when its first piece is cut in two. -/
theorem cutAt_append {p q : List α} {pieces : List (List α)} {i : Nat} (h : 0 < i) :
    CutAt ((p ++ q) :: pieces) (p.length + i) ↔ CutAt (q :: pieces) i := by
  rw [cutAt_cons, cutAt_cons, List.length_append]
  constructor
  · rintro (hzero | ⟨j, hj, hi⟩)
    · omega
    · exact .inr ⟨j, hj, by omega⟩
  · rintro (hzero | ⟨j, hj, hi⟩)
    · omega
    · exact .inr ⟨j, hj, by omega⟩

end Chunks
