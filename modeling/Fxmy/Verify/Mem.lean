import Fxmy.Mem

/-!
# What `num_allocations` counts

The counter lags behind the heap. In every interleaving it is the number of blocks, less those that have
been given out and not been counted, and more those that have been given back and not been counted, as
far as a `LONG` holds that number (`run_counts`).
-/

namespace Fxmy

namespace Heap

/-- What the counter stands for. -/
def Counts (heap : Heap) : Prop :=
  heap.numAllocations =
    Int32.ofInt (heap.blocks.card + heap.freeing.length - heap.allocating.length)

theorem counts_initial : initial.Counts := rfl

variable {heap heap' : Heap}

/-- A step that changes both sides alike. -/
theorem Counts.of_eq (h : heap.Counts) (hcounter : heap'.numAllocations = heap.numAllocations)
    (hlag : (heap'.blocks.card + heap'.freeing.length - heap'.allocating.length : Int) =
      heap.blocks.card + heap.freeing.length - heap.allocating.length) : heap'.Counts := by
  unfold Counts
  rw [hcounter, hlag]
  exact h

theorem Counts.alloc (h : heap.Counts) (thread block : Nat) : (heap.alloc thread block).Counts := by
  unfold Heap.alloc
  split
  · exact h
  · next hnew =>
    have hblock : block ∉ heap.blocks := by
      intro hmem
      rw [decide_eq_true hmem, Bool.or_true] at hnew
      exact hnew rfl
    refine h.of_eq (by rfl) ?_
    simp only [Finset.card_insert_of_notMem hblock, List.length_cons]
    omega

theorem Counts.realloc (h : heap.Counts) {thread block : Nat} {ptr : Option Nat}
    (hstep : heap.realloc thread ptr block = .ok heap') : heap'.Counts := by
  cases ptr with
  | none =>
    cases hstep
    exact h.alloc thread block
  | some p =>
    unfold Heap.realloc at hstep
    simp only at hstep
    split at hstep
    · cases hstep
      exact h
    split at hstep
    · next hp =>
      split at hstep
      · cases hstep
        exact h
      · next hblock =>
        cases hstep
        refine h.of_eq (by rfl) ?_
        have hpos := Finset.card_pos.mpr ⟨p, hp⟩
        simp only [Finset.card_insert_of_notMem hblock, Finset.card_erase_of_mem hp]
        omega
    · cases hstep

theorem Counts.free (h : heap.Counts) {thread : Nat} {ptr : Option Nat}
    (hstep : heap.free thread ptr = .ok heap') : heap'.Counts := by
  cases ptr with
  | none =>
    cases hstep
    exact h
  | some p =>
    unfold Heap.free at hstep
    simp only at hstep
    split at hstep
    · cases hstep
      exact h
    split at hstep
    · next hp =>
      cases hstep
      refine h.of_eq (by rfl) ?_
      have hpos := Finset.card_pos.mpr ⟨p, hp⟩
      simp only [Finset.card_erase_of_mem hp, List.length_cons]
      omega
    · cases hstep

theorem Counts.count (h : heap.Counts) (thread : Nat) : (heap.count thread).Counts := by
  unfold Heap.count
  split
  · next hbusy =>
    have hmem : thread ∈ heap.allocating := List.contains_iff_mem.mp hbusy
    have hpos := List.length_pos_of_mem hmem
    have hlag : ((heap.blocks.card : Int) + heap.freeing.length -
        ((heap.allocating.length - 1 : Nat) : Int)) =
        heap.blocks.card + heap.freeing.length - heap.allocating.length + 1 := by omega
    unfold Counts at h ⊢
    simp only [List.length_erase_of_mem hmem, hlag]
    rw [h, Int32.ofInt_add _ 1]
    rfl
  split
  · next hbusy =>
    have hmem : thread ∈ heap.freeing := List.contains_iff_mem.mp hbusy
    have hpos := List.length_pos_of_mem hmem
    have hlag : ((heap.blocks.card : Int) + ((heap.freeing.length - 1 : Nat) : Int) -
        heap.allocating.length) =
        heap.blocks.card + heap.freeing.length - heap.allocating.length - 1 := by omega
    unfold Counts at h ⊢
    simp only [List.length_erase_of_mem hmem, hlag]
    rw [h, Int32.ofInt_sub _ 1]
    rfl
  · exact h

theorem Counts.step (h : heap.Counts) {action : HeapAction} (hstep : heap.step action = .ok heap') :
    heap'.Counts := by
  cases action with
  | alloc thread block =>
    cases hstep
    exact h.alloc thread block
  | realloc thread ptr block => exact h.realloc hstep
  | free thread ptr => exact h.free hstep
  | count thread =>
    cases hstep
    exact h.count thread

/-- No thread is between its two steps. -/
def AtRest (heap : Heap) : Prop := heap.allocating = [] ∧ heap.freeing = []

/-- **What the counter counts**, in every interleaving. Where no thread is within a call and a `LONG`
holds the number, `fxmy_get_num_allocations` gives the number of blocks. -/
theorem run_counts {actions : List HeapAction} (hrun : run actions = .ok heap) :
    heap.numAllocations =
        Int32.ofInt (heap.blocks.card + heap.freeing.length - heap.allocating.length) ∧
      (heap.AtRest → heap.blocks.card < 0x80000000 → heap.getNumAllocations = heap.blocks.card) := by
  have hcounts : heap.Counts :=
    Machine.run_keeps (fun h hstep => Counts.step h hstep) counts_initial hrun
  refine ⟨hcounts, fun hrest hsmall => ?_⟩
  unfold Counts at hcounts
  rw [hrest.1, hrest.2, List.length_nil] at hcounts
  unfold getNumAllocations
  rw [hcounts, Int32.toInt_ofInt_of_le (by omega) (by omega)]
  omega

/-- A thread frees its block while another has not counted its own. -/
theorem run_counts_two : ∃ heap,
    run [.alloc 0 1, .count 0, .alloc 1 2, .free 0 (some 1), .count 0] = .ok heap ∧
      heap.numAllocations =
        Int32.ofInt (heap.blocks.card + heap.freeing.length - heap.allocating.length) ∧
      (heap.AtRest → heap.blocks.card < 0x80000000 → heap.getNumAllocations = heap.blocks.card) := by
  obtain ⟨heap, hrun⟩ : ∃ heap,
      run [.alloc 0 1, .count 0, .alloc 1 2, .free 0 (some 1), .count 0] = .ok heap := ⟨_, rfl⟩
  exact ⟨heap, hrun, run_counts hrun⟩

end Heap

end Fxmy
