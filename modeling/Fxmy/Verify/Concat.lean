import Fxmy.Lib.Exec
import Fxmy.String

/-!
# Appending to a bounded string

`fxmy_fstrncat` passes the capacity of its destination to `wcsncat`, which counts the characters that
are appended. So what does not fit is not cut off but written behind the block (`fstrncat_eq`).
-/

namespace Fxmy

open Exec

/-- A string is what stands before its first terminator. -/
theorem stringText_eq_ok {block text : List FxmyChar} :
    stringText block = .ok text ↔ nul ∉ text ∧ ∃ rest, block = text ++ nul :: rest := by
  constructor
  · intro h
    unfold stringText at h
    split at h
    · next hmem =>
      obtain ⟨front, rest, rfl, hfront⟩ := List.eq_append_cons_of_mem hmem
      have htext := stringText_terminated hfront rest
      unfold stringText at htext
      rw [if_pos hmem, h] at htext
      cases htext
      exact ⟨hfront, rest, rfl⟩
    · cases h
  · rintro ⟨htext, rest, rfl⟩
    exact stringText_terminated htext rest

section

variable {old text : List FxmyChar} (hold : nul ∉ old) (htext : nul ∉ text) (pad rest : List FxmyChar)
include hold htext

/-- Up to the last write, which is a terminator at the end of the block. -/
theorem strncat_eq (n : Nat) : strncat (old ++ nul :: pad) (some (text ++ nul :: rest)) n =
    if (text.take n).length ≤ pad.length then
      .ok (old ++ text.take n ++ nul :: pad.drop (text.take n).length)
    else .error .outside := by
  have hdrop : (old ++ nul :: pad).drop (old ++ text.take n ++ [nul]).length =
      pad.drop (text.take n).length := by
    rw [List.append_assoc, List.length_append, List.drop_length_add_append, List.length_append,
      List.length_singleton, List.drop_succ_cons]
  unfold strncat
  simp only
  rw [stringText_terminated hold, except_bind_ok, stringText_terminated htext, except_bind_ok, hdrop]
  have hroom : (old ++ text.take n ++ [nul]).length ≤ (old ++ nul :: pad).length ↔
      (text.take n).length ≤ pad.length := by
    simp only [List.length_append, List.length_cons, List.length_nil]
    omega
  by_cases hfits : (text.take n).length ≤ pad.length
  · rw [if_pos (hroom.mpr hfits), if_pos hfits, List.append_assoc _ [nul], List.singleton_append]
  · rw [if_neg (mt hroom.mp hfits), if_neg hfits]

/-- **What `fxmy_fstrncat` does**: it appends the string if there is room for all of it, and writes
outside the block if there is not. -/
theorem fstrncat_eq {size : Nat} (hsize : (old ++ nul :: pad).length = size) :
    fstrncat (old ++ nul :: pad) size (some (text ++ nul :: rest)) =
      if text.length ≤ pad.length then
        .ok (old ++ text ++ (nul :: pad.drop text.length).set (pad.length - text.length) nul)
      else .error .outside := by
  rw [List.length_append, List.length_cons] at hsize
  have htake : (text.take size).length ≤ pad.length ↔ text.length ≤ pad.length := by
    rw [List.length_take]
    omega
  unfold fstrncat
  rw [strncat_eq hold htext]
  by_cases hfits : text.length ≤ pad.length
  · have hwhole : text.take size = text := List.take_of_length_le (by omega)
    have hlast : size - 1 = (old ++ text).length + (pad.length - text.length) := by
      rw [List.length_append]
      omega
    rw [if_pos (htake.mpr hfits), if_pos hfits, hwhole, except_bind_ok, if_pos, hlast,
      List.set_append_right _ _ (Nat.le_add_right _ _), Nat.add_sub_cancel_left]
    simp only [List.length_append, List.length_cons, List.length_drop]
    omega
  · rw [if_neg (mt htake.mp hfits), if_neg hfits]
    rfl

/-- The terminator that is written at the end of the block is not before the one behind the strings. -/
theorem stringText_concat (n : Nat) :
    stringText (old ++ text ++ (nul :: pad).set n nul) = .ok (old ++ text) := by
  have hset : ∃ after, (nul :: pad).set n nul = nul :: after := by
    cases n with
    | zero => exact ⟨_, rfl⟩
    | succ n => exact ⟨_, rfl⟩
  obtain ⟨after, hset⟩ := hset
  have hnul : nul ∉ old ++ text := fun hmem => (List.mem_append.mp hmem).elim hold htext
  rw [hset, stringText_terminated hnul]

end

/-- The destination is left with as much of both strings as there is room for. -/
def Concatenates (dest src : List FxmyChar) : Prop :=
  ∃ old text out, stringText dest = .ok old ∧ stringText src = .ok text ∧
    fstrncat dest dest.length (some src) = .ok out ∧ out.length = dest.length ∧
    stringText out = .ok ((old ++ text).take (dest.length - 1))

/-- **When `fxmy_fstrncat` stays inside its destination**: there is room for both strings. -/
theorem concatenates_iff {dest src old text : List FxmyChar} (hdest : stringText dest = .ok old)
    (hsrc : stringText src = .ok text) :
    Concatenates dest src ↔ old.length + text.length < dest.length := by
  obtain ⟨hold, pad, rfl⟩ := stringText_eq_ok.mp hdest
  obtain ⟨htext, rest, rfl⟩ := stringText_eq_ok.mp hsrc
  have hcat := fstrncat_eq hold htext pad rest rfl
  have hfits : old.length + text.length < (old ++ nul :: pad).length ↔ text.length ≤ pad.length := by
    rw [List.length_append, List.length_cons]
    omega
  unfold Concatenates
  rw [hfits, hdest, hsrc, hcat]
  by_cases h : text.length ≤ pad.length
  · rw [if_pos h]
    refine iff_of_true ⟨old, text, _, rfl, rfl, rfl, ?_, ?_⟩ h
    · simp only [List.length_append, List.length_set, List.length_cons, List.length_drop]
      omega
    · rw [stringText_concat hold htext, List.take_of_length_le]
      simp only [List.length_append, List.length_cons]
      omega
  · rw [if_neg h]
    refine iff_of_false ?_ h
    rintro ⟨_, _, _, -, -, hout, -⟩
    cases hout

/-- One character and its terminator do not go into a block that is full. -/
theorem full_not_concatenated : ¬ ∀ dest src old text : List FxmyChar,
    stringText dest = .ok old → stringText src = .ok text → Concatenates dest src := by
  intro h
  have hfull := h (cstring "a") (cstring "b") (chars "a") (chars "b") rfl rfl
  obtain ⟨_, _, _, -, -, hout, -⟩ := hfull
  cases hout

theorem concatenates_columns : Concatenates (cstring "sp_columns " ++ List.replicate 2 nul) (cstring "t") :=
  (@concatenates_iff _ _ (chars "sp_columns ") (chars "t") rfl rfl).mpr (by decide)

end Fxmy
