import Fxmy.Verify.Limit
import Fxmy.Verify.Stream

/-!
# Queries without a LIMIT that can be moved

`fxmy_rearrange_limit` checks one of its pointers, the one to the LIMIT, and that one only for NULL:
it returns its error exactly if the scan comes to the end of the text (`refuses_iff`). A LIMIT
without a count behind it or a SELECT before it is taken like any other.
-/

namespace Fxmy

open Exec

variable {ct : Ctype FxmyChar}

/-- `fxmy_rearrange_limit` returns its error and leaves the query as it is. -/
def Refuses (ct : Ctype FxmyChar) (query : List FxmyChar) : Prop :=
  ∃ r, r ≠ 0 ∧ rearrangeLimit ct query = .ok (r, query)

/-- Behind the last token both comparisons are over no characters, so that the scan ends. -/
theorem limitLoop_end {str stop : Option (List FxmyChar)} (h : fnextToken ct str = .ok (none, stop))
    (select next : Option (List FxmyChar)) (fuel : Nat) :
    ∃ scan, limitLoop ct select next str (fuel + 1) = .ok scan ∧ scan.limitBegin = none := by
  have hlimit : matchesKeyword ct none stop "LIMIT" = .ok true := rfl
  rw [limitLoop, h, except_bind_ok]
  simp only
  rw [hlimit]
  cases select with
  | none => exact ⟨_, rfl, rfl⟩
  | some select => exact ⟨_, rfl, rfl⟩

/-- The scan takes a turn for each token and one more. Without a token that passes for a LIMIT it comes
to the end of the text. -/
theorem limitLoop_returns {p : List FxmyChar} {ts : List Token} (h : Tokenizes ct p ts)
    (select next : Option (List FxmyChar)) {fuel : Nat} (hfuel : ts.length < fuel) :
    ∃ scan, limitLoop ct select next (some p) fuel = .ok scan ∧
      ((∀ t ∈ ts, ¬ t.Abbreviates ct "LIMIT") → scan.limitBegin = none) := by
  obtain ⟨r, hyields, hend⟩ := h
  induction hyields generalizing select next fuel with
  | done p =>
    obtain ⟨fuel, rfl⟩ := Nat.exists_eq_add_one.mpr hfuel
    obtain ⟨scan, hscan, hnone⟩ := limitLoop_end hend select next fuel
    exact ⟨scan, hscan, fun _ => hnone⟩
  | token t hnext _ ih =>
    obtain ⟨fuel, rfl⟩ := Nat.exists_eq_add_one.mpr (Nat.zero_lt_of_lt hfuel)
    have ht := fnextToken_eq_some hnext
    obtain ⟨isSelect, isLimit, -, hlimit, heq⟩ := limitLoop_token ht hnext select next fuel
    rw [heq]
    cases isLimit with
    | true => exact ⟨_, rfl, fun hnone => absurd (hlimit.mp rfl) (hnone t List.mem_cons_self)⟩
    | false =>
      obtain ⟨scan, hscan, hnone⟩ := ih _ _ (Nat.lt_of_succ_lt_succ hfuel) hend
      exact ⟨scan, hscan, fun h => hnone fun u hu => h u (List.mem_cons_of_mem t hu)⟩

/-- With a LIMIT the function does not return its error. -/
theorem not_refuses {query : List FxmyChar} {scan : LimitScan} {limitBegin : List FxmyChar}
    (hscan : limitLoop ct none none (some query) (query.length + 1) = .ok scan)
    (hlimit : scan.limitBegin = some limitBegin) : ¬ Refuses ct query := by
  rintro ⟨r, hr, h⟩
  unfold rearrangeLimit at h
  rw [hscan, except_bind_ok, hlimit] at h
  obtain ⟨⟨numBegin, numEnd⟩, -, h⟩ := except_bind_eq_ok.mp h
  simp only at h
  split at h
  · split at h
    · cases h
      exact hr rfl
    · cases h
  · cases h

/-- No token of the query passes for a LIMIT. -/
def NoLimit (ct : Ctype FxmyChar) (query : List FxmyChar) : Prop :=
  ∀ ts r, Yields ct query ts r → ∀ t ∈ ts, ¬ t.Abbreviates ct "LIMIT"

theorem Refuses.noLimit {query : List FxmyChar} (hrefuses : Refuses ct query) :
    NoLimit ct query := by
  intro ts r hyields t ht hlimit
  rcases forall_or_first (Token.Abbreviates ct · "LIMIT") ts with
    hnot | ⟨front, limit, behind, rfl, hfirst, hfront⟩
  · exact hnot t ht hlimit
  · have hsplit : front ++ limit :: behind = front ++ [limit] ++ behind := List.append_cons ..
    rw [hsplit] at hyields
    obtain ⟨q, hscan, -⟩ := Yields.append_iff.mp hyields
    obtain ⟨scan, hloop, hsome⟩ := limitLoop_limit hscan hfront hfirst
    exact not_refuses hloop hsome hrefuses

theorem NoLimit.rearrangeLimit_eq {text rest : List FxmyChar}
    (h : NoLimit ct (text ++ nul :: rest)) :
    rearrangeLimit ct (text ++ nul :: rest) = .ok (1, text ++ nul :: rest) := by
  obtain ⟨ts, htokens⟩ := exists_tokenizes ct
    (List.mem_append_right text (List.mem_cons_self (a := nul) (l := rest)))
  obtain ⟨scan, hloop, hnone⟩ := limitLoop_returns htokens none none htokens.length_lt
  obtain ⟨r, hyields, -⟩ := htokens
  unfold rearrangeLimit
  rw [hloop, except_bind_ok, hnone (h ts r hyields)]

/-- **A query is refused** exactly if no token of it passes for a LIMIT. -/
theorem refuses_iff (ct : Ctype FxmyChar) (text rest : List FxmyChar) :
    Refuses ct (text ++ nul :: rest) ↔
      ∀ ts r, Yields ct (text ++ nul :: rest) ts r → ∀ t ∈ ts, ¬ t.Abbreviates ct "LIMIT" := by
  constructor
  · exact Refuses.noLimit
  · intro h
    exact ⟨1, by decide, NoLimit.rearrangeLimit_eq h⟩

/-- An UPDATE with a LIMIT is not refused: the distance to the NULL behind no SELECT is computed. -/
theorem update_limit_not_refused :
    ∃ ts, Yields cLocale (chars "UPDATE t LIMIT 5" ++ [nul]) ts [nul] ∧
      fnextToken cLocale (some [nul]) = .ok (none, none) ∧
      (∀ t ∈ ts, ¬ t.Abbreviates cLocale "SELECT") ∧
      ¬ Refuses cLocale (chars "UPDATE t LIMIT 5" ++ [nul]) := by
  refine ⟨[⟨[], chars "UPDATE"⟩, ⟨chars " ", chars "t"⟩, ⟨chars " ", chars "LIMIT"⟩,
    ⟨chars " ", chars "5"⟩], ?_, rfl, ?_, ?_⟩
  · exact .token ⟨[], chars "UPDATE"⟩ rfl (.token ⟨chars " ", chars "t"⟩ rfl
      (.token ⟨chars " ", chars "LIMIT"⟩ rfl (.token ⟨chars " ", chars "5"⟩ rfl (.done _))))
  · unfold Token.Abbreviates
    decide
  · have hwild : rearrangeLimit cLocale (chars "UPDATE t LIMIT 5" ++ [nul]) = .error .wild := rfl
    rintro ⟨r, -, h⟩
    rw [hwild] at h
    cases h

end Fxmy
