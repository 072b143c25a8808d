import Fxmy.Verify.Utf8
import Fxmy.Verify.Progress

/-!
# Characters beyond the 16 bits

A character of more than 16 bits has four bytes in UTF-8. The decoder takes the first three for a
character, and the fourth, which is no lead, ends the program. So over the UTF-8 of any text
`fxmy_fstrfromchar` makes the text or aborts (`fstrfromchar_bytes`), and a client brings the server
down with one such character in a query (`handleCommandPacket_bytes`).
-/

namespace Fxmy

open Exec Utf8

variable {build : Build} {s : List Char} {behind : List UInt8}

/-! ## The decoder -/

/-- A byte between the leads and the short forms is refused. -/
theorem utf8ToUcs2_tail {b : UInt8} (hlow : 0x80 ≤ b.toNat) (hhigh : b.toNat < 0xC0)
    (rest : List UInt8) : utf8ToUcs2 build (b :: rest) = .error .abort := by
  obtain ⟨h0, h1⟩ := not_ascii hlow
  have h2 : ¬ 0xC0 ≤ b := fun h => Nat.not_le_of_lt hhigh h
  have h3 : ¬ 0xE0 ≤ b := fun h => by
    have : 0xE0 ≤ b.toNat := h
    omega
  unfold utf8ToUcs2
  simp only [and_E0_eq_iff, and_C0_eq_iff]
  rw [if_neg h0, if_neg h1, if_neg h3, if_neg h2]

/-- A character of more than 16 bits ends the loop. -/
theorem fstrfromcharLoop_four {c : Char} (hc : 0x10000 ≤ c.toNat) {remaining : Nat}
    {rest : List UInt8} (hrest : remaining ≤ rest.length) (d : FxmyChar) (dest : List FxmyChar) :
    fstrfromcharLoop build remaining (d :: dest) (String.utf8EncodeChar c ++ rest) =
      .error .abort := by
  obtain ⟨b₀, b₁, b₂, b₃, heq, hlead, hb₁, -, hlow, hhigh⟩ := utf8EncodeChar_four hc
  obtain ⟨h0, h1⟩ : b₀ ≠ 0 ∧ ¬ b₀ < 0x80 := not_ascii (by omega)
  have h3 : 0xE0 ≤ b₀ := UInt8.le_iff_toNat_le.mpr (by simp; omega)
  have hb₁ : b₁ ≠ 0 := (not_ascii hb₁).1
  have hw : charWidth build (b₀ :: b₁ :: b₂ :: b₃ :: rest) = some 3 := by
    simp [charWidth, h0, h1, h3, hb₁]
  have hmore : remaining < (b₀ :: b₁ :: b₂ :: b₃ :: rest).length := by
    simp only [List.length_cons]
    omega
  have hlast : remaining < (b₃ :: rest).length := Nat.lt_succ_of_le hrest
  have hdrop : (b₀ :: b₁ :: b₂ :: b₃ :: rest).drop 3 = b₃ :: rest := rfl
  rw [heq]
  change fstrfromcharLoop build remaining (d :: dest) (b₀ :: b₁ :: b₂ :: b₃ :: rest) = _
  rw [fstrfromcharLoop_char hmore hw, hdrop,
    fstrfromcharLoop_error hlast (utf8ToUcs2_tail hlow hhigh rest)]
  rfl

theorem unit_ne_zero {c : Char} (hc : c.toNat < 0x10000) (hnul : c ≠ '\x00') : unit c ≠ 0 := by
  intro h
  have hnat := congrArg UInt16.toNat h
  rw [unit, UInt16.toNat_ofNat', Nat.mod_eq_of_lt hc] at hnat
  exact hnul (Char.toNat_inj.mp hnat)

/-- So does a text that has one. -/
theorem fstrfromcharLoop_beyond (hs : '\x00' ∉ s) (hbeyond : ∃ c ∈ s, 0x10000 ≤ c.toNat)
    {dest : List FxmyChar} (hdest : (bytes s).length ≤ dest.length) :
    fstrfromcharLoop build behind.length dest (bytes s ++ behind) = .error .abort := by
  induction s generalizing dest with
  | nil =>
    obtain ⟨c, hc, -⟩ := hbeyond
    cases hc
  | cons c s ih =>
    have hrest : behind.length ≤ (bytes s ++ behind).length := by
      rw [List.length_append]
      exact Nat.le_add_left _ _
    have hpos : 0 < (String.utf8EncodeChar c).length :=
      List.length_pos_iff.mpr String.utf8EncodeChar_ne_nil
    rw [bytes_cons, List.length_append] at hdest
    rw [bytes_cons, List.append_assoc]
    cases dest with
    | nil =>
      rw [List.length_nil] at hdest
      omega
    | cons d dest =>
      by_cases hc : 0x10000 ≤ c.toNat
      · exact fstrfromcharLoop_four hc hrest d dest
      · have hc : c.toNat < 0x10000 := Nat.lt_of_not_le hc
        have hnul : c ≠ '\x00' := fun h => hs (h ▸ List.mem_cons_self)
        have hbeyond : ∃ c ∈ s, 0x10000 ≤ c.toNat := by
          obtain ⟨e, he, hlarge⟩ := hbeyond
          rcases List.mem_cons.mp he with rfl | he
          · omega
          · exact ⟨e, he, hlarge⟩
        have hw := (decodes_encodeChar build (bytes s ++ behind) (unit_ne_zero hc hnul)).1
        rw [unit, encodeChar_eq c hc] at hw
        have hmore : behind.length < (String.utf8EncodeChar c ++ (bytes s ++ behind)).length := by
          rw [List.length_append]
          omega
        rw [List.length_cons] at hdest
        rw [fstrfromcharLoop_char hmore hw, List.drop_left,
          ih (fun h => hs (List.mem_cons_of_mem c h)) hbeyond (by omega)]
        rfl

/-- **Over the UTF-8 of a text**, whatever stands behind it, `fxmy_fstrfromchar` makes the text if
its characters have 16 bits, and aborts if one has more. -/
theorem fstrfromchar_bytes (build : Build) (behind : List UInt8) (hs : '\x00' ∉ s)
    {dest : List FxmyChar} (hdest : (bytes s).length ≤ dest.length) :
    fstrfromchar build dest (bytes s ++ behind) (bytes s).length =
      if fits s then
        .ok (s.map unit ++ (List.replicate ((bytes s).length - s.length) 0 ++
          dest.drop (bytes s).length))
      else .error .abort := by
  by_cases hfits : fits s = true
  · have hall := fits_iff.mp hfits
    rw [if_pos hfits]
    have hcs : 0 ∉ s.map unit := by
      intro hmem
      obtain ⟨c, hc, hzero⟩ := List.mem_map.mp hmem
      exact unit_ne_zero (hall c hc) (fun h => hs (h ▸ hc)) hzero
    rw [bytes_eq_encode hall] at hdest ⊢
    rw [(fstrfromchar_encode build behind hcs hdest).1, List.length_map]
  · rw [if_neg hfits]
    have hbeyond : ∃ c ∈ s, 0x10000 ≤ c.toNat := by
      simpa [fits_iff] using hfits
    unfold fstrfromchar
    rw [if_pos hdest, List.length_append, Nat.add_sub_cancel_left]
    apply fstrfromcharLoop_beyond hs hbeyond
    rw [List.length_append, List.length_replicate]
    exact Nat.le_add_right _ _

/-- The euro sign is a character of 16 bits. -/
theorem fstrfromchar_bytes_euro :
    fstrfromchar ⟨true, false⟩ (List.replicate 4 7) (bytes ['€', 'a'] ++ [])
      (bytes ['€', 'a']).length =
      if fits ['€', 'a'] then
        .ok ((['€', 'a'] : List Char).map unit ++
          (List.replicate ((bytes ['€', 'a']).length - ['€', 'a'].length) 0 ++
            (List.replicate 4 (7 : FxmyChar)).drop (bytes ['€', 'a']).length))
      else .error .abort :=
  fstrfromchar_bytes ⟨true, false⟩ [] (by decide) (by decide)

/-! ## A query -/

/-- The decoded query, with the zeros of its block behind it. -/
def wideText (s : List Char) : List FxmyChar :=
  s.map unit ++ List.replicate ((bytes s).length + 1 - s.length) nul

theorem length_le_bytes (s : List Char) : s.length ≤ (bytes s).length := by
  induction s with
  | nil => exact Nat.le_refl 0
  | cons c s ih =>
    have hpos : 0 < (String.utf8EncodeChar c).length :=
      List.length_pos_iff.mpr String.utf8EncodeChar_ne_nil
    rw [bytes_cons, List.length_append, List.length_cons]
    omega

theorem decodeQuery_bytes (build : Build) (hs : '\x00' ∉ s) :
    decodeQuery build (bytes s ++ [0]) (bytes s).length =
      if fits s then .ok (wideText s) else .error .abort := by
  have hlen := length_le_bytes s
  have hroom : (bytes s).length ≤
      (List.replicate ((bytes s).length + 1) (nul : FxmyChar)).length := by
    rw [List.length_replicate]
    exact Nat.le_succ _
  unfold decodeQuery
  rw [fstrfromchar_bytes build [0] hs hroom]
  by_cases hfits : fits s = true
  · have hcount : (bytes s).length - s.length + ((bytes s).length + 1 - (bytes s).length) =
        (bytes s).length + 1 - s.length := by omega
    have hzeros : List.replicate ((bytes s).length - s.length) (nul : FxmyChar) ++
        (List.replicate ((bytes s).length + 1) nul).drop (bytes s).length =
        List.replicate ((bytes s).length + 1 - s.length) nul := by
      rw [List.drop_replicate, List.replicate_append_replicate, hcount]
    have hset : (s.map unit ++ List.replicate ((bytes s).length + 1 - s.length) nul).set
        (bytes s).length nul = wideText s := by
      rw [List.set_append_right _ _ (by rwa [List.length_map]), List.set_replicate_self]
      rfl
    rw [if_pos hfits, if_pos hfits, except_bind_ok]
    change Except.ok ((s.map unit ++ (List.replicate _ (nul : FxmyChar) ++ _)).set _ _) = _
    rw [hzeros, hset]
  · rw [if_neg hfits, if_neg hfits]
    rfl

/-- A query has been received and is decoded into a block of its own. -/
def World.decoding (w : World) (packet : Packet) (after : List Arrival) : World :=
  { w.receive packet after with numAllocations := (w.receive packet after).numAllocations + 1 }

/-- **A client that sends a query** in UTF-8 is served the query of its characters, if all of them
have 16 bits; one that has more ends the program. -/
theorem handleCommandPacket_bytes (env : Env) {w : World} {packet : Packet} {rest : List UInt8}
    (hdelivers : Delivers env w packet rest) (hs : '\x00' ∉ s)
    (hbody : packet.body = 3 :: bytes s) :
    ∃ after, arrived after = rest ∧ handleCommandPacket env w =
      if fits s then
        handleWideQuery env (wideText s) (w.decoding packet after)
      else .error .abort (w.decoding packet after) := by
  obtain ⟨after, hrecv⟩ := hdelivers.recv_eq
  have hafter : arrived after = rest := by
    obtain ⟨w', hsame, -, -, -, hrest⟩ := hdelivers
    rw [hrecv] at hsame
    cases hsame
    exact hrest
  have hcount : (Prog.countAlloc : Prog PUnit) (w.receive packet after) =
      .ok ⟨⟩ (w.decoding packet after) := rfl
  have hquery : handleCommand env (packet.body ++ [0]) packet.body.length =
      handleQuery env (bytes s ++ [0]) (bytes s).length := by
    rw [hbody]
    rfl
  refine ⟨after, hafter, ?_⟩
  rw [handleCommandPacket_eq hrecv, hquery, handleQuery, bind_of_ok hcount,
    decodeQuery_bytes env.build hs]
  by_cases hfits : fits s = true
  · rw [if_pos hfits, if_pos hfits, bind_lift_ok]
  · rw [if_neg hfits, if_neg hfits, bind_lift_error]
    rfl

/-- A query of a face. -/
def facePacket : Packet := ⟨0, 3 :: bytes ['😀'], by decide⟩

theorem handleCommandPacket_face : ∃ w', handleCommandPacket (.benign obliging)
    (World.fresh [] [.data facePacket.bytes]) = .error .abort w' := by
  have hdelivers : Delivers (.benign obliging) (World.fresh [] [.data facePacket.bytes]) facePacket
      [] := ⟨_, rfl, rfl, rfl, rfl, rfl⟩
  have hs : '\x00' ∉ ['😀'] := by decide
  have hbeyond : ¬ fits ['😀'] = true := by decide
  obtain ⟨after, -, hface⟩ := handleCommandPacket_bytes _ hdelivers hs rfl
  rw [if_neg hbeyond] at hface
  exact ⟨_, hface⟩

end Fxmy
