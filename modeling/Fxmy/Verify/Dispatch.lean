import Fxmy.Lib.Quoting
import Fxmy.Verify.Decode
import Fxmy.Verify.Search

/-!
# How a query is dispatched

`fxmy_handle_query` takes the branch of the first keyword that occurs anywhere in the text
(`queryBranch_eq`). Two texts that differ inside string literals only have the keywords outside
literals in common, so their branches can differ only through a keyword that a literal of one of
them mentions (`dispatch_alike_iff`).
-/

namespace Fxmy

/-! ## String literals in a query -/

/-- The quotes of a string literal. -/
def isQuote (c : FxmyChar) : Bool := c = C '\'' || c = C '"'

/-- What escapes a quote inside a literal. -/
def backslash : FxmyChar := C '\\'

theorem isQuote_iff {c : FxmyChar} : isQuote c = true ↔ c = C '\'' ∨ c = C '"' := by
  simp [isQuote]

/-- The string literals of a text, each with its quote and its content. -/
abbrev literals (text : List FxmyChar) : List (FxmyChar × List FxmyChar) :=
  Quoting.literals isQuote backslash text

/-- A text without the contents of its string literals. -/
abbrev skeleton (text : List FxmyChar) : List FxmyChar := Quoting.skeleton isQuote backslash text

/-- The word occurs outside the literals of the text. -/
def OccursOutside (ct : Ctype FxmyChar) (word : String) (text : List FxmyChar) : Prop :=
  Occurs ct word (skeleton text)

/-- The word occurs in a literal of the text. -/
def OccursInside (ct : Ctype FxmyChar) (word : String) (text : List FxmyChar) : Prop :=
  ∃ l ∈ literals text, Occurs ct word l.2

/-- A word of letters and spaces occurs outside the literals or inside one. -/
theorem occurs_iff (ct : Ctype FxmyChar) {word : String}
    (hword : ∀ c ∈ word.toList, c.toNat < 128 ∧ c.toLower ≠ '\'' ∧ c.toLower ≠ '"')
    (text : List FxmyChar) :
    Occurs ct word text ↔ OccursOutside ct word text ∨ OccursInside ct word text := by
  refine Quoting.infix_iff ?_ text
  intro q hq hmem
  obtain ⟨c, hc, heq⟩ := List.mem_map.mp hmem
  obtain ⟨d, hd, rfl⟩ := List.mem_map.mp hc
  obtain ⟨hlt, hsingle, hdouble⟩ := hword d hd
  rcases isQuote_iff.mp hq with rfl | rfl
  · exact ct.lower_ne (d := '\'') hlt (by decide) hsingle heq
  · exact ct.lower_ne (d := '"') hlt (by decide) hdouble heq

/-! ## The branch -/

/-- The keywords that `fxmy_handle_query` looks for, in its order, with their branches. -/
def dispatchKeywords : List (String × Branch) :=
  [("SET NAMES", .setNames), ("DESCRIBE", .describe), ("SHOW TABLES", .showTables)]

theorem dispatchKeywords_plain : ∀ k ∈ dispatchKeywords, (nul : FxmyChar) ∉ chars k.1 ∧
    ∀ c ∈ k.1.toList, c.toNat < 128 ∧ c.toLower ≠ '\'' ∧ c.toLower ≠ '"' := by
  have hall : ∀ k ∈ dispatchKeywords, (nul : FxmyChar) ∉ chars k.1 ∧
      k.1.toList.all fun c => c.toNat < 128 ∧ c.toLower ≠ '\'' ∧ c.toLower ≠ '"' := by decide
  exact fun k hk => (hall k hk).imp_right List.all_iff_forall_prop.mp

/-- The branch of the first keyword with `p`. -/
def firstBranch (p : String → Bool) : Branch :=
  ((dispatchKeywords.find? fun k => p k.1).map (·.2)).getD .statement

/-- The branch of a text is that of the first keyword that occurs in it. -/
theorem queryBranch_eq (ct : Ctype FxmyChar) {text : List FxmyChar} (ht : nul ∉ text)
    (rest : List FxmyChar) :
    ∃ p : String → Bool, (∀ k ∈ dispatchKeywords, p k.1 = true ↔ Occurs ct k.1 text) ∧
      queryBranch ct (text ++ nul :: rest) = .ok (firstBranch p) := by
  obtain ⟨b₁, h₁, iff₁⟩ := mentions_iff ct "SET NAMES" (by decide) ht rest
  obtain ⟨b₂, h₂, iff₂⟩ := mentions_iff ct "DESCRIBE" (by decide) ht rest
  obtain ⟨b₃, h₃, iff₃⟩ := mentions_iff ct "SHOW TABLES" (by decide) ht rest
  refine ⟨fun k => if k = "SET NAMES" then b₁ else if k = "DESCRIBE" then b₂ else b₃, ?_, ?_⟩
  · intro k hk
    simp only [dispatchKeywords, List.mem_cons, List.not_mem_nil, or_false] at hk
    rcases hk with rfl | rfl | rfl
    · exact iff₁
    · exact iff₂
    · exact iff₃
  · unfold queryBranch
    rw [h₁, h₂, h₃]
    cases b₁ <;> cases b₂ <;> cases b₃ <;> rfl

/-- A text without the keywords is a general statement. -/
theorem queryBranch_statement (ct : Ctype FxmyChar) {text : List FxmyChar} (ht : nul ∉ text)
    (rest : List FxmyChar) (h : ∀ k ∈ dispatchKeywords, ¬ Occurs ct k.1 text) :
    queryBranch ct (text ++ nul :: rest) = .ok .statement := by
  obtain ⟨p, hp, hbranch⟩ := queryBranch_eq ct ht rest
  have hnone : dispatchKeywords.find? (fun k => p k.1) = none :=
    List.find?_eq_none.mpr fun k hk hpk => h k hk ((hp k hk).mp hpk)
  rw [hbranch, firstBranch, hnone]
  rfl

/-- A text mentions no keyword if it lacks a letter of each. -/
theorem not_occurs_of_letters {ct : Ctype FxmyChar} {text : List FxmyChar}
    (h : ∀ k ∈ dispatchKeywords, ∃ c ∈ chars k.1, ct.lower c ∉ text.map ct.lower) :
    ∀ k ∈ dispatchKeywords, ¬ Occurs ct k.1 text := by
  intro k hk
  obtain ⟨c, hc, hfree⟩ := h k hk
  exact not_occurs_of_not_mem ct hc hfree

/-- Two searches agree on the first element, and end there or go on to agree. -/
theorem find?_cons_eq_iff {α : Type} (p q : α → Bool) (a : α) (l : List α) :
    (a :: l).find? p = (a :: l).find? q ↔
      p a = q a ∧ (p a = true ∨ l.find? p = l.find? q) := by
  rw [List.find?_cons, List.find?_cons]
  cases hp : p a with
  | true =>
    cases hq : q a with
    | true => simp
    | false =>
      refine iff_of_false (fun h => ?_) (by simp)
      have hfound := List.find?_some (Eq.symm h)
      rw [hq] at hfound
      cases hfound
  | false =>
    cases hq : q a with
    | true =>
      refine iff_of_false (fun h => ?_) (by simp)
      have hfound := List.find?_some h
      rw [hp] at hfound
      cases hfound
    | false => simp

/-- Two searches of one list find the same exactly if, where they differ on an element, both find an
earlier one. -/
theorem find?_eq_iff {α : Type} (p q : α → Bool) (l : List α) :
    l.find? p = l.find? q ↔ ∀ pre x post, l = pre ++ x :: post →
      p x = q x ∨ ∃ y ∈ pre, p y = true ∧ q y = true := by
  induction l with
  | nil => simp
  | cons a l ih =>
    rw [find?_cons_eq_iff, ih]
    constructor
    · rintro ⟨hpq, hrest⟩ pre x post h
      cases pre with
      | nil =>
        obtain ⟨rfl, -⟩ := List.cons.inj h
        exact .inl hpq
      | cons b pre =>
        obtain ⟨rfl, htail⟩ := List.cons.inj h
        rcases hrest with hp | hrest
        · exact .inr ⟨a, List.mem_cons_self, hp, hpq ▸ hp⟩
        · exact (hrest pre x post htail).imp_right
            fun ⟨y, hy, hboth⟩ => ⟨y, List.mem_cons_of_mem a hy, hboth⟩
    · intro h
      have hpq : p a = q a := (h [] a l rfl).resolve_right fun ⟨y, hy, _⟩ => List.not_mem_nil hy
      refine ⟨hpq, or_iff_not_imp_left.mpr fun hp pre x post hl => ?_⟩
      apply (h (a :: pre) x post (by rw [hl]; rfl)).imp_right
      rintro ⟨y, hy, hboth⟩
      rcases List.mem_cons.mp hy with rfl | hy
      · exact absurd hboth.1 hp
      · exact ⟨y, hy, hboth⟩

/-- Different keywords have different branches, and none has the general one. -/
theorem firstBranch_eq_iff (p q : String → Bool) : firstBranch p = firstBranch q ↔
    dispatchKeywords.find? (fun k => p k.1) = dispatchKeywords.find? (fun k => q k.1) := by
  have hinj : ∀ o ∈ none :: dispatchKeywords.map some, ∀ o' ∈ none :: dispatchKeywords.map some,
      (o.map (·.2)).getD Branch.statement = (o'.map (·.2)).getD .statement → o = o' := by decide
  have hmem : ∀ p : String → Bool, dispatchKeywords.find? (fun k => p k.1) ∈
      none :: dispatchKeywords.map some := by
    intro p
    cases h : dispatchKeywords.find? (fun k => p k.1) with
    | none => exact List.mem_cons_self
    | some k =>
      exact List.mem_cons_of_mem _ (List.mem_map.mpr ⟨k, List.mem_of_find?_eq_some h, rfl⟩)
  constructor
  · exact hinj _ (hmem p) _ (hmem q)
  · intro h
    unfold firstBranch
    rw [h]

/-! ## Queries that differ inside literals -/

/-- A query of ASCII text. -/
structure AsciiQuery where
  bytes : List UInt8
  ascii : ∀ b ∈ bytes, b ≠ 0 ∧ b < 0x80

/-- The decoded text. -/
def AsciiQuery.text (query : AsciiQuery) : List FxmyChar := query.bytes.map UInt8.toUInt16

theorem AsciiQuery.nul_not_mem (query : AsciiQuery) : nul ∉ query.text := by
  intro h
  obtain ⟨b, hb, h0⟩ := List.mem_map.mp h
  refine (query.ascii b hb).1 (UInt8.toNat_inj.mp ?_)
  have := congrArg UInt16.toNat h0
  rwa [UInt8.toNat_toUInt16] at this

/-- The branch that `fxmy_handle_query` takes on the bytes of a packet. -/
def dispatch (env : Env) (query : List UInt8) : Except Stop Branch := do
  let wideQuery ← decodeQuery env.build (query ++ [0]) query.length
  match queryBranch env.ctype wideQuery with
  | .ok branch => .ok branch
  | .error f => .error (.text f)

/-- Both queries are dispatched, to the same branch. -/
def DispatchedAlike (env : Env) (s t : AsciiQuery) : Prop :=
  ∃ branch, dispatch env s.bytes = .ok branch ∧ dispatch env t.bytes = .ok branch

theorem decodeQuery_ascii (build : Build) (query : AsciiQuery) :
    decodeQuery build (query.bytes ++ [0]) query.bytes.length = .ok (query.text ++ [nul]) := by
  have hsize : query.bytes.length ≤ (query.bytes ++ [0]).length := by simp
  have hroom : query.bytes.length ≤
      (List.replicate (query.bytes.length + 1) (nul : FxmyChar)).length := by simp
  have hwalk := decoded_ascii build query.ascii [0] (Nat.le_refl query.bytes.length)
  rw [List.take_length] at hwalk
  have hout := (fstrfromchar_eq_ok_iff hsize hroom).mpr ⟨_, _, hwalk, Nat.le_refl _, rfl⟩
  unfold decodeQuery
  rw [hout, Exec.except_bind_ok]
  unfold AsciiQuery.text
  simp

theorem dispatch_ascii (env : Env) (query : AsciiQuery) :
    ∃ p : String → Bool,
      (∀ k ∈ dispatchKeywords, p k.1 = true ↔ Occurs env.ctype k.1 query.text) ∧
        dispatch env query.bytes = .ok (firstBranch p) := by
  obtain ⟨p, hp, hbranch⟩ := queryBranch_eq env.ctype query.nul_not_mem []
  refine ⟨p, hp, ?_⟩
  unfold dispatch
  rw [decodeQuery_ascii, Exec.except_bind_ok, hbranch]

/-- `fxmy_handle_query` goes on in the branch it is dispatched to. -/
theorem handleQuery_eq (env : Env) (query : AsciiQuery) (w : World) :
    handleQuery env (query.bytes ++ [0]) query.bytes.length w =
      handleWideQuery env (query.text ++ [nul]) { w with numAllocations := w.numAllocations + 1 } := by
  unfold handleQuery
  rw [Exec.bind_modify, decodeQuery_ascii, Exec.bind_lift_ok]

/-- **Queries that differ inside literals only are dispatched alike** exactly if each keyword that a
literal of just one of them mentions also occurs outside the literals, or stands behind a keyword
that occurs in both. -/
theorem dispatch_alike_iff (env : Env) (s t : AsciiQuery)
    (hst : Quoting.SameOutside isQuote backslash .outside s.text t.text) :
    DispatchedAlike env s t ↔ ∀ pre k post, dispatchKeywords = pre ++ k :: post →
      OccursOutside env.ctype k.1 s.text ∨
        (OccursInside env.ctype k.1 s.text ↔ OccursInside env.ctype k.1 t.text) ∨
        ∃ k' ∈ pre, OccursOutside env.ctype k'.1 s.text ∨
          OccursInside env.ctype k'.1 s.text ∧ OccursInside env.ctype k'.1 t.text := by
  have hskel : skeleton s.text = skeleton t.text := hst.skeletonFrom_eq (by simp)
  obtain ⟨p, hp, hs⟩ := dispatch_ascii env s
  obtain ⟨q, hq, ht⟩ := dispatch_ascii env t
  have hboth : DispatchedAlike env s t ↔ firstBranch p = firstBranch q := by
    unfold DispatchedAlike
    rw [hs, ht]
    constructor
    · rintro ⟨branch, h₁, h₂⟩
      exact (Except.ok.inj h₁).trans (Except.ok.inj h₂).symm
    · exact fun h => ⟨_, rfl, by rw [h]⟩
  have hp' : ∀ k ∈ dispatchKeywords, p k.1 = true ↔
      OccursOutside env.ctype k.1 s.text ∨ OccursInside env.ctype k.1 s.text :=
    fun k hk => (hp k hk).trans (occurs_iff _ (dispatchKeywords_plain k hk).2 _)
  have hq' : ∀ k ∈ dispatchKeywords, q k.1 = true ↔
      OccursOutside env.ctype k.1 s.text ∨ OccursInside env.ctype k.1 t.text := by
    intro k hk
    have hout : OccursOutside env.ctype k.1 s.text ↔ OccursOutside env.ctype k.1 t.text := by
      unfold OccursOutside
      rw [hskel]
    rw [hout]
    exact (hq k hk).trans (occurs_iff _ (dispatchKeywords_plain k hk).2 _)
  rw [hboth, firstBranch_eq_iff, find?_eq_iff]
  refine forall₃_congr fun pre k post => imp_congr_right fun hsplit => ?_
  have hk : k ∈ dispatchKeywords := hsplit ▸ List.mem_append_right pre List.mem_cons_self
  have hpre : ∀ k' ∈ pre, k' ∈ dispatchKeywords := fun k' h => hsplit ▸ List.mem_append_left _ h
  have heq : p k.1 = q k.1 ↔ OccursOutside env.ctype k.1 s.text ∨
      (OccursInside env.ctype k.1 s.text ↔ OccursInside env.ctype k.1 t.text) := by
    rw [Bool.eq_iff_iff, hp' k hk, hq' k hk]
    constructor
    · intro h
      by_cases hout : OccursOutside env.ctype k.1 s.text
      · exact .inl hout
      · exact .inr (by simpa [hout] using h)
    · intro h
      rcases h with hout | h
      · exact iff_of_true (.inl hout) (.inl hout)
      · rw [h]
  rw [heq, or_assoc]
  refine or_congr_right (or_congr_right (exists_congr fun k' => and_congr_right fun hmem => ?_))
  rw [hp' k' (hpre k' hmem), hq' k' (hpre k' hmem)]
  exact or_and_left.symm

/-- An insert of one value, and of two others that differ from it in a few letters. -/
def insertLamps : AsciiQuery := ⟨chars "INSERT INTO t VALUES ('SET LAMPS')", List.all_iff_forall_prop.mp (by decide)⟩
def insertLumps : AsciiQuery := ⟨chars "INSERT INTO t VALUES ('SET LUMPS')", List.all_iff_forall_prop.mp (by decide)⟩
def insertNames : AsciiQuery := ⟨chars "INSERT INTO t VALUES ('SET NAMES')", List.all_iff_forall_prop.mp (by decide)⟩

theorem dispatch_alike_inserts : DispatchedAlike (.benign obliging) insertLamps insertLumps := by
  apply (dispatch_alike_iff (.benign obliging) insertLamps insertLumps (by decide)).mpr
  intro pre k post hsplit
  have hk : k ∈ dispatchKeywords := hsplit ▸ List.mem_append_right pre List.mem_cons_self
  -- Each keyword has a letter that neither literal has.
  have hletter : ∀ k ∈ dispatchKeywords, ∃ c ∈ chars k.1,
      ∀ l ∈ literals insertLamps.text ++ literals insertLumps.text,
        cLocale.lower c ∉ l.2.map cLocale.lower := by decide
  obtain ⟨c, hc, hfree⟩ := hletter k hk
  refine .inr (.inl (iff_of_false ?_ ?_))
  · rintro ⟨l, hl, hin⟩
    exact not_occurs_of_not_mem cLocale hc (hfree l (List.mem_append_left _ hl)) hin
  · rintro ⟨l, hl, hin⟩
    exact not_occurs_of_not_mem cLocale hc (hfree l (List.mem_append_right _ hl)) hin

/-- An insert of `SET NAMES` is taken for a `SET NAMES`. -/
theorem insert_not_alike : ¬ ∀ env s t,
    Quoting.SameOutside isQuote backslash .outside (AsciiQuery.text s) (AsciiQuery.text t) →
      DispatchedAlike env s t := by
  intro h
  obtain ⟨branch, hs, ht⟩ := h (.benign obliging) insertNames insertLamps (by decide)
  obtain ⟨p, hp, hnames⟩ := dispatch_ascii (.benign obliging) insertNames
  obtain ⟨q, hq, hlamps⟩ := dispatch_ascii (.benign obliging) insertLamps
  have hsetNames : ("SET NAMES", Branch.setNames) ∈ dispatchKeywords := List.mem_cons_self
  have hplain := (dispatchKeywords_plain _ hsetNames).2
  have hmentioned : p "SET NAMES" = true := by
    refine (hp _ hsetNames).mpr ((occurs_iff _ hplain _).mpr (.inr ?_))
    exact ⟨(C '\'', chars "SET NAMES"), by decide, List.infix_refl _⟩
  have hmissing : q "SET NAMES" = false := by
    refine Bool.eq_false_iff.mpr fun hin => ?_
    rcases (occurs_iff _ hplain _).mp ((hq _ hsetNames).mp hin) with hin | ⟨l, hl, hin⟩
    · exact not_occurs_of_not_mem cLocale (c := C 'M') (by decide) (by decide) hin
    · have hfree : ∀ l ∈ literals insertLamps.text, cLocale.lower (C 'N') ∉ l.2.map cLocale.lower := by
        decide
      exact not_occurs_of_not_mem cLocale (by decide) (hfree l hl) hin
  rw [hnames] at hs
  rw [hlamps] at ht
  have hne : firstBranch p ≠ firstBranch q := by
    unfold firstBranch dispatchKeywords
    cases hdescribe : q "DESCRIBE" <;> cases htables : q "SHOW TABLES" <;>
      simp [hmentioned, hmissing, hdescribe, htables]
  exact hne ((Except.ok.inj hs).trans (Except.ok.inj ht).symm)

end Fxmy
