import SchemaLint.Proofs.NamePlaces

/-!
# Lines of references to undefined types

The rule on undefined types has the name that it complains about, but not its line: it
searches the text for a line that looks like the declaration of that name. There are three
searches, each less strict than the one before, and the first line of the first search that
finds one is reported. So lines are ranked by the strictest search that they pass, and the
first line of the highest rank wins, whether or not the name stands on it.
-/

namespace SchemaLint

open Sdl Source Text Rule

/-! ## One search after the other -/

theorem contains_iff_isInfix (needle text : List Char) :
    contains needle text = true ↔ needle <:+: text := by
  induction text with
  | nil => rw [contains, List.isEmpty_iff, List.infix_nil]
  | cons c cs ih =>
    rw [contains, Bool.or_eq_true, List.isPrefixOf_iff_prefix, ih, List.infix_cons_iff]

section Ranks

variable {α : Type}

/-- How many tests there are from the first that is passed on. -/
def rank (x : α) : List (α → Bool) → Nat
  | [] => 0
  | test :: tests => if test x then tests.length + 1 else rank x tests

theorem rank_le (x : α) (tests : List (α → Bool)) : rank x tests ≤ tests.length := by
  induction tests with
  | nil => exact Nat.le_refl 0
  | cons test tests ih =>
    rw [rank, List.length_cons]
    split
    · exact Nat.le_refl _
    · exact Nat.le_succ_of_le ih

theorem rank_cons_of_pos {x : α} {test : α → Bool} (h : test x = true) (tests : List (α → Bool)) :
    rank x (test :: tests) = tests.length + 1 := by
  rw [rank, if_pos h]

theorem rank_cons_of_neg {x : α} {test : α → Bool} (h : test x = false)
    (tests : List (α → Bool)) : rank x (test :: tests) = rank x tests := by
  rw [rank, h, if_neg Bool.false_ne_true]

theorem rank_pos_iff {x : α} {tests : List (α → Bool)} :
    0 < rank x tests ↔ ∃ test ∈ tests, test x = true := by
  induction tests with
  | nil => simp [rank]
  | cons test tests ih =>
    rw [List.exists_mem_cons_iff]
    cases h : test x with
    | false => simpa [rank_cons_of_neg h] using ih
    | true => simp [rank_cons_of_pos h]

theorem lt_rank_cons_iff {x : α} {test : α → Bool} {tests : List (α → Bool)} :
    tests.length < rank x (test :: tests) ↔ test x = true := by
  cases h : test x with
  | false => simpa [rank_cons_of_neg h] using rank_le x tests
  | true => simp [rank_cons_of_pos h]

/-- What stands there passes a test, nothing is ranked above it and everything before it is
ranked below it. -/
def Leads (tests : List (α → Bool)) (xs : List α) (n : Nat) : Prop :=
  ∃ x, xs[n]? = some x ∧ 0 < rank x tests ∧ (∀ y ∈ xs, rank y tests ≤ rank x tests) ∧
    ∀ i y, i < n → xs[i]? = some y → rank y tests < rank x tests

/-- A test that nothing passes does not count. -/
theorem leads_cons_of_none {test : α → Bool} {xs : List α} (h : ∀ x ∈ xs, test x = false)
    (tests : List (α → Bool)) (n : Nat) : Leads (test :: tests) xs n ↔ Leads tests xs n := by
  have hrank : ∀ x ∈ xs, rank x (test :: tests) = rank x tests :=
    fun x hx => rank_cons_of_neg (h x hx) tests
  have hget : ∀ {i : Nat} {x : α}, xs[i]? = some x → rank x (test :: tests) = rank x tests :=
    fun hx => hrank _ (List.mem_of_getElem? hx)
  constructor
  · rintro ⟨x, hx, hpos, hbest, hfirst⟩
    rw [hget hx] at hpos hbest hfirst
    exact ⟨x, hx, hpos, fun y hy => hrank y hy ▸ hbest y hy,
      fun i y hi hy => hget hy ▸ hfirst i y hi hy⟩
  · rintro ⟨x, hx, hpos, hbest, hfirst⟩
    refine ⟨x, hx, ?_, fun y hy => ?_, fun i y hi hy => ?_⟩
    · rwa [hget hx]
    · rw [hget hx, hrank y hy]
      exact hbest y hy
    · rw [hget hx, hget hy]
      exact hfirst i y hi hy

/-- The first that passes the strictest test leads. -/
theorem leads_cons_of_findIdx? {test : α → Bool} {xs : List α} {i : Nat}
    (h : xs.findIdx? test = some i) (tests : List (α → Bool)) (n : Nat) :
    Leads (test :: tests) xs n ↔ i = n := by
  obtain ⟨hi, htest, hbefore⟩ := List.findIdx?_eq_some_iff_getElem.mp h
  have htop : rank xs[i] (test :: tests) = tests.length + 1 := rank_cons_of_pos htest tests
  constructor
  · rintro ⟨x, hx, -, hbest, hfirst⟩
    obtain ⟨hn, rfl⟩ := List.getElem?_eq_some_iff.mp hx
    have hpass : test xs[n] = true := by
      have hle := hbest xs[i] (List.getElem_mem hi)
      rw [htop] at hle
      exact lt_rank_cons_iff.mp hle
    rcases Nat.lt_trichotomy i n with hlt | rfl | hgt
    · -- The first to pass would be ranked below the one that leads.
      have hbelow := hfirst i xs[i] hlt (List.getElem?_eq_getElem hi)
      rw [htop, rank_cons_of_pos hpass] at hbelow
      exact absurd hbelow (Nat.lt_irrefl _)
    · rfl
    · exact absurd hpass (hbefore n hgt)
  · rintro rfl
    refine ⟨xs[i], List.getElem?_eq_getElem hi, by omega, fun y _ => ?_, fun j y hj hy => ?_⟩
    · rw [htop]
      exact rank_le y (test :: tests)
    · obtain ⟨hlt, rfl⟩ := List.getElem?_eq_some_iff.mp hy
      rw [htop, rank_cons_of_neg (Bool.not_eq_true _ ▸ hbefore j hj)]
      exact Nat.lt_succ_of_le (rank_le _ tests)

end Ranks

/-- Searching the text with one test after the other leads to the line that leads. -/
theorem firstFound_eq_succ_iff (source : String) (tests : List (List Char → Bool)) (n : Nat) :
    firstFound (tests.map (firstLine source)) = n + 1 ↔
      Leads tests (lines source.toList) n := by
  induction tests with
  | nil =>
    refine ⟨fun h => absurd h (Nat.succ_ne_zero n).symm, ?_⟩
    rintro ⟨x, -, hpos, -⟩
    exact absurd hpos (Nat.lt_irrefl 0)
  | cons test tests ih =>
    rw [List.map_cons, firstLine]
    cases h : (lines source.toList).findIdx? test with
    | none =>
      rw [leads_cons_of_none (List.findIdx?_eq_none_iff.mp h), ← ih]
      rfl
    | some i =>
      rw [leads_cons_of_findIdx? h]
      exact Nat.succ_inj

theorem firstFound_eq_zero_iff (source : String) (tests : List (List Char → Bool)) :
    firstFound (tests.map (firstLine source)) = 0 ↔
      ∀ line ∈ lines source.toList, ∀ test ∈ tests, test line = false := by
  induction tests with
  | nil => exact ⟨fun _ _ _ _ h => absurd h List.not_mem_nil, fun _ => rfl⟩
  | cons test tests ih =>
    rw [List.map_cons, firstLine]
    cases h : (lines source.toList).findIdx? test with
    | none =>
      have hnone := List.findIdx?_eq_none_iff.mp h
      show firstFound (tests.map (firstLine source)) = 0 ↔ _
      rw [ih]
      refine ⟨fun hall line hline => ?_, fun hall line hline t ht => ?_⟩
      · exact List.forall_mem_cons.mpr ⟨hnone line hline, hall line hline⟩
      · exact hall line hline t (List.mem_cons_of_mem _ ht)
    | some i =>
      refine ⟨fun hzero => absurd hzero (Nat.succ_ne_zero i), fun hall => ?_⟩
      rw [List.findIdx?_eq_none_iff.mpr fun line hline => hall line hline test List.mem_cons_self]
        at h
      cases h

/-! ## The three searches -/

/-- What a line is searched for: the name with its colon and the type somewhere, the name
with its colon and then the type, the name with its colon. -/
def declarationTests (name base : String) : List (List Char → Bool) :=
  [fun line => contains (name.toList ++ [':']) line &&
      (base.isEmpty || mentionsType base.toList line),
    contains (name ++ ": " ++ base).toList, contains (name ++ ":").toList]

theorem referenceLine_eq (source name base : String) :
    referenceLine source name base =
      firstFound ((declarationTests name base).map (firstLine source)) := by
  have hlong : (name ++ ": " ++ base).isEmpty = false := by simp
  have hshort : (name ++ ":").isEmpty = false := by simp
  simp only [referenceLine, declarationTests, List.map_cons, List.map_nil, lineOf, hlong, hshort,
    Bool.false_eq_true, if_false, lineOfField]

theorem rank_declarationTests_pos_iff {name base : String} {line : List Char} :
    0 < rank line (declarationTests name base) ↔ (name ++ ":").toList <:+: line := by
  rw [rank_pos_iff]
  constructor
  · rintro ⟨test, htest, hline⟩
    simp only [declarationTests, List.mem_cons, List.not_mem_nil, or_false] at htest
    rcases htest with rfl | rfl | rfl
    · rw [Bool.and_eq_true, contains_iff_isInfix] at hline
      rw [String.toList_append]
      exact hline.1
    · rw [contains_iff_isInfix] at hline
      refine List.IsInfix.trans ⟨[], (" " ++ base).toList, ?_⟩ hline
      simp
    · exact (contains_iff_isInfix _ _).mp hline
  · exact fun hline => ⟨_, by simp [declarationTests], (contains_iff_isInfix _ _).mpr hline⟩

theorem referenceLine_eq_zero_iff (source name base : String) :
    referenceLine source name base = 0 ↔
      ∀ line ∈ lines source.toList, ¬ (name ++ ":").toList <:+: line := by
  rw [referenceLine_eq, firstFound_eq_zero_iff]
  refine forall₂_congr fun line _ => ?_
  have hpos : 0 < rank line (declarationTests name base) ↔ (name ++ ":").toList <:+: line :=
    rank_declarationTests_pos_iff
  rw [← hpos, rank_pos_iff]
  simp

theorem referenceLine_eq_iff (source name base : String) {n : Nat} (hn : 1 ≤ n) :
    referenceLine source name base = n ↔
      Leads (declarationTests name base) (lines source.toList) (n - 1) := by
  rw [referenceLine_eq, ← firstFound_eq_succ_iff, Nat.sub_add_cancel hn]

/-! ## What is reported -/

/-- The reference to a type that an element makes. -/
def Element.reference? : Element → Option Reference
  | type _ => none
  | field d f => some ⟨"Field " ++ tickedMember d.name.text f.name.text, f.name, f.type⟩
  | argument d f a =>
      some ⟨"Argument '" ++ d.name.text ++ "." ++ f.name.text ++ "(" ++ a.name.text ++ ":)'",
        a.name, a.type⟩
  | inputField d v => some ⟨"Input field " ++ tickedMember d.name.text v.name.text, v.name, v.type⟩
  | enumValue _ _ => none

theorem exists_element_of_mem_references {d : Definition} {r : Reference}
    (hr : r ∈ references d) : ∃ e : Element, e.owner = d ∧ e.Belongs ∧ e.reference? = some r := by
  rcases List.mem_append.mp hr with hr | hr
  · obtain ⟨f, hf, hr⟩ := List.mem_flatMap.mp hr
    rcases List.mem_cons.mp hr with rfl | hr
    · exact ⟨.field d f, rfl, hf, rfl⟩
    · obtain ⟨a, ha, rfl⟩ := List.mem_map.mp hr
      exact ⟨.argument d f a, rfl, ⟨hf, ha⟩, rfl⟩
  · obtain ⟨v, hv, rfl⟩ := List.mem_map.mp hr
    exact ⟨.inputField d v, rfl, hv, rfl⟩

theorem Element.name_of_reference? {e : Element} {r : Reference} (h : e.reference? = some r) :
    r.name = e.name := by
  cases e with
  | type | enumValue => cases h
  | field | argument | inputField =>
    obtain rfl := Option.some.inj h
    rfl

/-- The references of a document to types that are neither built in nor defined, in the order
of the text. -/
def undefinedReferences (doc : SchemaDocument) : List Reference :=
  (doc.definitions.flatMap references).filter fun r =>
    !(builtInScalars ++ doc.definedTypeNames).contains r.type.base

section Places

variable {doc : SchemaDocument} {r : Reference}

theorem exists_element_of_mem_undefinedReferences (hr : r ∈ undefinedReferences doc) :
    ∃ e, doc.Holds e ∧ e.reference? = some r := by
  obtain ⟨d, hd, hr⟩ := List.mem_flatMap.mp (List.mem_of_mem_filter hr)
  obtain ⟨e, rfl, hbelongs, hreference⟩ := exists_element_of_mem_references hr
  exact ⟨e, ⟨hd, hbelongs⟩, hreference⟩

/-- A name with a colon right behind it is found on its line, and so leads there if no other
line has it. -/
theorem leads_of_alone {name base : String} {offset : Nat} (hname : isName name = true)
    (hstands : StandsAt doc.source.toList (name ++ ":").toList offset)
    (halone : ∀ n line, (lines doc.source.toList)[n]? = some line →
      (name ++ ":").toList <:+: line → n + 1 = doc.lineOfOffset offset) :
    Leads (declarationTests name base) (lines doc.source.toList)
      (doc.lineOfOffset offset - 1) := by
  have hblank : ∀ c ∈ (name ++ ":").toList, isBlank c = false := by
    intro c hc
    rw [String.toList_append, List.mem_append] at hc
    rcases hc with hc | hc
    · exact (word_of_isName hname).2 c hc
    · obtain rfl : c = ':' := by simpa using hc
      decide
  obtain ⟨own, hown, hinfix⟩ := infix_lineOfOffset (by simp)
    (not_mem_of_isBlank hblank (by decide)) (not_mem_of_isBlank hblank (by decide)) hstands
  rw [← lineOfOffset_eq] at hown
  have hpos : 0 < rank own (declarationTests name base) :=
    rank_declarationTests_pos_iff.mpr hinfix
  refine ⟨own, hown, hpos, fun line hline => ?_, fun i line hi hline => ?_⟩
  · by_cases hother : 0 < rank line (declarationTests name base)
    · obtain ⟨n, hn⟩ := List.mem_iff_getElem?.mp hline
      have hsame := halone n line hn (rank_declarationTests_pos_iff.mp hother)
      rw [← hsame, Nat.add_sub_cancel, hn] at hown
      rw [Option.some.inj hown]
    · omega
  · have hlow : ¬ 0 < rank line (declarationTests name base) := by
      intro hother
      have hsame := halone i line hline (rank_declarationTests_pos_iff.mp hother)
      omega
    omega

end Places

/-- Where a diagnostic on an undefined type stands, against where it belongs. -/
structure Rule.Reference.ReportedBy (r : Reference) (doc : SchemaDocument) (d : Diagnostic) :
    Prop where
  /-- A field, an argument or an input field of the document makes the reference. -/
  element : ∃ e, doc.Holds e ∧ e.reference? = some r
  text : d.text = r.subject ++ " references undefined type " ++ ticked r.type.base ++ "."
  /-- The diagnostic is on the line of the name if that line wins the search, and only then. -/
  on_name_iff : d.line = doc.lineOfOffset r.name.offset ↔
    Leads (declarationTests r.name.text r.type.base) (lines doc.source.toList)
      (doc.lineOfOffset r.name.offset - 1)
  /-- It has no line if no line has the name with a colon right behind it. -/
  nowhere_iff : d.line = 0 ↔
    ∀ line ∈ lines doc.source.toList, ¬ (r.name.text ++ ":").toList <:+: line
  /-- Where the text has the name with a colon right behind it on one line only, and that is
  where it belongs, it is found there. -/
  on_name_of_alone : StandsAt doc.source.toList (r.name.text ++ ":").toList r.name.offset →
    (∀ n line, (lines doc.source.toList)[n]? = some line →
      (r.name.text ++ ":").toList <:+: line → n + 1 = doc.lineOfOffset r.name.offset) →
    d.line = doc.lineOfOffset r.name.offset

/-- What a diagnostic says of a reference, on the line that the search leads to. -/
def undefinedFinding (doc : SchemaDocument) (r : Reference) : Finding :=
  ⟨referenceLine doc.source r.name.text r.type.base,
    r.subject ++ " references undefined type " ++ ticked r.type.base ++ ".", none⟩

theorem undefinedType_check_eq (doc : SchemaDocument) : undefinedType.check doc =
    (undefinedReferences doc).map fun r =>
      doc.diagnostic undefinedType.id (undefinedFinding doc r) := by
  rw [Rule.check, SchemaDocument.diagnostics_eq_map]
  exact List.map_map

/-- Each reference to an undefined type gets one diagnostic, in the order of the text. It is
on the line of the name just if that line is the first of those that look most like the
declaration; other fields, comments and descriptions compete with it. -/
theorem undefinedType_on_name_iff (path source : String) :
    List.Forall₂ (fun r d => r.ReportedBy (.parse path source) d)
      (undefinedReferences (.parse path source)) (undefinedType.check (.parse path source)) := by
  rw [undefinedType_check_eq, List.forall₂_map_right_iff, List.forall₂_same]
  intro r hr
  let doc := SchemaDocument.parse path source
  have hline : (doc.diagnostic undefinedType.id (undefinedFinding doc r)).line =
      referenceLine doc.source r.name.text r.type.base := rfl
  have hiff := referenceLine_eq_iff doc.source r.name.text r.type.base
    (one_le_lineOfOffset doc r.name.offset)
  obtain ⟨e, hholds, hreference⟩ := exists_element_of_mem_undefinedReferences hr
  have hname : isName r.name.text = true := by
    rw [Element.name_of_reference? hreference]
    exact isName_of_mem_marks hholds.name_mem_marks
  refine ⟨⟨e, hholds, hreference⟩, text_make (by decide) _ _ _ _ _, ?_, ?_, ?_⟩
  · rw [hline]
    exact hiff
  · rw [hline]
    exact referenceLine_eq_zero_iff _ _ _
  · intro hstands halone
    rw [hline]
    exact hiff.mpr (leads_of_alone hname hstands halone)

/-- A name with its arguments between it and the colon. -/
def fooBehindArguments : String := "type Query \x7b\n  foo(a: Int): Bar\n\x7d"

/-- A name that ends the name of the field before it. -/
def fooBehindLonger : String := "type Query \x7b\n  xfoo: Bar\n  foo: Bar\n\x7d"

/-- A name that stands in a comment before. -/
def fooBehindComment : String := "type Query \x7b\n  # foo: Bar\n  foo: Bar\n\x7d"

/-- The lines of the names of undefined references, and the lines that are reported. -/
def referenceLines (doc : SchemaDocument) : List Nat × List Nat :=
  ((undefinedReferences doc).map (doc.lineOfOffset ·.name.offset),
    (undefinedType.check doc).map (·.line))

/-- The name is not found at all, or another field or a comment is found in its place. -/
theorem undefinedType_off_name :
    referenceLines (.parse "schema.graphql" fooBehindArguments) = ([2], [0]) ∧
      referenceLines (.parse "schema.graphql" fooBehindLonger) = ([2, 3], [2, 2]) ∧
      referenceLines (.parse "schema.graphql" fooBehindComment) = ([3], [2]) := by
  decide +kernel

end SchemaLint
