import SchemaLint.Proofs.ByteOrder
import SchemaLint.Proofs.DefinitionOrder
import SchemaLint.Proofs.NamePlaces

/-!
# Members out of order

Four rules ask for members in the order of their names, each for definitions of one kind.
They compare the names with their sorted arrangement and complain at the first place where
the two differ. That is not the first name that is smaller than the one before it: up to the
place of the complaint the names are the smallest ones of the list, and the name there has a
smaller one somewhere behind it.
-/

namespace SchemaLint

open Sdl Source Text Rule

/-! ## Names in order -/

/-- No name has greater bytes than one behind it; names may repeat. -/
def InByteOrder (names : List String) : Prop := names.Pairwise fun a b => bytes a ≤ bytes b

theorem bytes_le_iff {a b : String} : bytes a ≤ bytes b ↔ a ≤ b := by
  rw [← List.not_lt, bytes_lt_iff, String.not_lt]

theorem inByteOrder_iff {names : List String} :
    InByteOrder names ↔ names.Pairwise (· ≤ ·) := by
  simp only [InByteOrder, bytes_le_iff]

instance : DecidablePred InByteOrder := fun _ => decidable_of_iff _ inByteOrder_iff.symm

theorem inByteOrder_of_length_lt_two {names : List String} (h : names.length < 2) :
    InByteOrder names := by
  cases names with
  | nil => exact .nil
  | cons a rest =>
    obtain rfl : rest = [] := List.eq_nil_of_length_eq_zero (by rw [List.length_cons] at h; omega)
    exact List.pairwise_singleton _ a

/-- There is one arrangement in order. -/
theorem sorted_eq {names expected : List String} (hperm : expected.Perm names)
    (horder : InByteOrder expected) : sorted names = expected := by
  apply List.Perm.eq_of_pairwise (fun a b _ _ => String.le_antisymm) (pairwise_sorted names)
    (inByteOrder_iff.mp horder)
  exact (List.mergeSort_perm names _).trans hperm.symm

/-- How names leave their arrangement in order at a place. -/
structure LeavesAt (names expected : List String) (place : Nat) : Prop where
  perm : expected.Perm names
  ordered : InByteOrder expected
  agrees : ∀ i < place, names[i]? = expected[i]?
  differs : ∃ seen wanted, names[place]? = some seen ∧ expected[place]? = some wanted ∧
    seen ≠ wanted
  /-- The names before the place are in order, and they are the smallest of all. -/
  smallest : InByteOrder (names.take place) ∧
    ∀ a ∈ names.take place, ∀ b ∈ names.drop place, bytes a ≤ bytes b
  /-- A name behind the place is smaller than the one that stands there. -/
  behind : ∃ seen later less, names[place]? = some seen ∧ place < later ∧
    names[later]? = some less ∧ bytes less < bytes seen

theorem LeavesAt.not_inByteOrder {names expected : List String} {place : Nat}
    (h : LeavesAt names expected place) : ¬ InByteOrder names := by
  intro horder
  obtain ⟨seen, later, less, hseen, hlt, hless, hbytes⟩ := h.behind
  obtain ⟨hplace, rfl⟩ := List.getElem?_eq_some_iff.mp hseen
  obtain ⟨hlater, rfl⟩ := List.getElem?_eq_some_iff.mp hless
  exact List.not_lt.mpr (List.pairwise_iff_getElem.mp horder place later hplace hlater hlt) hbytes

theorem leavesAt_of_firstUnsorted? {names : List String} {place : Nat}
    (h : firstUnsorted? names = some place) : LeavesAt names (sorted names) place := by
  have hperm : (sorted names).Perm names := List.mergeSort_perm names _
  have hordered := pairwise_sorted names
  obtain ⟨shared, seen, rest, wanted, more, hnames, hsorted, hne, rfl⟩ :=
    exists_shared_of_findIdx? h
  -- Behind the shared part stand the same names, in order on one side.
  have hrest : (wanted :: more).Perm (seen :: rest) := by
    rw [hsorted, hnames] at hperm
    exact (List.perm_append_left_iff shared).mp hperm
  rw [hsorted, List.pairwise_append] at hordered
  obtain ⟨hshared, hmore, hbelow⟩ := hordered
  have hwanted : ∀ b ∈ seen :: rest, wanted ≤ b := by
    intro b hb
    rcases List.mem_cons.mp (hrest.mem_iff.mpr hb) with rfl | hb
    · exact String.le_refl b
    · exact List.rel_of_pairwise_cons hmore hb
  have hseen : names[shared.length]? = some seen := by rw [hnames]; simp
  refine ⟨hperm, inByteOrder_iff.mpr (pairwise_sorted names), ?_, ?_, ?_, ?_⟩
  · intro i hi
    rw [hsorted, hnames, List.getElem?_append_left hi, List.getElem?_append_left hi]
  · exact ⟨seen, wanted, hseen, by rw [hsorted]; simp, hne⟩
  · rw [hnames, List.take_left, List.drop_left]
    refine ⟨inByteOrder_iff.mpr hshared, fun a ha b hb => ?_⟩
    exact bytes_le_iff.mpr (hbelow a ha b (hrest.mem_iff.mpr hb))
  · have hmem : wanted ∈ rest :=
      (List.mem_cons.mp (hrest.mem_iff.mp List.mem_cons_self)).resolve_left hne.symm
    obtain ⟨k, hk⟩ := List.mem_iff_getElem?.mp hmem
    refine ⟨seen, shared.length + (k + 1), wanted, hseen, by omega, ?_, ?_⟩
    · rw [hnames, List.getElem?_append_right (by omega), Nat.add_sub_cancel_left,
        List.getElem?_cons_succ, hk]
    · rw [bytes_lt_iff]
      apply String.not_le.mp
      intro hle
      exact hne (String.le_antisymm hle (hwanted seen List.mem_cons_self))

/-- The rules find that place, and the arrangement that they spell out is the expected one. -/
theorem LeavesAt.firstUnsorted?_eq {names expected : List String} {place : Nat}
    (h : LeavesAt names expected place) :
    firstUnsorted? names = some place ∧ sorted names = expected := by
  have hsorted : sorted names = expected := sorted_eq h.perm h.ordered
  refine ⟨?_, hsorted⟩
  obtain ⟨seen, wanted, hseen, hwanted, hne⟩ := h.differs
  obtain ⟨hlt, rfl⟩ := List.getElem?_eq_some_iff.mp hseen
  obtain ⟨hlt', rfl⟩ := List.getElem?_eq_some_iff.mp hwanted
  rw [firstUnsorted?, hsorted, List.findIdx?_eq_some_iff_getElem]
  refine ⟨by rw [List.length_zip]; omega, by simpa using hne, fun i hi => ?_⟩
  have hagrees := h.agrees i hi
  rw [List.getElem?_eq_getElem (by omega), List.getElem?_eq_getElem (by omega)] at hagrees
  simpa using hagrees

/-! ## The four rules -/

/-- What a rule on order looks at. -/
structure MemberOrder where
  rule : Rule
  kind : TypeKind
  /-- How a complaint begins, before the name of the type. -/
  subject : String
  members : Definition → List Name

namespace MemberOrder

def enumValues : MemberOrder :=
  ⟨enumValuesSorted, .enum, "The enum", fun d => d.body.enumValues.map (·.name)⟩

def inputFields : MemberOrder :=
  ⟨inputFieldsSorted, .input, "The fields of input type", fun d =>
    d.body.inputFields.map (·.name)⟩

def objectFields : MemberOrder :=
  ⟨typeFieldsSorted, .object, "The fields of object type", fun d => d.body.fields.map (·.name)⟩

def interfaceFields : MemberOrder :=
  ⟨interfaceFieldsSorted, .interface, "The fields of interface type", fun d =>
    d.body.fields.map (·.name)⟩

def all : List MemberOrder := [enumValues, inputFields, objectFields, interfaceFields]

variable (o : MemberOrder)

def names (d : Definition) : List String := (o.members d).map (·.text)

/-- The complaint if `expected` is the arrangement in order. -/
def complaint (d : Definition) (expected : List String) : String :=
  o.subject ++ " " ++ ticked d.name.text ++
    " should be sorted alphabetically. Expected sorting: " ++ ", ".intercalate expected

/-- The line and the text that a complaint about the definition has. -/
structure Complains (doc : SchemaDocument) (d : Definition) (line : Nat) (text : String) :
    Prop where
  several : 2 ≤ (o.members d).length
  leaves : ∃ place expected member, LeavesAt (o.names d) expected place ∧
    (o.members d)[place]? = some member ∧ line = doc.lineOfOffset member.offset ∧
    text = o.complaint d expected

/-- The complaint of the rule about a definition, if it has one. -/
def complaint? (doc : SchemaDocument) (d : Definition) : Option Finding :=
  unsorted? doc (o.subject ++ " " ++ ticked d.name.text) (o.members d)

section Rules

variable {o} {doc : SchemaDocument} {d : Definition}

theorem complaint?_eq_none (h : InByteOrder (o.names d)) : o.complaint? doc d = none :=
  (unsorted?_eq_none_iff _ _ _).mpr (inByteOrder_iff.mp h)

theorem complaint?_eq_some {place : Nat} {expected : List String} {member : Name}
    (h : LeavesAt (o.names d) expected place) (hmember : (o.members d)[place]? = some member) :
    o.complaint? doc d = some (doc.finding member (o.complaint d expected)) := by
  obtain ⟨hplace, hsorted⟩ := h.firstUnsorted?_eq
  rw [names] at hplace hsorted
  simp only [complaint?, unsorted?, hplace, Option.bind_some, hmember, Option.map_some,
    expectedSorting, hsorted, complaint]

theorem exists_complaint (doc : SchemaDocument) (h : ¬ InByteOrder (o.names d)) :
    ∃ f, o.complaint? doc d = some f ∧ o.Complains doc d f.line f.text := by
  have hsome : firstUnsorted? (o.names d) ≠ none := by
    intro hnone
    exact h (inByteOrder_iff.mpr ((firstUnsorted?_eq_none_iff _).mp hnone))
  obtain ⟨place, hplace⟩ := Option.ne_none_iff_exists'.mp hsome
  have hleaves := leavesAt_of_firstUnsorted? hplace
  obtain ⟨seen, -, hseen, -, -⟩ := hleaves.differs
  rw [names, List.getElem?_map] at hseen
  obtain ⟨member, hmember, -⟩ := Option.map_eq_some_iff.mp hseen
  refine ⟨_, complaint?_eq_some hleaves hmember, ?_, place, _, member, hleaves, hmember, rfl, rfl⟩
  apply Nat.le_of_not_lt
  intro hshort
  exact h (inByteOrder_of_length_lt_two (by rw [names, List.length_map]; exact hshort))

/-- Every rule on order reports its complaints on the definitions of its kind; the one on enum
values adds a value to each. -/
theorem check_eq (ho : o ∈ all) : ∃ value : Finding → Option String, ∀ doc : SchemaDocument,
    o.rule.check doc = ((doc.typesOf o.kind).filterMap (o.complaint? doc)).map fun f =>
      doc.diagnostic o.rule.id { f with value := value f } := by
  simp only [all, List.mem_cons, List.not_mem_nil, or_false] at ho
  rcases ho with rfl | rfl | rfl | rfl
  · exact ⟨fun f => some f.text, fun doc => List.map_map⟩
  all_goals exact ⟨(·.value), fun doc => rfl⟩

theorem id_no_colon (ho : o ∈ all) : ':' ∉ o.rule.id.toList := by
  have hids : ∀ id ∈ all.map (·.rule.id), ':' ∉ id.toList := by decide
  exact hids _ (List.mem_map_of_mem ho)

end Rules

/-! ## Reports -/

theorem forall₂_filterMap {α β : Type} {p : α → Prop} [DecidablePred p] {f : α → Option β}
    {R : α → β → Prop} (hnone : ∀ a, ¬ p a → f a = none)
    (hsome : ∀ a, p a → ∃ b, f a = some b ∧ R a b) (as : List α) :
    List.Forall₂ R (as.filter (p ·)) (as.filterMap f) := by
  induction as with
  | nil => exact .nil
  | cons a as ih =>
    by_cases ha : p a
    · obtain ⟨b, hb, hr⟩ := hsome a ha
      rw [List.filter_cons_of_pos (by simpa using ha), List.filterMap_cons_some hb]
      exact .cons hr ih
    · rw [List.filter_cons_of_neg (by simpa using ha), List.filterMap_cons_none (hnone a ha)]
      exact ih

/-- The diagnostic is the complaint of the rule about the definition. -/
structure ReportedBy (doc : SchemaDocument) (d : Definition) (x : Diagnostic) : Prop where
  complains : o.Complains doc d x.line x.text
  message : x.message = o.rule.id ++ ": " ++ x.text
  file : x.file = doc.path

section Reports

variable {o} {doc : SchemaDocument} {d : Definition} (ho : o ∈ all)

include ho

theorem forall₂_check (doc : SchemaDocument) : List.Forall₂ (o.ReportedBy doc)
    ((doc.typesOf o.kind).filter fun d => ¬ InByteOrder (o.names d)) (o.rule.check doc) := by
  obtain ⟨value, hcheck⟩ := check_eq ho
  rw [hcheck, List.forall₂_map_right_iff]
  apply forall₂_filterMap
  · intro d hd
    exact complaint?_eq_none (not_not.mp hd)
  · intro d hd
    obtain ⟨f, hf, hcomplains⟩ := exists_complaint doc hd
    have htext : (doc.diagnostic o.rule.id { f with value := value f }).text = f.text :=
      text_make (id_no_colon ho) _ _ _ _ _
    refine ⟨f, hf, ?_, ?_, rfl⟩
    · rw [htext]
      exact hcomplains
    · rw [htext]
      rfl

/-- Definitions are judged one by one. -/
theorem check_reordered_append (before after : List Definition) :
    o.rule.check (doc.reordered (before ++ after)) =
      o.rule.check (doc.reordered before) ++ o.rule.check (doc.reordered after) := by
  obtain ⟨value, hcheck⟩ := check_eq ho
  simp only [hcheck, SchemaDocument.typesOf, SchemaDocument.reordered, List.filter_append,
    List.filterMap_append, List.map_append]
  rfl

theorem check_of_order (h : InByteOrder (o.names d)) : o.rule.check (doc.reordered [d]) = [] := by
  have hnone : (((doc.reordered [d]).typesOf o.kind).filter fun e =>
      ¬ InByteOrder (o.names e)) = [] := by
    apply List.filter_eq_nil_iff.mpr
    intro e he
    obtain rfl := List.mem_singleton.mp (List.mem_of_mem_filter he)
    simpa using h
  have hall := forall₂_check ho (doc.reordered [d])
  rw [hnone] at hall
  exact List.forall₂_nil_left_iff.mp hall

theorem check_of_disorder (doc : SchemaDocument) (hd : d.Defines o.kind)
    (h : ¬ InByteOrder (o.names d)) :
    ∃ x, o.rule.check (doc.reordered [d]) = [x] ∧ o.ReportedBy doc d x := by
  have hone : (((doc.reordered [d]).typesOf o.kind).filter fun e =>
      ¬ InByteOrder (o.names e)) = [d] := by
    rw [SchemaDocument.typesOf, SchemaDocument.reordered, List.filter_filter]
    exact List.filter_eq_self.mpr (by simp [defines_iff, hd, h])
  have hall := forall₂_check ho (doc.reordered [d])
  rw [hone] at hall
  obtain ⟨x, rest, hx, hrest, heq⟩ := List.forall₂_cons_left_iff.mp hall
  rw [List.forall₂_nil_left_iff.mp hrest] at heq
  exact ⟨x, heq, ⟨hx.complains.several, hx.complains.leaves⟩, hx.message, hx.file⟩

end Reports

end MemberOrder

/-- Each of the four rules on order makes one report for each definition of its kind whose
members are not in the order of their bytes, in the order of the definitions, and none for
others. The report is at the first member that is not where the arrangement in order has it,
and spells that arrangement out. With the members of a definition in that arrangement its
report is gone, and the reports on other definitions are as they were. -/
theorem memberOrder_check {o : MemberOrder} (ho : o ∈ MemberOrder.all) (doc : SchemaDocument) :
    List.Forall₂ (o.ReportedBy doc)
      ((doc.typesOf o.kind).filter fun d => ¬ InByteOrder (o.names d)) (o.rule.check doc) ∧
    (∀ d, (o.members d).length < 2 → InByteOrder (o.names d)) ∧
    ∀ (before : List Definition) (d : Definition) (after : List Definition) (d' : Definition)
      (place : Nat), doc.definitions = before ++ d :: after → d.Defines o.kind →
      LeavesAt (o.names d) (o.names d') place →
        ∃ x, o.ReportedBy doc d x ∧
          o.rule.check doc = o.rule.check (doc.reordered before) ++
            x :: o.rule.check (doc.reordered after) ∧
          o.rule.check (doc.reordered (before ++ d' :: after)) =
            o.rule.check (doc.reordered before) ++ o.rule.check (doc.reordered after) := by
  refine ⟨MemberOrder.forall₂_check ho doc, fun d hshort => ?_, ?_⟩
  · apply inByteOrder_of_length_lt_two
    rw [MemberOrder.names, List.length_map]
    exact hshort
  · intro before d after d' place h hd hleaves
    have hsplit : ∀ e : Definition, o.rule.check (doc.reordered (before ++ e :: after)) =
        o.rule.check (doc.reordered before) ++ (o.rule.check (doc.reordered [e]) ++
          o.rule.check (doc.reordered after)) := by
      intro e
      rw [← MemberOrder.check_reordered_append ho, ← MemberOrder.check_reordered_append ho,
        List.singleton_append]
    obtain ⟨x, hx, hreported⟩ := MemberOrder.check_of_disorder ho doc hd
      hleaves.not_inByteOrder
    refine ⟨x, hreported, ?_, ?_⟩
    · have hsame : doc.reordered (before ++ d :: after) = doc := by rw [← h]; rfl
      have hdoc := hsplit d
      rw [hsame, hx, List.singleton_append] at hdoc
      exact hdoc
    · rw [hsplit, MemberOrder.check_of_order ho hleaves.ordered, List.nil_append]

/-- An enum with these values, as it is read from a text. -/
def enumWith (offset : Nat) (name : Name) (values : List Name) : Definition :=
  ⟨false, none, name, [], .enum (values.map fun v => ⟨none, v, []⟩), offset⟩

/-- The first value that is smaller than the one before it is the last, but the second value
is the first that is out of place. -/
theorem memberOrder_check_lateValue :
    let doc := SchemaDocument.parse "schema.graphql" "enum E \x7b A C D B \x7d"
    let d := enumWith 0 ⟨"E", 5⟩ [⟨"A", 9⟩, ⟨"C", 11⟩, ⟨"D", 13⟩, ⟨"B", 15⟩]
    let d' := enumWith 0 ⟨"E", 5⟩ [⟨"A", 9⟩, ⟨"B", 11⟩, ⟨"C", 13⟩, ⟨"D", 15⟩]
    MemberOrder.enumValues ∈ MemberOrder.all ∧ doc.definitions = [] ++ d :: [] ∧
      d.Defines .enum ∧
      LeavesAt (MemberOrder.enumValues.names d) (MemberOrder.enumValues.names d') 1 ∧
      (∃ x, MemberOrder.enumValues.ReportedBy doc d x ∧ enumValuesSorted.check doc = [x]) ∧
      enumValuesSorted.check (doc.reordered [d']) = [] := by
  intro doc d d'
  have hmem : MemberOrder.enumValues ∈ MemberOrder.all := List.mem_cons_self
  have hdoc : doc.definitions = [] ++ d :: [] := by decide +kernel
  have hleaves : LeavesAt (MemberOrder.enumValues.names d) (MemberOrder.enumValues.names d') 1 :=
    ⟨by decide, by decide +kernel, by decide, ⟨"C", "B", rfl, rfl, by decide⟩, by decide +kernel,
      ⟨"C", 3, "B", rfl, by decide, rfl, by decide +kernel⟩⟩
  obtain ⟨-, -, hrearranged⟩ := memberOrder_check hmem doc
  obtain ⟨x, hx, hbefore, hafter⟩ := hrearranged _ _ _ d' 1 hdoc ⟨rfl, rfl⟩ hleaves
  exact ⟨hmem, hdoc, ⟨rfl, rfl⟩, hleaves, ⟨x, hx, hbefore⟩, hafter⟩

end SchemaLint
