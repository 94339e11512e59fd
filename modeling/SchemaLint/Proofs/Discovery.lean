import Mathlib.Data.List.Basic
import Mathlib.Data.List.Nodup
import Mathlib.Data.List.TakeWhile
import Mathlib.Tactic.MkIffOfInductiveProp
import SchemaLint.Files.Discovery
import SchemaLint.Proofs.ByteOrder

/-!
# What discovery finds

A walk comes across every entry below a directory once, in the order of the names on the
way, and leaves out hidden entries and directories of foreign code with all below them.
What is left are the schema files that `Discoverable` describes from the tree alone. How a
directory stores its entries has no part in it.
-/

namespace SchemaLint.Files

open Text

/-! ## Paths -/

/-- A name that an entry of a directory can have. -/
@[mk_iff]
structure IsEntryName (name : String) : Prop where
  ne_empty : name ≠ ""
  ne_here : name ≠ "."
  ne_up : name ≠ ".."
  no_slash : '/' ∉ name.toList

instance : DecidablePred IsEntryName := fun name => decidable_of_iff' _ (isEntryName_iff name)

theorem splitSlash_ne_nil (cs : List Char) : splitSlash cs ≠ [] := by
  fun_cases splitSlash cs <;> simp

theorem splitSlash_of_not_mem {cs : List Char} (h : '/' ∉ cs) : splitSlash cs = [cs] := by
  induction cs with
  | nil => rfl
  | cons c cs ih =>
    obtain ⟨hc, hcs⟩ := not_or.mp (mt List.mem_cons.mpr h)
    rw [splitSlash, if_neg (Ne.symm hc), ih hcs]

theorem splitSlash_append (a b : List Char) :
    splitSlash (a ++ '/' :: b) = splitSlash a ++ splitSlash b := by
  induction a with
  | nil => simp [splitSlash]
  | cons c a ih =>
    by_cases hc : c = '/'
    · simp [splitSlash, hc, ih]
    · cases ha : splitSlash a with
      | nil => exact absurd ha (splitSlash_ne_nil a)
      | cons p ps => simp [splitSlash, hc, ih, ha]

theorem IsEntryName.isAbsolute_eq_false {name : String} (h : IsEntryName name) :
    isAbsolute name = false := by
  unfold isAbsolute
  cases hcs : name.toList with
  | nil => rfl
  | cons c cs =>
    have hc : c ≠ '/' := fun hc => h.no_slash (hcs ▸ hc ▸ List.mem_cons_self)
    simpa using hc

/-- Going down by a name adds it to the parts of a path. -/
theorem components_join (base : String) {name : String} (h : IsEntryName name) :
    components (join base name) = components base ++ [name] := by
  have hname : splitSlash name.toList = [name.toList] := splitSlash_of_not_mem h.no_slash
  unfold join components segments
  rw [h.isAbsolute_eq_false, Bool.false_or]
  split
  · next hempty =>
    rw [String.isEmpty_iff.mp hempty, hname]
    simp [splitSlash, Files.namesNothing, h.ne_empty, h.ne_here]
  · split
    · next hlast =>
      obtain ⟨front, hfront⟩ := List.getLast?_eq_some_iff.mp (beq_iff_eq.mp hlast)
      rw [String.toList_append, hfront, List.append_assoc, List.singleton_append,
        splitSlash_append, splitSlash_append, hname]
      simp [splitSlash, Files.namesNothing, h.ne_empty, h.ne_here]
    · rw [String.toList_append, String.toList_append, List.append_assoc,
        show "/".toList ++ name.toList = '/' :: name.toList from rfl, splitSlash_append, hname]
      simp [Files.namesNothing, h.ne_empty, h.ne_here]

theorem components_pathBelow (target : String) {names : List String}
    (h : ∀ name ∈ names, IsEntryName name) :
    components (pathBelow target names) = components target ++ names := by
  induction names generalizing target with
  | nil => simp [pathBelow]
  | cons name names ih =>
    obtain ⟨hname, hnames⟩ := List.forall_mem_cons.mp h
    have hrest := ih (join target name) hnames
    rw [pathBelow] at hrest ⊢
    rw [List.foldl_cons, hrest, components_join target hname, List.append_assoc,
      List.singleton_append]

/-- A name, a dot and an extension of schema files in whatever case. -/
def HasSchemaExtension (name : String) : Prop :=
  ∃ stem extension : String, name = stem ++ "." ++ extension ∧ stem ≠ "" ∧
    lowerAscii extension ∈ schemaExtensions

theorem nameExtension?_of_not_mem {name : String} (h : '.' ∉ name.toList) :
    nameExtension? name = none := by
  have hall : name.toList.reverse.takeWhile (· != '.') = name.toList.reverse := by
    refine List.takeWhile_eq_self_iff.mpr fun c hc => bne_iff_ne.mpr ?_
    rintro rfl
    exact h (List.mem_reverse.mp hc)
  simp [nameExtension?, hall]

theorem nameExtension?_append {stem extension : String} (h : '.' ∉ extension.toList) :
    nameExtension? (stem ++ "." ++ extension) = if stem = "" then none else some extension := by
  have hlist : (stem ++ "." ++ extension).toList = stem.toList ++ '.' :: extension.toList := by
    rw [String.toList_append, String.toList_append, List.append_assoc]
    rfl
  have hbehind : (stem ++ "." ++ extension).toList.reverse.takeWhile (· != '.') =
      extension.toList.reverse := by
    rw [hlist, List.reverse_append, List.reverse_cons, List.append_assoc,
      List.takeWhile_append_of_pos]
    · simp
    · intro c hc
      refine bne_iff_ne.mpr ?_
      rintro rfl
      exact h (List.mem_reverse.mp hc)
  have hbefore : (stem.toList ++ '.' :: extension.toList).take
      ((stem.toList ++ '.' :: extension.toList).length - extension.toList.length - 1) =
        stem.toList := by
    refine List.take_left' ?_
    rw [List.length_append, List.length_cons]
    omega
  simp only [nameExtension?, hbehind, List.reverse_reverse]
  rw [hlist, hbefore]
  simp

theorem not_mem_of_schemaExtension {extension : String}
    (h : lowerAscii extension ∈ schemaExtensions) : '.' ∉ extension.toList := by
  intro hdot
  have hmem : '.' ∈ (lowerAscii extension).toList := by
    rw [lowerAscii, String.toList_ofList]
    exact List.mem_map.mpr ⟨'.', hdot, rfl⟩
  simp only [schemaExtensions, List.mem_cons, List.not_mem_nil, or_false] at h
  rcases h with h | h <;> rw [h] at hmem <;> revert hmem <;> decide

theorem any_nameExtension?_iff (name : String) :
    (nameExtension? name).any (fun e => schemaExtensions.contains (lowerAscii e)) = true ↔
      HasSchemaExtension name := by
  constructor
  · intro h
    obtain ⟨e, he, hschema⟩ := (Option.any_eq_true _ _).mp h
    have hdot : '.' ∈ name.toList := by
      by_contra hdot
      rw [nameExtension?_of_not_mem hdot] at he
      cases he
    obtain ⟨behind, before, hsplit, hbehind⟩ :=
      List.eq_append_cons_of_mem (List.mem_reverse.mpr hdot)
    have hname : name = String.ofList before.reverse ++ "." ++ String.ofList behind.reverse := by
      apply String.toList_inj.mp
      rw [String.toList_append, String.toList_append, String.toList_ofList, String.toList_ofList,
        ← List.reverse_reverse name.toList, hsplit]
      simp
    have hfree : '.' ∉ (String.ofList behind.reverse).toList := by simpa using hbehind
    rw [hname, nameExtension?_append hfree] at he
    split at he
    · cases he
    · next hstem =>
      obtain rfl := Option.some.inj he
      exact ⟨_, _, hname, hstem, List.contains_iff_mem.mp hschema⟩
  · rintro ⟨stem, extension, rfl, hstem, hschema⟩
    rw [nameExtension?_append (not_mem_of_schemaExtension hschema), if_neg hstem]
    exact List.contains_iff_mem.mpr hschema

theorem isSchemaFile_pathBelow (target : String) {names : List String} {name : String}
    (h : ∀ name ∈ names, IsEntryName name) (hlast : names.getLast? = some name) :
    isSchemaFile (pathBelow target names) = true ↔ HasSchemaExtension name := by
  have hname : IsEntryName name := h name (List.mem_of_getLast? hlast)
  have hfile : fileName? (pathBelow target names) = some name := by
    rw [fileName?, components_pathBelow target h, List.getLast?_append, hlast, Option.some_or,
      Option.filter_some, if_pos (bne_iff_ne.mpr hname.ne_up)]
  rw [isSchemaFile, extension?, hfile, Option.bind_some]
  exact any_nameExtension?_iff name

/-! ## Trees -/

/-- The names in a directory are different from each other, here and in all directories
below. -/
inductive Entry.WellFormed : Entry → Prop
  | file (content : ByteArray) : WellFormed (.file content)
  | link (target : String) : WellFormed (.link target)
  | directory {children : List (String × Entry)} (nodup : (children.map (·.1)).Nodup)
      (names : ∀ c ∈ children, IsEntryName c.1) (below : ∀ c ∈ children, WellFormed c.2) :
      WellFormed (.directory children)

theorem lookup_eq_some_iff {children : List (String × Entry)} (h : (children.map (·.1)).Nodup)
    {name : String} {entry : Entry} :
    children.lookup name = some entry ↔ (name, entry) ∈ children := by
  induction children with
  | nil => simp
  | cons c children ih =>
    obtain ⟨n, e⟩ := c
    obtain ⟨hn, hrest⟩ := List.nodup_cons.mp h
    rw [List.lookup_cons, List.mem_cons, Prod.mk.injEq]
    split
    · next hbeq =>
      obtain rfl := beq_iff_eq.mp hbeq
      have hnot : (name, entry) ∉ children := fun hmem => hn (List.mem_map.mpr ⟨_, hmem, rfl⟩)
      simp [hnot, eq_comm]
    · next hbeq =>
      have hne : name ≠ n := by simpa using hbeq
      simp [hne, ih hrest]

namespace Entry

variable {entry child : Entry} {name : String} {names : List String} {content : ByteArray}

theorem child?_directory (children : List (String × Entry)) (name : String) :
    (directory children).child? name = children.lookup name := rfl

theorem WellFormed.of_child? (h : entry.WellFormed) (hchild : entry.child? name = some child) :
    IsEntryName name ∧ child.WellFormed := by
  cases h with
  | file => cases hchild
  | link => cases hchild
  | directory nodup names below =>
    have hmem := (lookup_eq_some_iff nodup).mp hchild
    exact ⟨names _ hmem, below _ hmem⟩

theorem WellFormed.of_get? (h : entry.WellFormed) (hget : entry.get? names = some child) :
    (∀ name ∈ names, IsEntryName name) ∧ child.WellFormed := by
  induction names generalizing entry with
  | nil =>
    obtain rfl := Option.some.inj hget
    exact ⟨by simp, h⟩
  | cons name names ih =>
    obtain ⟨next, hnext, hrest⟩ := Option.bind_eq_some_iff.mp hget
    obtain ⟨hname, hbelow⟩ := h.of_child? hnext
    obtain ⟨hnames, hchild⟩ := ih hbelow hrest
    exact ⟨List.forall_mem_cons.mpr ⟨hname, hnames⟩, hchild⟩

theorem get?_append (entry : Entry) (above below : List String) :
    entry.get? (above ++ below) = (entry.get? above).bind (·.get? below) := by
  induction above generalizing entry with
  | nil => rfl
  | cons name above ih => simp [get?, Option.bind_assoc, ih]

/-- A schema file below a directory, as the tree and the names on the way say it. -/
structure Discoverable (directory : Entry) (names : List String) (content : ByteArray) :
    Prop where
  /-- Names lead to a file and not to a link, and no link is followed on the way. -/
  file : directory.get? names = some (.file content)
  extension : ∃ name ∈ names.getLast?, HasSchemaExtension name
  visible : ∀ name ∈ names, name.toList.head? ≠ some '.'
  /-- No directory on the way is one of foreign code. -/
  own : ∀ above name, above ++ [name] <+: names →
    (directory.get? (above ++ [name])).any isDirectory = true →
      String.ofList (lower name.toList) ∉ ignoredDirectories

/-- A file right in a directory is on no way through others. -/
theorem discoverable_of_child? (hfile : entry.child? name = some (.file content))
    (hextension : HasSchemaExtension name) (hvisible : name.toList.head? ≠ some '.') :
    entry.Discoverable [name] content := by
  refine ⟨by rw [get?, hfile]; rfl, ⟨name, rfl, hextension⟩, by simpa using hvisible, ?_⟩
  rintro above last ⟨rest, hrest⟩ hdirectory
  cases above with
  | nil =>
    obtain rfl := (List.cons.inj hrest).1
    rw [List.nil_append, get?, hfile] at hdirectory
    cases hdirectory
  | cons => simp at hrest

/-- The walk from an entry gets to a file by these names. -/
def Shows (content : ByteArray) : Entry → List String → Prop
  | entry, [] => entry = .file content
  | entry, name :: names =>
      ∃ child, entry.child? name = some child ∧ isExcluded name child = false ∧
        Shows content child names

theorem isExcluded_eq_false_iff (name : String) (entry : Entry) :
    isExcluded name entry = false ↔ name.toList.head? ≠ some '.' ∧
      (entry.isDirectory = true → String.ofList (lower name.toList) ∉ ignoredDirectories) := by
  rw [isExcluded, Bool.or_eq_false_iff, beq_eq_false_iff_ne, Bool.and_eq_false_imp,
    List.contains_eq_mem, decide_eq_false_iff_not]

theorem shows_iff : Shows content entry names ↔ entry.get? names = some (.file content) ∧
    (∀ name ∈ names, name.toList.head? ≠ some '.') ∧
    ∀ above name, above ++ [name] <+: names →
      (entry.get? (above ++ [name])).any isDirectory = true →
        String.ofList (lower name.toList) ∉ ignoredDirectories := by
  induction names generalizing entry with
  | nil => simp [Shows, get?]
  | cons name names ih =>
    constructor
    · rintro ⟨child, hchild, hexcluded, hshows⟩
      obtain ⟨hvisible, hown⟩ := (isExcluded_eq_false_iff name child).mp hexcluded
      obtain ⟨hfile, hvisibles, howns⟩ := ih.mp hshows
      refine ⟨by rw [get?, hchild, Option.bind_some, hfile],
        List.forall_mem_cons.mpr ⟨hvisible, hvisibles⟩, fun above n hprefix hdirectory => ?_⟩
      cases above with
      | nil =>
        obtain ⟨rfl, -⟩ := List.cons_prefix_cons.mp hprefix
        refine hown ?_
        simpa [get?, hchild] using hdirectory
      | cons a above =>
        obtain ⟨rfl, hrest⟩ := List.cons_prefix_cons.mp hprefix
        refine howns above n hrest ?_
        simpa [get?, hchild] using hdirectory
    · rintro ⟨hfile, hvisible, hown⟩
      obtain ⟨child, hchild, hrest⟩ := Option.bind_eq_some_iff.mp hfile
      refine ⟨child, hchild, (isExcluded_eq_false_iff name child).mpr
        ⟨hvisible name List.mem_cons_self, fun hdirectory => ?_⟩, ih.mpr ⟨hrest,
        fun n hn => hvisible n (List.mem_cons_of_mem _ hn), fun above n hprefix hdirectory => ?_⟩⟩
      · refine hown [] name (List.cons_prefix_cons.mpr ⟨rfl, List.nil_prefix⟩) ?_
        simpa [get?, hchild] using hdirectory
      · refine hown (name :: above) n (List.cons_prefix_cons.mpr ⟨rfl, hprefix⟩) ?_
        simpa [get?, hchild] using hdirectory

end Entry

/-! ## Visits -/

/-- The names that lead to what is visited. -/
def Visit.names : Visit → List String
  | .excluded names => names
  | .file names _ => names

theorem Visit.names_below (name : String) (v : Visit) : (v.below name).names = name :: v.names := by
  cases v <;> rfl

/-- What a walk comes across at a child of a directory. -/
def visitsOfChild (name : String) (entry : Entry) : List Visit :=
  (if isExcluded name entry then [.excluded []] else entry.visits).map (·.below name)

theorem visitsOfChildren_eq_map (children : List (String × Entry)) :
    visitsOfChildren children = children.map fun c => (c.1, visitsOfChild c.1 c.2) := by
  induction children with
  | nil => rfl
  | cons c children ih => rw [visitsOfChildren, ih, List.map_cons, visitsOfChild]

theorem sortByName_perm {α : Type} (xs : List (String × α)) : (sortByName xs).Perm xs :=
  List.mergeSort_perm _ _

theorem sortByName_pairwise {α : Type} {xs : List (String × α)} (h : (xs.map (·.1)).Nodup) :
    (sortByName xs).Pairwise (·.1 < ·.1) := by
  have hle : (sortByName xs).Pairwise (·.1 ≤ ·.1) := by
    refine (List.pairwise_mergeSort (fun a b c hab hbc => ?_) (fun a b => ?_) xs).imp
      fun hab => of_decide_eq_true hab
    · exact decide_eq_true (String.le_trans (of_decide_eq_true hab) (of_decide_eq_true hbc))
    · simpa using String.le_total a.1 b.1
  have hne : (sortByName xs).Pairwise (·.1 ≠ ·.1) :=
    List.pairwise_map.mp (((sortByName_perm xs).map _).nodup_iff.mpr h)
  refine (hle.and hne).imp fun hab => String.not_le.mp fun hba => ?_
  exact hab.2 (String.le_antisymm hab.1 hba)

theorem mem_visits_directory_iff {children : List (String × Entry)} {v : Visit} :
    v ∈ (Entry.directory children).visits ↔ ∃ c ∈ children, v ∈ visitsOfChild c.1 c.2 := by
  rw [Entry.visits, List.mem_flatMap, visitsOfChildren_eq_map]
  simp only [(sortByName_perm _).mem_iff, List.mem_map]
  constructor
  · rintro ⟨_, ⟨c, hc, rfl⟩, hv⟩
    exact ⟨c, hc, hv⟩
  · rintro ⟨c, hc, hv⟩
    exact ⟨_, ⟨c, hc, rfl⟩, hv⟩

theorem file_mem_visitsOfChild_iff {name : String} {entry : Entry} {names : List String}
    {content : ByteArray} : .file names content ∈ visitsOfChild name entry ↔
      isExcluded name entry = false ∧
        ∃ rest, names = name :: rest ∧ .file rest content ∈ entry.visits := by
  rw [visitsOfChild, List.mem_map]
  constructor
  · rintro ⟨v, hv, hbelow⟩
    cases v with
    | excluded => cases hbelow
    | file rest c =>
      obtain ⟨rfl, rfl⟩ := Visit.file.inj hbelow
      split at hv
      · simp at hv
      · next hexcluded => exact ⟨by simpa using hexcluded, rest, rfl, hv⟩
  · rintro ⟨hexcluded, rest, rfl, hmem⟩
    exact ⟨.file rest content, by rwa [hexcluded], rfl⟩

theorem mem_visits_iff {entry : Entry} (h : entry.WellFormed) {names : List String}
    {content : ByteArray} : .file names content ∈ entry.visits ↔ entry.Shows content names := by
  induction h generalizing names with
  | file c =>
    rw [Entry.visits, List.mem_singleton, Visit.file.injEq]
    cases names with
    | nil => simp [Entry.Shows, eq_comm]
    | cons => simp [Entry.Shows, Entry.child?, Entry.children?]
  | link target => cases names <;> simp [Entry.visits, Entry.Shows, Entry.child?, Entry.children?]
  | @directory children nodup _ _ ih =>
    simp only [mem_visits_directory_iff, file_mem_visitsOfChild_iff]
    cases names with
    | nil => simp [Entry.Shows]
    | cons name names =>
      simp only [Entry.Shows, Entry.child?_directory, lookup_eq_some_iff nodup]
      constructor
      · rintro ⟨⟨n, e⟩, hc, hexcluded, rest, hnames, hmem⟩
        obtain ⟨rfl, rfl⟩ := List.cons.inj hnames
        exact ⟨e, hc, hexcluded, (ih _ hc).mp hmem⟩
      · rintro ⟨e, hc, hexcluded, hshows⟩
        exact ⟨(name, e), hc, hexcluded, names, rfl, (ih _ hc).mpr hshows⟩

/-- Visits come in the order of the names that lead to them, and none twice. -/
theorem visits_pairwise {entry : Entry} (h : entry.WellFormed) :
    entry.visits.Pairwise (·.names < ·.names) := by
  induction h with
  | file => exact List.pairwise_singleton _ _
  | link => exact .nil
  | @directory children nodup _ _ ih =>
    have hnames : ∀ name entry, ∀ v ∈ visitsOfChild name entry, ∃ rest, v.names = name :: rest := by
      intro name entry v hv
      obtain ⟨w, -, rfl⟩ := List.mem_map.mp hv
      exact ⟨w.names, w.names_below name⟩
    rw [Entry.visits, visitsOfChildren_eq_map, List.pairwise_flatMap]
    constructor
    · intro _ hmem
      obtain ⟨c, hc, rfl⟩ := List.mem_map.mp ((sortByName_perm _).mem_iff.mp hmem)
      refine List.pairwise_map.mpr ?_
      have hchild : (if isExcluded c.1 c.2 then [.excluded []] else c.2.visits).Pairwise
          (·.names < ·.names) := by
        split
        · exact List.pairwise_singleton _ _
        · exact ih c hc
      refine hchild.imp fun hlt => ?_
      rw [Visit.names_below, Visit.names_below]
      exact List.cons_lt_cons_iff.mpr (.inr ⟨rfl, hlt⟩)
    · have hkeys : ((children.map fun c => (c.1, visitsOfChild c.1 c.2)).map (·.1)).Nodup := by
        rwa [List.map_map]
      refine (sortByName_pairwise hkeys).imp_of_mem fun {a b} ha hb hlt v hv w hw => ?_
      obtain ⟨c, -, rfl⟩ := List.mem_map.mp ((sortByName_perm _).mem_iff.mp ha)
      obtain ⟨d, -, rfl⟩ := List.mem_map.mp ((sortByName_perm _).mem_iff.mp hb)
      obtain ⟨_, hv⟩ := hnames _ _ v hv
      obtain ⟨_, hw⟩ := hnames _ _ w hw
      rw [hv, hw]
      exact List.cons_lt_cons_iff.mpr (.inl hlt)

/-! ## Schema files of a directory -/

/-- The file that is visited, if it is one. -/
def Visit.file? : Visit → Option (List String × ByteArray)
  | .excluded _ => none
  | .file names content => some (names, content)

/-- The schema files among what a walk from a target came across, by the names that lead to
them. -/
def schemaPlaces (target : String) (visits : List Visit) : List (List String × ByteArray) :=
  (visits.filterMap Visit.file?).filter fun p => isSchemaFile (pathBelow target p.1)

/-- A place below a target as discovery hands it on. -/
def fileAt (target : String) (p : List String × ByteArray) : SchemaFile :=
  ⟨pathBelow target p.1, p.2⟩

theorem schemaFiles_eq_map (target : String) (visits : List Visit) :
    schemaFiles target visits = (schemaPlaces target visits).map (fileAt target) := by
  induction visits with
  | nil => rfl
  | cons v visits ih =>
    rw [schemaFiles, schemaPlaces] at *
    cases v with
    | excluded names => rw [List.filterMap_cons_none rfl, List.filterMap_cons_none rfl, ih]
    | file names content =>
      by_cases h : isSchemaFile (pathBelow target names) <;> simp [Visit.file?, h, ih, fileAt]

theorem file_mem_filterMap_iff {visits : List Visit} {names : List String} {content : ByteArray} :
    (names, content) ∈ visits.filterMap Visit.file? ↔ .file names content ∈ visits := by
  rw [List.mem_filterMap]
  constructor
  · rintro ⟨v, hv, hfile⟩
    cases v with
    | excluded => cases hfile
    | file =>
      obtain ⟨rfl, rfl⟩ := Prod.mk.inj (Option.some.inj hfile)
      exact hv
  · exact fun h => ⟨_, h, rfl⟩

section Directory

variable {children : List (String × Entry)} {names : List String} {content : ByteArray}

theorem mem_schemaPlaces_iff (h : (Entry.directory children).WellFormed) (target : String) :
    (names, content) ∈ schemaPlaces target (Entry.directory children).visits ↔
      (Entry.directory children).Discoverable names content := by
  rw [schemaPlaces, List.mem_filter, file_mem_filterMap_iff, mem_visits_iff h, Entry.shows_iff]
  constructor
  · rintro ⟨⟨hfile, hvisible, hown⟩, hschema⟩
    cases hlast : names.getLast? with
    | none =>
      obtain rfl := List.getLast?_eq_none_iff.mp hlast
      cases hfile
    | some name =>
      have hnames := (h.of_get? hfile).1
      exact ⟨hfile, ⟨name, hlast, (isSchemaFile_pathBelow target hnames hlast).mp hschema⟩,
        hvisible, hown⟩
  · rintro ⟨hfile, ⟨name, hlast, hextension⟩, hvisible, hown⟩
    have hnames := (h.of_get? hfile).1
    exact ⟨⟨hfile, hvisible, hown⟩,
      (isSchemaFile_pathBelow target hnames hlast).mpr hextension⟩

theorem schemaPlaces_pairwise (h : (Entry.directory children).WellFormed) (target : String) :
    (schemaPlaces target (Entry.directory children).visits).Pairwise (·.1 < ·.1) := by
  refine ((List.pairwise_filterMap.mpr ((visits_pairwise h).imp ?_)).filter _)
  intro v w hlt p hp q hq
  cases v with
  | excluded => cases hp
  | file =>
    cases w with
    | excluded => cases hq
    | file =>
      obtain rfl := Option.some.inj hp
      obtain rfl := Option.some.inj hq
      exact hlt

theorem paths_nodup (h : (Entry.directory children).WellFormed) (target : String) :
    ((schemaPlaces target (Entry.directory children).visits).map
      (pathBelow target ·.1)).Nodup := by
  refine List.pairwise_map.mpr ((schemaPlaces_pairwise h target).imp_of_mem ?_)
  intro p q hp hq hlt hpath
  have hnames : ∀ p ∈ schemaPlaces target (Entry.directory children).visits,
      ∀ name ∈ p.1, IsEntryName name :=
    fun p hp => (h.of_get? ((mem_schemaPlaces_iff h target).mp hp).file).1
  have heq := congrArg components hpath
  rw [components_pathBelow target (hnames p hp), components_pathBelow target (hnames q hq)] at heq
  rw [List.append_cancel_left heq] at hlt
  exact List.lt_irrefl _ hlt

theorem discover_of_directory {fs : FileSystem} {target : String}
    (h : fs.entry true target = .ok (.directory children)) :
    fs.discover target =
      if schemaPlaces target (Entry.directory children).visits = [] then
        .error (.noSchemaFiles target)
      else .ok ((schemaPlaces target (Entry.directory children).visits).map (fileAt target)) := by
  have hvisits : fs.visits target = .ok (Entry.directory children).visits := by
    rw [FileSystem.visits, h]
  rw [FileSystem.discover, hvisits]
  simp only [bind, Except.bind, schemaFiles_eq_map]
  cases schemaPlaces target (Entry.directory children).visits <;> simp

end Directory

/-! ## Schema files of a target -/

section Target

variable {fs : FileSystem} {target : String} {file : SchemaFile}

theorem entry_eq_ok_iff {followLast : Bool} {path : String} {entry : Entry} :
    fs.entry followLast path = .ok entry ↔
      ∃ place, fs.locate followLast path = .ok place ∧ fs.root.get? place = some entry := by
  rw [FileSystem.entry]
  cases fs.locate followLast path with
  | error e => simp [bind, Except.bind]
  | ok place => cases hget : fs.root.get? place <;> simp [bind, Except.bind, hget]

theorem wellFormed_of_entry (h : fs.root.WellFormed) {followLast : Bool} {path : String}
    {entry : Entry} (hpath : fs.entry followLast path = .ok entry) : entry.WellFormed := by
  obtain ⟨place, -, hget⟩ := entry_eq_ok_iff.mp hpath
  exact (h.of_get? hget).2

end Target

/-! ## Trees that are stored in another order -/

namespace Entry

/-- What stands at a place, without what it holds if it is a directory. -/
def outline : Entry → Entry
  | .directory _ => .directory []
  | entry => entry

/-- The same stands at every place. How directories store their entries does not count. -/
def SameTree (a b : Entry) : Prop :=
  ∀ names, (a.get? names).map outline = (b.get? names).map outline

variable {a b x y : Entry}

theorem any_isDirectory_map_outline (o : Option Entry) :
    (o.map outline).any isDirectory = o.any isDirectory := by
  rcases o with _ | ⟨_ | _ | _⟩ <;> rfl

theorem map_outline_eq_file_iff {o : Option Entry} {content : ByteArray} :
    o.map outline = some (.file content) ↔ o = some (.file content) := by
  rcases o with _ | ⟨_ | _ | _⟩ <;> simp [outline]

theorem SameTree.of_get? (h : a.SameTree b) {place : List String} (ha : a.get? place = some x)
    (hb : b.get? place = some y) : x.SameTree y := by
  intro names
  have hnames := h (place ++ names)
  rwa [Entry.get?_append, Entry.get?_append, ha, hb] at hnames

theorem SameTree.symm (h : a.SameTree b) : b.SameTree a := fun names => (h names).symm

theorem WellFormed.of_perm {children children' : List (String × Entry)}
    (h : (Entry.directory children).WellFormed) (hperm : children.Perm children') :
    (Entry.directory children').WellFormed := by
  cases h with
  | directory nodup names below =>
    exact .directory ((hperm.map _).nodup_iff.mp nodup) (fun c hc => names c (hperm.mem_iff.mpr hc))
      fun c hc => below c (hperm.mem_iff.mpr hc)

theorem sameTree_of_perm {children children' : List (String × Entry)}
    (h : (directory children).WellFormed) (hperm : children.Perm children') :
    (directory children).SameTree (directory children') := by
  have hlookup : ∀ name, children.lookup name = children'.lookup name := by
    intro name
    refine Option.ext fun entry => ?_
    cases h with
    | directory nodup =>
      rw [lookup_eq_some_iff nodup, lookup_eq_some_iff ((hperm.map _).nodup_iff.mp nodup),
        hperm.mem_iff]
  intro names
  cases names with
  | nil => rfl
  | cons name names => rw [get?, get?, child?_directory, child?_directory, hlookup]

theorem SameTree.discoverable (h : a.SameTree b) {names : List String} {content : ByteArray}
    (hfile : a.Discoverable names content) : b.Discoverable names content := by
  refine ⟨?_, hfile.extension, hfile.visible, fun above name hbelow hdirectory => ?_⟩
  · rw [← map_outline_eq_file_iff, ← h names, hfile.file]
    rfl
  · refine hfile.own above name hbelow ?_
    rwa [← any_isDirectory_map_outline, h, any_isDirectory_map_outline]

/-- Of a place in the one tree, a path sees the same in the other. -/
theorem SameTree.exists_get? (h : a.SameTree b) {place : List String} (ha : a.get? place = some x) :
    ∃ y, b.get? place = some y ∧ y.isDirectory = x.isDirectory ∧
      ∀ name, (y.child? name).map outline = (x.child? name).map outline := by
  have hplace := h place
  rw [ha, Option.map_some] at hplace
  obtain ⟨y, hb, houtline⟩ := Option.map_eq_some_iff.mp hplace.symm
  refine ⟨y, hb, ?_, fun name => ?_⟩
  · have hsame := any_isDirectory_map_outline (some y)
    rw [Option.map_some, houtline] at hsame
    exact hsame.symm.trans (any_isDirectory_map_outline (some x))
  · have hchild := (h.of_get? ha hb).symm [name]
    simpa [get?] using hchild

end Entry

section SameTree

variable {fs fs' : FileSystem} {followLast : Bool} {links : Nat} {place rest : List String}

/-- One step of a path sees the same in both trees. The hypotheses say so of the rest of the
path, from wherever the step may lead. -/
theorem walk_cons_congr (h : fs.root.SameTree fs'.root) (s : String)
    (hrest : ∀ place, fs.walk followLast links place rest = fs'.walk followLast links place rest)
    (hlink : ∀ n place segments, links = n + 1 →
      fs.walk followLast n place segments = fs'.walk followLast n place segments) :
    fs.walk followLast links place (s :: rest) = fs'.walk followLast links place (s :: rest) := by
  rw [FileSystem.walk, FileSystem.walk]
  cases hplace : fs.root.get? place with
  | none =>
    have hnone := h place
    rw [hplace, Option.map_none, eq_comm, Option.map_eq_none_iff] at hnone
    rw [hnone]
  | some here =>
    obtain ⟨here', hplace', hdirectory, hchild⟩ := h.exists_get? hplace
    have hsame := hchild s
    simp only [hplace', hdirectory, hrest]
    generalize here.child? s = x at hsame ⊢
    generalize here'.child? s = y at hsame ⊢
    -- Of a child only its outline is looked at, and the outlines are the same.
    rcases x with _ | ⟨_ | _ | _⟩ <;> rcases y with _ | ⟨_ | _ | _⟩ <;>
      simp only [Option.map_none, Option.map_some, reduceCtorEq, Entry.outline, Option.some.injEq,
        Entry.link.injEq] at hsame
    case some.link.some.link =>
      subst hsame
      cases links with
      | zero => rfl
      | succ links => simp only [hlink links _ _ rfl]
    all_goals rfl

theorem walk_eq_of_sameTree (h : fs.root.SameTree fs'.root) (place segments : List String) :
    fs.walk followLast links place segments = fs'.walk followLast links place segments := by
  induction links generalizing place segments with
  | zero =>
    induction segments generalizing place with
    | nil => rw [FileSystem.walk, FileSystem.walk]
    | cons s rest ih => exact walk_cons_congr h s ih (by simp)
  | succ links ihl =>
    induction segments generalizing place with
    | nil => rw [FileSystem.walk, FileSystem.walk]
    | cons s rest ih =>
      refine walk_cons_congr h s ih fun n place segments hn => ?_
      obtain rfl := Nat.succ.inj hn
      exact ihl place segments

theorem locate_eq_of_sameTree (h : fs.root.SameTree fs'.root)
    (hcwd : fs.workingDirectory = fs'.workingDirectory) (path : String) :
    fs.locate followLast path = fs'.locate followLast path := by
  simp only [FileSystem.locate, walk_eq_of_sameTree h, hcwd]

/-- A directory of the one tree is one of the other, and holds the same. -/
theorem exists_directory_of_sameTree (h : fs.root.SameTree fs'.root)
    (hcwd : fs.workingDirectory = fs'.workingDirectory) {path : String}
    {children : List (String × Entry)} (hpath : fs.entry true path = .ok (.directory children)) :
    ∃ children', fs'.entry true path = .ok (.directory children') ∧
      (Entry.directory children).SameTree (.directory children') := by
  obtain ⟨place, hplace, hget⟩ := entry_eq_ok_iff.mp hpath
  obtain ⟨here, hget', hdirectory, -⟩ := h.exists_get? hget
  cases here with
  | file => cases hdirectory
  | link => cases hdirectory
  | directory children' =>
    rw [locate_eq_of_sameTree h hcwd] at hplace
    exact ⟨children', entry_eq_ok_iff.mpr ⟨place, hplace, hget'⟩, h.of_get? hget hget'⟩

end SameTree

/-- Places in strictly increasing order are determined by what they are. -/
theorem eq_of_pairwise_of_mem_iff {xs ys : List (List String × ByteArray)}
    (hxs : xs.Pairwise (·.1 < ·.1)) (hys : ys.Pairwise (·.1 < ·.1)) (h : ∀ p, p ∈ xs ↔ p ∈ ys) :
    xs = ys := by
  have hirrefl : ∀ {p q : List String × ByteArray}, p.1 < q.1 → p ≠ q := by
    rintro p _ hlt rfl
    exact List.lt_irrefl _ hlt
  have hperm : xs.Perm ys :=
    (List.perm_ext_iff_of_nodup (hxs.imp hirrefl) (hys.imp hirrefl)).mpr h
  refine hperm.eq_of_pairwise (fun p q _ _ hpq hqp => ?_) hxs hys
  exact absurd hqp (List.lt_asymm hpq)

/-- Discovery at a directory finds exactly its discoverable files, each once and in the order
of the bytes of the names that lead to them, or says that there is none. Directories that
store their entries in another order make no difference. -/
theorem discover_directory {fs : FileSystem} (hfs : fs.root.WellFormed) {target : String}
    {children : List (String × Entry)}
    (htarget : fs.entry true target = .ok (.directory children)) :
    ∃ found : List (List String × ByteArray),
      (∀ names content, (names, content) ∈ found ↔
        (Entry.directory children).Discoverable names content) ∧
      (found.map fun p => p.1.map bytes).Pairwise (· < ·) ∧
      (found.map (pathBelow target ·.1)).Nodup ∧
      (found ≠ [] → fs.discover target = .ok (found.map (fileAt target))) ∧
      (fs.discover target = .error (.noSchemaFiles target) ↔
        ¬ ∃ names content, (Entry.directory children).Discoverable names content) ∧
      ∀ fs' : FileSystem, fs'.root.WellFormed → fs.root.SameTree fs'.root →
        fs.workingDirectory = fs'.workingDirectory → fs'.discover target = fs.discover target := by
  have hdirectory := wellFormed_of_entry hfs htarget
  have hmem : ∀ names content, (names, content) ∈ _ ↔ _ := fun _ _ =>
    mem_schemaPlaces_iff hdirectory target
  refine ⟨schemaPlaces target (Entry.directory children).visits, hmem, ?_,
    paths_nodup hdirectory target, fun hfound => ?_, ?_, fun fs' hfs' hsame hcwd => ?_⟩
  · rw [List.pairwise_map]
    exact (schemaPlaces_pairwise hdirectory target).imp map_bytes_lt_iff.mpr
  · rw [discover_of_directory htarget, if_neg hfound]
  · rw [discover_of_directory htarget]
    simp only [← hmem]
    cases schemaPlaces target (Entry.directory children).visits with
    | nil => simp
    | cons p ps =>
      exact iff_of_false (by simp) (not_not_intro ⟨p.1, p.2, List.mem_cons_self⟩)
  · obtain ⟨children', htarget', hchildren⟩ := exists_directory_of_sameTree hsame hcwd htarget
    have hdirectory' := wellFormed_of_entry hfs' htarget'
    have hplaces : schemaPlaces target (Entry.directory children').visits =
        schemaPlaces target (Entry.directory children).visits := by
      refine eq_of_pairwise_of_mem_iff (schemaPlaces_pairwise hdirectory' target)
        (schemaPlaces_pairwise hdirectory target) fun p => ?_
      rw [mem_schemaPlaces_iff hdirectory', mem_schemaPlaces_iff hdirectory]
      exact ⟨hchildren.symm.discoverable, hchildren.discoverable⟩
    rw [discover_of_directory htarget', discover_of_directory htarget, hplaces]

/-- A project with schema files at two depths, one of foreign code and a link to one. -/
def projectEntries : List (String × Entry) :=
  [("z.GraphQL", .file .empty), ("a.graphql", .directory [("x.graphqls", .file .empty)]),
    ("Vendor", .directory [("y.graphql", .file .empty)]), ("l.graphql", .link "z.GraphQL")]

theorem discover_directory_projectEntries :
    ∃ found : List (List String × ByteArray), (["z.GraphQL"], .empty) ∈ found ∧
      FileSystem.discover ⟨.directory projectEntries, []⟩ "/" = .ok (found.map (fileAt "/")) ∧
      FileSystem.discover ⟨.directory projectEntries.reverse, []⟩ "/" =
        FileSystem.discover ⟨.directory projectEntries, []⟩ "/" := by
  have hwf : (Entry.directory projectEntries).WellFormed := by
    refine .directory (by decide) (by decide) ?_
    simp only [projectEntries, List.forall_mem_cons]
    refine ⟨.file _, .directory (by decide) (by decide) ?_,
      .directory (by decide) (by decide) ?_, .link _, by simp⟩ <;>
      simp [Entry.WellFormed.file]
  have htarget : FileSystem.entry ⟨.directory projectEntries, []⟩ true "/" =
      .ok (.directory projectEntries) := by
    have hshort : "/".utf8ByteSize ≤ FileSystem.pathLimit := by decide
    refine entry_eq_ok_iff.mpr ⟨[], ?_, rfl⟩
    simp [FileSystem.locate, FileSystem.walk, isAbsolute, segments, splitSlash, namesNothing,
      Entry.get?, Entry.isDirectory, hshort]
  have hperm : projectEntries.Perm projectEntries.reverse := (List.reverse_perm _).symm
  obtain ⟨found, hfound, -, -, hok, -, hsame⟩ := discover_directory hwf htarget
  have hmem : (["z.GraphQL"], .empty) ∈ found :=
    (hfound _ _).mpr (Entry.discoverable_of_child? rfl ⟨"z", "GraphQL", rfl, by decide, by decide⟩
      (by decide))
  exact ⟨found, hmem, hok (List.ne_nil_of_mem hmem),
    hsame _ (hwf.of_perm hperm) (Entry.sameTree_of_perm hwf hperm) rfl⟩

end SchemaLint.Files
