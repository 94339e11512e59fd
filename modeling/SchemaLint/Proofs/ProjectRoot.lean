import SchemaLint.Config.Resolve
import SchemaLint.Proofs.Ancestors

/-!
# The root of a project

The root is found by going up from a place, one directory after the other, until one holds a
marker. The way up ends at the root of the tree, and whether a directory holds a marker does
not depend on how its path is written; so the root is the deepest directory that does, among
all that are above the place.
-/

namespace SchemaLint

namespace Files

/-! ## Walks -/

section Walk

variable (fs : FileSystem) (links : Nat) (place : List String)

/-- One segment ends the walk, or leads on from another place. A link puts its segments in
front of the rest, and there is one link less to follow. -/
theorem walk_step (s : String) :
    (∃ e, ∀ rest, fs.walk true links place (s :: rest) = .error e) ∨
      ∃ links' place' front, (links' < links ∨ links' = links ∧ front = []) ∧
        ∀ rest, fs.walk true links place (s :: rest) =
          fs.walk true links' place' (front ++ rest) := by
  cases hplace : fs.root.get? place with
  | none => exact .inl ⟨.notFound, fun rest => by rw [FileSystem.walk, hplace]⟩
  | some here =>
    by_cases hdirectory : here.isDirectory = true
    case neg =>
      refine .inl ⟨.notADirectory, fun rest => ?_⟩
      simp [FileSystem.walk, hplace, hdirectory]
    by_cases hs : namesNothing s = true
    case pos =>
      refine .inr ⟨links, place, [], .inr ⟨rfl, rfl⟩, fun rest => ?_⟩
      simp [FileSystem.walk, hplace, hdirectory, hs]
    by_cases hup : (s == "..") = true
    case pos =>
      refine .inr ⟨links, place.dropLast, [], .inr ⟨rfl, rfl⟩, fun rest => ?_⟩
      simp [FileSystem.walk, hplace, hdirectory, hs, hup]
    by_cases hlong : FileSystem.nameLimit < s.utf8ByteSize
    case pos =>
      refine .inl ⟨.nameTooLong, fun rest => ?_⟩
      simp [FileSystem.walk, hplace, hdirectory, hs, hup, hlong]
    cases hchild : here.child? s with
    | none =>
      refine .inl ⟨.notFound, fun rest => ?_⟩
      simp [FileSystem.walk, hplace, hdirectory, hs, hup, hlong, hchild]
    | some child =>
      cases child with
      | link target =>
        cases links with
        | zero =>
          refine .inl ⟨.tooManyLinks, fun rest => ?_⟩
          simp [FileSystem.walk, hplace, hdirectory, hs, hup, hlong, hchild]
        | succ links =>
          refine .inr ⟨links, if isAbsolute target then [] else place, segments target,
            .inl (Nat.lt_succ_self links), fun rest => ?_⟩
          simp [FileSystem.walk, hplace, hdirectory, hs, hup, hlong, hchild]
      | file | directory =>
        refine .inr ⟨links, place ++ [s], [], .inr ⟨rfl, rfl⟩, fun rest => ?_⟩
        simp [FileSystem.walk, hplace, hdirectory, hs, hup, hlong, hchild]

variable {fs links place}

/-- A segment that names nothing makes no difference before another. -/
theorem walk_skip {s : String} (hs : namesNothing s = true) {rest : List String}
    (hne : rest ≠ []) :
    fs.walk true links place (s :: rest) = fs.walk true links place rest := by
  obtain ⟨t, rest, rfl⟩ := List.exists_cons_of_ne_nil hne
  cases hplace : fs.root.get? place with
  | none => simp [FileSystem.walk, hplace]
  | some here =>
    cases hdirectory : here.isDirectory with
    | false => simp [FileSystem.walk, hplace, hdirectory]
    | true =>
      rw [FileSystem.walk, hplace]
      simp [hdirectory, hs]

/-- Before a name only the parts of a path count. -/
theorem walk_parts {name : String} (segs : List String) :
    fs.walk true links place (segs ++ [name]) =
      fs.walk true links place (segs.filter (!namesNothing ·) ++ [name]) := by
  induction links using Nat.strongRecOn generalizing place segs with
  | ind links ihlinks =>
    induction segs generalizing place with
    | nil => rfl
    | cons s segs ih =>
      by_cases hs : namesNothing s = true
      · rw [List.cons_append, walk_skip hs (by simp), ih, List.filter_cons_of_neg (by simp [hs])]
      · rw [List.filter_cons_of_pos (by simp [hs]), List.cons_append, List.cons_append]
        obtain ⟨e, he⟩ | ⟨links', place', front, hless, hstep⟩ := walk_step fs links place s
        · rw [he, he]
        · rw [hstep, hstep]
          rcases hless with hless | ⟨rfl, rfl⟩
          · rw [← List.append_assoc, ← List.append_assoc, ihlinks links' hless,
              ihlinks links' hless (front ++ segs.filter _)]
            simp [List.filter_append]
          · exact ih

theorem IsEntryName.namesNothing_eq_false {name : String} (h : IsEntryName name) :
    namesNothing name = false := by
  rw [namesNothing, Bool.or_eq_false_iff, beq_eq_false_iff_ne, beq_eq_false_iff_ne]
  exact ⟨h.ne_empty, h.ne_here⟩

/-- Segments lead to one place, whatever follows them. -/
theorem walk_append (segs : List String) :
    (∃ e, ∀ rest, fs.walk true links place (segs ++ rest) = .error e) ∨
      ∃ links' place', ∀ rest, fs.walk true links place (segs ++ rest) =
        fs.walk true links' place' rest := by
  induction links using Nat.strongRecOn generalizing place segs with
  | ind links ihlinks =>
    induction segs generalizing place with
    | nil => exact .inr ⟨links, place, fun _ => rfl⟩
    | cons s segs ih =>
      simp only [List.cons_append]
      obtain ⟨e, he⟩ | ⟨links', place', front, hless, hstep⟩ := walk_step fs links place s
      · exact .inl ⟨e, fun rest => he _⟩
      · simp only [hstep]
        rcases hless with hless | ⟨rfl, rfl⟩
        · simp only [← List.append_assoc]
          exact ihlinks links' hless _
        · exact ih

/-- A walk that succeeds goes through the place to which its first segments lead. -/
theorem exists_walk_append {segs : List String} (rest : List String) {found : List String}
    (h : fs.walk true links place (segs ++ rest) = .ok found) :
    ∃ links' place', fs.walk true links place segs = .ok place' ∧
      ∀ rest, fs.walk true links place (segs ++ rest) = fs.walk true links' place' rest := by
  obtain ⟨e, he⟩ | ⟨links', place', hon⟩ := walk_append segs
  · rw [he] at h
    cases h
  · refine ⟨links', place', ?_, hon⟩
    rw [← List.append_nil segs, hon, FileSystem.walk]

section Name

variable {name : String} (hname : IsEntryName name) {children : List (String × Entry)}
  {entry : Entry}
include hname

theorem exists_directory_of_walk_name {found : List String}
    (h : fs.walk true links place [name] = .ok found) :
    ∃ children entry, fs.root.get? place = some (.directory children) ∧
      children.lookup name = some entry := by
  have hnames := hname.namesNothing_eq_false
  cases hplace : fs.root.get? place with
  | none => simp [FileSystem.walk, hplace] at h
  | some here =>
    cases here with
    | file | link => simp [FileSystem.walk, hplace, Entry.isDirectory] at h
    | directory children =>
      cases hchild : children.lookup name with
      | none =>
        by_cases hlong : FileSystem.nameLimit < name.utf8ByteSize <;>
          simp [FileSystem.walk, hplace, Entry.isDirectory, hnames, hname.ne_up,
            Entry.child?_directory, hchild, hlong] at h
      | some entry => exact ⟨children, entry, rfl, hchild⟩

theorem walk_name (hplace : fs.root.get? place = some (.directory children))
    (hentry : children.lookup name = some entry) (hlink : ∀ target, entry ≠ .link target)
    (hshort : name.utf8ByteSize ≤ FileSystem.nameLimit) :
    fs.walk true links place [name] = .ok (place ++ [name]) := by
  have hnames := hname.namesNothing_eq_false
  have hchild : (Entry.directory children).child? name = some entry := hentry
  cases entry with
  | link target => exact absurd rfl (hlink target)
  | file | directory =>
    simp [FileSystem.walk, hplace, Entry.isDirectory, hnames, hname.ne_up, Nat.not_lt.mpr hshort,
      hchild]

end Name

end Walk

/-! ## Paths of entries -/

/-- A text that can be asked for as a path. -/
structure IsPathText (path : String) : Prop where
  no_null : '\x00' ∉ path.toList
  ne_empty : path ≠ ""
  short : path.utf8ByteSize ≤ FileSystem.pathLimit

theorem locate_eq_ok_iff {fs : FileSystem} {path : String} (h : isAbsolute path = true)
    {place : List String} :
    fs.locate true path = .ok place ↔
      IsPathText path ∧ fs.walk true FileSystem.linkLimit [] (segments path) = .ok place := by
  rw [FileSystem.locate, if_pos h]
  by_cases hnull : path.toList.contains '\x00' = true
  · rw [if_pos hnull]
    refine iff_of_false (by simp) fun hpath => hpath.1.no_null (List.contains_iff_mem.mp hnull)
  · rw [if_neg hnull]
    by_cases hempty : path.isEmpty = true
    · rw [if_pos hempty]
      refine iff_of_false (by simp) fun hpath => hpath.1.ne_empty (String.isEmpty_iff.mp hempty)
    · rw [if_neg hempty]
      by_cases hlong : FileSystem.pathLimit < path.utf8ByteSize
      · rw [if_pos hlong]
        refine iff_of_false (by simp) fun hpath => Nat.not_le.mpr hlong hpath.1.short
      · rw [if_neg hlong]
        refine (and_iff_right ⟨?_, ?_, Nat.not_lt.mp hlong⟩).symm
        · simpa using hnull
        · simpa using hempty

theorem IsPathText.of_append {path rest : String} (h : IsPathText (path ++ rest))
    (hne : path ≠ "") : IsPathText path := by
  refine ⟨fun hnull => h.no_null ?_, hne, ?_⟩
  · rw [String.toList_append]
    exact List.mem_append_left _ hnull
  · have hshort := h.short
    rw [String.utf8ByteSize_append] at hshort
    omega

theorem ne_empty_of_isAbsolute {path : String} (h : isAbsolute path = true) : path ≠ "" := by
  rintro rfl
  cases h

theorem isAbsolute_append {path : String} (h : isAbsolute path = true) (rest : String) :
    isAbsolute (path ++ rest) = true := by
  rw [isAbsolute, beq_iff_eq] at h ⊢
  rw [String.toList_append, List.head?_append, h, Option.some_or]

section Join

variable {dir name : String} (hdir : isAbsolute dir = true) (hname : IsEntryName name)
include hdir hname

theorem join_cases :
    join dir name = dir ++ ("/" ++ name) ∨
      ∃ front, dir = front ++ "/" ∧ join dir name = dir ++ name := by
  rw [join, hname.isAbsolute_eq_false, Bool.false_or,
    if_neg (by simpa using ne_empty_of_isAbsolute hdir)]
  split
  · next hlast =>
    obtain ⟨front, hfront⟩ := List.getLast?_eq_some_iff.mp (beq_iff_eq.mp hlast)
    refine .inr ⟨.ofList front, String.toList_inj.mp ?_, rfl⟩
    rw [String.toList_append, String.toList_ofList, hfront]
    rfl
  · exact .inl (String.append_assoc ..)

theorem join_eq_append : ∃ gap, (gap = "" ∨ gap = "/") ∧ join dir name = dir ++ (gap ++ name) := by
  rcases join_cases hdir hname with hjoin | ⟨front, -, hjoin⟩
  · exact ⟨"/", .inr rfl, hjoin⟩
  · exact ⟨"", .inl rfl, by rw [String.empty_append, hjoin]⟩

theorem segments_join : ∃ front, segments (join dir name) = front ++ [name] := by
  obtain ⟨front, hfront⟩ : ∃ front, join dir name = front ++ ("/" ++ name) := by
    rcases join_cases hdir hname with hjoin | ⟨front, rfl, hjoin⟩
    · exact ⟨dir, hjoin⟩
    · exact ⟨front, by rw [hjoin, String.append_assoc]⟩
  refine ⟨segments front, ?_⟩
  have hlist : (front ++ ("/" ++ name)).toList = front.toList ++ '/' :: name.toList := by
    rw [String.toList_append, String.toList_append]
    rfl
  rw [hfront, segments, hlist, splitSlash_append, splitSlash_of_not_mem hname.no_slash,
    List.map_append, List.map_singleton, String.ofList_toList, segments]

/-- A walk to an entry goes through the parts of the path of its directory. -/
theorem walk_join (fs : FileSystem) (links : Nat) (place : List String) :
    fs.walk true links place (segments (join dir name)) =
      fs.walk true links place (components dir ++ [name]) := by
  obtain ⟨front, hfront⟩ := segments_join hdir hname
  have hparts : front.filter (!namesNothing ·) = components dir := by
    have hjoin := components_join dir hname
    rw [components, hfront, List.filter_append, List.filter_cons_of_pos
      (by simp [hname.namesNothing_eq_false]), List.filter_nil] at hjoin
    exact List.append_cancel_right hjoin
  rw [hfront, walk_parts, hparts]

theorem isPathText_join_of_append {rest : String} (h : IsPathText (join (dir ++ rest) name)) :
    IsPathText (join dir name) := by
  by_cases hrest : rest = ""
  · rwa [hrest, String.append_empty] at h
  · have hpos : rest.utf8ByteSize ≠ 0 := by simpa using hrest
    obtain ⟨gap, -, hlonger⟩ := join_eq_append (isAbsolute_append hdir rest) hname
    obtain ⟨gap', hgap, hjoin⟩ := join_eq_append hdir hname
    have hone : gap'.utf8ByteSize ≤ 1 := by rcases hgap with rfl | rfl <;> decide
    have hslash : '\x00' ∉ gap'.toList := by rcases hgap with rfl | rfl <;> decide
    have hnull := h.no_null
    have hshort := h.short
    rw [hlonger] at hnull hshort
    simp only [String.toList_append, List.mem_append, not_or] at hnull
    simp only [String.utf8ByteSize_append] at hshort
    rw [hjoin]
    refine ⟨?_, ?_, ?_⟩
    · simp only [String.toList_append, List.mem_append, not_or]
      exact ⟨hnull.1.1, hslash, hnull.2.2⟩
    · exact ne_empty_of_isAbsolute (isAbsolute_append hdir _)
    · simp only [String.utf8ByteSize_append]
      omega

theorem isAbsolute_join : isAbsolute (join dir name) = true := by
  obtain ⟨gap, -, hjoin⟩ := join_eq_append hdir hname
  rw [hjoin]
  exact isAbsolute_append hdir _

end Join

/-! ## Entries of a directory -/

/-- A directory holds an entry of a name. A link stands for what it leads to, so there has to
be something there. -/
structure HoldsEntry (fs : FileSystem) (dir name : String) : Prop where
  listed : ∃ children entry, fs.entry true dir = .ok (.directory children) ∧
    children.lookup name = some entry
  leads : fs.holds (join dir name) = true

section Entries

variable {fs : FileSystem} {dir name : String} (hdir : isAbsolute dir = true)
  (hname : IsEntryName name)
include hdir hname

/-- Apart from the length of the path, only its parts count. -/
theorem holds_join_iff :
    fs.holds (join dir name) = true ↔ IsPathText (join dir name) ∧ ∃ place entry,
      fs.walk true FileSystem.linkLimit [] (components dir ++ [name]) = .ok place ∧
        fs.root.get? place = some entry := by
  have hholds : fs.holds (join dir name) = true ↔
      ∃ entry, fs.entry true (join dir name) = .ok entry := by
    rw [FileSystem.holds]
    cases fs.entry true (join dir name) <;> simp [Except.isOk, Except.toBool]
  simp only [hholds, entry_eq_ok_iff, locate_eq_ok_iff (isAbsolute_join hdir hname),
    walk_join hdir hname]
  constructor
  · rintro ⟨entry, place, ⟨hpath, hwalk⟩, hget⟩
    exact ⟨hpath, place, entry, hwalk, hget⟩
  · rintro ⟨hpath, place, entry, hwalk, hget⟩
    exact ⟨entry, place, ⟨hpath, hwalk⟩, hget⟩

theorem holdsEntry_iff : HoldsEntry fs dir name ↔ fs.holds (join dir name) = true := by
  refine ⟨HoldsEntry.leads, fun h => ⟨?_, h⟩⟩
  obtain ⟨hpath, place, -, hwalk, -⟩ := (holds_join_iff hdir hname).mp h
  obtain ⟨gap, -, hjoin⟩ := join_eq_append hdir hname
  rw [components, ← walk_parts] at hwalk
  obtain ⟨links, above, habove, hon⟩ := exists_walk_append [name] hwalk
  rw [hon] at hwalk
  obtain ⟨children, entry, hget, hlookup⟩ := exists_directory_of_walk_name hname hwalk
  refine ⟨children, entry, entry_eq_ok_iff.mpr ⟨above, ?_, hget⟩, hlookup⟩
  exact (locate_eq_ok_iff hdir).mpr
    ⟨(hjoin ▸ hpath).of_append (ne_empty_of_isAbsolute hdir), habove⟩

/-- Files and directories are held by the directory that has them in it, if the path to them
can be asked for. -/
theorem HoldsEntry.of_listed {children : List (String × Entry)} {entry : Entry}
    (hentry : fs.entry true dir = .ok (.directory children))
    (hlisted : children.lookup name = some entry) (hlink : ∀ target, entry ≠ .link target)
    (hshort : name.utf8ByteSize ≤ FileSystem.nameLimit) (hpath : IsPathText (join dir name)) :
    HoldsEntry fs dir name := by
  obtain ⟨place, hplace, hget⟩ := entry_eq_ok_iff.mp hentry
  have hwalk := ((locate_eq_ok_iff hdir).mp hplace).2
  rw [holdsEntry_iff hdir hname, holds_join_iff hdir hname, components, ← walk_parts]
  refine ⟨hpath, place ++ [name], entry, ?_, ?_⟩
  · obtain ⟨links, above, habove, hon⟩ := exists_walk_append [] (by rwa [List.append_nil])
    obtain rfl := Except.ok.inj (habove.symm.trans hwalk)
    rw [hon, walk_name hname hget hlisted hlink hshort]
  · rw [Entry.get?_append, hget, Option.bind_some, Entry.get?, Entry.child?_directory, hlisted]
    rfl

/-- A path that names the same parts and is no longer leads to the same entries. -/
theorem HoldsEntry.of_append {rest : String} (hparts : components dir = components (dir ++ rest))
    (h : HoldsEntry fs (dir ++ rest) name) : HoldsEntry fs dir name := by
  rw [holdsEntry_iff hdir hname, holds_join_iff hdir hname, hparts]
  obtain ⟨hpath, hwalk⟩ := (holds_join_iff (isAbsolute_append hdir rest) hname).mp h.leads
  exact ⟨isPathText_join_of_append hdir hname hpath, hwalk⟩

end Entries

end Files

open Files

/-! ## The way up -/

/-- A directory that can be the root of a project. -/
def Marked (fs : FileSystem) (dir : String) : Prop :=
  HoldsEntry fs dir ".git" ∨ HoldsEntry fs dir ".graphql-linter.yml"

theorem isEntryName_git : IsEntryName ".git" := by decide

theorem isEntryName_config : IsEntryName ".graphql-linter.yml" := by decide

theorem holdsMarker_iff {fs : FileSystem} {dir : String} (h : isAbsolute dir = true) :
    holdsMarker fs dir = true ↔ Marked fs dir := by
  rw [Marked, holdsEntry_iff h isEntryName_git, holdsEntry_iff h isEntryName_config, holdsMarker,
    rootMarkers, configFileName, List.any_cons, List.any_cons, List.any_nil, Bool.or_false,
    Bool.or_eq_true]

theorem Marked.of_append {fs : FileSystem} {dir rest : String} (hdir : isAbsolute dir = true)
    (hparts : components dir = components (dir ++ rest)) (h : Marked fs (dir ++ rest)) :
    Marked fs dir :=
  h.imp (.of_append hdir isEntryName_git hparts) (.of_append hdir isEntryName_config hparts)

/-- The way up from a place, in at most so many steps: each looks at a directory and goes on
to the one above, and at the end of the way it is the start that counts. -/
def climb (fs : FileSystem) (start : String) : Nat → String → Option String
  | 0, _ => none
  | steps + 1, current =>
      if holdsMarker fs current then some current
      else
        match parent? current with
        | some up => climb fs start steps up
        | none => some start

theorem climb_eq (fs : FileSystem) (start : String) {steps : Nat} {current : String}
    (h : isAbsolute current = true) (hsteps : (selfAndAncestors current).length ≤ steps) :
    climb fs start steps current =
      some (((selfAndAncestors current).find? (holdsMarker fs)).getD start) := by
  induction steps generalizing current with
  | zero => simp [selfAndAncestors] at hsteps
  | succ steps ih =>
    rw [climb]
    split
    · next hmarker =>
      rw [selfAndAncestors, List.find?_cons_of_pos hmarker, Option.getD_some]
    · next hmarker =>
      split
      · next up hparent =>
        obtain ⟨hup, hself⟩ := selfAndAncestors_of_parent?_eq_some h hparent
        rw [hself, List.length_cons] at hsteps
        rw [hself, List.find?_cons_of_neg hmarker, ih hup (Nat.le_of_succ_le_succ hsteps)]
      · next hparent =>
        rw [selfAndAncestors_of_parent?_eq_none h hparent, List.find?_cons_of_neg hmarker,
          List.find?_nil, Option.getD_none]

/-- The root of the project around a place. -/
structure IsProjectRoot (fs : FileSystem) (start root : String) : Prop where
  /-- There are no more steps on the way up than the path has parts, and one at the start. -/
  climbed : climb fs start ((components start).length + 1) start = some root
  above : IsAncestorOrSelf root start
  /-- No deeper directory above the start has a marker than the root. -/
  deepest : ∀ dir, IsAncestorOrSelf dir start → Marked fs dir →
    Marked fs root ∧ components dir <+: components root
  fallback : (∀ dir, IsAncestorOrSelf dir start → ¬ Marked fs dir) → root = start
  /-- The root of the project around the root is the root. -/
  stable : projectRoot fs root = root

theorem isAbsolute_of_mem_selfAndAncestors {path up : String} (h : isAbsolute path = true)
    (hup : up ∈ selfAndAncestors path) : isAbsolute up = true := by
  rcases isAncestorOrSelf_of_mem h hup with rfl | hup
  · exact h
  · exact hup.absolute

/-- Where a directory above has a marker, one that is met on the way up has it too. -/
theorem exists_mem_marked {fs : FileSystem} {start dir : String} (h : isAbsolute start = true)
    (hdir : IsAncestorOrSelf dir start) (hmarked : Marked fs dir) :
    ∃ up ∈ selfAndAncestors start, holdsMarker fs up = true ∧ components up = components dir := by
  rcases hdir with rfl | hdir
  · exact ⟨dir, List.mem_cons_self, (holdsMarker_iff h).mpr hmarked, rfl⟩
  · obtain ⟨up, hmem, hup, hparts, rest, rfl⟩ := exists_mem_of_isAncestor h hdir
    exact ⟨up, hmem, (holdsMarker_iff hup).mpr (hmarked.of_append hup hparts), hparts⟩

/-- From every place the way up comes to an end, and it leads to the deepest directory with a
marker, or back to the start. -/
theorem projectRoot_deepest (fs : FileSystem) {start : String} (h : isAbsolute start = true) :
    IsProjectRoot fs start (projectRoot fs start) := by
  have hclimb := climb_eq fs start h (Nat.le_of_eq (length_selfAndAncestors h))
  cases hfind : (selfAndAncestors start).find? (holdsMarker fs) with
  | none =>
    have hroot : projectRoot fs start = start := by rw [projectRoot, hfind, Option.getD_none]
    rw [hroot]
    refine ⟨?_, .inl rfl, fun dir hdir hmarked => ?_, fun _ => rfl, hroot⟩
    · rw [hclimb, hfind, Option.getD_none]
    · obtain ⟨up, hmem, hmarker, -⟩ := exists_mem_marked h hdir hmarked
      exact absurd hmarker (List.find?_eq_none.mp hfind up hmem)
  | some root =>
    have hroot : projectRoot fs start = root := by rw [projectRoot, hfind, Option.getD_some]
    obtain ⟨hmarker, before, after, hsplit, hbefore⟩ := List.find?_eq_some_iff_append.mp hfind
    have hmem : root ∈ selfAndAncestors start := List.mem_of_find?_eq_some hfind
    have hmarked : Marked fs root :=
      (holdsMarker_iff (isAbsolute_of_mem_selfAndAncestors h hmem)).mp hmarker
    rw [hroot]
    refine ⟨?_, isAncestorOrSelf_of_mem h hmem, fun dir hdir hdirMarked => ⟨hmarked, ?_⟩,
      fun hnone => absurd hmarked (hnone root (isAncestorOrSelf_of_mem h hmem)), ?_⟩
    · rw [hclimb, hfind, Option.getD_some]
    · obtain ⟨up, hup, hupMarker, hparts⟩ := exists_mem_marked h hdir hdirMarked
      have horder := selfAndAncestors_pairwise h
      rw [hsplit] at hup horder
      rw [← hparts]
      rcases List.mem_append.mp hup with hup | hup
      · -- Nothing before the root has a marker.
        have hnot := hbefore up hup
        rw [hupMarker] at hnot
        cases hnot
      · rcases List.mem_cons.mp hup with rfl | hup
        · exact List.prefix_rfl
        · exact List.rel_of_pairwise_cons (List.pairwise_append.mp horder).2.1 hup
    · rw [projectRoot, selfAndAncestors, List.find?_cons_of_pos hmarker, Option.getD_some]

/-- A shop with a configuration, in a repository, with a link that leads nowhere. -/
def shopTree : FileSystem where
  root := .directory [(".git", .directory []), ("shop", .directory
    [(".graphql-linter.yml", .file .empty), ("schemas", .directory [(".git", .link "lost")])])]
  workingDirectory := []

theorem marked_shop : Marked shopTree "/shop" := by
  have hsegments : segments "/shop" = ["", "shop"] := by decide
  have hwalk : shopTree.walk true FileSystem.linkLimit [] (segments "/shop") = .ok ["shop"] := by
    rw [hsegments, walk_skip (by decide) (by simp)]
    exact walk_name (by decide) rfl rfl (by simp) (by decide)
  have hlocate : shopTree.locate true "/shop" = .ok ["shop"] :=
    (locate_eq_ok_iff (by decide)).mpr ⟨⟨by decide, by decide, by decide⟩, hwalk⟩
  refine .inr (.of_listed (by decide) isEntryName_config (entry_eq_ok_iff.mpr ⟨_, hlocate, rfl⟩)
    rfl (by simp) (by decide) ?_)
  exact ⟨by decide, by decide, by decide⟩

/-- The link in the directory is no marker. -/
theorem not_marked_schemas : ¬ Marked shopTree "/shop//schemas" := by
  have hparts : components "/shop//schemas" = ["shop", "schemas"] := by decide
  have hlost : segments "lost" = ["lost"] := by decide
  rintro (h | h)
  · obtain ⟨-, place, entry, hwalk, -⟩ := (holds_join_iff (by decide) isEntryName_git).mp h.leads
    rw [hparts] at hwalk
    simp +decide [FileSystem.walk, shopTree, Entry.get?, Entry.child?, Entry.children?,
      List.lookup_cons, FileSystem.linkLimit, hlost] at hwalk
  · obtain ⟨-, place, entry, hwalk, -⟩ :=
      (holds_join_iff (by decide) isEntryName_config).mp h.leads
    rw [hparts] at hwalk
    simp +decide [FileSystem.walk, shopTree, Entry.get?, Entry.child?, Entry.children?,
      List.lookup_cons, FileSystem.linkLimit] at hwalk

theorem projectRoot_deepest_shopTree :
    isAbsolute "/shop//schemas" = true ∧ projectRoot shopTree "/shop//schemas" = "/shop" ∧
      IsProjectRoot shopTree "/shop//schemas" "/shop" := by
  have hup : selfAndAncestors "/shop//schemas" = ["/shop//schemas", "/shop", "/"] := by
    decide +kernel
  have hstart : ¬ holdsMarker shopTree "/shop//schemas" = true := fun h =>
    not_marked_schemas ((holdsMarker_iff (by decide)).mp h)
  have hshop : holdsMarker shopTree "/shop" = true :=
    (holdsMarker_iff (by decide)).mpr marked_shop
  have hroot : projectRoot shopTree "/shop//schemas" = "/shop" := by
    rw [projectRoot, hup, List.find?_cons_of_neg hstart, List.find?_cons_of_pos hshop,
      Option.getD_some]
  exact ⟨by decide, hroot, hroot ▸ projectRoot_deepest shopTree (by decide)⟩

end SchemaLint
