import SchemaLint.Proofs.Discovery

/-!
# The paths above a path

A path from the root leads through the directories above it, each of which is the path with
parts cut off at its end. Empty segments and single dots go with the part behind them, so a
path with `n` parts has `n` paths above it, however it is written.
-/

namespace SchemaLint.Files

/-! ## Segments -/

theorem not_mem_of_mem_splitSlash {cs p : List Char} (h : p ∈ splitSlash cs) : '/' ∉ p := by
  induction cs generalizing p with
  | nil =>
    rw [splitSlash, List.mem_singleton] at h
    simp [h]
  | cons c cs ih =>
    rw [splitSlash] at h
    split at h
    · rcases List.mem_cons.mp h with rfl | h
      · simp
      · exact ih h
    · next hc =>
      cases hcs : splitSlash cs with
      | nil => exact absurd hcs (splitSlash_ne_nil cs)
      | cons q qs =>
        rw [hcs, List.forall_mem_cons] at ih
        rw [hcs] at h
        rcases List.mem_cons.mp h with rfl | h
        · simpa [Ne.symm hc] using ih.1
        · exact ih.2 p h

theorem splitSlash_intercalate {ps : List (List Char)} (hne : ps ≠ []) (h : ∀ p ∈ ps, '/' ∉ p) :
    splitSlash (List.intercalate ['/'] ps) = ps := by
  induction ps with
  | nil => exact absurd rfl hne
  | cons p ps ih =>
    rw [List.forall_mem_cons] at h
    cases ps with
    | nil => rw [List.intercalate_singleton, splitSlash_of_not_mem h.1]
    | cons q ps =>
      rw [List.intercalate_cons_cons, List.append_assoc, List.singleton_append, splitSlash_append,
        splitSlash_of_not_mem h.1, ih (List.cons_ne_nil q ps) h.2, List.singleton_append]

theorem intercalate_splitSlash (cs : List Char) : List.intercalate ['/'] (splitSlash cs) = cs := by
  induction cs with
  | nil => rfl
  | cons c cs ih =>
    obtain ⟨p, ps, hcs⟩ := List.exists_cons_of_ne_nil (splitSlash_ne_nil cs)
    rw [hcs] at ih
    by_cases hc : c = '/'
    · rw [splitSlash, if_pos hc, hcs, List.intercalate_cons_cons, ih, hc]
      rfl
    · rw [splitSlash, if_neg hc, hcs]
      cases ps with
      | nil => simpa using ih
      | cons q ps => simpa [List.intercalate_cons_cons] using ih

/-- A text cut short is cut inside one of its segments. -/
theorem splitSlash_cut (a b : List Char) : ∃ front cut tail back,
    splitSlash a = front ++ [cut] ∧ splitSlash (a ++ b) = front ++ (cut ++ tail) :: back := by
  induction a with
  | nil =>
    obtain ⟨p, ps, hb⟩ := List.exists_cons_of_ne_nil (splitSlash_ne_nil b)
    exact ⟨[], [], p, ps, rfl, hb⟩
  | cons c a ih =>
    obtain ⟨front, cut, tail, back, ha, hab⟩ := ih
    by_cases hc : c = '/'
    · exact ⟨[] :: front, cut, tail, back, by simp [splitSlash, hc, ha],
        by simp [splitSlash, hc, hab]⟩
    · cases front with
      | nil =>
        exact ⟨[], c :: cut, tail, back, by simp [splitSlash, hc, ha],
          by simp [splitSlash, hc, hab]⟩
      | cons f front =>
        exact ⟨(c :: f) :: front, cut, tail, back, by simp [splitSlash, hc, ha],
          by simp [splitSlash, hc, hab]⟩

theorem segments_cut (up rest : String) : ∃ front cut tail back,
    segments up = front ++ [cut] ∧ segments (up ++ rest) = front ++ (cut ++ tail) :: back := by
  obtain ⟨front, cut, tail, back, hup, hpath⟩ := splitSlash_cut up.toList rest.toList
  refine ⟨front.map String.ofList, .ofList cut, .ofList tail, back.map String.ofList, ?_, ?_⟩
  · rw [segments, hup, List.map_append, List.map_singleton]
  · rw [segments, String.toList_append, hpath, List.map_append, List.map_cons, String.ofList_append]

/-- What names something still does so when it is longer. -/
theorem namesNothing_append {cut : String} (h : namesNothing cut = false) (tail : String) :
    namesNothing (cut ++ tail) = false := by
  rw [namesNothing, Bool.or_eq_false_iff, beq_eq_false_iff_ne, beq_eq_false_iff_ne] at h ⊢
  refine ⟨fun hempty => h.1 (String.append_eq_empty_iff.mp hempty).1, fun hdot => ?_⟩
  have hlist : cut.toList ++ tail.toList = ['.'] := by rw [← String.toList_append, hdot]; rfl
  rcases List.append_eq_singleton_iff.mp hlist with ⟨hcut, -⟩ | ⟨hcut, -⟩
  · exact h.1 (String.toList_eq_nil_iff.mp hcut)
  · exact h.2 (String.toList_inj.mp hcut)

/-- The path from the root through segments. -/
def rooted (segs : List String) : String := "/" ++ "/".intercalate segs

theorem isAbsolute_rooted (segs : List String) : isAbsolute (rooted segs) = true := by
  rw [isAbsolute, rooted, String.toList_append]
  rfl

theorem rooted_append (a b : List String) : ∃ rest, rooted (a ++ b) = rooted a ++ rest := by
  by_cases ha : a = []
  · exact ⟨"/".intercalate b, by rw [ha, rooted, rooted, String.intercalate_nil]; simp⟩
  · by_cases hb : b = []
    · exact ⟨"", by rw [hb, List.append_nil, String.append_empty]⟩
    · refine ⟨"/" ++ "/".intercalate b, ?_⟩
      simp only [rooted, String.intercalate_append_of_ne_nil ha hb, String.append_assoc]

theorem segments_rooted {segs : List String} (hne : segs ≠ [])
    (h : ∀ s ∈ segs, '/' ∉ s.toList) : segments (rooted segs) = "" :: segs := by
  have hsplit : splitSlash (List.intercalate ['/'] (segs.map String.toList)) =
      segs.map String.toList := by
    refine splitSlash_intercalate (by simpa using hne) fun p hp => ?_
    obtain ⟨s, hs, rfl⟩ := List.mem_map.mp hp
    exact h s hs
  have hlist : (rooted segs).toList = '/' :: List.intercalate ['/'] (segs.map String.toList) := by
    rw [rooted, String.toList_append, String.toList_intercalate]
    rfl
  rw [segments, hlist, splitSlash, if_pos rfl, hsplit, List.map_cons, List.map_map]
  simp [Function.comp_def]

/-- A path from the root goes through its segments. -/
theorem exists_rooted {path : String} (h : isAbsolute path = true) :
    ∃ segs, segs ≠ [] ∧ (∀ s ∈ segs, '/' ∉ s.toList) ∧ segments path = "" :: segs ∧
      path = rooted segs := by
  rw [isAbsolute, beq_iff_eq, List.head?_eq_some_iff] at h
  obtain ⟨cs, hcs⟩ := h
  refine ⟨(splitSlash cs).map String.ofList, by simpa using splitSlash_ne_nil cs, ?_, ?_, ?_⟩
  · intro s hs
    obtain ⟨p, hp, rfl⟩ := List.mem_map.mp hs
    rw [String.toList_ofList]
    exact not_mem_of_mem_splitSlash hp
  · rw [segments, hcs, splitSlash, if_pos rfl, List.map_cons, String.ofList_nil]
  · apply String.toList_inj.mp
    rw [rooted, String.toList_append, String.toList_intercalate, List.map_map, hcs]
    simpa [Function.comp_def] using (intercalate_splitSlash cs).symm

theorem components_rooted {segs : List String} (h : ∀ s ∈ segs, '/' ∉ s.toList) :
    components (rooted segs) = segs.filter (!namesNothing ·) := by
  by_cases hne : segs = []
  · rw [hne]
    decide
  · rw [components, segments_rooted hne h]
    rfl

/-! ## Going up -/

/-- One path is above another, from the root on: it is what is left of the other when some
of its parts are cut off at the end. -/
structure IsAncestor (up path : String) : Prop where
  absolute : isAbsolute up = true
  text : ∃ rest, path = up ++ rest
  parts : components up <+: components path
  proper : components up ≠ components path

def IsAncestorOrSelf (up path : String) : Prop := up = path ∨ IsAncestor up path

theorem above_suffix {segs up : List String} (h : up ∈ above segs) : up <:+ segs := by
  induction segs with
  | nil => cases h
  | cons s segs ih =>
    rw [above] at h
    split at h
    · exact (ih h).trans (List.suffix_cons s segs)
    · rcases List.mem_cons.mp h with rfl | h
      · exact (List.dropWhile_suffix _).trans (List.suffix_cons s segs)
      · exact (ih h).trans (List.suffix_cons s segs)

/-- Segments that name nothing are no parts. -/
theorem filter_dropWhile_namesNothing (segs : List String) :
    (segs.dropWhile namesNothing).filter (!namesNothing ·) = segs.filter (!namesNothing ·) := by
  induction segs with
  | nil => rfl
  | cons s segs ih =>
    by_cases hs : namesNothing s = true
    · rw [List.dropWhile_cons_of_pos hs, ih, List.filter_cons_of_neg (by simp [hs])]
    · rw [List.dropWhile_cons_of_neg hs]

theorem exists_part_of_filter_ne_nil {segs : List String}
    (h : segs.filter (!namesNothing ·) ≠ []) : ∃ s ∈ segs, namesNothing s = false := by
  obtain ⟨s, hs⟩ := List.exists_mem_of_ne_nil _ h
  obtain ⟨hmem, hnames⟩ := List.mem_filter.mp hs
  exact ⟨s, hmem, by simpa using hnames⟩

theorem length_above (segs : List String) :
    (above segs).length = (segs.filter (!namesNothing ·)).length := by
  induction segs with
  | nil => rfl
  | cons s segs ih =>
    by_cases hs : namesNothing s = true
    · rw [above, if_pos hs, ih, List.filter_cons_of_neg (by simp [hs])]
    · rw [above, if_neg hs, List.length_cons, ih, List.filter_cons_of_pos (by simp [hs]),
        List.length_cons]

/-- What is above is shorter by a part. -/
theorem length_filter_lt_of_mem_above {segs up : List String} (h : up ∈ above segs) :
    (up.filter (!namesNothing ·)).length < (segs.filter (!namesNothing ·)).length := by
  induction segs with
  | nil => cases h
  | cons s segs ih =>
    rw [above] at h
    split at h
    · next hs =>
      rw [List.filter_cons_of_neg (by simp [hs])]
      exact ih h
    · next hs =>
      rw [List.filter_cons_of_pos (by simp [hs]), List.length_cons]
      rcases List.mem_cons.mp h with rfl | h
      · rw [filter_dropWhile_namesNothing]
        exact Nat.lt_succ_self _
      · exact Nat.lt_succ_of_lt (ih h)

/-- Nearer paths have the parts of farther ones. -/
theorem above_pairwise (segs : List String) :
    (above segs).Pairwise fun near far =>
      far.filter (!namesNothing ·) <:+ near.filter (!namesNothing ·) := by
  induction segs with
  | nil => exact .nil
  | cons s segs ih =>
    rw [above]
    split
    · exact ih
    · refine .cons (fun far hfar => ?_) ih
      rw [filter_dropWhile_namesNothing]
      exact (above_suffix hfar).filter _

/-- Wherever a part follows, what is before it is met on the way up. -/
theorem mem_above_of_append {later kept : List String} (h : ∃ s ∈ later, namesNothing s = false) :
    kept.dropWhile namesNothing ∈ above (later ++ kept) := by
  induction later with
  | nil => simp at h
  | cons s later ih =>
    rw [List.cons_append, above]
    split
    · next hs => exact ih (by simpa [hs] using h)
    · by_cases hlater : ∃ s ∈ later, namesNothing s = false
      · exact List.mem_cons_of_mem _ (ih hlater)
      · have hnothing : ∀ s ∈ later, namesNothing s = true := by simpa using hlater
        rw [List.dropWhile_append_of_pos hnothing]
        exact List.mem_cons_self

theorem exists_mem_above_of_append (kept : List String) {later : List String}
    (h : ∃ s ∈ later, namesNothing s = false) :
    ∃ up ∈ above (kept ++ later).reverse,
      up.reverse.filter (!namesNothing ·) = kept.filter (!namesNothing ·) ∧
        up.reverse <+: kept := by
  refine ⟨kept.reverse.dropWhile namesNothing, ?_, ?_, ?_⟩
  · rw [List.reverse_append]
    exact mem_above_of_append (by simpa using h)
  · rw [List.filter_reverse, filter_dropWhile_namesNothing, ← List.filter_reverse,
      List.reverse_reverse]
  · rw [← List.reverse_suffix, List.reverse_reverse]
    exact List.dropWhile_suffix _

section Rooted

variable {segs : List String} (hslash : ∀ s ∈ segs, '/' ∉ s.toList)
include hslash

theorem selfAndAncestors_rooted (hne : segs ≠ []) :
    selfAndAncestors (rooted segs) =
      rooted segs :: (above segs.reverse).map fun up => rooted up.reverse := by
  rw [selfAndAncestors, segments_rooted hne hslash]
  rfl

theorem components_above {up : List String} (h : up ∈ above segs.reverse) :
    components (rooted up.reverse) = up.reverse.filter (!namesNothing ·) := by
  refine components_rooted fun s hs => hslash s ?_
  exact List.mem_reverse.mp ((above_suffix h).subset (List.mem_reverse.mp hs))

theorem isAncestor_of_mem_above {up : List String} (h : up ∈ above segs.reverse) :
    IsAncestor (rooted up.reverse) (rooted segs) := by
  obtain ⟨later, hlater⟩ := above_suffix h
  have hsegs : segs = up.reverse ++ later.reverse := by
    rw [← List.reverse_append, hlater, List.reverse_reverse]
  refine ⟨isAbsolute_rooted _, ?_, ?_, fun heq => ?_⟩
  · rw [hsegs]
    exact rooted_append _ _
  · rw [components_above hslash h, components_rooted hslash, hsegs, List.filter_append]
    exact List.prefix_append _ _
  · have hlt := length_filter_lt_of_mem_above h
    rw [components_above hslash h, components_rooted hslash, List.filter_reverse] at heq
    have hlength := congrArg List.length heq
    rw [List.filter_reverse, List.length_reverse] at hlt
    rw [List.length_reverse] at hlength
    omega

/-- A path above ends at one of the segments, with at least one part behind it. -/
theorem exists_cut_of_isAncestor (hne : segs ≠ []) {dir : String}
    (h : IsAncestor dir (rooted segs)) :
    ∃ kept later, segs = kept ++ later ∧ (∃ s ∈ later, namesNothing s = false) ∧
      components dir = kept.filter (!namesNothing ·) ∧ ∃ rest, dir = rooted (kept ++ rest) := by
  obtain ⟨rest, hrest⟩ := h.text
  obtain ⟨front, cut, tail, back, hdir, hpath⟩ := segments_cut dir rest
  obtain ⟨own, hown, -, hsegments, hrooted⟩ := exists_rooted h.absolute
  rw [← hrest, segments_rooted hne hslash] at hpath
  rw [hsegments] at hdir
  -- Both begin with the empty segment before the first slash.
  obtain ⟨front, rfl, rfl⟩ : ∃ front', front = "" :: front' ∧ own = front' ++ [cut] := by
    cases front with
    | nil => exact absurd (List.cons.inj hdir).2 hown
    | cons f front =>
      obtain ⟨rfl, hrest⟩ := List.cons.inj hdir
      exact ⟨front, rfl, hrest⟩
  obtain rfl : segs = front ++ (cut ++ tail) :: back := (List.cons.inj hpath).2
  have hcomponents : components dir = (front ++ [cut]).filter (!namesNothing ·) := by
    rw [components, hsegments]
    rfl
  have hparts := h.parts
  have hproper := h.proper
  rw [components_rooted hslash, hcomponents, List.filter_append, List.filter_append]
    at hparts hproper
  by_cases hcut : namesNothing cut = true
  · -- The cut is inside what names nothing, or right before a name.
    have hnone : [cut].filter (!namesNothing ·) = [] := by simp [hcut]
    rw [hnone] at hproper
    refine ⟨front, (cut ++ tail) :: back, rfl, ?_, ?_, [cut], hrooted⟩
    · exact exists_part_of_filter_ne_nil fun hempty => hproper (by rw [hempty])
    · rw [hcomponents, List.filter_append, hnone, List.append_nil]
  · -- The cut is behind a whole name, as it is part of a part.
    rw [Bool.not_eq_true] at hcut
    have hfull := namesNothing_append hcut tail
    have hone : [cut].filter (!namesNothing ·) = [cut] := by simp [hcut]
    rw [hone, List.filter_cons_of_pos (by simp [hfull])] at hparts hproper
    rw [List.prefix_append_right_inj, List.cons_prefix_cons] at hparts
    obtain ⟨hsame, -⟩ := hparts
    rw [← hsame] at hproper ⊢
    refine ⟨front ++ [cut], back, by simp, ?_, hcomponents, [], by rw [List.append_nil, hrooted]⟩
    exact exists_part_of_filter_ne_nil fun hempty => hproper (by rw [hempty])

/-- Every path above is met on the way up, if perhaps without what names nothing at its
end. -/
theorem exists_mem_above_of_isAncestor (hne : segs ≠ []) {dir : String}
    (h : IsAncestor dir (rooted segs)) :
    ∃ up ∈ above segs.reverse, components (rooted up.reverse) = components dir ∧
      ∃ rest, dir = rooted up.reverse ++ rest := by
  obtain ⟨kept, later, rfl, hlater, hcomponents, rest, rfl⟩ := exists_cut_of_isAncestor hslash hne h
  obtain ⟨up, hup, hfilter, gap, rfl⟩ := exists_mem_above_of_append kept hlater
  refine ⟨up, hup, ?_, ?_⟩
  · rw [components_above hslash hup, hfilter, hcomponents]
  · rw [List.append_assoc]
    exact rooted_append _ _

end Rooted

/-- The path without its last part, and without what names nothing around that. -/
def parent? (path : String) : Option String :=
  match (segments path).tail.reverse.dropWhile namesNothing with
  | [] => none
  | _ :: up => some (rooted (up.dropWhile namesNothing).reverse)

theorem above_of_dropWhile_eq_nil {segs : List String} (h : segs.dropWhile namesNothing = []) :
    above segs = [] := by
  have hlength := length_above segs
  rw [← filter_dropWhile_namesNothing, h] at hlength
  exact List.eq_nil_of_length_eq_zero hlength

theorem above_dropWhile (segs : List String) :
    above (segs.dropWhile namesNothing) = above segs := by
  induction segs with
  | nil => rfl
  | cons s segs ih =>
    by_cases hs : namesNothing s = true
    · rw [List.dropWhile_cons_of_pos hs, ih, above, if_pos hs]
    · rw [List.dropWhile_cons_of_neg hs]

theorem above_of_dropWhile_eq_cons {segs up : List String} {s : String}
    (h : segs.dropWhile namesNothing = s :: up) :
    above segs = up.dropWhile namesNothing :: above (up.dropWhile namesNothing) := by
  have hs : ¬ namesNothing s = true := by
    have hhead := List.head?_dropWhile_not namesNothing segs
    rw [h] at hhead
    simpa using hhead
  rw [← above_dropWhile segs, h, above, if_neg hs, above_dropWhile]

section Absolute

variable {path : String} (h : isAbsolute path = true)
include h

theorem selfAndAncestors_of_parent?_eq_none (hparent : parent? path = none) :
    selfAndAncestors path = [path] := by
  obtain ⟨segs, hne, hslash, hsegments, rfl⟩ := exists_rooted h
  rw [parent?, hsegments, List.tail_cons] at hparent
  split at hparent
  · next hdrop =>
    rw [selfAndAncestors_rooted hslash hne, above_of_dropWhile_eq_nil hdrop, List.map_nil]
  · cases hparent

/-- Going up once leads to the path from which the rest of the way up goes on. -/
theorem selfAndAncestors_of_parent?_eq_some {up : String} (hparent : parent? path = some up) :
    isAbsolute up = true ∧ selfAndAncestors path = path :: selfAndAncestors up := by
  obtain ⟨segs, hne, hslash, hsegments, rfl⟩ := exists_rooted h
  rw [parent?, hsegments, List.tail_cons] at hparent
  split at hparent
  · cases hparent
  · next s rest hdrop =>
    obtain rfl := Option.some.inj hparent
    refine ⟨isAbsolute_rooted _, ?_⟩
    have habove := above_of_dropWhile_eq_cons hdrop
    have hmem : rest.dropWhile namesNothing ∈ above segs.reverse := by
      rw [habove]
      exact List.mem_cons_self
    rw [selfAndAncestors_rooted hslash hne, habove, List.map_cons]
    generalize rest.dropWhile namesNothing = nearest at hmem
    cases nearest with
    | nil => rfl
    | cons s nearest =>
      have hslash' : ∀ t ∈ (s :: nearest).reverse, '/' ∉ t.toList := fun t ht =>
        hslash t (List.mem_reverse.mp ((above_suffix hmem).subset (List.mem_reverse.mp ht)))
      rw [selfAndAncestors_rooted hslash' (by simp), List.reverse_reverse]

theorem length_selfAndAncestors :
    (selfAndAncestors path).length = (components path).length + 1 := by
  obtain ⟨segs, hne, hslash, -, rfl⟩ := exists_rooted h
  rw [selfAndAncestors_rooted hslash hne, List.length_cons, List.length_map, length_above,
    List.filter_reverse, List.length_reverse, components_rooted hslash]

theorem isAncestorOrSelf_of_mem {up : String} (hup : up ∈ selfAndAncestors path) :
    IsAncestorOrSelf up path := by
  obtain ⟨segs, hne, hslash, -, rfl⟩ := exists_rooted h
  rw [selfAndAncestors_rooted hslash hne] at hup
  rcases List.mem_cons.mp hup with rfl | hup
  · exact .inl rfl
  · obtain ⟨left, hleft, rfl⟩ := List.mem_map.mp hup
    exact .inr (isAncestor_of_mem_above hslash hleft)

/-- A path above may end in what names nothing; the one that is met has the same parts and
is no longer. -/
theorem exists_mem_of_isAncestor {dir : String} (hdir : IsAncestor dir path) :
    ∃ up ∈ selfAndAncestors path, isAbsolute up = true ∧ components up = components dir ∧
      ∃ rest, dir = up ++ rest := by
  obtain ⟨segs, hne, hslash, -, rfl⟩ := exists_rooted h
  obtain ⟨left, hleft, hparts, hrest⟩ := exists_mem_above_of_isAncestor hslash hne hdir
  refine ⟨rooted left.reverse, ?_, isAbsolute_rooted _, hparts, hrest⟩
  rw [selfAndAncestors_rooted hslash hne]
  exact List.mem_cons_of_mem _ (List.mem_map_of_mem hleft)

/-- On the way up parts are lost one after the other. -/
theorem selfAndAncestors_pairwise :
    (selfAndAncestors path).Pairwise fun near far => components far <+: components near := by
  obtain ⟨segs, hne, hslash, -, rfl⟩ := exists_rooted h
  rw [selfAndAncestors_rooted hslash hne]
  refine .cons (fun up hup => ?_) ?_
  · obtain ⟨left, hleft, rfl⟩ := List.mem_map.mp hup
    exact (isAncestor_of_mem_above hslash hleft).parts
  · rw [List.pairwise_map]
    refine (above_pairwise segs.reverse).imp_of_mem fun {near far} hnear hfar hparts => ?_
    rw [components_above hslash hnear, components_above hslash hfar, List.filter_reverse,
      List.filter_reverse, List.reverse_prefix]
    exact hparts

end Absolute

end SchemaLint.Files
