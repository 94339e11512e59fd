import Mathlib.Algebra.BigOperators.Group.List.Lemmas
import Mathlib.Algebra.GroupWithZero.Nat
import Mathlib.Algebra.Order.BigOperators.Group.List
import Mathlib.Algebra.Order.Group.Nat
import SchemaLint.Report

/-!
# The totals of a run add up

A run is counted three ways: by files, by errors and by the rules that spoke. The
error count of a file takes every diagnostic for one error, except that missing
reasons for deprecations are one error together and so are the federation checks. So
the three counts agree on whether anything is wrong, but errors can be fewer than
diagnostics. Nothing depends on the order in which the files were linted.
-/

namespace SchemaLint

open Rule Federation Text

/-! ## Errors of a file -/

/-- A deprecation without a reason. -/
def Diagnostic.IsDeprecation (d : Diagnostic) : Prop := d.ruleId = deprecationsHaveAReason.id

/-- One of the federation checks. -/
def Diagnostic.IsFederation (d : Diagnostic) : Prop :=
  d.ruleId = invalidDirective.id ∨ d.ruleId = composition.id

/-- Neither of the two kinds that count once for a file. -/
def Diagnostic.CountsAlone (d : Diagnostic) : Prop := ¬ d.IsDeprecation ∧ ¬ d.IsFederation

instance : DecidablePred Diagnostic.IsDeprecation := fun _ => inferInstanceAs (Decidable (_ = _))

instance : DecidablePred Diagnostic.IsFederation := fun _ => inferInstanceAs (Decidable (_ ∨ _))

instance : DecidablePred Diagnostic.CountsAlone := fun _ => inferInstanceAs (Decidable (_ ∧ _))

theorem errorKind_eq_deprecation_iff (d : Diagnostic) :
    d.errorKind = .deprecation ↔ d.IsDeprecation := by
  unfold Diagnostic.errorKind
  constructor
  · intro h
    unfold ErrorKind.ofRule at h
    repeat' split at h
    · next hid => exact beq_iff_eq.mp hid
    all_goals cases h
  · intro h
    rw [h]
    decide

theorem errorKind_eq_federation_iff (d : Diagnostic) :
    d.errorKind = .federation ↔ d.IsFederation := by
  unfold Diagnostic.errorKind
  constructor
  · intro h
    unfold ErrorKind.ofRule at h
    repeat' split at h
    · cases h
    · cases h
    · next hid => simpa [Diagnostic.IsFederation] using hid
    · cases h
  · rintro (h | h)
    all_goals
      rw [h]
      decide

theorem countsAlone_iff (d : Diagnostic) :
    d.CountsAlone ↔ d.errorKind = .rule ∨ d.errorKind = .dataType := by
  rw [Diagnostic.CountsAlone, ← errorKind_eq_deprecation_iff, ← errorKind_eq_federation_iff]
  cases d.errorKind <;> simp

theorem toNat_any {α : Type} (p : α → Bool) (xs : List α) :
    (xs.any p).toNat = min 1 (xs.countP p) := by
  cases h : xs.any p with
  | false =>
    have hzero : xs.countP p = 0 := List.countP_eq_zero.mpr (by simpa using h)
    rw [hzero]
    rfl
  | true =>
    have hpos : 0 < xs.countP p := List.countP_pos_iff.mpr (List.any_eq_true.mp h)
    rw [Nat.min_eq_left hpos]
    rfl

namespace FileReport

variable (f : FileReport)

/-- How many diagnostics of the file are of a kind. -/
def countOf (p : Diagnostic → Prop) [DecidablePred p] : Nat := f.diagnostics.countP (p ·)

theorem errorCount_eq : f.errorCount =
    f.countOf (·.CountsAlone) + min 1 (f.countOf (·.IsDeprecation)) +
      min 1 (f.countOf (·.IsFederation)) := by
  simp only [errorCount, has, toNat_any, countOf, countsAlone_iff, beq_eq_decide,
    Bool.decide_or, errorKind_eq_deprecation_iff, errorKind_eq_federation_iff]

/-- Each diagnostic is of one of the three kinds. -/
theorem length_diagnostics : f.diagnostics.length =
    f.countOf (·.CountsAlone) + f.countOf (·.IsDeprecation) + f.countOf (·.IsFederation) := by
  unfold countOf
  induction f.diagnostics with
  | nil => rfl
  | cons d ds ih =>
    have hone : 1 = (if d.CountsAlone then 1 else 0) + (if d.IsDeprecation then 1 else 0) +
        (if d.IsFederation then 1 else 0) := by
      simp only [countsAlone_iff, ← errorKind_eq_deprecation_iff, ← errorKind_eq_federation_iff]
      cases d.errorKind <;> rfl
    simp only [List.length_cons, List.countP_cons, decide_eq_true_eq, ih]
    omega

theorem errorCount_le_length : f.errorCount ≤ f.diagnostics.length := by
  rw [errorCount_eq, length_diagnostics]
  omega

/-- No diagnostic goes uncounted unless it shares its error with another one. -/
theorem errorCount_eq_length_iff : f.errorCount = f.diagnostics.length ↔
    ¬ 2 ≤ f.countOf (·.IsDeprecation) ∧ ¬ 2 ≤ f.countOf (·.IsFederation) := by
  rw [errorCount_eq, length_diagnostics]
  omega

theorem errorCount_pos_iff : 0 < f.errorCount ↔ f.diagnostics ≠ [] := by
  rw [← List.length_pos_iff, errorCount_eq, length_diagnostics]
  omega

theorem hasErrors_iff : f.hasErrors = true ↔ f.diagnostics ≠ [] := by
  rw [hasErrors, decide_eq_true_eq, errorCount_pos_iff]

end FileReport

/-! ## Totals -/

namespace RunReport

variable (r : RunReport)

/-- The files of a run are those that were pushed, in the order of the pushes. -/
theorem files_foldl_push (fs : List FileReport) : (fs.foldl push r).files = r.files ++ fs := by
  induction fs generalizing r with
  | nil => rw [List.foldl_nil, List.append_nil]
  | cons f fs ih =>
    rw [List.foldl_cons, ih, push, List.append_assoc]
    rfl

theorem passedFiles_add_filesWithErrors : r.passedFiles + r.filesWithErrors = r.totalFiles :=
  Nat.sub_add_cancel List.countP_le_length

theorem total_eq_sum (count : FileReport → Nat) : r.total count = (r.files.map count).sum := by
  rw [total, List.sum, List.foldr_map]

theorem totalErrors_eq_sum : r.totalErrors = (r.files.map (·.errorCount)).sum := r.total_eq_sum _

theorem length_diagnostics : r.diagnostics.length = (r.files.map (·.diagnostics.length)).sum :=
  List.length_flatMap

theorem totalErrors_le_length : r.totalErrors ≤ r.diagnostics.length := by
  rw [totalErrors_eq_sum, length_diagnostics]
  exact List.sum_le_sum fun f _ => f.errorCount_le_length

/-- Errors are as many as diagnostics if they are so in every file. -/
theorem totalErrors_eq_length_iff : r.totalErrors = r.diagnostics.length ↔
    ∀ f ∈ r.files, f.errorCount = f.diagnostics.length := by
  rw [totalErrors_eq_sum, length_diagnostics]
  induction r.files with
  | nil => simp
  | cons f fs ih =>
    have hle := f.errorCount_le_length
    have hrest : (fs.map (·.errorCount)).sum ≤ (fs.map (·.diagnostics.length)).sum :=
      List.sum_le_sum fun f _ => f.errorCount_le_length
    rw [List.map_cons, List.map_cons, List.sum_cons, List.sum_cons, List.forall_mem_cons, ← ih]
    omega

theorem isSuccess_iff : r.isSuccess = true ↔ r.diagnostics = [] := by
  rw [isSuccess, beq_iff_eq, totalErrors_eq_sum, List.sum_eq_zero_iff, diagnostics,
    List.flatMap_eq_nil_iff, List.forall_mem_map]
  refine forall₂_congr fun f _ => ?_
  rw [← not_iff_not]
  exact Nat.pos_iff_ne_zero.symm.trans f.errorCount_pos_iff

/-! ## Counts by rule -/

theorem nodup_eraseDups (ids : List String) : ids.eraseDups.Nodup := by
  induction hn : ids.length using Nat.strongRecOn generalizing ids with
  | ind n ih =>
    cases ids with
    | nil => exact .nil
    | cons id ids =>
      rw [List.eraseDups_cons, List.nodup_cons]
      refine ⟨by simp, ih _ ?_ _ rfl⟩
      have hle := List.length_filter_le (fun other => !other == id) ids
      rw [List.length_cons] at hn
      omega

theorem eraseDups_perm {ids ids' : List String} (h : ∀ id, id ∈ ids ↔ id ∈ ids') :
    ids.eraseDups.Perm ids'.eraseDups := by
  rw [List.perm_ext_iff_of_nodup (nodup_eraseDups ids) (nodup_eraseDups ids')]
  simpa using h

theorem sorted_perm (ids : List String) : (sorted ids).Perm ids := List.mergeSort_perm _ _

/-- What is sorted is determined by what there is to sort. -/
theorem sorted_eq_of_perm {ids ids' : List String} (h : ids.Perm ids') :
    sorted ids = sorted ids' := by
  refine List.Perm.eq_of_pairwise (fun a b _ _ => String.le_antisymm) (pairwise_sorted ids)
    (pairwise_sorted ids') ?_
  exact ((sorted_perm ids).trans h).trans (sorted_perm ids').symm

/-- The identifiers of all diagnostics, one for each. -/
def ruleIds : List String := r.diagnostics.map (·.ruleId)

theorem errorTypes_eq_map :
    r.errorTypes = (sorted r.ruleIds.eraseDups).map fun id => (id, r.ruleIds.count id) := rfl

theorem count_ruleIds (id : String) :
    r.ruleIds.count id = r.diagnostics.countP (·.ruleId = id) := by
  rw [ruleIds, List.count_eq_countP, List.countP_map]
  exact List.countP_congr fun d _ => by simp

/-- The keys are in order, and none comes twice. -/
theorem errorTypes_keys_pairwise : (r.errorTypes.map (·.1)).Pairwise (· < ·) := by
  have hkeys : r.errorTypes.map (·.1) = sorted r.ruleIds.eraseDups := by
    rw [errorTypes_eq_map, List.map_map]
    exact List.map_id _
  have hnodup : (sorted r.ruleIds.eraseDups).Nodup :=
    (sorted_perm _).nodup_iff.mpr (nodup_eraseDups _)
  rw [hkeys]
  refine ((pairwise_sorted _).and hnodup).imp fun {a b} hab => ?_
  by_contra hlt
  exact hab.2 (String.le_antisymm hab.1 (String.not_lt.mp hlt))

theorem mem_errorTypes_iff {id : String} {n : Nat} :
    (id, n) ∈ r.errorTypes ↔ n = r.diagnostics.countP (·.ruleId = id) ∧ 0 < n := by
  rw [errorTypes_eq_map, List.mem_map, ← count_ruleIds]
  constructor
  · rintro ⟨key, hkey, heq⟩
    obtain ⟨rfl, rfl⟩ := Prod.mk.inj heq
    refine ⟨rfl, List.count_pos_iff.mpr ?_⟩
    exact List.mem_eraseDups.mp ((sorted_perm _).mem_iff.mp hkey)
  · rintro ⟨rfl, hpos⟩
    refine ⟨id, (sorted_perm _).mem_iff.mpr ?_, rfl⟩
    exact List.mem_eraseDups.mpr (List.count_pos_iff.mp hpos)

theorem sum_errorTypes : (r.errorTypes.map (·.2)).sum = r.diagnostics.length := by
  have hperm : (sorted r.ruleIds.eraseDups).Perm r.ruleIds.dedup := by
    refine (sorted_perm _).trans ?_
    rw [List.perm_ext_iff_of_nodup (nodup_eraseDups _) (List.nodup_dedup _)]
    simp
  calc (r.errorTypes.map (·.2)).sum
      = ((sorted r.ruleIds.eraseDups).map (r.ruleIds.count ·)).sum := by
        rw [errorTypes_eq_map, List.map_map]
        rfl
    _ = (r.ruleIds.dedup.map (r.ruleIds.count ·)).sum := (hperm.map _).sum_eq
    _ = r.ruleIds.length := List.sum_map_count_dedup_eq_length _
    _ = r.diagnostics.length := List.length_map _

theorem errorTypes_eq_nil_iff : r.errorTypes = [] ↔ r.diagnostics = [] := by
  rw [← List.length_eq_zero_iff (l := r.diagnostics)]
  constructor
  · intro h
    rw [← sum_errorTypes, h]
    rfl
  · intro h
    refine List.eq_nil_iff_forall_not_mem.mpr ?_
    rintro ⟨rule, n⟩ hmem
    obtain ⟨rfl, hpos⟩ := r.mem_errorTypes_iff.mp hmem
    rw [List.length_eq_zero_iff.mp h] at hpos
    cases hpos

/-! ## The order of the files -/

variable {r} in
theorem summary_eq_of_perm {r' : RunReport} (h : r.files.Perm r'.files) :
    r.summary = r'.summary := by
  have hids : r.ruleIds.Perm r'.ruleIds := (h.flatMap_right _).map _
  have htotal : r.totalFiles = r'.totalFiles := h.length_eq
  have hfailed : r.filesWithErrors = r'.filesWithErrors := h.countP_eq _
  have hpassed : r.passedFiles = r'.passedFiles := by
    rw [passedFiles, passedFiles, htotal, hfailed]
  have herrors : r.totalErrors = r'.totalErrors := by
    rw [totalErrors_eq_sum, totalErrors_eq_sum, (h.map _).sum_eq]
  have htypes : r.errorTypes = r'.errorTypes := by
    rw [errorTypes_eq_map, errorTypes_eq_map,
      sorted_eq_of_perm (eraseDups_perm fun id => hids.mem_iff)]
    simp only [hids.count_eq]
  simp only [summary, percentPassed, percentWithErrors, htotal, hfailed, hpassed, herrors, htypes]

end RunReport

/-- The count of a file: an error for each diagnostic, but one at most for missing reasons
and one at most for federation. -/
structure FileReport.Counted (f : FileReport) : Prop where
  hasErrors : f.hasErrors = true ↔ f.diagnostics ≠ []
  errorCount : f.errorCount =
    f.countOf (fun d => ¬ d.IsDeprecation ∧ ¬ d.IsFederation) +
      (if ∃ d ∈ f.diagnostics, d.IsDeprecation then 1 else 0) +
      (if ∃ d ∈ f.diagnostics, d.IsFederation then 1 else 0)

/-- The summary adds up what the files hold. -/
structure Summary.Tallies (s : Summary) (fs : List FileReport) : Prop where
  totalFiles : s.totalFiles = fs.length
  files : s.passedFiles + s.filesWithErrors = s.totalFiles
  filesWithErrors : s.filesWithErrors = fs.countP (·.diagnostics ≠ [])
  totalErrors : s.totalErrors = (fs.map (·.errorCount)).sum
  /-- The counts by rule are a map: no rule is counted twice. -/
  rules : (s.errorTypes.map (·.1)).Pairwise (· < ·)
  counts : ∀ rule n, (rule, n) ∈ s.errorTypes ↔
    n = (fs.flatMap (·.diagnostics)).countP (·.ruleId = rule) ∧ 0 < n
  sum : (s.errorTypes.map (·.2)).sum = (fs.flatMap (·.diagnostics)).length
  errors_le : s.totalErrors ≤ (fs.flatMap (·.diagnostics)).length
  errors_eq : s.totalErrors = (fs.flatMap (·.diagnostics)).length ↔
    ¬ ∃ f ∈ fs, 2 ≤ f.countOf (·.IsDeprecation) ∨ 2 ≤ f.countOf (·.IsFederation)

theorem ite_exists_eq_min {p : Diagnostic → Prop} [DecidablePred p] (f : FileReport) :
    (if ∃ d ∈ f.diagnostics, p d then 1 else 0) = min 1 (f.countOf p) := by
  have hpos : 0 < f.countOf p ↔ ∃ d ∈ f.diagnostics, p d := by
    simp [FileReport.countOf, List.countP_pos_iff]
  split
  · next h =>
    have := hpos.mpr h
    omega
  · next h =>
    have := mt hpos.mp h
    omega

theorem FileReport.counted (f : FileReport) : f.Counted := by
  refine ⟨f.hasErrors_iff, ?_⟩
  rw [ite_exists_eq_min, ite_exists_eq_min]
  exact f.errorCount_eq

theorem RunReport.tallies (r : RunReport) : r.summary.Tallies r.files where
  totalFiles := rfl
  files := r.passedFiles_add_filesWithErrors
  filesWithErrors := List.countP_congr fun f _ => by simp [f.hasErrors_iff]
  totalErrors := r.totalErrors_eq_sum
  rules := r.errorTypes_keys_pairwise
  counts _ _ := r.mem_errorTypes_iff
  sum := r.sum_errorTypes
  errors_le := r.totalErrors_le_length
  errors_eq := by
    refine r.totalErrors_eq_length_iff.trans ?_
    simp only [FileReport.errorCount_eq_length_iff, not_exists, not_and, not_or]

/-- Whatever is pushed to a run, and in whatever order, its summary adds up: files by
whether they passed, errors by file and diagnostics by rule. The run is a success if no
rule spoke. -/
theorem summary_of_pushes (fs : List FileReport) :
    let r := fs.foldl RunReport.push ⟨[]⟩
    (∀ f ∈ fs, f.Counted) ∧ r.summary.Tallies fs ∧
      (r.isSuccess = true ↔ r.summary.errorTypes = []) ∧
      ∀ gs : List FileReport, fs.Perm gs →
        (gs.foldl RunReport.push ⟨[]⟩).summary = r.summary := by
  intro r
  have hfiles : r.files = fs := RunReport.files_foldl_push ⟨[]⟩ fs
  refine ⟨fun f _ => f.counted, hfiles ▸ r.tallies, ?_, fun gs hperm => ?_⟩
  · exact r.isSuccess_iff.trans r.errorTypes_eq_nil_iff.symm
  · refine RunReport.summary_eq_of_perm ?_
    rw [RunReport.files_foldl_push, hfiles]
    exact hperm.symm

/-- Two missing reasons in one file are one error, whether it is linted first or last. -/
theorem summary_of_pushes_missingReasons :
    let reason := Diagnostic.make "a" 2 "deprecations-have-a-reason" "R" "B" none
    let a : FileReport := ⟨"a", [reason, reason], 0⟩
    let fs : List FileReport := [a, ⟨"b", [], 3⟩]
    a ∈ fs ∧ a.Counted ∧ a.errorCount = 1 ∧ fs.Perm fs.reverse ∧
      (fs.reverse.foldl RunReport.push ⟨[]⟩).summary = (fs.foldl RunReport.push ⟨[]⟩).summary := by
  intro reason a fs
  have hmem : a ∈ fs := List.mem_cons_self
  have hperm : fs.Perm fs.reverse := (List.reverse_perm fs).symm
  obtain ⟨hcounted, -, -, hsummary⟩ := summary_of_pushes fs
  exact ⟨hmem, hcounted a hmem, by decide, hperm, hsummary fs.reverse hperm⟩

end SchemaLint
