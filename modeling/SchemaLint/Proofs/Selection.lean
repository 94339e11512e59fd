import Mathlib.Data.List.Nodup
import SchemaLint.Lint

/-!
# What settings and suppressions select

A report is the list of all diagnostics, cut down twice: settings take out whole
groups of rules, suppressions take out single diagnostics. Both cuts look at the
identifier that a message starts with, so the first lemmas say that every message
gives back the identifier of the rule that wrote it. The two main results relate
two runs on the same text: one with fewer groups switched on, and one with
suppressions that reach further.
-/

namespace SchemaLint

open Rule Federation

theorem takeWhile_ne_append_cons {stop : Char} (before after : List Char)
    (h : stop ∉ before) : (before ++ stop :: after).takeWhile (· != stop) = before := by
  induction before with
  | nil => simp
  | cons c cs ih =>
    rw [List.mem_cons, not_or] at h
    rw [List.cons_append, List.takeWhile_cons_of_pos (by simpa using Ne.symm h.1), ih h.2]

/-- An identifier without a colon is read back from the message. -/
theorem ruleId_make {rule : String} (h : ':' ∉ rule.toList) (file : String) (line : Nat)
    (text content : String) (value : Option String) :
    (Diagnostic.make file line rule text content value).ruleId = rule := by
  have hm : (rule ++ ": " ++ text).toList = rule.toList ++ ':' :: ' ' :: text.toList := by
    simp
  have hc : (rule ++ ": " ++ text).toList.contains ':' = true := by
    simp
  simp only [Diagnostic.ruleId, Diagnostic.make, Diagnostic.ruleIdOf, hc, if_true]
  rw [hm, takeWhile_ne_append_cons _ _ h, String.ofList_toList]

theorem catalogue_ids_no_colon : ∀ id ∈ catalogue.map (·.id), ':' ∉ id.toList := by decide

theorem catalogue_ids_nodup : (catalogue.map (·.id)).Nodup := by decide

theorem syntaxErrorRule_not_in_catalogue : syntaxErrorRule ∉ catalogue.map (·.id) := by decide

theorem ruleId_of_mem_diagnostics {doc : SchemaDocument} {rule : String}
    (h : ':' ∉ rule.toList) {fs : List Finding} {d : Diagnostic}
    (hd : d ∈ doc.diagnostics rule fs) : d.ruleId = rule := by
  rw [SchemaDocument.diagnostics_eq_map] at hd
  obtain ⟨f, _, rfl⟩ := List.mem_map.mp hd
  exact ruleId_make h _ _ _ _ _

theorem ruleId_of_mem_check {rule : Rule} (hr : rule ∈ catalogue) {doc : SchemaDocument}
    {d : Diagnostic} (hd : d ∈ rule.check doc) : d.ruleId = rule.id :=
  ruleId_of_mem_diagnostics
    (catalogue_ids_no_colon rule.id (List.mem_map_of_mem hr)) hd

theorem ruleId_of_mem_syntaxDiagnostics {doc : SchemaDocument} {d : Diagnostic}
    (hd : d ∈ doc.syntaxDiagnostics) : d.ruleId = syntaxErrorRule :=
  ruleId_of_mem_diagnostics (by decide) hd

/-- Two rules of the catalogue with one identifier are the same rule. -/
theorem catalogue_ext {a b : Rule} (ha : a ∈ catalogue) (hb : b ∈ catalogue)
    (h : a.id = b.id) : a = b :=
  List.inj_on_of_nodup_map catalogue_ids_nodup ha hb h

/-! ## Settings -/

/-- The switch that a group of rules answers to is on; the core has none. -/
def Settings.SwitchesOn (s : Settings) : RuleGroup → Prop
  | .core => True
  | .description => s.checkDescriptions = true
  | .convention => s.strictMode = true
  | .federation => s.validateFederation = true

instance (s : Settings) : DecidablePred s.SwitchesOn
  | .core => inferInstanceAs (Decidable True)
  | .description => inferInstanceAs (Decidable (_ = true))
  | .convention => inferInstanceAs (Decidable (_ = true))
  | .federation => inferInstanceAs (Decidable (_ = true))

/-- Diagnostics of that identifier are reported under the settings: it is the one
of syntax errors, or that of a rule whose group is switched on. -/
def Settings.Admits (s : Settings) (id : String) : Prop :=
  id = syntaxErrorRule ∨ ∃ rule ∈ catalogue, rule.id = id ∧ s.SwitchesOn rule.group

instance (s : Settings) : DecidablePred s.Admits := fun id =>
  inferInstanceAs (Decidable (id = syntaxErrorRule ∨ ∃ rule ∈ catalogue, _))

theorem enables_iff (s : Settings) (g : RuleGroup) : s.enables g = true ↔ s.SwitchesOn g := by
  cases g <;> simp [Settings.enables, Settings.SwitchesOn]

theorem admits_id_iff (s : Settings) {rule : Rule} (hr : rule ∈ catalogue) :
    s.Admits rule.id ↔ s.enables rule.group = true := by
  rw [enables_iff]
  constructor
  · rintro (h | ⟨other, ho, hid, hon⟩)
    · exact absurd (h ▸ List.mem_map_of_mem hr) syntaxErrorRule_not_in_catalogue
    · rwa [← catalogue_ext ho hr hid]
  · exact fun h => Or.inr ⟨rule, hr, rfl, h⟩

/-- The settings judge all diagnostics of a rule alike, by the group of the rule. -/
theorem filter_admits_check (s : Settings) {rule : Rule} (hr : rule ∈ catalogue)
    (doc : SchemaDocument) :
    (rule.check doc).filter (s.Admits ·.ruleId) =
      if s.enables rule.group then rule.check doc else [] := by
  split
  · next h =>
    refine List.filter_eq_self.mpr fun d hd => ?_
    rw [ruleId_of_mem_check hr hd]
    exact decide_eq_true ((admits_id_iff s hr).mpr h)
  · next h =>
    refine List.filter_eq_nil_iff.mpr fun d hd => ?_
    rw [ruleId_of_mem_check hr hd, decide_eq_true_eq, admits_id_iff s hr]
    exact h

theorem filter_admits_flatMap (s : Settings) (doc : SchemaDocument) {rules : List Rule}
    (hr : rules ⊆ catalogue) :
    (rules.flatMap (·.check doc)).filter (s.Admits ·.ruleId) =
      (rules.filter (s.enables ·.group)).flatMap (·.check doc) := by
  induction rules with
  | nil => rfl
  | cons rule rest ih =>
    obtain ⟨hm, hrest⟩ := List.cons_subset.mp hr
    rw [List.flatMap_cons, List.filter_append, filter_admits_check s hm, ih hrest]
    by_cases h : s.enables rule.group = true
    · rw [if_pos h, List.filter_cons, if_pos h, List.flatMap_cons]
    · rw [if_neg h, List.filter_cons, if_neg h, List.nil_append]

/-- All groups switched on. -/
def Settings.everything : Settings := ⟨true, true, true⟩

theorem rules_everything : Settings.everything.rules = catalogue :=
  List.filter_eq_self.mpr fun rule _ => by cases h : rule.group <;> rfl

theorem diagnose_eq_filter (s : Settings) (doc : SchemaDocument) :
    diagnose s doc = (diagnose .everything doc).filter (s.Admits ·.ruleId) := by
  have hsyntax : doc.syntaxDiagnostics.filter (s.Admits ·.ruleId) = doc.syntaxDiagnostics := by
    refine List.filter_eq_self.mpr fun d hd => ?_
    rw [ruleId_of_mem_syntaxDiagnostics hd]
    exact decide_eq_true (Or.inl rfl)
  rw [diagnose, diagnose, List.filter_append, hsyntax, rules_everything,
    filter_admits_flatMap s doc (List.Subset.refl _)]
  rfl

/-- Without suppressions a report holds all that is found. -/
theorem lintSource_unsuppressed {config : Config} (h : config.suppressions = [])
    (path source : String) :
    (lintSource path source config).diagnostics =
      diagnose config.settings (.parse path source) := by
  have hall : ∀ ds : List Diagnostic, ds.filter (!config.hides ·) = ds := by
    refine fun ds => List.filter_eq_self.mpr fun d _ => ?_
    rw [Config.hides, Config.suppresses, Config.suppression?, h]
    rfl
  simp only [lintSource, Config.retain, hall]

/-- By default every rule runs and nothing is suppressed. -/
theorem lintSource_default_diagnostics (path source : String) :
    (lintSource path source {}).diagnostics =
      (SchemaDocument.parse path source).syntaxDiagnostics ++
        catalogue.flatMap (·.check (.parse path source)) := by
  have hrules : Settings.rules {} = catalogue := rules_everything
  rw [lintSource_unsuppressed rfl, diagnose, hrules]

/-- Settings have no say in what is suppressed. -/
theorem hides_congr {a b : Config} (h : a.suppressions = b.suppressions) (d : Diagnostic) :
    a.hides d = b.hides d := by
  simp only [Config.hides, Config.suppresses, Config.suppression?, h]

/-- Switching groups off takes their diagnostics out of the report and touches no
other: what is left is a part of the report with everything on, in its order. -/
theorem retained_eq_filter_everything (path source : String) (s : Settings)
    (suppressions : List Suppression) :
    (lintSource path source ⟨s, suppressions⟩).diagnostics =
      (lintSource path source ⟨.everything, suppressions⟩).diagnostics.filter
        (s.Admits ·.ruleId) := by
  simp only [lintSource, Config.retain]
  rw [diagnose_eq_filter, List.filter_filter, List.filter_filter]
  refine List.filter_congr fun d _ => ?_
  rw [Bool.and_comm,
    hides_congr (a := ⟨s, suppressions⟩) (b := ⟨.everything, suppressions⟩) rfl]

/-! ## Suppressions -/

/-- `f` is at least as general as `e`, selector by selector. -/
structure Suppression.Covers (f e : Suppression) : Prop where
  file : f.file = "" ∨ e.file ≠ "" ∧ normalizedPath f.file <:+ normalizedPath e.file
  line : f.line = 0 ∨ f.line = e.line
  rule : f.rule = "" ∨ f.rule = e.rule
  value : f.value = "" ∨ f.value = e.value

theorem hides_iff (e : Suppression) (c : Coordinates) :
    e.hides c = true ↔
      (e.file = "" ∨ normalizedPath e.file <:+ normalizedPath c.file) ∧
        (e.line = 0 ∨ e.line = c.line) ∧ (e.rule = "" ∨ e.rule = c.rule) ∧
        (e.value = "" ∨ e.value = c.value) := by
  simp [Suppression.hides, Suppression.matchesFile, and_assoc]

theorem matches_of_covers {α : Type} {wild a b c : α} (hf : a = wild ∨ a = b)
    (he : b = wild ∨ b = c) : a = wild ∨ a = c := by
  rcases hf with h | rfl
  · exact Or.inl h
  · exact he

theorem hides_of_covers {f e : Suppression} (h : f.Covers e) {c : Coordinates}
    (he : e.hides c = true) : f.hides c = true := by
  rw [hides_iff] at he ⊢
  obtain ⟨hfile, hline, hrule, hvalue⟩ := he
  refine ⟨?_, matches_of_covers h.line hline, matches_of_covers h.rule hrule,
    matches_of_covers h.value hvalue⟩
  rcases h.file with hempty | ⟨hne, hsuffix⟩
  · exact Or.inl hempty
  · exact Or.inr (hsuffix.trans (hfile.resolve_left hne))

theorem suppresses_iff (config : Config) (c : Coordinates) :
    config.suppresses c = true ↔ ∃ e ∈ config.suppressions, e.hides c = true := by
  simp [Config.suppresses, Config.suppression?]

/-- What `a` hides, `b` hides too. -/
def Config.HidesLess (a b : Config) : Prop := ∀ d : Diagnostic, a.hides d = true → b.hides d = true

theorem hidesLess_of_covers {a b : Config}
    (h : ∀ e ∈ a.suppressions, ∃ f ∈ b.suppressions, f.Covers e) : a.HidesLess b := by
  intro d hd
  obtain ⟨e, he, hides⟩ := (suppresses_iff a d.coordinates).mp hd
  obtain ⟨f, hf, hcovers⟩ := h e he
  exact (suppresses_iff b d.coordinates).mpr ⟨f, hf, hides_of_covers hcovers hides⟩

theorem retain_sublist {a b : Config} (h : a.HidesLess b) (path : String)
    (ds : List Diagnostic) :
    (b.retain path ds).diagnostics.Sublist (a.retain path ds).diagnostics := by
  refine List.monotone_filter_right ds fun d hd => ?_
  rw [Bool.not_eq_true', ← Bool.not_eq_true] at hd ⊢
  exact fun ha => hd (h d ha)

/-- Every diagnostic is either retained or counted as suppressed. -/
theorem retain_total (config : Config) (path : String) (ds : List Diagnostic) :
    (config.retain path ds).diagnostics.length + (config.retain path ds).suppressed =
      ds.length := by
  have h := List.length_eq_countP_add_countP config.hides (l := ds)
  simp only [Bool.not_eq_true, Bool.decide_eq_false] at h
  simp only [Config.retain, ← List.countP_eq_length_filter]
  omega

theorem has_of_sublist {r s : FileReport} (h : r.diagnostics.Sublist s.diagnostics)
    (kind : ErrorKind) : (r.has kind).toNat ≤ (s.has kind).toNat := by
  cases hr : r.has kind with
  | false => exact Nat.zero_le _
  | true =>
    obtain ⟨d, hd, hkind⟩ := List.any_eq_true.mp hr
    have hs : s.has kind = true := List.any_eq_true.mpr ⟨d, h.subset hd, hkind⟩
    exact Nat.le_of_eq (by rw [hs])

/-- The two kinds that count once for a file cannot spoil the order of the totals. -/
theorem errorCount_le_of_sublist {r s : FileReport}
    (h : r.diagnostics.Sublist s.diagnostics) : r.errorCount ≤ s.errorCount :=
  Nat.add_le_add (Nat.add_le_add h.countP_le (has_of_sublist h _)) (has_of_sublist h _)

theorem retain_congr {a b : Config} (h : ∀ d, a.hides d = b.hides d) (path : String)
    (ds : List Diagnostic) : a.retain path ds = b.retain path ds := by
  have he : a.hides = b.hides := funext h
  simp only [Config.retain, he]

/-- Only which entries there are matters, not where or how often they stand. -/
theorem hides_eq_of_mem_iff {a b : Config}
    (h : ∀ e, e ∈ a.suppressions ↔ e ∈ b.suppressions) (d : Diagnostic) :
    a.hides d = b.hides d := by
  rw [Bool.eq_iff_iff, Config.hides, Config.hides, suppresses_iff, suppresses_iff]
  simp only [h]

/-- Suppressions that reach further leave fewer diagnostics, in the same order,
lose none from the totals and never raise the error count. Order and repetition of
the entries do not matter, and what is retained is exactly what no entry hides. -/
theorem suppressions_antitone (path source : String) (s : Settings) :
    (∀ S S' : List Suppression, (∀ e ∈ S, ∃ e' ∈ S', e'.Covers e) →
      (lintSource path source ⟨s, S'⟩).diagnostics.Sublist
          (lintSource path source ⟨s, S⟩).diagnostics ∧
        (lintSource path source ⟨s, S'⟩).diagnostics.length +
            (lintSource path source ⟨s, S'⟩).suppressed =
          (lintSource path source ⟨s, S⟩).diagnostics.length +
            (lintSource path source ⟨s, S⟩).suppressed ∧
        (lintSource path source ⟨s, S'⟩).errorCount ≤
          (lintSource path source ⟨s, S⟩).errorCount) ∧
    (∀ S S' : List Suppression, (∀ e, e ∈ S ↔ e ∈ S') →
      lintSource path source ⟨s, S⟩ = lintSource path source ⟨s, S'⟩) ∧
    ∀ (S : List Suppression) (d : Diagnostic),
      d ∈ (lintSource path source ⟨s, S⟩).diagnostics ↔
        d ∈ diagnose s (.parse path source) ∧
          (⟨s, S⟩ : Config).suppresses ⟨d.file, d.line, d.ruleId, d.suppressionValue⟩ =
            false := by
  refine ⟨fun S S' h => ?_, fun S S' h => ?_, fun S d => ?_⟩
  · have hsub := retain_sublist (hidesLess_of_covers (a := ⟨s, S⟩) (b := ⟨s, S'⟩) h) path
      (diagnose s (.parse path source))
    refine ⟨hsub, ?_, errorCount_le_of_sublist hsub⟩
    exact (retain_total ⟨s, S'⟩ path _).trans (retain_total ⟨s, S⟩ path _).symm
  · exact retain_congr (hides_eq_of_mem_iff (a := ⟨s, S⟩) (b := ⟨s, S'⟩) h) path _
  · simp only [lintSource, Config.retain, List.mem_filter, Bool.not_eq_true']
    rfl

/-- An entry for one line of a file, and one for the rule wherever a path ends so. -/
theorem suppressions_antitone_wider_entry :
    Suppression.Covers { file := "api.graphql", rule := "types-have-descriptions" }
        { file := "v2\\api.graphql", line := 1, rule := "types-have-descriptions" } ∧
      (lintSource "src/v2/api.graphql" "type Query"
          ⟨{}, [{ file := "api.graphql", rule := "types-have-descriptions" }]⟩).errorCount ≤
        (lintSource "src/v2/api.graphql" "type Query"
          ⟨{}, [{ file := "v2\\api.graphql", line := 1,
                  rule := "types-have-descriptions" }]⟩).errorCount := by
  have hcovers : Suppression.Covers { file := "api.graphql", rule := "types-have-descriptions" }
      { file := "v2\\api.graphql", line := 1, rule := "types-have-descriptions" } :=
    ⟨Or.inr ⟨by decide, by decide⟩, Or.inl rfl, Or.inr rfl, Or.inl rfl⟩
  refine ⟨hcovers, ((suppressions_antitone _ _ _).1 _ _ fun e he => ?_).2.2⟩
  obtain rfl := List.mem_singleton.mp he
  exact ⟨_, List.mem_singleton.mpr rfl, hcovers⟩

end SchemaLint
