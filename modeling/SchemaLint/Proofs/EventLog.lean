import Mathlib.Algebra.BigOperators.Group.List.Lemmas
import Mathlib.Algebra.GroupWithZero.Nat
import Mathlib.Data.List.Forall2
import SchemaLint.Proofs.InertSuppressions

/-!
# The log accounts for the report

Linting a text tells of its syntax errors, then of each rule that has something to say, then
of each diagnostic that is suppressed. What was suppressed is not in the report any more, but
nothing is lost: the diagnostics announced in the log are as many as those retained and
those suppressed, and each suppressed one is named in the log with the entry that hid it.
Events are read here as they are written, by level, message and fields.
-/

namespace SchemaLint

/-! ## Reading an event -/

def FieldValue.amount : FieldValue → Nat
  | .number n => n
  | .bare _ => 0
  | .quoted _ => 0

namespace Event

def field? (e : Event) (key : String) : Option FieldValue := e.fields.lookup key

/-- A field as a text. -/
def text (e : Event) (key : String) : String := ((e.field? key).map FieldValue.plain).getD ""

/-- A field as a number. -/
def number (e : Event) (key : String) : Nat := ((e.field? key).map FieldValue.amount).getD 0

/-- A warning. -/
def Warns (e : Event) : Prop := e.level = .warn

/-- Announces the diagnostics of a rule. -/
def Announces (e : Event) : Prop := e.message = "Rule reported diagnostics"

/-- Names a diagnostic that is suppressed. -/
def Names (e : Event) : Prop := e.message = "Suppressed diagnostic"

instance : DecidablePred Warns := fun _ => inferInstanceAs (Decidable (_ = _))

instance : DecidablePred Announces := fun _ => inferInstanceAs (Decidable (_ = _))

instance : DecidablePred Names := fun _ => inferInstanceAs (Decidable (_ = _))

/-- The event names the diagnostic, and gives the reason of the first entry that hides it. -/
structure NamesHidden (e : Event) (config : Config) (d : Diagnostic) : Prop where
  file : e.field? "file" = some (.bare d.file)
  line : e.field? "line" = some (.number d.line)
  rule : e.field? "rule" = some (.quoted d.ruleId)
  value : e.field? "value" = some (.quoted d.suppressionValue)
  reason : ∃ before entry after, config.suppressions = before ++ entry :: after ∧
    entry.hides d.coordinates = true ∧ (∀ earlier ∈ before, earlier.hides d.coordinates = false) ∧
    e.field? "reason" = some (.bare entry.reason)

theorem message_syntaxError (file : String) (line : Nat) (text : String) :
    (syntaxError file line text).message = "Syntax error: " ++ text := rfl

theorem message_syntaxError_ne {s : String} (h : ¬ "Syntax error: ".toList <+: s.toList)
    (file : String) (line : Nat) (text : String) :
    (syntaxError file line text).message ≠ s := by
  intro heq
  have hlist := String.toList_append (s := "Syntax error: ") (t := text)
  rw [← message_syntaxError file line, heq] at hlist
  rw [hlist] at h
  exact h (List.prefix_append _ _)

end Event

/-! ## The three stages -/

section Stages

variable (config : Config) (doc : SchemaDocument)

/-- What is told of a document, stage by stage. -/
def eventsOf : List Event :=
  syntaxEvents doc ++ ruleEvents config.settings doc ++
    config.suppressionEvents (diagnose config.settings doc)

theorem ruleEvents_eq_map (s : Settings) :
    ruleEvents s doc = (s.rules.filter fun rule => rule.check doc ≠ []).map fun rule =>
      .ruleReported doc.path rule.id (rule.check doc).length := by
  rw [ruleEvents]
  induction s.rules with
  | nil => rfl
  | cons rule rules ih =>
    rw [List.filterMap_cons, ih]
    cases h : rule.check doc with
    | nil => simp [h]
    | cons d ds => simp [h]

theorem syntaxEvents_stage : ∀ e ∈ syntaxEvents doc, e.Warns ∧ ¬ e.Announces ∧ ¬ e.Names := by
  rw [syntaxEvents, List.forall_mem_map]
  intro error _
  exact ⟨rfl, Event.message_syntaxError_ne (by decide) _ _ _,
    Event.message_syntaxError_ne (by decide) _ _ _⟩

theorem ruleEvents_stage (s : Settings) :
    ∀ e ∈ ruleEvents s doc, ¬ e.Warns ∧ e.Announces ∧ ¬ e.Names := by
  rw [ruleEvents_eq_map, List.forall_mem_map]
  intro rule _
  have hdiffers : "Rule reported diagnostics" ≠ "Suppressed diagnostic" := by decide
  exact ⟨by simp [Event.Warns, Event.level], rfl, hdiffers⟩

theorem suppressionEvents_stage (ds : List Diagnostic) :
    ∀ e ∈ config.suppressionEvents ds, ¬ e.Warns ∧ ¬ e.Announces ∧ e.Names := by
  intro e he
  obtain ⟨d, -, hd⟩ := List.mem_filterMap.mp he
  obtain ⟨entry, -, rfl⟩ := Option.map_eq_some_iff.mp hd
  have hdiffers : "Suppressed diagnostic" ≠ "Rule reported diagnostics" := by decide
  exact ⟨by simp [Event.Warns, Event.level], hdiffers, rfl⟩

theorem filter_of_forall {p : Event → Prop} [DecidablePred p] {es : List Event}
    (h : ∀ e ∈ es, p e) : es.filter (p ·) = es :=
  List.filter_eq_self.mpr fun e he => decide_eq_true (h e he)

theorem filter_of_forall_not {p : Event → Prop} [DecidablePred p] {es : List Event}
    (h : ∀ e ∈ es, ¬ p e) : es.filter (p ·) = [] :=
  List.filter_eq_nil_iff.mpr fun e he => mt of_decide_eq_true (h e he)

/-- The stages can be told apart by what is written. -/
theorem filter_eventsOf :
    (eventsOf config doc).filter (·.Warns) = syntaxEvents doc ∧
    (eventsOf config doc).filter (·.Announces) = ruleEvents config.settings doc ∧
    (eventsOf config doc).filter (·.Names) =
      config.suppressionEvents (diagnose config.settings doc) := by
  have herrors := syntaxEvents_stage doc
  have hrules := ruleEvents_stage doc config.settings
  have hnames := suppressionEvents_stage config (diagnose config.settings doc)
  simp only [eventsOf, List.filter_append]
  refine ⟨?_, ?_, ?_⟩
  · rw [filter_of_forall fun e he => (herrors e he).1,
      filter_of_forall_not fun e he => (hrules e he).1,
      filter_of_forall_not fun e he => (hnames e he).1, List.append_nil, List.append_nil]
  · rw [filter_of_forall_not fun e he => (herrors e he).2.1,
      filter_of_forall fun e he => (hrules e he).2.1,
      filter_of_forall_not fun e he => (hnames e he).2.1, List.append_nil, List.nil_append]
  · rw [filter_of_forall_not fun e he => (herrors e he).2.2,
      filter_of_forall_not fun e he => (hrules e he).2.2,
      filter_of_forall fun e he => (hnames e he).2.2, List.nil_append, List.nil_append]

end Stages

/-! ## Announced diagnostics -/

section Announced

variable (doc : SchemaDocument) (s : Settings)

theorem number_ruleReported (file rule : String) (count : Nat) :
    (Event.ruleReported file rule count).number "count" = count := rfl

theorem text_ruleReported (file rule : String) (count : Nat) :
    (Event.ruleReported file rule count).text "rule" = rule := rfl

theorem length_syntaxEvents : (syntaxEvents doc).length = doc.syntaxErrors.length :=
  List.length_map _

theorem length_syntaxDiagnostics :
    doc.syntaxDiagnostics.length = doc.syntaxErrors.length := by
  rw [SchemaDocument.syntaxDiagnostics, SchemaDocument.diagnostics_eq_map, List.length_map,
    List.length_map]

theorem map_number_ruleEvents : (ruleEvents s doc).map (·.number "count") =
    (s.rules.filter fun rule => rule.check doc ≠ []).map (·.check doc |>.length) := by
  rw [ruleEvents_eq_map, List.map_map]
  rfl

theorem map_text_ruleEvents : (ruleEvents s doc).map (·.text "rule") =
    (s.rules.filter fun rule => rule.check doc ≠ []).map (·.id) := by
  rw [ruleEvents_eq_map, List.map_map]
  rfl

/-- Rules that report nothing add nothing to the announced number. -/
theorem sum_number_ruleEvents : ((ruleEvents s doc).map (·.number "count")).sum =
    (s.rules.flatMap (·.check doc)).length := by
  rw [map_number_ruleEvents, List.length_flatMap]
  induction s.rules with
  | nil => rfl
  | cons rule rules ih =>
    by_cases h : rule.check doc = []
    · rw [List.filter_cons_of_neg (by simpa using h), ih, List.map_cons, List.sum_cons, h,
        List.length_nil, Nat.zero_add]
    · rw [List.filter_cons_of_pos (by simpa using h), List.map_cons, List.map_cons, List.sum_cons,
        List.sum_cons, ih]

theorem rules_sublist_catalogue : s.rules.Sublist catalogue := List.filter_sublist

theorem nodup_ids_rules : (s.rules.map (·.id)).Nodup :=
  catalogue_ids_nodup.sublist ((rules_sublist_catalogue s).map _)

theorem countP_ruleId_flatMap_eq_zero {rules : List Rule} (hrules : rules ⊆ catalogue) {id : String}
    (hid : id ∉ rules.map (·.id)) :
    (rules.flatMap (·.check doc)).countP (·.ruleId = id) = 0 := by
  refine List.countP_eq_zero.mpr fun d hd => ?_
  obtain ⟨rule, hrule, hcheck⟩ := List.mem_flatMap.mp hd
  rw [decide_eq_true_eq, ruleId_of_mem_check (hrules hrule) hcheck]
  rintro rfl
  exact hid (List.mem_map_of_mem hrule)

/-- The diagnostics under the name of a rule are those that the rule reports. -/
theorem countP_ruleId_diagnose {rule : Rule} (hrule : rule ∈ s.rules) :
    (diagnose s doc).countP (·.ruleId = rule.id) = (rule.check doc).length := by
  have hcatalogue : s.rules ⊆ catalogue := (rules_sublist_catalogue s).subset
  have hmem := hcatalogue hrule
  have herrors : doc.syntaxDiagnostics.countP (·.ruleId = rule.id) = 0 := by
    refine List.countP_eq_zero.mpr fun d hd => ?_
    rw [decide_eq_true_eq, ruleId_of_mem_syntaxDiagnostics hd]
    intro heq
    exact syntaxErrorRule_not_in_catalogue (heq ▸ List.mem_map_of_mem hmem)
  have hown : (rule.check doc).countP (·.ruleId = rule.id) = (rule.check doc).length := by
    refine List.countP_eq_length.mpr fun d hd => ?_
    rw [decide_eq_true_eq, ruleId_of_mem_check hmem hd]
  have hnodup := nodup_ids_rules s
  rw [diagnose, List.countP_append, herrors, Nat.zero_add]
  -- No rule before or behind this one has its name.
  obtain ⟨before, after, hsplit⟩ := List.append_of_mem hrule
  rw [hsplit] at hcatalogue hnodup ⊢
  rw [List.map_append, List.map_cons, List.nodup_middle, List.nodup_cons, List.mem_append,
    not_or] at hnodup
  rw [List.flatMap_append, List.flatMap_cons, List.countP_append, List.countP_append, hown,
    countP_ruleId_flatMap_eq_zero doc (fun r hr => hcatalogue (by simp [hr])) hnodup.1.1,
    countP_ruleId_flatMap_eq_zero doc (fun r hr => hcatalogue (by simp [hr])) hnodup.1.2,
    Nat.zero_add, Nat.add_zero]

end Announced

/-! ## Suppressed diagnostics -/

section Suppressed

variable (config : Config)

theorem namesHidden_of_suppression {d : Diagnostic} {entry : Suppression}
    (h : config.suppression? d.coordinates = some entry) :
    (Event.diagnosticSuppressed d.file d.line d.ruleId d.suppressionValue
      entry.reason).NamesHidden config d := by
  obtain ⟨hhides, before, after, hsplit, hearlier⟩ := List.find?_eq_some_iff_append.mp h
  refine ⟨rfl, rfl, rfl, rfl, before, entry, after, hsplit, hhides, fun earlier hmem => ?_, rfl⟩
  simpa using hearlier earlier hmem

theorem forall₂_suppressionEvents (ds : List Diagnostic) :
    List.Forall₂ (fun d e => e.NamesHidden config d) (ds.filter config.hides)
      (config.suppressionEvents ds) := by
  induction ds with
  | nil => exact .nil
  | cons d ds ih =>
    rw [Config.suppressionEvents] at ih ⊢
    cases h : config.suppression? d.coordinates with
    | none =>
      have hshown : config.hides d = false := by rw [Config.hides, Config.suppresses, h]; rfl
      rw [List.filter_cons_of_neg (by rw [hshown]; decide), List.filterMap_cons_none (by rw [h]; rfl)]
      exact ih
    | some entry =>
      have hhidden : config.hides d = true := by rw [Config.hides, Config.suppresses, h]; rfl
      rw [List.filter_cons_of_pos hhidden, List.filterMap_cons_some (by rw [h]; rfl)]
      exact .cons (namesHidden_of_suppression config h) ih

/-- What is missing from the retained diagnostics is what an entry hides: copies of a
diagnostic share its fate. -/
theorem filter_not_mem_retained (path : String) (ds : List Diagnostic) :
    ds.filter (· ∉ (config.retain path ds).diagnostics) = ds.filter config.hides := by
  apply List.filter_congr
  intro d hd
  rw [Bool.eq_iff_iff, decide_eq_true_eq, Config.retain, List.mem_filter]
  simp [hd]

end Suppressed

/-! ## The account -/

/-- The log accounts for the report on a text with `errors` syntax errors, of which `all` are
the diagnostics before any is suppressed. -/
structure Accounts (log : List Event) (config : Config) (errors : Nat) (all : List Diagnostic)
    (report : FileReport) : Prop where
  warnings : log.countP (·.Warns) = errors
  total : log.countP (·.Warns) + ((log.filter (·.Announces)).map (·.number "count")).sum =
    report.diagnostics.length + report.suppressed
  /-- Rules are announced in the order in which they run. -/
  order : ((log.filter (·.Announces)).map (·.text "rule")).Sublist (config.settings.rules.map (·.id))
  once : ((log.filter (·.Announces)).map (·.text "rule")).Nodup
  counts : ∀ e ∈ log, e.Announces →
    1 ≤ e.number "count" ∧ e.number "count" = all.countP (·.ruleId = e.text "rule")
  /-- One event for each diagnostic that is not retained, in the same order. -/
  suppressed : List.Forall₂ (fun d e => e.NamesHidden config d)
    (all.filter (· ∉ report.diagnostics)) (log.filter (·.Names))

theorem eventsOf_counts {config : Config} {doc : SchemaDocument} {e : Event}
    (he : e ∈ eventsOf config doc) (h : e.Announces) : 1 ≤ e.number "count" ∧
      e.number "count" = (diagnose config.settings doc).countP (·.ruleId = e.text "rule") := by
  have hmem : e ∈ ruleEvents config.settings doc := by
    rw [← (filter_eventsOf config doc).2.1, List.mem_filter]
    exact ⟨he, decide_eq_true h⟩
  rw [ruleEvents_eq_map] at hmem
  obtain ⟨rule, hrule, rfl⟩ := List.mem_map.mp hmem
  obtain ⟨henabled, hspeaks⟩ := List.mem_filter.mp hrule
  rw [number_ruleReported, text_ruleReported, countP_ruleId_diagnose doc _ henabled]
  exact ⟨List.length_pos_iff.mpr (of_decide_eq_true hspeaks), rfl⟩

theorem eventsOf_accounts (config : Config) (doc : SchemaDocument) (path : String) :
    Accounts (eventsOf config doc) config doc.syntaxErrors.length (diagnose config.settings doc)
      (config.retain path (diagnose config.settings doc)) := by
  obtain ⟨hwarns, hannounces, hnames⟩ := filter_eventsOf config doc
  have hwarnings : (eventsOf config doc).countP (·.Warns) = doc.syntaxErrors.length := by
    rw [List.countP_eq_length_filter, hwarns, length_syntaxEvents]
  refine ⟨hwarnings, ?_, ?_, ?_, fun e => eventsOf_counts, ?_⟩
  · rw [hwarnings, hannounces, sum_number_ruleEvents, retain_total, diagnose, List.length_append,
      length_syntaxDiagnostics]
  · rw [hannounces, map_text_ruleEvents]
    exact List.filter_sublist.map _
  · rw [hannounces, map_text_ruleEvents]
    exact (nodup_ids_rules config.settings).sublist (List.filter_sublist.map _)
  · rw [hnames, filter_not_mem_retained]
    exact forall₂_suppressionEvents config _

/-- The log of linting a text: a warning for each syntax error, an announcement for each
enabled rule that reports something, and the name of each diagnostic that the report is
without. Warned and announced diagnostics together are those retained and those counted as
suppressed. -/
theorem lintEvents_account_for_report (path source : String) (config : Config) :
    Accounts (lintEvents path source config) config
      (SchemaDocument.parse path source).syntaxErrors.length
      (lintSource path source { config with suppressions := [] }).diagnostics
      (lintSource path source config) := by
  rw [lintSource_unsuppressed rfl, lintSource_eq_retain]
  exact eventsOf_accounts config _ path

end SchemaLint
