import SchemaLint.Project
import SchemaLint.Proofs.Provenance

/-!
# Suppressions that hide nothing, and those that hide everything

A suppression can only hide what is reported. One that names a rule outside of
`allRuleIds` never applies, and the driver says so. Neither does one that asks for a value
of a rule whose diagnostics carry none: only two rules give their diagnostics a value. Both
kinds of entry can be deleted without a change to any report. At the other end stands an
entry without any selector, which leaves nothing of a report.
-/

namespace SchemaLint

open Sdl Rule Federation

/-! ## Values of findings -/

/-- The findings have no value that a suppression could name. -/
def Valueless (fs : List Finding) : Prop := ∀ f ∈ fs, f.value = none

namespace Valueless

variable {α : Type} {xs : List α} {fs gs : List Finding}

theorem nil : Valueless [] := by simp [Valueless]

theorem singleton {f : Finding} (h : f.value = none) : Valueless [f] := by
  simpa [Valueless] using h

theorem append (hf : Valueless fs) (hg : Valueless gs) : Valueless (fs ++ gs) :=
  List.forall_mem_append.mpr ⟨hf, hg⟩

theorem map {f : α → Finding} (h : ∀ x, (f x).value = none) : Valueless (xs.map f) :=
  List.forall_mem_map.mpr fun x _ => h x

theorem flatMap {f : α → List Finding} (h : ∀ x, Valueless (f x)) : Valueless (xs.flatMap f) := by
  intro g hg
  obtain ⟨x, -, hx⟩ := List.mem_flatMap.mp hg
  exact h x g hx

theorem ite {c : Prop} [Decidable c] (hf : Valueless fs) (hg : Valueless gs) :
    Valueless (if c then fs else gs) := by
  split
  · exact hf
  · exact hg

end Valueless

theorem valueless_unsortedTypes (doc : SchemaDocument) (kind : TypeKind) (subject : String)
    (members : Definition → List Name) : Valueless (unsortedTypes doc kind subject members) := by
  intro f hf
  obtain ⟨d, -, hd⟩ := List.mem_filterMap.mp hf
  obtain ⟨index, -, hmember⟩ := Option.bind_eq_some_iff.mp hd
  obtain ⟨member, -, rfl⟩ := Option.map_eq_some_iff.mp hmember
  rfl

/-- The rules whose diagnostics carry a value. -/
def valueRules : List String := [suspiciousEnumValue.id, enumValuesSorted.id]

theorem valueless_of_mem_catalogue {rule : Rule} (hrule : rule ∈ catalogue)
    (h : rule.id ∉ valueRules) (doc : SchemaDocument) : Valueless (rule.findings doc) := by
  simp only [catalogue, List.mem_cons, List.not_mem_nil, or_false] at hrule
  rcases hrule with rfl | rfl | rfl | rfl | rfl | rfl | rfl | rfl | rfl | rfl | rfl | rfl | rfl |
    rfl | rfl | rfl | rfl | rfl | rfl | rfl | rfl | rfl | rfl | rfl
  · exact .map fun _ => rfl
  · exact .map fun _ => rfl
  · exact .flatMap fun _ => .map fun _ => rfl
  · exact .flatMap fun _ => .map fun _ => rfl
  · exact .flatMap fun _ => .flatMap fun _ => .map fun _ => rfl
  · exact .flatMap fun _ => .map fun _ => rfl
  · exact .flatMap fun _ => .map fun _ => rfl
  · exact .flatMap fun _ => .map fun _ => rfl
  · exact .flatMap fun _ => .map fun _ => rfl
  · exact .map fun _ => rfl
  · exact absurd (by decide) h
  · exact valueless_unsortedTypes doc _ _ _
  · exact valueless_unsortedTypes doc _ _ _
  · exact valueless_unsortedTypes doc _ _ _
  · exact .ite .nil (.singleton rfl)
  · exact .ite .nil (.singleton rfl)
  · exact .flatMap fun _ => .map fun _ => rfl
  · exact .flatMap fun _ => .map fun _ => rfl
  · exact .map fun _ => rfl
  · exact .map fun _ => rfl
  · exact .map fun _ => rfl
  · exact absurd (by decide) h
  · exact .flatMap fun _ => .append (.map fun _ => rfl) (.flatMap fun _ => .map fun _ => rfl)
  · rw [composition_findings]
    exact .map fun _ => rfl

/-! ## What can be reported at all -/

/-- What a suppression can tell of a diagnostic: its rule is known, and it has no value
unless it is of a rule that gives one. -/
theorem rule_and_value_of_mem_diagnose {s : Settings} {doc : SchemaDocument} {d : Diagnostic}
    (hd : d ∈ diagnose s doc) :
    d.ruleId ∈ allRuleIds ∧ (d.ruleId ∉ valueRules → d.suppressionValue = "") := by
  simp only [diagnose, List.mem_append, List.mem_flatMap, Settings.rules, List.mem_filter] at hd
  rcases hd with herror | ⟨rule, ⟨hrule, -⟩, hcheck⟩
  · obtain ⟨f, hf, hstates⟩ := exists_finding_of_mem_diagnostics (by decide) herror
    obtain ⟨e, -, rfl⟩ := List.mem_map.mp hf
    rw [hstates.ruleId]
    refine ⟨List.mem_cons_self, fun _ => ?_⟩
    rw [Diagnostic.suppressionValue, hstates.value]
    rfl
  · obtain ⟨f, hf, hstates⟩ := exists_finding_of_mem_check hrule hcheck
    rw [hstates.ruleId]
    refine ⟨?_, fun hvalue => ?_⟩
    · exact reportOrder_subset_allRuleIds (List.mem_cons_of_mem _ (List.mem_map_of_mem hrule))
    · rw [Diagnostic.suppressionValue, hstates.value, valueless_of_mem_catalogue hrule hvalue doc f hf]
      rfl

/-! ## Entries that hide nothing -/

namespace Suppression

/-- Names a rule, but none that there is. -/
def NamesUnknownRule (e : Suppression) : Prop := e.rule ≠ "" ∧ e.rule ∉ allRuleIds

/-- Asks for a value of a rule whose diagnostics carry none. -/
def NamesIdleValue (e : Suppression) : Prop :=
  e.value ≠ "" ∧ e.rule ≠ "" ∧ e.rule ∉ valueRules

instance : DecidablePred NamesUnknownRule := fun _ => inferInstanceAs (Decidable (_ ∧ _))

instance : DecidablePred NamesIdleValue := fun _ => inferInstanceAs (Decidable (_ ∧ _ ∧ _))

end Suppression

/-- The configuration without the entries of a kind. -/
def Config.without (config : Config) (p : Suppression → Prop) [DecidablePred p] : Config :=
  { config with suppressions := config.suppressions.filter (¬ p ·) }

/-- Entries that hide none of the diagnostics can be deleted. -/
theorem retain_without {config : Config} {p : Suppression → Prop} [DecidablePred p]
    {ds : List Diagnostic} (h : ∀ e, p e → ∀ d ∈ ds, e.hides d.coordinates = false) (path : String) :
    (config.without p).retain path ds = config.retain path ds := by
  have hides : ∀ d ∈ ds, (config.without p).hides d = config.hides d := by
    intro d hd
    rw [Bool.eq_iff_iff, Config.hides, Config.hides, suppresses_iff, suppresses_iff]
    constructor
    · rintro ⟨e, he, hhides⟩
      exact ⟨e, (List.mem_filter.mp he).1, hhides⟩
    · rintro ⟨e, he, hhides⟩
      have hkept : ¬ p e := fun hp => absurd (h e hp d hd) (by rw [hhides]; decide)
      exact ⟨e, List.mem_filter.mpr ⟨he, decide_eq_true hkept⟩, hhides⟩
  have hretained : ds.filter (!(config.without p).hides ·) = ds.filter (!config.hides ·) :=
    List.filter_congr fun d hd => by rw [hides d hd]
  have hsuppressed : ds.countP (config.without p).hides = ds.countP config.hides :=
    List.countP_congr fun d hd => by rw [hides d hd]
  rw [Config.retain, Config.retain, hretained, hsuppressed]

theorem hides_eq_false_of_unknownRule {e : Suppression} (he : e.NamesUnknownRule)
    {c : Coordinates} (hc : c.rule ∈ allRuleIds) : e.hides c = false := by
  refine Bool.eq_false_iff.mpr fun hhides => ?_
  obtain ⟨-, -, hrule, -⟩ := (hides_iff e c).mp hhides
  rcases hrule with hempty | hsame
  · exact he.1 hempty
  · exact he.2 (hsame ▸ hc)

theorem hides_eq_false_of_idleValue {e : Suppression} (he : e.NamesIdleValue) {c : Coordinates}
    (hc : c.rule ∉ valueRules → c.value = "") : e.hides c = false := by
  refine Bool.eq_false_iff.mpr fun hhides => ?_
  obtain ⟨-, -, hrule, hvalue⟩ := (hides_iff e c).mp hhides
  have hsame : e.rule = c.rule := hrule.resolve_left he.2.1
  have hvalues : e.value = c.value := hvalue.resolve_left he.1
  exact he.1 (hvalues.trans (hc (hsame ▸ he.2.2)))

/-! ## Entries that hide everything -/

theorem hides_of_isUnbounded {e : Suppression} (h : e.isUnbounded = true) (c : Coordinates) :
    e.hides c = true := by
  simp only [Suppression.isUnbounded, Bool.and_eq_true, String.isEmpty_iff, beq_iff_eq] at h
  obtain ⟨⟨⟨hfile, hline⟩, hrule⟩, hvalue⟩ := h
  exact (hides_iff e c).mpr ⟨.inl hfile, .inl hline, .inl hrule, .inl hvalue⟩

theorem retain_of_isUnbounded {config : Config}
    (h : ∃ e ∈ config.suppressions, e.isUnbounded = true) (path : String) (ds : List Diagnostic) :
    (config.retain path ds).diagnostics = [] ∧ (config.retain path ds).errorCount = 0 ∧
      (config.retain path ds).suppressed = ds.length := by
  obtain ⟨e, he, hunbounded⟩ := h
  have hides : ∀ d, config.hides d = true := fun d =>
    (suppresses_iff config d.coordinates).mpr ⟨e, he, hides_of_isUnbounded hunbounded _⟩
  have hretained : ds.filter (!config.hides ·) = [] :=
    List.filter_eq_nil_iff.mpr fun d _ => by simp [hides d]
  have hsuppressed : ds.countP config.hides = ds.length :=
    List.countP_eq_length.mpr fun d _ => hides d
  rw [Config.retain, hretained, hsuppressed]
  exact ⟨rfl, rfl, rfl⟩

/-! ## What the driver doubts -/

/-- The event warns that a suppression names no rule. -/
def Event.doubtsRule : Event → Bool
  | .unknownSuppressedRule .. => true
  | _ => false

theorem suspicion?_of_namesUnknownRule {e : Suppression} (h : e.NamesUnknownRule) (entry : Nat) :
    suspicion? entry e = some (.unknownSuppressedRule e.rule e.file) := by
  have hbounded : e.isUnbounded = false := by
    simp [Suppression.isUnbounded, h.1]
  have hunknown : (!e.rule.isEmpty && !allRuleIds.contains e.rule) = true := by
    simpa [Suppression.NamesUnknownRule] using h
  rw [suspicion?, hbounded, hunknown]
  rfl

theorem doubtsRule_eq_false_of_suspicion? {e : Suppression} (h : ¬ e.NamesUnknownRule)
    {entry : Nat} {event : Event} (hs : suspicion? entry e = some event) :
    event.doubtsRule = false := by
  have hknown : ¬ (!e.rule.isEmpty && !allRuleIds.contains e.rule) = true := by
    simpa [Suppression.NamesUnknownRule] using h
  rw [suspicion?, if_neg hknown] at hs
  split at hs
  · obtain rfl := Option.some.inj hs
    rfl
  · cases hs

/-- The driver warns of an unknown rule once for each entry that names one. -/
theorem filter_doubtsRule_suspicions (config : Config) :
    (suspicions config).filter (·.doubtsRule) =
      (config.suppressions.filter (·.NamesUnknownRule)).map fun e =>
        .unknownSuppressedRule e.rule e.file := by
  have hfrom : ∀ (es : List Suppression) (k : Nat),
      ((es.zipIdx k).filterMap fun p => suspicion? p.2 p.1).filter (·.doubtsRule) =
        (es.filter (·.NamesUnknownRule)).map fun e => .unknownSuppressedRule e.rule e.file := by
    intro es
    induction es with
    | nil => exact fun _ => rfl
    | cons e es ih =>
      intro k
      rw [List.zipIdx_cons, List.filterMap_cons]
      by_cases h : e.NamesUnknownRule
      · rw [List.filter_cons_of_pos (by simpa using h)]
        simp only [suspicion?_of_namesUnknownRule h k]
        rw [List.filter_cons_of_pos rfl, ih, List.map_cons]
      · rw [List.filter_cons_of_neg (by simpa using h), ← ih (k + 1)]
        dsimp only
        split
        · rfl
        · next event hs =>
          rw [List.filter_cons_of_neg (by simp [doubtsRule_eq_false_of_suspicion? h hs])]
  exact hfrom config.suppressions 1

theorem lintSource_eq_retain (path source : String) (config : Config) :
    lintSource path source config =
      config.retain path (diagnose config.settings (.parse path source)) := by
  unfold lintSource
  rfl

/-- Deleting the entries that name an unknown rule, which are those the driver warns of, or
those that ask for a value where there is none, changes no report. An entry without
selectors leaves nothing of a report but the number of what it hid. -/
theorem lintSource_of_idle_or_unbounded (path source : String) (config : Config) :
    lintSource path source (config.without (·.NamesUnknownRule)) =
        lintSource path source config ∧
      (suspicions config).filter (·.doubtsRule) =
        (config.suppressions.filter (·.NamesUnknownRule)).map (fun e =>
          .unknownSuppressedRule e.rule e.file) ∧
      lintSource path source (config.without (·.NamesIdleValue)) =
        lintSource path source config ∧
      ((∃ e ∈ config.suppressions, e.isUnbounded = true) →
        (lintSource path source config).diagnostics = [] ∧
          (lintSource path source config).errorCount = 0 ∧
          (lintSource path source config).suppressed =
            (diagnose config.settings (.parse path source)).length) := by
  simp only [lintSource_eq_retain]
  refine ⟨?_, filter_doubtsRule_suspicions config, ?_, fun h => ?_⟩
  · refine retain_without (fun e he d hd => ?_) path
    exact hides_eq_false_of_unknownRule he (rule_and_value_of_mem_diagnose hd).1
  · refine retain_without (fun e he d hd => ?_) path
    exact hides_eq_false_of_idleValue he (rule_and_value_of_mem_diagnose hd).2
  · exact retain_of_isUnbounded h path _

/-- A misspelled rule, a value for a rule that has none, and an entry with a reason only. -/
theorem lintSource_of_idle_or_unbounded_legacy :
    let config : Config :=
      ⟨{}, [{ rule := "types-have-description" },
        { rule := "invalid-graphql-schema", value := "anything" }, { reason := "legacy" }]⟩
    (config.without (·.NamesUnknownRule)).suppressions.length = 2 ∧
      (config.without (·.NamesIdleValue)).suppressions.length = 2 ∧
      (∃ e ∈ config.suppressions, e.isUnbounded = true) ∧
      (lintSource "schema.graphql" "type User" config).diagnostics = [] := by
  intro config
  have hunbounded : ∃ e ∈ config.suppressions, e.isUnbounded = true := by decide
  exact ⟨by decide, by decide, hunbounded,
    ((lintSource_of_idle_or_unbounded _ _ config).2.2.2 hunbounded).1⟩

end SchemaLint
