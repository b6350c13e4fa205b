import Schemata.Proofs.Rule.Agreement

/-!
# What settings have a say in

Which rules run decides what is reported, and which ones only warn decides how severe it is. Neither
has a part in anything else: what a rule finds does not depend on severities, nor on the other rules
that run, but for a default that is assigned twice.
-/

namespace Schemata

/-- Whether two diagnostics differ at most in their severity. -/
structure Diagnostic.SaysTheSame (d e : Diagnostic) : Prop where
  kind : d.kind = e.kind
  file : d.file = e.file
  span : d.span = e.span
  message : d.message = e.message
  related : d.related = e.related
  hints : d.hints = e.hints

/-! ## Reports with their rules -/

/-- What has been reported, each report with the rule that has made it, once the enabled rules have
run on a file. -/
def attributeFile (w : Workspace) (settings : Settings) (made : List (Rule × Diagnostic))
    (f : FileScope) :
    List (Rule × Diagnostic) :=
  settings.enabledRules.foldl
    (fun made r => made ++ (r.reports (settings.context w f (made.map (·.2)) r)).map
      fun d => (r, d)) made

/-- What the enabled rules report on a workspace, each report with the rule that makes it. -/
def attributed (w : Workspace) (settings : Settings) : List (Rule × Diagnostic) :=
  w.files.foldl (attributeFile w settings) []

variable {w : Workspace} {f : FileScope} {c d : Settings} {r : Rule}

/-- Step by step, the reports are those that analysis makes. -/
theorem map_snd_foldl_reports (rules : List Rule) (made : List (Rule × Diagnostic)) :
    (rules.foldl (fun xs r =>
        xs ++ (r.reports (c.context w f (xs.map (·.2)) r)).map fun d => (r, d)) made).map (·.2) =
      rules.foldl (fun reported r => r.check (c.context w f reported r)) (made.map (·.2)) := by
  induction rules generalizing made with
  | nil => rfl
  | cons r rules ih =>
    rw [List.foldl_cons, List.foldl_cons, ih, List.map_append, List.map_map]
    exact congrArg (fun ds => rules.foldl _ (made.map (·.2) ++ ds)) (List.map_id _)

/-- Without the rules the attributed reports are the reports of the analysis. -/
theorem map_snd_attributed (w : Workspace) (settings : Settings) :
    (attributed w settings).map (·.2) = analyze w settings := by
  have hfiles : ∀ (files : List FileScope) (made : List (Rule × Diagnostic)),
      (files.foldl (attributeFile w settings) made).map (·.2) =
        files.foldl (analyzeFile w settings) (made.map (·.2)) := by
    intro files
    induction files with
    | nil => exact fun _ => rfl
    | cons f files ih =>
      intro made
      rw [List.foldl_cons, List.foldl_cons, ih, attributeFile, map_snd_foldl_reports, analyzeFile]
  exact hfiles w.files []

/-- What rules report in all is what each one reports by itself. -/
theorem attributed_eq_flatMap (w : Workspace) (settings : Settings) :
    attributed w settings = w.files.flatMap fun f => settings.enabledRules.flatMap fun r =>
      (r.reports (settings.context w f [] r)).map fun d => (r, d) := by
  have hfile : attributeFile w settings = fun made f =>
      made ++ settings.enabledRules.flatMap fun r =>
      (r.reports (settings.context w f [] r)).map fun d => (r, d) := by
    funext made f
    simp only [attributeFile, reports_context, List.foldl_append_eq_append, List.flatMap_def]
  rw [attributed, hfile, List.foldl_append_eq_append, List.nil_append, List.flatMap_def]

/-! ## Severities -/

namespace Rule

/-- A rule is known by its key. -/
theorem key_inj {q r : Rule} : q.key = r.key ↔ q = r := by
  refine ⟨fun h => ?_, fun h => by rw [h]⟩
  have hkey := ofKey?_key q
  rwa [h, ofKey?_key, Option.some.injEq, eq_comm] at hkey

theorem saysTheSame_reweigh (severity : Severity) (found : Diagnostic) :
    found.SaysTheSame (reweigh severity found) := by
  rw [reweigh]
  split <;> constructor <;> rfl

/-- Under any two severities a rule says the same. -/
theorem forall₂_reports_saysTheSame {a b : Context} (h : a.Agree b) (r : Rule) :
    List.Forall₂ Diagnostic.SaysTheSame (r.reports a) (r.reports b) := by
  rw [reports_eq_map_reweigh h, List.forall₂_map_right_iff, List.forall₂_same]
  exact fun found _ => saysTheSame_reweigh _ found

/-- A report is a warning if the rule only warns, unless it is on a reference. -/
theorem severity_of_mem_reports {a : Context} {found : Diagnostic} (hfound : found ∈ r.reports a) :
    found.severity = .warning ↔ a.severity = .warning ∧ found.kind.isReferenceFailure = false := by
  rw [(isReport_of_mem_reports r found hfound).severity_eq]
  split
  · next hk => simp [hk]
  · next hk => simp [hk]

end Rule

/-- A rule is a warning exactly when the settings list it among the warnings. -/
theorem severity_eq_warning_iff : c.severity r = .warning ↔ r.key ∈ c.warnings := by
  rw [Settings.severity, ← List.contains_iff_mem]
  split <;> simp_all

theorem enabledRules_eq (h : ∀ r, c.enables r = d.enables r) : c.enabledRules = d.enabledRules :=
  List.filter_congr fun r _ => h r

/-- Settings under which the same rules run differ in severities only. -/
theorem forall₂_saysTheSame (w : Workspace) (h : ∀ r, c.enables r = d.enables r) :
    List.Forall₂ Diagnostic.SaysTheSame (analyze w c) (analyze w d) := by
  rw [analyze_eq_flatMap, analyze_eq_flatMap, ← enabledRules_eq h]
  refine List.rel_flatMap (R := Eq) (List.forall₂_refl w.files) ?_
  rintro f _ rfl
  refine List.rel_flatMap (R := Eq) (List.forall₂_refl c.enabledRules) ?_
  rintro r _ rfl
  have hagree : (c.context w f [] r).Agree (d.context w f [] r) :=
    Rule.agree_of_enabled w f (by rw [enabledRules_eq h])
  exact Rule.forall₂_reports_saysTheSame hagree r

/-- A report is a warning if its rule only warns, unless it is on a reference. -/
theorem severity_of_mem_attributed {x : Rule × Diagnostic} (hx : x ∈ attributed w c) :
    x.2.severity = .warning ↔ x.1.key ∈ c.warnings ∧ x.2.kind ≠ .typeNotFound ∧
      x.2.kind ≠ .needAlias := by
  rw [attributed_eq_flatMap] at hx
  obtain ⟨f, -, hx⟩ := List.mem_flatMap.1 hx
  obtain ⟨r, -, hx⟩ := List.mem_flatMap.1 hx
  obtain ⟨found, hfound, rfl⟩ := List.mem_map.1 hx
  rw [Rule.severity_of_mem_reports hfound, ← Bool.not_eq_true,
    Diagnostic.Kind.isReferenceFailure_iff, not_or]
  exact and_congr_left fun _ => severity_eq_warning_iff

/-! ## Rules that do not run -/

namespace Settings

/-- Disabling one rule leaves the others as they were. -/
theorem enables_disable (q : Rule) : (c.disable r).enables q = (decide (q ≠ r) && c.enables q) := by
  rw [enables, enables, disable, List.contains_append, Bool.not_or, Bool.and_comm]
  congr 1
  by_cases h : q = r
  · simp [h]
  · simp [h, Rule.key_inj]

theorem enabledRules_disable : (c.disable r).enabledRules = c.enabledRules.filter (· ≠ r) := by
  rw [enabledRules, enabledRules, List.filter_filter]
  exact List.filter_congr fun q _ => enables_disable q

end Settings

/-- Out of what some rules have found, a choice of rules picks what they have found. -/
theorem filter_flatMap_map_mk {α β : Type} (p : α → Bool) (part : α → List β) (l : List α) :
    ((l.flatMap fun a => (part a).map fun b => (a, b)).filter fun x => p x.1) =
      (l.filter p).flatMap fun a => (part a).map fun b => (a, b) := by
  rw [List.filter_flatMap, flatMap_filter]
  refine List.flatMap_congr fun a _ => ?_
  rw [List.filter_map]
  by_cases ha : p a
  · simp [ha, Function.comp_def]
  · simp [ha, Function.comp_def]

/-- Without one more rule, analysis reports all that other rules have reported. -/
theorem attributed_disable (w : Workspace) (c : Settings) (hr : r ≠ .uniqueDefaultValue) :
    attributed w (c.disable r) = (attributed w c).filter (·.1 ≠ r) := by
  have hdefaults : (c.disable r).enabledRules.contains .uniqueDefaultValue =
      c.enabledRules.contains .uniqueDefaultValue := by
    rw [Settings.enabledRules_disable, Bool.eq_iff_iff, List.contains_iff_mem,
      List.contains_iff_mem, List.mem_filter]
    simp [Ne.symm hr]
  have hreports : ∀ f q, Rule.reports q ((c.disable r).context w f [] q) =
      q.reports (c.context w f [] q) := by
    intro f q
    have hagree : ((c.disable r).context w f [] q).Agree (c.context w f [] q) :=
      Rule.agree_of_enabled w f hdefaults
    exact Rule.reports_congr hagree rfl q
  rw [attributed_eq_flatMap, attributed_eq_flatMap, List.filter_flatMap]
  refine List.flatMap_congr fun f _ => ?_
  simp only [hreports, Settings.enabledRules_disable]
  exact (filter_flatMap_map_mk (fun q => decide (q ≠ r))
    (fun q => q.reports (c.context w f [] q)) _).symm

/-- A workspace of which settings have no say in anything but which reports there are and how severe
they are. -/
structure Workspace.FollowsPolicy (w : Workspace) : Prop where
  attributed : ∀ c, (attributed w c).map (·.2) = analyze w c
  agree : ∀ c d : Settings, (∀ r, c.enables r = d.enables r) →
    List.Forall₂ Diagnostic.SaysTheSame (analyze w c) (analyze w d)
  warnings : ∀ c, ∀ x ∈ Schemata.attributed w c,
    x.2.severity = .warning ↔
      x.1.key ∈ c.warnings ∧ x.2.kind ≠ .typeNotFound ∧ x.2.kind ≠ .needAlias
  /-- Reports that are errors in any case come from resolving references. -/
  references : ∀ c, ∀ x ∈ Schemata.attributed w c,
    x.2.kind = .typeNotFound ∨ x.2.kind = .needAlias →
    ∃ f ∈ w.files, ∃ r ∈ f.references, ∀ severity enabled reported,
      Rule.Context.resolve ⟨w, f, severity, enabled, reported⟩ r = .error x.2
  resolving : ∀ f severity enabled reported r d,
    Rule.Context.resolve ⟨w, f, severity, enabled, reported⟩ r = .error d →
    d.severity = .error ∧ (d.kind = .typeNotFound ∨ d.kind = .needAlias)
  disabled : ∀ (c : Settings) (r : Rule), r ≠ .uniqueDefaultValue →
    Schemata.attributed w (c.disable r) = (Schemata.attributed w c).filter (·.1 ≠ r)

/-- Settings have no say in anything but which reports there are and how severe they are. -/
theorem Workspace.followsPolicy (w : Workspace) : w.FollowsPolicy where
  attributed := map_snd_attributed w
  agree := fun c d h => forall₂_saysTheSame w h
  warnings := fun c x hx => severity_of_mem_attributed hx
  references := by
    intro c x hx hk
    have hmem : x.2 ∈ analyze w c := by
      rw [← map_snd_attributed]
      exact List.mem_map_of_mem hx
    exact resolve_of_mem_analyze hmem (Diagnostic.Kind.isReferenceFailure_iff.2 hk)
  resolving := fun f severity enabled reported r d h =>
    ⟨Rule.Context.severity_of_resolve_eq_error h,
      Diagnostic.Kind.isReferenceFailure_iff.1
        (Rule.Context.isReferenceFailure_of_resolve_eq_error h)⟩
  disabled := fun c r hr => attributed_disable w c hr

namespace Sample

def doubled : Workspace :=
  let place : Span := ⟨⟨1, 1⟩, ⟨1, 9⟩⟩
  let field : FieldDecl :=
    ⟨⟨"key", place⟩, none, some (.mk ⟨"Key", none, place⟩ false [] place), [], [], place⟩
  let file : FileRef := ⟨"app", "main.nex"⟩
  ⟨[⟨file, [], [⟨file, ⟨⟨"Door", place⟩, .struct, none, [field, field], [], [], [], place⟩⟩], []⟩]⟩

/-- Settings that make warnings of the reports on names and on types of fields. -/
def lenient : Settings :=
  { Settings.standard with warnings := ["unique-field-name", "valid-field-type"] }

/-- Only the report on names becomes a warning, and it is all that goes where that rule does not
run. -/
theorem followsPolicy_doubled :
    doubled.FollowsPolicy ∧
      (attributed doubled lenient).map (fun x => (x.1, x.2.kind, x.2.severity)) =
        [(.uniqueFieldName, .duplicatedFieldName, .warning),
          (.validFieldType, .typeNotFound, .error), (.validFieldType, .typeNotFound, .error)] ∧
      (attributed doubled (lenient.disable .uniqueFieldName)).map
          (fun x => (x.1, x.2.kind, x.2.severity)) =
        [(.validFieldType, .typeNotFound, .error), (.validFieldType, .typeNotFound, .error)] :=
  ⟨doubled.followsPolicy, rfl, rfl⟩

end Sample

end Schemata
