import Schemata.Compilation
import Schemata.Proofs.Rule.Acceptance
import Schemata.Proofs.Rule.Agreement

/-!
# Valid compilations

In a compilation that is valid, rules that the settings enforce report nothing, and neither does
linking: the workspace holds just what the sources say. Settings that hold good leave the required
rules on, as errors, so that these always are enforced, and every type in the workspace is accepted.
-/

/-!
## What linking reports

Whatever linking reports is an error.
-/

namespace Schemata.Workspace

variable {w : Workspace}

/-- Whatever is said about an import is an error. -/
theorem areErrors_acceptUses {file : FileRef} {accepted : List Import} {uses : List UseDecl} :
    AreErrors (w.acceptUses file accepted uses).2 := by
  induction uses generalizing accepted with
  | nil => exact .nil
  | cons u rest ih =>
    rw [acceptUses]
    split
    · exact ih
    · next h => exact AreErrors.cons_iff.2 ⟨(isError_of_acceptUse h).1, ih⟩

/-- Whatever is said about a collision is an error. -/
theorem areErrors_collisionsAfter {f : FileScope} {seen rest : List (Import × Symbol)} :
    AreErrors (collisionsAfter f seen rest) := by
  induction rest generalizing seen with
  | nil => exact .nil
  | cons b rest ih =>
    obtain ⟨i, s⟩ := b
    rw [collisionsAfter]
    refine AreErrors.append_iff.2 ⟨?_, ih⟩
    split <;> simp [ownCollision, importCollision]

/-- Linking reports errors. -/
theorem areErrors_link {sources : List SourceFile} {ds : List Diagnostic}
    (h : link sources = .ok (w, ds)) : AreErrors ds := by
  obtain ⟨a, doubles, ha, -, rfl⟩ := link_eq_ok_iff.1 h
  obtain ⟨-, -, -, rfl⟩ := assemble_eq_ok_iff.1 ha
  simp only [AreErrors.append_iff, AreErrors.map_iff, AreErrors.flatMap_iff]
  refine ⟨⟨⟨?_, ?_⟩, ?_⟩, ?_⟩
  · exact fun p _ => rfl
  · exact AreErrors.flatMap_iff.2 fun f _ => areErrors_acceptUses
  · exact fun c _ => rfl
  · exact fun f _ => areErrors_collisionsAfter

end Schemata.Workspace

/-! ## Rules in force -/

namespace Schemata

namespace Settings

variable {s : Settings}

/-- Settings hold good if they name rules that are not required. -/
theorem validate_eq_ok_iff :
    s.validate = .ok () ↔
      ∀ key ∈ s.disabled ++ s.warnings, ∃ r, Rule.ofKey? key = some r ∧ r.isRequired = false := by
  unfold validate
  simp only
  split
  · next key h =>
    simp only [reduceCtorEq, false_iff, not_forall]
    refine ⟨key, List.mem_of_find?_eq_some h, ?_⟩
    have hnone := List.find?_some h
    rintro ⟨r, hr, -⟩
    simp [hr] at hnone
  · next hknown =>
    rw [List.find?_eq_none] at hknown
    split
    · next key h =>
      simp only [reduceCtorEq, false_iff, not_forall]
      refine ⟨key, List.mem_of_find?_eq_some h, ?_⟩
      have hrequired := List.find?_some h
      rintro ⟨r, hr, hr'⟩
      simp [hr, hr'] at hrequired
    · next hfree =>
      rw [List.find?_eq_none] at hfree
      simp only [true_iff]
      intro key hkey
      cases hr : Rule.ofKey? key with
      | none => exact absurd (by simp [hr]) (hknown key hkey)
      | some r => exact ⟨r, rfl, by simpa [hr] using hfree key hkey⟩

/-- Settings that hold good do not name a required rule. -/
theorem key_notMem_of_isRequired (h : s.validate = .ok ()) {r : Rule} (hr : r.isRequired) :
    r.key ∉ s.disabled ++ s.warnings := by
  intro hmem
  obtain ⟨r', hr', hfree⟩ := validate_eq_ok_iff.1 h r.key hmem
  rw [Rule.ofKey?_key, Option.some.injEq] at hr'
  simp [← hr', hr] at hfree

theorem mem_enabledRules_of_isRequired (h : s.validate = .ok ()) {r : Rule} (hr : r.isRequired) :
    r ∈ s.enabledRules := by
  have hkey := key_notMem_of_isRequired h hr
  simp only [List.mem_append, not_or] at hkey
  refine List.mem_filter.2 ⟨by cases r <;> decide, ?_⟩
  simpa [enables] using hkey.1

/-- Validated settings leave a required rule at the severity of an error. -/
theorem severity_of_isRequired (h : s.validate = .ok ()) {r : Rule} (hr : r.isRequired) :
    s.severity r = .error := by
  have hkey := key_notMem_of_isRequired h hr
  simp only [List.mem_append, not_or] at hkey
  simp [severity, hkey.2]

/-- A rule that runs and whose reports, be they errors or warnings, stand in the way of
a snapshot. -/
structure Enforces (s : Settings) (r : Rule) : Prop where
  enabled : r ∈ s.enabledRules
  fatal : s.severity r = .error ∨ s.denyWarnings

theorem enforces_of_isRequired (h : s.validate = .ok ()) {r : Rule} (hr : r.isRequired) :
    s.Enforces r where
  enabled := mem_enabledRules_of_isRequired h hr
  fatal := .inl (severity_of_isRequired h hr)

end Settings

/-- Whether rules that are enforced report nothing on the files of a workspace. -/
def Workspace.Passes (w : Workspace) (settings : Settings) : Prop :=
  ∀ f ∈ w.files, ∀ r, settings.Enforces r → r.reports (settings.context w f [] r) = []

namespace Compilation

variable {settings : Settings} {sources : List SourceFile} {c : Compilation}

/-- A compilation is the link of the sources with what linker and rules report, in order. -/
theorem ofSources_eq_ok_iff :
    ofSources settings sources = .ok c ↔
      settings.validate = .ok () ∧ ∃ w ds, Workspace.link sources = .ok (w, ds) ∧
        c = ⟨settings, w, ds, Diagnostic.sort (ds ++ analyze w settings)⟩ := by
  simp only [ofSources, bind_eq_ok_iff, pure_eq_ok_iff]
  constructor
  · rintro ⟨⟨⟩, hvalid, ⟨w, ds⟩, hlink, rfl⟩
    exact ⟨hvalid, w, ds, hlink, rfl⟩
  · rintro ⟨hvalid, w, ds, hlink, rfl⟩
    exact ⟨(), hvalid, (w, ds), hlink, rfl⟩

theorem validate_of_ofSources (h : ofSources settings sources = .ok c) :
    settings.validate = .ok () :=
  (ofSources_eq_ok_iff.1 h).1

/-- Errors that a valid compilation reports are none. -/
theorem eq_nil_of_isValid (hv : c.isValid) {ds : List Diagnostic} (hds : AreErrors ds)
    (hsub : ∀ d ∈ ds, d ∈ c.diagnostics) : ds = [] := by
  simp only [isValid, Bool.and_eq_true, Bool.not_eq_true', List.any_eq_false] at hv
  exact List.eq_nil_iff_forall_not_mem.2 fun d hd => hv.1 d (hsub d hd) (hds d hd)

/-- In a valid compilation linking reports nothing. -/
theorem link_of_isValid (h : ofSources settings sources = .ok c) (hv : c.isValid) :
    Workspace.link sources = .ok (c.workspace, []) := by
  obtain ⟨-, w, ds, hlink, rfl⟩ := ofSources_eq_ok_iff.1 h
  have hnil : ds = [] := eq_nil_of_isValid hv (Workspace.areErrors_link hlink) fun d hd => by
    rw [Diagnostic.sort, List.mem_mergeSort]
    exact List.mem_append_left _ hd
  rw [hlink, hnil]

/-- The workspace of a valid compilation holds every declaration of the sources. -/
theorem mirrors_of_isValid (h : ofSources settings sources = .ok c) (hv : c.isValid) :
    c.workspace.Mirrors sources := Workspace.mirrors_of_link (link_of_isValid h hv)

/-- In a valid compilation under settings that deny warnings nothing is reported. -/
theorem diagnostics_eq_nil_of_denyWarnings (hv : c.isValid) (hdeny : c.settings.denyWarnings) :
    c.diagnostics = [] := by
  simp only [isValid, hdeny, Bool.true_and, Bool.and_eq_true, Bool.not_eq_true',
    List.any_eq_false] at hv
  refine List.eq_nil_iff_forall_not_mem.2 fun d hd => ?_
  cases hseverity : d.severity with
  | error => exact hv.1 d hd (by simp [Diagnostic.isError, hseverity])
  | warning => exact hv.2 d hd (by simp [Diagnostic.isWarning, hseverity])

/-- In a valid compilation rules that are enforced report nothing. -/
theorem reports_eq_nil_of_enforces (h : ofSources settings sources = .ok c) (hv : c.isValid)
    {f : FileScope} (hf : f ∈ c.workspace.files) {r : Rule} (hr : settings.Enforces r) :
    r.reports (settings.context c.workspace f [] r) = [] := by
  obtain ⟨-, w, ds, -, rfl⟩ := ofSources_eq_ok_iff.1 h
  have hsub : ∀ d ∈ r.reports (settings.context w f [] r),
      d ∈ Diagnostic.sort (ds ++ analyze w settings) := by
    intro d hd
    rw [Diagnostic.sort, List.mem_mergeSort, analyze_eq_flatMap]
    refine List.mem_append_right _ (List.mem_flatMap.2 ⟨f, hf, List.mem_flatMap.2 ⟨r, ?_, hd⟩⟩)
    exact hr.enabled
  rcases hr.fatal with hseverity | hdeny
  · exact eq_nil_of_isValid hv (Rule.areErrors_reports hseverity r) hsub
  · have hnone : Diagnostic.sort (ds ++ analyze w settings) = [] :=
      diagnostics_eq_nil_of_denyWarnings hv hdeny
    rw [hnone] at hsub
    exact List.eq_nil_iff_forall_not_mem.2 fun d hd => List.not_mem_nil (hsub d hd)

/-- Where rules that are enforced report nothing, nothing that is reported stands in the way of a
snapshot. -/
theorem not_fatal_of_mem_analyze {w : Workspace} {d : Diagnostic}
    (hsettings : settings.validate = .ok ())
    (hpasses : w.Passes settings) (hd : d ∈ analyze w settings) :
    d.isError = false ∧ settings.denyWarnings = false := by
  rw [analyze_eq_flatMap] at hd
  obtain ⟨f, hf, hd⟩ := List.mem_flatMap.1 hd
  obtain ⟨r, hr, hd⟩ := List.mem_flatMap.1 hd
  have hnot : ¬settings.Enforces r := fun henforces => by
    rw [hpasses f hf r henforces] at hd
    cases hd
  have hfatal : ¬(settings.severity r = .error ∨ settings.denyWarnings = true) :=
    fun h => hnot ⟨hr, h⟩
  rw [not_or, Bool.not_eq_true] at hfatal
  have hfree : r.isRequired = false :=
    Bool.eq_false_iff.2 fun hrequired => hnot (Settings.enforces_of_isRequired hsettings hrequired)
  have hwarning : settings.severity r = .warning := by
    cases h : settings.severity r with
    | error => exact absurd h hfatal.1
    | warning => rfl
  exact ⟨Rule.isError_of_mem_reports_warning hfree hwarning hd, hfatal.2⟩

/-- A compilation is valid exactly if linking reports nothing, and neither do the rules that are
enforced. -/
theorem isValid_iff (h : ofSources settings sources = .ok c) :
    c.isValid ↔ Workspace.link sources = .ok (c.workspace, []) ∧ c.workspace.Passes settings := by
  refine ⟨fun hv =>
    ⟨link_of_isValid h hv, fun f hf r hr => reports_eq_nil_of_enforces h hv hf hr⟩, ?_⟩
  rintro ⟨hclean, hpasses⟩
  obtain ⟨hsettings, w, ds, hlink, rfl⟩ := ofSources_eq_ok_iff.1 h
  obtain rfl : ds = [] := (Prod.mk.inj (Except.ok.inj (hlink.symm.trans hclean))).2
  have hmem : ∀ d ∈ Diagnostic.sort ([] ++ analyze w settings),
      d.isError = false ∧ settings.denyWarnings = false := by
    intro d hd
    rw [Diagnostic.sort, List.mem_mergeSort] at hd
    exact not_fatal_of_mem_analyze hsettings hpasses hd
  simp only [isValid, Bool.and_eq_true, Bool.not_eq_true', List.any_eq_false, Bool.not_eq_true]
  refine ⟨fun d hd => (hmem d hd).1, Bool.and_eq_false_imp.2 fun hdeny =>
    List.any_eq_false.2 fun d hd => ?_⟩
  exact absurd (hmem d hd).2 (by simp [hdeny])

/-- In a valid compilation every type is accepted. -/
theorem isAccepted_of_isValid (h : ofSources settings sources = .ok c) (hv : c.isValid) :
    c.workspace.IsAccepted := fun _ hf _ hs =>
  Rule.accepted_of_reports_eq_nil (fun _ hr =>
    reports_eq_nil_of_enforces h hv hf
      (Settings.enforces_of_isRequired (validate_of_ofSources h) hr)) hs

theorem snapshot_of_isValid (hv : c.isValid) :
    c.snapshot = c.workspace.snapshot c.settings.snapshotVersion := by
  rw [snapshot, if_pos hv]

/-- Only a valid compilation has a snapshot. -/
theorem isValid_of_snapshot {s : Snapshot} (h : c.snapshot = .ok s) : c.isValid := by
  rw [snapshot] at h
  split at h
  · next hv => exact hv
  · cases h

/-- What it takes for sources to yield a snapshot. -/
theorem exists_snapshot_iff {s : Snapshot} :
    (∃ c, ofSources settings sources = .ok c ∧ c.snapshot = .ok s) ↔
      settings.validate = .ok () ∧ ∃ w, Workspace.link sources = .ok (w, []) ∧ w.Passes settings ∧
        w.snapshot settings.snapshotVersion = .ok s := by
  constructor
  · rintro ⟨c, hc, hs⟩
    have hv := isValid_of_snapshot hs
    rw [snapshot_of_isValid hv] at hs
    obtain ⟨hlink, hpasses⟩ := (isValid_iff hc).1 hv
    obtain ⟨hsettings, w, ds, -, rfl⟩ := ofSources_eq_ok_iff.1 hc
    exact ⟨hsettings, w, hlink, hpasses, hs⟩
  · rintro ⟨hsettings, w, hlink, hpasses, hs⟩
    have hc := ofSources_eq_ok_iff.2 ⟨hsettings, w, [], hlink, rfl⟩
    have hv := (isValid_iff hc).2 ⟨hlink, hpasses⟩
    exact ⟨_, hc, (snapshot_of_isValid hv).trans hs⟩

end Compilation

end Schemata
