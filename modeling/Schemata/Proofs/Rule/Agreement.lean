import Schemata.Proofs.Rule.Errors
import Schemata.Proofs.Scope.Rearrangement

/-!
# Rules look at references only

What a rule reports on a file depends on the rest of the workspace only through what its references
resolve to. It does not depend on what has been reported so far, and the severity of the rule is put
on the reports and has no other part in them.
-/

namespace Schemata.Rule

/-- A report with the severity of a rule, unless it is on a reference. -/
def reweigh (severity : Severity) (d : Diagnostic) : Diagnostic :=
  if d.kind.isReferenceFailure then d else d.withSeverity severity

@[simp] theorem reweigh_relate (severity : Severity) (d : Diagnostic) (file : FileRef) (span : Span)
    (message : String) :
    reweigh severity (d.relate file span message) =
      (reweigh severity d).relate file span message := by
  rw [reweigh, reweigh, apply_ite (fun e : Diagnostic => e.relate file span message)]
  rfl

@[simp] theorem reweigh_addHint (severity : Severity) (d : Diagnostic) (hint : Option String) :
    reweigh severity (d.addHint hint) = (reweigh severity d).addHint hint := by
  rw [reweigh, reweigh, apply_ite (fun e : Diagnostic => e.addHint hint)]
  rfl

/-- A failed reference keeps the severity it was reported with. -/
theorem reweigh_of_resolve_eq_error {c : Context} {r : TypeRef} {d : Diagnostic}
    (h : c.resolve r = .error d) (severity : Severity) : reweigh severity d = d :=
  if_pos (Context.isReferenceFailure_of_resolve_eq_error h)

/-- A reference that is looked up denotes the type that it resolves to. -/
theorem Context.lookup?_eq_toOption (c : Context) (r : TypeRef) :
    c.lookup? r = (c.resolve r).toOption := by
  rw [Context.lookup?, Context.resolve]
  rcases c.workspace.findRef c.scope r with _ | ⟨s, _ | ⟨t, rest⟩⟩
  · rfl
  · rfl
  · rfl

/-- Whether two contexts show the same declarations, and all references resolve to the same in both.
Of the rules that run, the only one that another rule asks for is the one on defaults. -/
structure Context.Agree (c c' : Context) : Prop where
  file : c.file = c'.file
  symbols : c.scope.symbols = c'.scope.symbols
  defaults : c.enabled.contains .uniqueDefaultValue = c'.enabled.contains .uniqueDefaultValue
  resolve : ∀ r, c.resolve r = c'.resolve r

namespace Context.Agree

variable {c c' : Context}

/-- What a rule reports in one context it reports in the other, at the severity there. -/
theorem reweigh_report (h : c.Agree c') {kind : Diagnostic.Kind}
    (hk : kind.isReferenceFailure = false) (span : Span) (detail : Option String) :
    reweigh c'.severity (c.report kind span detail) = c'.report kind span detail := by
  have hreport : (c.report kind span detail).withSeverity c'.severity =
      c'.report kind span detail := by
    rw [Context.report, Context.report, h.file]
    rfl
  exact (if_neg (Bool.eq_false_iff.1 hk)).trans hreport

theorem lookup? (h : c.Agree c') (r : TypeRef) : c.lookup? r = c'.lookup? r := by
  rw [Context.lookup?_eq_toOption, Context.lookup?_eq_toOption, h.resolve]

/-! ## Bases and fields -/

theorem baseReports (h : c.Agree c') (s : Symbol) :
    baseReports c' s = (baseReports c s).map (reweigh c'.severity) := by
  rw [Rule.baseReports, Rule.baseReports]
  cases s.decl.base with
  | none => rfl
  | some base =>
    simp only [h.resolve]
    split
    · simp [h.reweigh_report]
    · cases hresolve : c'.resolve base with
      | error d => simp [reweigh_of_resolve_eq_error hresolve]
      | ok target =>
        simp only [apply_ite (List.map _)]
        simp [h.reweigh_report]

theorem fieldNameReports (h : c.Agree c') (s : Symbol) :
    fieldNameReports c' s = (fieldNameReports c s).map (reweigh c'.severity) := by
  simp [Rule.fieldNameReports, h.reweigh_report, h.file]

theorem shapeReport? (h : c.Agree c') (m : Modifier) (f : FieldDecl) :
    shapeReport? c' m f = (shapeReport? c m f).map (reweigh c'.severity) := by
  unfold Rule.shapeReport?
  split <;> simp [h.reweigh_report]

theorem unionReport? (h : c.Agree c') (m : Modifier) (f : FieldDecl) :
    unionReport? c' m f = (unionReport? c m f).map (reweigh c'.severity) := by
  unfold Rule.unionReport?
  split
  · simp only [apply_ite (Option.map _)]
    simp [h.reweigh_report]
  · rfl

/-! ## Indexes -/

theorem writtenIndexReport? (h : c.Agree c') (isEnum isFirst : Bool)
    (expected : Option Int64) (f : FieldDecl)
    (index : Int64) : writtenIndexReport? c' isEnum isFirst expected f index =
      (writtenIndexReport? c isEnum isFirst expected f index).map (reweigh c'.severity) := by
  cases expected <;>
    simp [Rule.writtenIndexReport?, apply_ite (Option.map _), h.reweigh_report]

/-- The severity has no part in which indexes are taken, so both passes through the fields go on
alike. -/
theorem indexReportsAfter (h : c.Agree c') (isEnum isFirst : Bool) (previous : Option Int64)
    (taken : List (Int64 × Span)) (l : List (FieldDecl × Option Int64)) :
    indexReportsAfter c' isEnum isFirst previous taken l =
      (indexReportsAfter c isEnum isFirst previous taken l).map (reweigh c'.severity) := by
  induction l generalizing isFirst previous taken with
  | nil => rfl
  | cons a l ih =>
    obtain ⟨f, _ | index⟩ := a
    · simp [Rule.indexReportsAfter, apply_ite (List.map _), ih, h.reweigh_report]
    · have hwritten : (if f.index.isSome then
          Rule.writtenIndexReport? c' isEnum isFirst (nextIndex previous) f index else none) =
          (if f.index.isSome then
            Rule.writtenIndexReport? c isEnum isFirst (nextIndex previous) f index else none).map
              (reweigh c'.severity) := by
        rw [apply_ite (Option.map _), h.writtenIndexReport?]
        rfl
      simp only [Rule.indexReportsAfter, hwritten]
      cases (if f.index.isSome then
          Rule.writtenIndexReport? c isEnum isFirst (nextIndex previous) f index else none) with
      | some report => simp [ih]
      | none =>
        cases taken.lookup index with
        | some first => simp [ih, h.reweigh_report, h.file]
        | none => simp [ih]

theorem indexReports (h : c.Agree c') (s : Symbol) :
    indexReports c' s = (indexReports c s).map (reweigh c'.severity) :=
  h.indexReportsAfter _ _ _ _ _

/-! ## Value types -/

theorem strayArguments (h : c.Agree c') (t : TypeExpr) (name : String) :
    strayArguments c' t name = (strayArguments c t name).map (reweigh c'.severity) := by
  simp [Rule.strayArguments, apply_ite (List.map _), h.reweigh_report]

theorem typeReports (h : c.Agree c') (s : Symbol) (t : TypeExpr) :
    typeReports c' s t = (typeReports c s t).map (reweigh c'.severity) := by
  rw [Rule.typeReports, Rule.typeReports]
  cases t.primitive? with
  | some p => simp only [apply_ite (List.map _), h.strayArguments, List.map_nil]
  | none =>
    simp only [h.resolve, h.strayArguments, List.map_append]
    congr 1
    cases hresolve : c'.resolve t.ref with
    | error d => simp [reweigh_of_resolve_eq_error hresolve]
    | ok target => simp [apply_ite (List.map _), h.reweigh_report]

theorem nodesOf (h : c.Agree c') (p : Primitive) : nodesOf c' p = nodesOf c p := by
  rw [Rule.nodesOf, Rule.nodesOf, h.symbols]

theorem reweigh_wrongArity (h : c.Agree c') (t : TypeExpr) (p : Primitive) :
    reweigh c'.severity (wrongArity c t p) = wrongArity c' t p :=
  h.reweigh_report rfl _ _

theorem listReports (h : c.Agree c') (t : TypeExpr) :
    listReports c' t = (listReports c t).map (reweigh c'.severity) := by
  unfold Rule.listReports
  split
  · split <;> simp [h.reweigh_report]
  · simp [h.reweigh_wrongArity]

theorem mapReports (h : c.Agree c') (t : TypeExpr) :
    mapReports c' t = (mapReports c t).map (reweigh c'.severity) := by
  unfold Rule.mapReports
  split
  · rw [List.map_append, apply_ite (List.map _)]
    congr 1
    · simp [h.reweigh_report]
    · split <;> simp [h.reweigh_report]
  · simp [h.reweigh_wrongArity]

/-! ## Defaults and annotations -/

theorem unknownDefaultReports (h : c.Agree c') (s : Symbol) :
    unknownDefaultReports c' s = (unknownDefaultReports c s).map (reweigh c'.severity) := by
  simp [Rule.unknownDefaultReports, h.reweigh_report]

theorem repeatedKeyReports (h : c.Agree c') (kind : Diagnostic.Kind)
    (hk : kind.isReferenceFailure = false) (block : List Assignment) :
    repeatedKeyReports c' kind block = (repeatedKeyReports c kind block).map
      (reweigh c'.severity) := by
  simp [Rule.repeatedKeyReports, h.reweigh_report hk, h.file]

theorem conformsToReference (h : c.Agree c') : conformsToReference c = conformsToReference c' := by
  funext r l
  simp only [Rule.conformsToReference, h.lookup?]

mutual

theorem conforms (h : c.Agree c') : ∀ (l : Literal) (t : TypeExpr), conforms c l t = conforms c' l t
  | .list items, t => by
    have hitems : ∀ element, Rule.itemsConform c element items =
        Rule.itemsConform c' element items :=
      fun element => itemsConform h element items
    simp only [Rule.conforms, h.conformsToReference, hitems]
  | .map entries, t => by
    have hentries : ∀ key value,
        Rule.entriesConform c key value entries = Rule.entriesConform c' key value entries :=
      fun key value => entriesConform h key value entries
    simp only [Rule.conforms, h.conformsToReference, hentries]
  | .string _, _ | .int _, _ | .float _, _ | .bool _, _ => by
    simp only [Rule.conforms, h.conformsToReference]

theorem itemsConform (h : c.Agree c') (element : TypeExpr) :
    ∀ items : List Literal, itemsConform c element items = itemsConform c' element items
  | [] => rfl
  | l :: rest => by
    rw [Rule.itemsConform, Rule.itemsConform, conforms h l, itemsConform h element rest]

theorem entriesConform (h : c.Agree c') (key value : TypeExpr) :
    ∀ entries : List (Literal × Literal),
      entriesConform c key value entries = entriesConform c' key value entries
  | [] => rfl
  | (k, v) :: rest => by
    rw [Rule.entriesConform, Rule.entriesConform, conforms h k, conforms h v,
      entriesConform h key value rest]

end

theorem defaultTypeReport? (h : c.Agree c') (s : Symbol) (a : Assignment) :
    defaultTypeReport? c' s a = (defaultTypeReport? c s a).map (reweigh c'.severity) := by
  simp only [Rule.defaultTypeReport?, h.conforms]
  split
  · rfl
  · simp [apply_ite (Option.map _), h.reweigh_report]

theorem annotationReports (h : c.Agree c') (s : Symbol) :
    annotationReports c' s = (annotationReports c s).map (reweigh c'.severity) := by
  rw [Rule.annotationReports, Rule.annotationReports, List.map_map]
  exact List.map_congr_left fun a _ => (h.reweigh_report rfl _ _).symm

theorem keyBlocks (h : c.Agree c') (d : TypeDecl) : keyBlocks c' d = keyBlocks c d := by
  rw [Rule.keyBlocks, Rule.keyBlocks, h.defaults]

end Context.Agree

/-! ## All rules -/

variable {c c' : Context}

/-- Where declarations and references agree a rule reports the same, each time with its severity. -/
theorem reports_eq_map_reweigh (h : c.Agree c') (r : Rule) :
    r.reports c' = (r.reports c).map (reweigh c'.severity) := by
  cases r with
  | validBaseType =>
    simp only [reports, validBaseTypeReports, h.symbols, funext h.baseReports, List.map_flatMap]
  | uniqueFieldName =>
    simp only [reports, uniqueFieldNameReports, h.symbols, funext h.fieldNameReports,
      List.map_flatMap]
  | fieldIndex =>
    simp only [reports, fieldIndexReports, h.symbols, funext h.indexReports, List.map_flatMap]
  | fieldShape =>
    simp only [reports, fieldShapeReports, h.symbols, h.shapeReport?, List.map_flatMap,
      List.map_filterMap]
  | nonNullableUnionField =>
    simp only [reports, nonNullableUnionFieldReports, h.symbols, h.unionReport?, List.map_flatMap,
      List.map_filterMap]
  | validFieldType =>
    simp only [reports, validFieldTypeReports, h.symbols, funext₂ h.typeReports, List.map_flatMap]
  | validListArguments =>
    simp only [reports, validListArgumentsReports, h.nodesOf, funext h.listReports,
      List.map_flatMap]
  | validMapArguments =>
    simp only [reports, validMapArgumentsReports, h.nodesOf, funext h.mapReports, List.map_flatMap]
  | defaultValueValidField =>
    simp only [reports, defaultValueValidFieldReports, h.symbols, funext h.unknownDefaultReports,
      List.map_flatMap]
  | uniqueDefaultValue =>
    simp only [reports, uniqueDefaultValueReports, h.symbols,
      h.repeatedKeyReports .duplicatedDefaultValue rfl, List.map_flatMap]
  | validDefaultValueType =>
    simp only [reports, validDefaultValueTypeReports, h.symbols, h.defaultTypeReport?,
      List.map_flatMap, List.map_filterMap]
  | validAnnotationValue =>
    simp only [reports, validAnnotationValueReports, h.symbols, funext h.annotationReports,
      List.map_flatMap]
  | assignmentKeyUnique =>
    simp only [reports, assignmentKeyUniqueReports, h.symbols, h.keyBlocks,
      funext (h.repeatedKeyReports .assignmentKeyAlreadyInUse rfl), List.map_flatMap]

/-- A report that already has the severity of its rule keeps it. -/
theorem reweigh_of_mem_reports {r : Rule} {d : Diagnostic} (hd : d ∈ r.reports c) :
    reweigh c.severity d = d := by
  have hseverity := (isReport_of_mem_reports r d hd).severity_eq
  rw [reweigh]
  split
  · rfl
  · next hk =>
    rw [if_neg hk] at hseverity
    rw [← hseverity]
    rfl

/-- A rule of the same severity reports the same where declarations and references agree. -/
theorem reports_congr (h : c.Agree c') (hseverity : c.severity = c'.severity) (r : Rule) :
    r.reports c = r.reports c' := by
  rw [reports_eq_map_reweigh h, ← hseverity, List.map_congr_left fun d hd =>
    reweigh_of_mem_reports hd, List.map_id']

/-- A context shows the same whichever way uses are spelled. -/
theorem agree_normal (w : Workspace) (f : FileScope) (severity severity' : Severity)
    (enabled : List Rule) (reported reported' : List Diagnostic) :
    Context.Agree ⟨w.normal, f.normal, severity, enabled, reported⟩
      ⟨w, f, severity', enabled, reported'⟩ where
  file := rfl
  symbols := rfl
  defaults := rfl
  resolve := fun r => by
    rw [Context.resolve, Context.resolve]
    simp only [Workspace.findRef_normal, Workspace.visibleNames_normal]
    rfl

/-- A context shows the same whatever has been reported, whatever the severity of the rule and
whichever rules run besides the one on defaults. -/
theorem agree_of_enabled (w : Workspace) (f : FileScope) {severity severity' : Severity}
    {enabled enabled' : List Rule} {reported reported' : List Diagnostic}
    (h : enabled.contains .uniqueDefaultValue = enabled'.contains .uniqueDefaultValue) :
    Context.Agree ⟨w, f, severity, enabled, reported⟩ ⟨w, f, severity', enabled', reported'⟩ where
  file := rfl
  symbols := rfl
  defaults := h
  resolve := fun _ => rfl

end Schemata.Rule

namespace Schemata

variable {w : Workspace} {f : FileScope} {settings : Settings}

/-! ## Analysis -/

/-- What has been reported so far has no part in what a rule reports. -/
theorem reports_context (reported : List Diagnostic) (r : Rule) :
    r.reports (settings.context w f reported r) = r.reports (settings.context w f [] r) := by
  have hagree : (settings.context w f reported r).Agree (settings.context w f [] r) :=
    Rule.agree_of_enabled w f rfl
  exact Rule.reports_congr hagree rfl r

theorem analyzeFile_eq_append (reported : List Diagnostic) :
    analyzeFile w settings reported f =
      reported ++ settings.enabledRules.flatMap fun r => r.reports (settings.context w f [] r) := by
  have hcheck : ∀ reported r, Rule.check r (settings.context w f reported r) =
      reported ++ r.reports (settings.context w f [] r) :=
    fun reported r => congrArg (reported ++ ·) (reports_context reported r)
  simp only [analyzeFile, hcheck, List.foldl_append_eq_append, List.flatMap_def]

/-- Analysis reports what each rule reports by itself, file by file and rule by rule. -/
theorem analyze_eq_flatMap (w : Workspace) (settings : Settings) :
    analyze w settings = w.files.flatMap fun f =>
      settings.enabledRules.flatMap fun r => r.reports (settings.context w f [] r) := by
  have hfile : analyzeFile w settings = fun reported f => reported ++
      settings.enabledRules.flatMap fun r => r.reports (settings.context w f [] r) :=
    funext₂ fun reported _ => analyzeFile_eq_append reported
  rw [analyze, hfile, List.foldl_append_eq_append, List.nil_append, List.flatMap_def]

/-- Analysis does not depend on the spelling of uses. -/
theorem analyze_normal (w : Workspace) (settings : Settings) :
    analyze w.normal settings = analyze w settings := by
  have hreports : ∀ (f : FileScope) (r : Rule),
      r.reports (settings.context w.normal f.normal [] r) =
      r.reports (settings.context w f [] r) :=
    fun f r => Rule.reports_congr (Rule.agree_normal w f _ _ _ _ _) rfl r
  simp only [analyze_eq_flatMap, Workspace.files_normal, List.flatMap_map, hreports]

end Schemata

/-!
## Reports on references

A report that a reference denotes nothing, or too much, is what resolving a reference written in the
file leads to: two rules resolve references and report what comes of it, and no other rule makes
such reports.
-/

namespace Schemata

/-- The references that a type writes: to the type that it extends, and to those of its fields. -/
def TypeDecl.references (d : TypeDecl) : List TypeRef :=
  d.base.toList ++ (d.typeNodes.filter (·.primitive?.isNone)).map (·.ref)

/-- The references that the types of a file write. -/
def FileScope.references (f : FileScope) : List TypeRef := f.symbols.flatMap (·.decl.references)

namespace Rule

variable {c : Context} {d : Diagnostic} {s : Symbol} {t : TypeExpr}

/-! ### Rules that resolve references -/

/-- A failed reference among the reports about a base is one of the declaration. -/
theorem resolve_of_mem_baseReports (hd : d ∈ baseReports c s) (hk : d.kind.isReferenceFailure) :
    ∃ r ∈ s.decl.references, c.resolve r = .error d := by
  rw [baseReports] at hd
  split at hd
  · cases hd
  · next base hbase =>
    split at hd
    · obtain rfl := List.mem_singleton.1 hd
      cases hk
    · split at hd
      · next d' hresolve =>
        obtain rfl := List.mem_singleton.1 hd
        refine ⟨base, List.mem_append_left _ ?_, hresolve⟩
        rw [hbase]
        exact List.mem_singleton_self base
      · split at hd
        · cases hd
        · obtain rfl := List.mem_singleton.1 hd
          cases hk

/-- A failed reference among the reports about a type is one of the declaration. -/
theorem resolve_of_mem_typeReports (ht : t ∈ s.decl.typeNodes) (hd : d ∈ typeReports c s t)
    (hk : d.kind.isReferenceFailure) : ∃ r ∈ s.decl.references, c.resolve r = .error d := by
  have hstray : ∀ name, d ∉ strayArguments c t name := fun name hmem => by
    rw [List.mem_singleton.1 (isReport_of_mem_strayArguments d hmem).kind_mem] at hk
    cases hk
  rw [typeReports] at hd
  split at hd
  · split at hd
    · cases hd
    · exact absurd hd (hstray _)
  · next hprimitive =>
    rcases List.mem_append.1 hd with hd | hd
    · exact absurd hd (hstray _)
    · split at hd
      · next d' hresolve =>
        obtain rfl := List.mem_singleton.1 hd
        refine ⟨t.ref, List.mem_append_right _ (List.mem_map_of_mem ?_), hresolve⟩
        exact List.mem_filter.2 ⟨ht, by rw [hprimitive]; rfl⟩
      · split at hd
        · obtain rfl := List.mem_singleton.1 hd
          cases hk
        · cases hd

/-! ### All rules -/

/-- A rule reports a reference only for what resolving it leads to. -/
theorem resolve_of_mem_reports {r : Rule} (hd : d ∈ r.reports c) (hk : d.kind.isReferenceFailure) :
    ∃ ref ∈ c.scope.references, c.resolve ref = .error d := by
  have hscope : ∀ s ∈ c.scope.symbols, (∃ ref ∈ s.decl.references, c.resolve ref = .error d) →
      ∃ ref ∈ c.scope.references, c.resolve ref = .error d := by
    rintro s hs ⟨ref, href, h⟩
    exact ⟨ref, List.mem_flatMap.2 ⟨s, hs, href⟩, h⟩
  have hother : (∀ k ∈ r.kinds, k.isReferenceFailure = false) → ∃ ref ∈ c.scope.references,
      c.resolve ref = .error d :=
    fun h => by
      rw [isReferenceFailure_of_mem_reports h hd] at hk
      cases hk
  cases r with
  | validBaseType =>
    obtain ⟨s, hs, hd⟩ := List.mem_flatMap.1 hd
    exact hscope s hs (resolve_of_mem_baseReports hd hk)
  | validFieldType =>
    obtain ⟨s, hs, hd⟩ := List.mem_flatMap.1 hd
    obtain ⟨t, ht, hd⟩ := List.mem_flatMap.1 hd
    exact hscope s hs (resolve_of_mem_typeReports ht hd hk)
  | _ => exact hother (by decide)

/-- Resolving in two files that show the same comes to the same. -/
theorem Context.resolve_congr {c c' : Context} (hworkspace : c.workspace = c'.workspace)
    (hscope : c.scope = c'.scope) (r : TypeRef) : c.resolve r = c'.resolve r := by
  obtain ⟨w, f, severity, enabled, reported⟩ := c
  obtain rfl : w = c'.workspace := hworkspace
  obtain rfl : f = c'.scope := hscope
  rfl

end Rule

/-- Analysis reports a reference only for what resolving it leads to. -/
theorem resolve_of_mem_analyze {w : Workspace} {settings : Settings} {d : Diagnostic}
    (hd : d ∈ analyze w settings) (hk : d.kind.isReferenceFailure) :
    ∃ f ∈ w.files, ∃ r ∈ f.references, ∀ severity enabled reported,
      Rule.Context.resolve ⟨w, f, severity, enabled, reported⟩ r = .error d := by
  rw [analyze_eq_flatMap] at hd
  obtain ⟨f, hf, hd⟩ := List.mem_flatMap.1 hd
  obtain ⟨r, -, hd⟩ := List.mem_flatMap.1 hd
  obtain ⟨ref, href, h⟩ := Rule.resolve_of_mem_reports hd hk
  exact ⟨f, hf, ref, href, fun severity enabled reported =>
    (Rule.Context.resolve_congr rfl rfl ref).trans h⟩

end Schemata
