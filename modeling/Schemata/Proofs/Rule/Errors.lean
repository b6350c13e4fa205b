import Schemata.Rule.Analysis

/-!
# What rules report

Whatever a rule reports is in the file that it looks at, and of one of few kinds, which tell by what
rules a report has been made. It has the severity of the rule, but for reports on references, which
are errors under any severity.
-/

/-!
## Reports that are errors

A report is made as an error, and neither further places nor hints change that.
-/

namespace Schemata

namespace Diagnostic

@[simp] theorem isError_report (file : FileRef) (kind : Kind) (span : Span)
    (detail : Option String) :
    (report file kind span detail).isError = true := rfl

@[simp] theorem isError_relate (d : Diagnostic) (file : FileRef) (span : Span) (message : String) :
    (d.relate file span message).isError = d.isError := rfl

end Diagnostic

/-- Diagnostics of which each is an error. -/
def AreErrors (ds : List Diagnostic) : Prop := ∀ d ∈ ds, d.isError

namespace AreErrors

variable {α : Type}

@[simp] theorem nil : AreErrors [] := by simp [AreErrors]

@[simp] theorem cons_iff {d : Diagnostic} {ds : List Diagnostic} :
    AreErrors (d :: ds) ↔ d.isError ∧ AreErrors ds := List.forall_mem_cons

@[simp] theorem append_iff {ds es : List Diagnostic} :
    AreErrors (ds ++ es) ↔ AreErrors ds ∧ AreErrors es := List.forall_mem_append

@[simp] theorem map_iff {f : α → Diagnostic} {l : List α} :
    AreErrors (l.map f) ↔ ∀ a ∈ l, (f a).isError := List.forall_mem_map

@[simp] theorem flatMap_iff {f : α → List Diagnostic} {l : List α} :
    AreErrors (l.flatMap f) ↔ ∀ a ∈ l, AreErrors (f a) := by
  simp only [AreErrors, List.mem_flatMap, forall_exists_index, and_imp]
  exact ⟨fun h a ha d hd => h d a ha hd, fun h d a ha hd => h a ha d hd⟩

end AreErrors

/-! ## Reports of rules -/

/-- Whether a kind is about a reference that denotes no type, or several. -/
def Diagnostic.Kind.isReferenceFailure : Kind → Bool
  | .needAlias | .typeNotFound => true
  | _ => false

theorem Diagnostic.Kind.isReferenceFailure_iff {kind : Diagnostic.Kind} :
    kind.isReferenceFailure ↔ kind = .typeNotFound ∨ kind = .needAlias := by
  cases kind <;> decide

@[simp] theorem Diagnostic.Kind.isReferenceFailure_eq_false {kind : Diagnostic.Kind}
    (hfound : kind ≠ .typeNotFound)
    (halias : kind ≠ .needAlias) : kind.isReferenceFailure = false := by
  rw [← Bool.not_eq_true, isReferenceFailure_iff, not_or]
  exact ⟨hfound, halias⟩

namespace Rule

/-- The kinds of what a rule reports. -/
def kinds : Rule → List Diagnostic.Kind
  | .validBaseType => [.wrongBaseType, .typeNotFound, .needAlias]
  | .uniqueFieldName => [.duplicatedFieldName]
  | .fieldIndex =>
    [.invalidFieldIndex, .enumShouldBeZeroBased, .enumShouldBeSubsequent, .duplicatedFieldIndex]
  | .fieldShape => [.unexpectedFieldType, .missingFieldType]
  | .nonNullableUnionField => [.nonNullableUnionFields]
  | .validFieldType => [.wrongArgumentsLen, .illegalUseCycle, .typeNotFound, .needAlias]
  | .validListArguments | .validMapArguments => [.wrongArgumentsLen, .wrongArguments]
  | .defaultValueValidField => [.defaultValueValidField]
  | .uniqueDefaultValue => [.duplicatedDefaultValue]
  | .validDefaultValueType => [.wrongDefaultValue]
  | .validAnnotationValue => [.wrongAnnotationValue]
  | .assignmentKeyUnique => [.assignmentKeyAlreadyInUse]

/-- A report in the file that a rule looks at, of one of some kinds. Only on references it may have
another severity than the rule. -/
structure IsReport (c : Context) (kinds : List Diagnostic.Kind) (d : Diagnostic) : Prop where
  severity_eq : d.severity = if d.kind.isReferenceFailure then .error else c.severity
  file_eq : d.file = c.file
  kind_mem : d.kind ∈ kinds

variable {c : Context} {ks ks' : List Diagnostic.Kind} {d : Diagnostic}

@[simp] theorem isReport_report_iff {kind : Diagnostic.Kind} {span : Span}
    {detail : Option String} :
    IsReport c ks (c.report kind span detail) ↔
      kind ∈ ks ∧ (kind.isReferenceFailure → c.severity = .error) := by
  refine ⟨fun h => ⟨h.kind_mem, fun hk => h.severity_eq.trans (if_pos hk)⟩, fun h => ⟨?_, rfl, h.1⟩⟩
  change c.severity = if kind.isReferenceFailure then .error else c.severity
  split
  · next hk => exact h.2 hk
  · rfl

@[simp] theorem isReport_relate_iff {file : FileRef} {span : Span} {message : String} :
    IsReport c ks (d.relate file span message) ↔ IsReport c ks d :=
  ⟨fun h => ⟨h.severity_eq, h.file_eq, h.kind_mem⟩, fun h => ⟨h.severity_eq, h.file_eq, h.kind_mem⟩⟩

@[simp] theorem isReport_addHint_iff {hint : Option String} :
    IsReport c ks (d.addHint hint) ↔ IsReport c ks d :=
  ⟨fun h => ⟨h.severity_eq, h.file_eq, h.kind_mem⟩, fun h => ⟨h.severity_eq, h.file_eq, h.kind_mem⟩⟩

/-- A report of some kinds is one of more kinds. -/
theorem IsReport.mono (h : IsReport c ks d) (hsub : ks ⊆ ks') : IsReport c ks' d :=
  ⟨h.severity_eq, h.file_eq, hsub h.kind_mem⟩

/-! ### References and fields -/

/-- Further places leave the rest of a report as it is. -/
theorem foldl_relate_eq {α : Type} (place : α → FileRef × Span × String) (l : List α)
    (d : Diagnostic) :
    l.foldl (fun d a => d.relate (place a).1 (place a).2.1 (place a).2.2) d =
      { d with related := d.related ++ l.map fun a =>
        ⟨(place a).1, (place a).2.1, (place a).2.2⟩ } := by
  induction l generalizing d with
  | nil => simp
  | cons a l ih =>
    rw [List.foldl_cons, ih]
    simp [Diagnostic.relate]

/-- Resolving fails for one of two reasons: a reference denotes nothing, and a hint is chosen from
the names that are visible, or it denotes several types, and the place of each of them is given. -/
theorem Context.cases_of_resolve_eq_error {r : TypeRef} (h : c.resolve r = .error d) :
    (c.workspace.findRef c.scope r = [] ∧
      d = ((c.report .typeNotFound r.span r.text).withSeverity .error).addHint
        (Suggestion.hint? r.name (c.workspace.visibleNames c.scope r.qualifier))) ∨
    (2 ≤ (c.workspace.findRef c.scope r).length ∧
      d = { (c.report .needAlias r.span r.name).withSeverity .error with
        related := (c.workspace.findRef c.scope r).map fun s =>
          ⟨s.file, s.decl.name.span, s!"declared in `{s.package}`"⟩ }) := by
  rw [Context.resolve] at h
  rcases hfound : c.workspace.findRef c.scope r with _ | ⟨s, _ | ⟨t, rest⟩⟩
  · rw [hfound] at h
    exact .inl ⟨rfl, (Except.error.inj h).symm⟩
  · rw [hfound] at h
    cases h
  · rw [hfound] at h
    refine .inr ⟨by simp, (Except.error.inj h).symm.trans ?_⟩
    exact foldl_relate_eq (fun s : Symbol =>
      (s.file, s.decl.name.span, s!"declared in `{s.package}`")) _ _

/-- A reference that does not resolve is reported as an error, whatever the severity of the rule. -/
theorem Context.isReport_of_resolve_eq_error {r : TypeRef} (h : c.resolve r = .error d) :
    IsReport c [.typeNotFound, .needAlias] d := by
  rcases cases_of_resolve_eq_error h with ⟨-, rfl⟩ | ⟨-, rfl⟩
  · exact ⟨rfl, rfl, List.mem_cons_self⟩
  · exact ⟨rfl, rfl, List.mem_cons_of_mem _ (List.mem_singleton_self _)⟩

theorem Context.isReferenceFailure_of_resolve_eq_error {r : TypeRef} (h : c.resolve r = .error d) :
    d.kind.isReferenceFailure :=
  Diagnostic.Kind.isReferenceFailure_iff.2
    (by simpa using (isReport_of_resolve_eq_error h).kind_mem)

/-- A failed reference is an error, whatever the rule that looks it up weighs. -/
theorem Context.severity_of_resolve_eq_error {r : TypeRef} (h : c.resolve r = .error d) :
    d.severity = .error :=
  (isReport_of_resolve_eq_error h).severity_eq.trans
    (if_pos (isReferenceFailure_of_resolve_eq_error h))

theorem isReport_of_mem_baseReports {s : Symbol} :
    ∀ d ∈ baseReports c s, IsReport c validBaseType.kinds d := by
  rw [baseReports]
  split
  · simp
  · split
    · simp [kinds]
    · split
      · next h => simpa using (Context.isReport_of_resolve_eq_error h).mono (by decide)
      · split <;> simp [kinds]

theorem isReport_of_shapeReport? {m : Modifier} {f : FieldDecl} (h : shapeReport? c m f = some d) :
    IsReport c fieldShape.kinds d := by
  unfold shapeReport? at h
  split at h <;> cases h <;> simp [kinds]

theorem isReport_of_unionReport? {m : Modifier} {f : FieldDecl} (h : unionReport? c m f = some d) :
    IsReport c nonNullableUnionField.kinds d := by
  unfold unionReport? at h
  split at h
  · split at h <;> cases h
    simp [kinds]
  · cases h

/-! ### Indexes -/

theorem of_writtenIndexReport? {isEnum isFirst : Bool} {expected : Option Int64}
    {f : FieldDecl} {index : Int64}
    (h : writtenIndexReport? c isEnum isFirst expected f index = some d) :
    IsReport c fieldIndex.kinds d ∧ d.span = f.name.span := by
  have hreport : ∀ {kind : Diagnostic.Kind} {detail : Option String},
      kind ∈ fieldIndex.kinds ∧ kind.isReferenceFailure = false →
        IsReport c fieldIndex.kinds (c.report kind f.name.span detail) ∧
          (c.report kind f.name.span detail).span = f.name.span :=
    fun hkind => ⟨isReport_report_iff.2 ⟨hkind.1, by simp [hkind.2]⟩, rfl⟩
  unfold writtenIndexReport? at h
  split at h
  · cases h; exact hreport (by decide)
  · split at h
    · cases h; exact hreport (by decide)
    · split at h
      · split at h
        · split at h <;> cases h
          exact hreport (by decide)
        · cases h
      · cases h

/-- Reports on indexes are at the names of the fields that have them. -/
theorem of_mem_indexReportsAfter {isEnum isFirst : Bool} {previous : Option Int64}
    {taken : List (Int64 × Span)} {fields : List (FieldDecl × Option Int64)} :
    ∀ d ∈ indexReportsAfter c isEnum isFirst previous taken fields,
      IsReport c fieldIndex.kinds d ∧ ∃ x ∈ fields, d.span = x.1.name.span := by
  induction fields generalizing isFirst previous taken with
  | nil =>
    intro d hd
    cases hd
  | cons field rest ih =>
    have hrest : ∀ {isFirst previous taken}, ∀ d ∈ indexReportsAfter c isEnum isFirst
        previous taken rest,
        IsReport c fieldIndex.kinds d ∧ ∃ x ∈ field :: rest, d.span = x.1.name.span := by
      intro isFirst previous taken d hd
      obtain ⟨hreport, x, hx, hspan⟩ := ih d hd
      exact ⟨hreport, x, List.mem_cons_of_mem _ hx, hspan⟩
    obtain ⟨f, _ | index⟩ := field
    · rw [indexReportsAfter]
      apply List.forall_mem_append.2 ⟨_, hrest⟩
      split
      · exact List.forall_mem_singleton.2 ⟨by simp [kinds], _, List.mem_cons_self, rfl⟩
      · exact fun d hd => absurd hd List.not_mem_nil
    · rw [indexReportsAfter]
      split
      · next report h =>
        split at h
        · obtain ⟨hreport, hspan⟩ := of_writtenIndexReport? h
          exact List.forall_mem_cons.2 ⟨⟨hreport, _, List.mem_cons_self, hspan⟩, hrest⟩
        · cases h
      · exact List.forall_mem_cons.2 ⟨⟨by simp [kinds], _, List.mem_cons_self, rfl⟩, hrest⟩
      · exact hrest

/-- The index rule reports at the name of a field, with its own kinds only. -/
theorem of_mem_indexReports {s : Symbol} : ∀ d ∈ indexReports c s,
    IsReport c fieldIndex.kinds d ∧ ∃ f ∈ s.decl.fields, d.span = f.name.span := by
  intro d hd
  obtain ⟨hreport, x, hx, hspan⟩ := of_mem_indexReportsAfter d hd
  exact ⟨hreport, x.1, (List.of_mem_zip hx).1, hspan⟩

/-! ### Value types -/

theorem isReport_of_mem_strayArguments {t : TypeExpr} {name : String} :
    ∀ d ∈ strayArguments c t name, IsReport c [.wrongArgumentsLen] d := by
  rw [strayArguments]
  split <;> simp

theorem isReport_of_mem_typeReports {s : Symbol} {t : TypeExpr} :
    ∀ d ∈ typeReports c s t, IsReport c validFieldType.kinds d := by
  have hstray : ∀ name, ∀ d ∈ strayArguments c t name, IsReport c validFieldType.kinds d :=
    fun name d hd => (isReport_of_mem_strayArguments d hd).mono (by decide)
  rw [typeReports]
  split
  · split
    · simp
    · exact hstray _
  · refine List.forall_mem_append.2 ⟨hstray _, ?_⟩
    split
    · next h => simpa using (Context.isReport_of_resolve_eq_error h).mono (by decide)
    · split <;> simp [kinds]

theorem isReport_of_mem_listReports {t : TypeExpr} :
    ∀ d ∈ listReports c t, IsReport c validListArguments.kinds d := by
  rw [listReports]
  split
  · split <;> simp [kinds]
  · simp [wrongArity, kinds]

theorem isReport_of_mem_mapReports {t : TypeExpr} :
    ∀ d ∈ mapReports c t, IsReport c validMapArguments.kinds d := by
  rw [mapReports]
  split
  · refine List.forall_mem_append.2 ⟨?_, ?_⟩ <;> split <;> simp [kinds]
  · simp [wrongArity, kinds]

/-! ### Defaults and annotations -/

theorem isReport_of_mem_repeatedKeyReports {kind : Diagnostic.Kind}
    (hk : kind.isReferenceFailure = false)
    {block : List Assignment} : ∀ d ∈ repeatedKeyReports c kind block, IsReport c [kind] d := by
  rw [repeatedKeyReports]
  exact List.forall_mem_map.2 fun x _ => by simp [hk]

theorem isReport_of_defaultTypeReport? {s : Symbol} {a : Assignment}
    (h : defaultTypeReport? c s a = some d) :
    IsReport c validDefaultValueType.kinds d := by
  rw [defaultTypeReport?] at h
  split at h
  · cases h
  · split at h <;> cases h
    simp [kinds]

/-! ### All rules -/

/-- Every rule reports in the file that it looks at, of its kinds, with its severity but for
references. -/
theorem isReport_of_mem_reports (r : Rule) : ∀ d ∈ r.reports c, IsReport c r.kinds d := by
  cases r with
  | validBaseType => exact List.forall_mem_flatMap.2 fun s _ => isReport_of_mem_baseReports
  | uniqueFieldName =>
    exact List.forall_mem_flatMap.2 fun s _ => List.forall_mem_map.2 fun f _ => by simp [kinds]
  | fieldIndex => exact List.forall_mem_flatMap.2 fun s _ d hd => (of_mem_indexReports d hd).1
  | fieldShape =>
    refine List.forall_mem_flatMap.2 fun s _ d hd => ?_
    obtain ⟨f, -, h⟩ := List.mem_filterMap.1 hd
    exact isReport_of_shapeReport? h
  | nonNullableUnionField =>
    refine List.forall_mem_flatMap.2 fun s _ d hd => ?_
    obtain ⟨f, -, h⟩ := List.mem_filterMap.1 hd
    exact isReport_of_unionReport? h
  | validFieldType =>
    exact List.forall_mem_flatMap.2 fun s _ => List.forall_mem_flatMap.2 fun t _ =>
      isReport_of_mem_typeReports
  | validListArguments => exact List.forall_mem_flatMap.2 fun t _ => isReport_of_mem_listReports
  | validMapArguments => exact List.forall_mem_flatMap.2 fun t _ => isReport_of_mem_mapReports
  | defaultValueValidField =>
    exact List.forall_mem_flatMap.2 fun s _ => List.forall_mem_map.2 fun a _ => by simp [kinds]
  | uniqueDefaultValue =>
    exact List.forall_mem_flatMap.2 fun s _ => isReport_of_mem_repeatedKeyReports rfl
  | validDefaultValueType =>
    refine List.forall_mem_flatMap.2 fun s _ d hd => ?_
    obtain ⟨a, -, h⟩ := List.mem_filterMap.1 hd
    exact isReport_of_defaultTypeReport? h
  | validAnnotationValue =>
    exact List.forall_mem_flatMap.2 fun s _ => List.forall_mem_map.2 fun a _ => by simp [kinds]
  | assignmentKeyUnique =>
    exact List.forall_mem_flatMap.2 fun s _ =>
      List.forall_mem_flatMap.2 fun block _ => isReport_of_mem_repeatedKeyReports rfl

/-- A rule that has no kind for references that denote nothing, or too much, does not
report them. -/
theorem isReferenceFailure_of_mem_reports {r : Rule}
    (hr : ∀ k ∈ r.kinds, k.isReferenceFailure = false)
    (hd : d ∈ r.reports c) : d.kind.isReferenceFailure = false :=
  hr d.kind (isReport_of_mem_reports r d hd).kind_mem

/-- A rule that runs as an error reports errors only. -/
theorem areErrors_reports (hc : c.severity = .error) (r : Rule) : AreErrors (r.reports c) := by
  intro d hd
  have hseverity := (isReport_of_mem_reports r d hd).severity_eq
  rw [hc, ite_self] at hseverity
  exact beq_iff_eq.2 hseverity

/-- What a rule that is not required reports as a warning is no error. -/
theorem isError_of_mem_reports_warning {r : Rule} (hr : r.isRequired = false)
    (hc : c.severity = .warning) (hd : d ∈ r.reports c) : d.isError = false := by
  have hkinds : ∀ k ∈ r.kinds, k.isReferenceFailure = false := by
    revert hr
    cases r <;> decide
  have hseverity := (isReport_of_mem_reports r d hd).severity_eq
  rw [isReferenceFailure_of_mem_reports hkinds hd, hc] at hseverity
  rw [Diagnostic.isError, hseverity]
  rfl

end Rule

end Schemata
