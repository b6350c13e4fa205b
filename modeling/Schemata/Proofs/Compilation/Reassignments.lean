import Schemata.Proofs.Rule.Policy
import Schemata.Proofs.Snapshot.Correspondence

/-!
# Keys that are assigned again

The first assignment of a key in a block counts, and each later one is reported once, with the place
of the first: in a block of annotations by the rule on keys; in a block of defaults by the rule on
defaults, or, where that one does not run, by the rule on keys. What a snapshot has for a key is
what its first assignment says.
-/

namespace Schemata

/-! ## Blocks -/

/-- The assignments of a block whose key none in front of them has. -/
def firstAssignments (block : List Assignment) : List Assignment :=
  ((block.inits.zip block).filter fun x => !x.1.any fun b => b.key.name == x.2.key.name).map (·.2)

/-- The assignments of a block whose key one in front of them has, each with the first one that
does. -/
def reassignments (block : List Assignment) : List (Assignment × Assignment) :=
  (block.inits.zip block).filterMap fun x =>
    (x.1.find? fun b => b.key.name == x.2.key.name).map fun first => (x.2, first)

variable {block : List Assignment}

/-- The first assignments of a block are its firsts by key. -/
theorem firsts_eq_firstAssignments (block : List Assignment) :
    firsts (fun a : Assignment => a.key.name) block = firstAssignments block :=
  firsts_eq_filter _ block

/-- The reassignments of a block are its repeats by key. -/
theorem repeats_eq_reassignments (block : List Assignment) :
    repeats (fun a : Assignment => a.key.name) block = reassignments block :=
  repeats_eq_filterMap _ block

/-- Every assignment of a block is the first of its key or a later one, and none is both. -/
theorem reassignments_append_firstAssignments_perm (block : List Assignment) :
    ((reassignments block).map (·.1) ++ firstAssignments block).Perm block := by
  rw [← repeats_eq_reassignments, ← firsts_eq_firstAssignments]
  exact repeats_append_firsts_perm _ block

/-- A later assignment comes with the first one of its key. -/
theorem of_mem_reassignments {x : Assignment × Assignment} (h : x ∈ reassignments block) :
    x.2 ∈ firstAssignments block ∧ x.2.key.name = x.1.key.name := by
  rw [← repeats_eq_reassignments] at h
  rw [← firsts_eq_firstAssignments]
  exact (of_mem_repeats h).symm

/-! ## Reports -/

/-- Whether reports of a kind are on keys that are assigned again. -/
def Diagnostic.Kind.isOnReassignment (kind : Diagnostic.Kind) : Bool :=
  kind == .duplicatedDefaultValue || kind == .assignmentKeyAlreadyInUse

namespace Settings

/-- What a rule says about a later assignment and the first one of its key. -/
def reassignmentReport (settings : Settings) (r : Rule) (kind : Diagnostic.Kind) (file : FileRef)
    (x : Assignment × Assignment) : Diagnostic where
  kind := kind
  severity := settings.severity r
  file := file
  span := x.1.key.span
  message := kind.message x.1.key.name
  related := [⟨file, x.2.key.span, "first assigned here"⟩]
  hints := kind.hint?.toList

def annotationReports (settings : Settings) (file : FileRef) (block : List Assignment) :
    List Diagnostic :=
  if settings.enables .assignmentKeyUnique then
    (reassignments block).map
      (settings.reassignmentReport .assignmentKeyUnique .assignmentKeyAlreadyInUse file)
  else []

def defaultReports (settings : Settings) (file : FileRef) (block : List Assignment) :
    List Diagnostic :=
  if settings.enables .uniqueDefaultValue then
    (reassignments block).map
      (settings.reassignmentReport .uniqueDefaultValue .duplicatedDefaultValue file)
  else settings.annotationReports file block

def blockReports (settings : Settings) (file : FileRef) (d : TypeDecl) : List Diagnostic :=
  settings.defaultReports file d.defaults ++
    (Rule.annotationBlocks d).flatMap (settings.annotationReports file)

theorem contains_enabledRules (settings : Settings) (r : Rule) :
    settings.enabledRules.contains r = settings.enables r := by
  have hall : r ∈ Rule.all := by cases r <;> decide
  rw [Bool.eq_iff_iff, List.contains_iff_mem, enabledRules, List.mem_filter]
  exact and_iff_right hall

end Settings

/-! ## The two rules -/

namespace Rule

variable {w : Workspace} {f : FileScope} {settings : Settings}

/-- Repeated keys are reported with the severity of the rule that looks for them. -/
theorem repeatedKeyReports_eq_map (r : Rule) (reported : List Diagnostic) (kind : Diagnostic.Kind)
    (block : List Assignment) :
    repeatedKeyReports (settings.context w f reported r) kind block =
      (reassignments block).map (settings.reassignmentReport r kind f.file) := by
  rw [repeatedKeyReports, repeats_eq_reassignments]
  rfl

/-- The rule on defaults reports what there is to report on defaults while it runs. -/
theorem reports_uniqueDefaultValue (h : settings.enables .uniqueDefaultValue = true) :
    reports .uniqueDefaultValue (settings.context w f [] .uniqueDefaultValue) =
      f.symbols.flatMap fun s => settings.defaultReports f.file s.decl.defaults := by
  rw [reports, uniqueDefaultValueReports]
  refine List.flatMap_congr fun s _ => ?_
  rw [repeatedKeyReports_eq_map, Settings.defaultReports, if_pos h]

/-- The rule on keys reports what there is to report on annotations, for each block that it looks
at. -/
theorem reports_assignmentKeyUnique (h : settings.enables .assignmentKeyUnique = true) :
    reports .assignmentKeyUnique (settings.context w f [] .assignmentKeyUnique) =
      f.symbols.flatMap fun s =>
        (keyBlocks (settings.context w f [] .assignmentKeyUnique) s.decl).flatMap
        (settings.annotationReports f.file) := by
  rw [reports, assignmentKeyUniqueReports]
  refine List.flatMap_congr fun s _ => List.flatMap_congr fun block _ => ?_
  rw [repeatedKeyReports_eq_map, Settings.annotationReports, if_pos h]

/-- Where the rule on keys does not run, there is nothing to report on annotations. -/
theorem ite_reports_assignmentKeyUnique :
    (if settings.enables .assignmentKeyUnique then
      reports .assignmentKeyUnique (settings.context w f [] .assignmentKeyUnique) else []) =
      f.symbols.flatMap fun s =>
        (keyBlocks (settings.context w f [] .assignmentKeyUnique) s.decl).flatMap
        (settings.annotationReports f.file) := by
  split
  · next h => exact reports_assignmentKeyUnique h
  · next h =>
    have hnil : ∀ block, settings.annotationReports f.file block = [] := fun block => if_neg h
    simp [hnil]

end Rule

/-! ## Analysis -/

namespace Rule

variable {c : Context} {r : Rule} {d : Diagnostic}

/-- A rule reports nothing else than keys that are assigned again if it has no other kinds. -/
theorem filter_reports_eq_self (hr : ∀ k ∈ r.kinds, k.isOnReassignment) :
    (r.reports c).filter (·.kind.isOnReassignment) = r.reports c :=
  List.filter_eq_self.2 fun d hd => hr _ (isReport_of_mem_reports r d hd).kind_mem

/-- Only the rules on defaults and on keys report keys that are assigned again. -/
theorem filter_reports_eq_nil (hdefaults : r ≠ .uniqueDefaultValue)
    (hkeys : r ≠ .assignmentKeyUnique) :
    (r.reports c).filter (·.kind.isOnReassignment) = [] := by
  have hr : ∀ k ∈ r.kinds, k.isOnReassignment = false := by
    revert hdefaults hkeys
    cases r <;> decide
  refine List.filter_eq_nil_iff.2 fun d hd => ?_
  rw [hr d.kind (isReport_of_mem_reports r d hd).kind_mem]
  exact Bool.false_ne_true

end Rule

/-- Where only two rules contribute, the enabled rules yield what these two do. -/
theorem Settings.flatMap_enabledRules {α : Type} (settings : Settings) (g : Rule → List α)
    (hg : ∀ r, r ≠ .uniqueDefaultValue → r ≠ .assignmentKeyUnique → g r = []) :
    settings.enabledRules.flatMap g =
      (if settings.enables .uniqueDefaultValue then g .uniqueDefaultValue else []) ++
        if settings.enables .assignmentKeyUnique then g .assignmentKeyUnique else [] := by
  rw [enabledRules, flatMap_filter]
  simp [Rule.all, hg]

/-- On the blocks of a file, the rules report what there is to report. -/
theorem filter_fileReports_perm (w : Workspace) (f : FileScope) (settings : Settings) :
    ((settings.enabledRules.flatMap fun r =>
        r.reports (settings.context w f [] r)).filter (·.kind.isOnReassignment)).Perm
      (f.symbols.flatMap fun s => settings.blockReports f.file s.decl) := by
  rw [List.filter_flatMap, settings.flatMap_enabledRules _ fun r => Rule.filter_reports_eq_nil,
    Rule.filter_reports_eq_self (by decide), Rule.filter_reports_eq_self (by decide),
    Rule.ite_reports_assignmentKeyUnique]
  -- the rule on keys leaves defaults to the other one exactly if that one runs
  have hblocks : ∀ s : Symbol,
      Rule.keyBlocks (settings.context w f [] .assignmentKeyUnique) s.decl =
      (if settings.enables .uniqueDefaultValue then [] else [s.decl.defaults]) ++
        Rule.annotationBlocks s.decl := by
    intro s
    rw [Rule.keyBlocks, Settings.context, Settings.contains_enabledRules]
  by_cases hdefaults : settings.enables .uniqueDefaultValue = true
  · rw [if_pos hdefaults, Rule.reports_uniqueDefaultValue hdefaults]
    refine (List.flatMap_append_perm _ _ _).trans
      (List.Perm.of_eq (List.flatMap_congr fun s _ => ?_))
    rw [Settings.blockReports, hblocks, if_pos hdefaults, List.nil_append]
  · rw [if_neg hdefaults, List.nil_append]
    refine List.Perm.of_eq (List.flatMap_congr fun s _ => ?_)
    rw [Settings.blockReports, hblocks, if_neg hdefaults, List.flatMap_append,
      List.flatMap_singleton, Settings.defaultReports, if_neg hdefaults]

/-! ## Snapshots -/

/-- The map of a block has its first assignments. -/
theorem entries_eq_firstAssignments (block : List Assignment) :
    (assignmentMap block).entries = (firstAssignments block).map (·.entry) := by
  rw [entries_assignmentMap, firsts_eq_firstAssignments]

/-- A field of a snapshot that has what the first assignments say, for a field of a declaration. -/
structure FieldDef.KeepsFirsts (d : TypeDecl) (field : FieldDecl) (v : FieldDef) : Prop where
  name : v.name = field.name.name
  annotations : v.annotations.entries = (firstAssignments field.annotations).map (·.entry)
  defaultValue : v.defaultValue =
    (d.defaults.find? fun a => a.key.name == field.name.name).map (·.value)

/-- A type of a snapshot that has what the first assignments in its declaration say. -/
structure TypeDef.KeepsFirsts (d : TypeDecl) (t : TypeDef) : Prop where
  name : t.name = d.name.name
  defaults : t.defaults.entries = (firstAssignments d.defaults).map (·.entry)
  annotations : t.annotations.entries = (firstAssignments d.annotations).map (·.entry)
  fields : List.Forall₂ (FieldDef.KeepsFirsts d) d.fields t.fields

/-- A resolved field keeps the first value of every annotation and of its default. -/
theorem keepsFirsts_fieldDef (s : Symbol) (field : FieldDecl) (index : Int64)
    (o : Option ResolvedType) :
    (Workspace.fieldDef s field index o).KeepsFirsts s.decl field where
  name := rfl
  annotations := entries_eq_firstAssignments field.annotations
  defaultValue := get?_assignmentMap s.decl.defaults field.name.name

namespace Workspace

variable {w : Workspace}

/-- A resolved declaration keeps the first assignment of every key. -/
theorem keepsFirsts_of_resolveSymbol {f : FileScope} {s : Symbol} {t : TypeDef}
    (h : w.resolveSymbol f s = .ok t) :
    t.KeepsFirsts s.decl := by
  have hfields := fields_of_resolveSymbol h
  obtain ⟨baseId, fields, -, -, rfl⟩ := resolveSymbol_eq_ok_iff.1 h
  refine ⟨rfl, entries_eq_firstAssignments s.decl.defaults,
    entries_eq_firstAssignments s.decl.annotations, ?_⟩
  refine hfields.imp ?_
  rintro field v ⟨index, o, rfl⟩
  exact keepsFirsts_fieldDef s field index o

/-- The types of each file in a snapshot have what the first assignments in their
declarations say. -/
theorem exists_keepsFirsts_of_mem_files {version : UInt32} {snap : Snapshot}
    (h : w.snapshot version = .ok snap) {c : CompiledFile} (hc : c ∈ snap.files) :
    ∃ f ∈ w.files, c.path = f.file.fullPath ∧
      List.Forall₂ (fun s t => t.KeepsFirsts s.decl) f.symbols c.types := by
  obtain ⟨f, hf, hcompile⟩ := exists_compileFile_of_mem h hc
  obtain ⟨htypes, -, hpath, -⟩ := compileFile_eq_ok_iff.1 hcompile
  exact ⟨f, mem_files_of_mem_filesByPackage hf, hpath, htypes.imp fun _ _ =>
    keepsFirsts_of_resolveSymbol⟩

/-- A workspace of which every assignment counts for the snapshot, or is reported once. -/
structure FirstAssignmentsCount (w : Workspace) (settings : Settings) : Prop where
  /-- Analysis reports every later assignment once, and no first one. -/
  reported : ((analyze w settings).filter (·.kind.isOnReassignment)).Perm
    (w.files.flatMap fun f => f.symbols.flatMap fun s => settings.blockReports f.file s.decl)
  divided : ∀ block, ((reassignments block).map (·.1) ++ firstAssignments block).Perm block
  paired : ∀ block, ∀ x ∈ reassignments block, x.2 ∈ firstAssignments block ∧
    x.2.key.name = x.1.key.name
  /-- Snapshots have the first assignment of each key, in order. -/
  kept : ∀ version snap, w.snapshot version = .ok snap → ∀ c ∈ snap.files, ∃ f ∈ w.files,
    c.path = f.file.fullPath ∧ List.Forall₂ (fun s t => t.KeepsFirsts s.decl) f.symbols c.types

/-- Of the assignments of a key in a block, the first one counts, and each later one is reported
once by the rule that has to. -/
theorem firstAssignmentsCount (w : Workspace) (settings : Settings) :
    w.FirstAssignmentsCount settings where
  reported := by
    rw [analyze_eq_flatMap, List.filter_flatMap]
    exact List.Perm.flatMap_left w.files fun f _ => filter_fileReports_perm w f settings
  divided := reassignments_append_firstAssignments_perm
  paired := fun _ _ => of_mem_reassignments
  kept := fun _ _ h _ => exists_keepsFirsts_of_mem_files h

end Workspace

namespace Sample

/-- A workspace with a type that has a default three times and an annotation twice, each assignment
on a line of its own. -/
def refilled : Workspace :=
  let line (n : UInt32) : Span := ⟨⟨n, 1⟩, ⟨n, 9⟩⟩
  let unit (n : UInt32) (text : String) : Assignment := ⟨⟨"unit", line n⟩, .string text, line n⟩
  let size (n : UInt32) (litres : Int64) : Assignment := ⟨⟨"size", line n⟩, .int litres, line n⟩
  let valueType : TypeExpr := .mk ⟨"int32", none, line 4⟩ false [] (line 4)
  let field : FieldDecl :=
    ⟨⟨"size", line 4⟩, none, some valueType, [], [unit 2 "l", unit 3 "ml"], line 4⟩
  let file : FileRef := ⟨"app", "main.nex"⟩
  let kettle : TypeDecl :=
    ⟨⟨"Kettle", line 1⟩, .struct, none, [field], [size 5 2, size 6 3, size 7 4], [], [], line 1⟩
  ⟨[⟨file, [], [⟨file, kettle⟩], []⟩]⟩

/-- The lines of reports, with the lines of the places that they relate to. -/
def reportLines (ds : List Diagnostic) : List (Diagnostic.Kind × UInt32 × List UInt32) :=
  ds.map fun d => (d.kind, d.span.start.line, d.related.map (·.span.start.line))

/-- Two defaults and an annotation are reported, by two rules or by one of them, and the first
default counts. -/
theorem firstAssignmentsCount_refilled :
    refilled.FirstAssignmentsCount Settings.standard ∧
      reportLines (analyze refilled Settings.standard) =
        [(.duplicatedDefaultValue, 6, [5]), (.duplicatedDefaultValue, 7, [5]),
          (.assignmentKeyAlreadyInUse, 3, [2])] ∧
      reportLines (analyze refilled (Settings.standard.disable .uniqueDefaultValue)) =
        [(.assignmentKeyAlreadyInUse, 6, [5]), (.assignmentKeyAlreadyInUse, 7, [5]),
          (.assignmentKeyAlreadyInUse, 3, [2])] ∧
      ∃ snap, refilled.snapshot 1 = .ok snap ∧
        ∀ t ∈ snap.types, t.defaults.entries = [("size", .int 2)] := by
  have hcount := refilled.firstAssignmentsCount Settings.standard
  obtain ⟨snap, hsnap⟩ : ∃ snap, refilled.snapshot 1 = .ok snap := ⟨_, rfl⟩
  refine ⟨hcount, rfl, rfl, snap, hsnap, fun t ht => ?_⟩
  obtain ⟨c, hc, ht⟩ := List.mem_flatMap.1 ht
  obtain ⟨f, hf, -, htypes⟩ := hcount.kept 1 snap hsnap c hc
  obtain rfl := List.mem_singleton.1 hf
  obtain ⟨s, hs, hkeeps⟩ := exists_mem_of_mem_of_forall₂ htypes ht
  obtain rfl := List.mem_singleton.1 hs
  exact hkeeps.defaults

end Sample

end Schemata
