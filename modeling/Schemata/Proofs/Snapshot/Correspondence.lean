import Schemata.Proofs.Schema.Plain
import Schemata.Proofs.Snapshot.Exchange
import Schemata.Proofs.Snapshot.References
import Schemata.Proofs.Snapshot.WellFormed

/-!
# Snapshots say what their sources say

Where all rules are enforced, nothing that is written gets lost on the way to a snapshot: no key is
assigned twice, no member of an enum has a value type, and no type is left out. So a snapshot has
the files of its sources, in the order of their paths, and each file has the types, fields, defaults
and annotations that are written, in the order in which they are written.
-/

/-!
## Where the literals of a snapshot come from

Resolving takes over literals as they are: each one in a snapshot is written in a source, as a
default or as an annotation.
-/

namespace Schemata

def TypeDecl.literals (d : TypeDecl) : List Literal :=
  (d.defaults ++ (Rule.annotationBlocks d).flatten).map (·.value)

def SourceFile.literals (f : SourceFile) : List Literal := f.types.flatMap (·.literals)

/-- The literals that are annotations, of a type or of its fields. -/
def TypeDef.annotationLiterals (t : TypeDef) : List Literal :=
  t.annotations.entries.map (·.2) ++ t.fields.flatMap fun d => d.annotations.entries.map (·.2)

/-- The map of a block has the first assignment of each key, in order. -/
theorem entries_assignmentMap (block : List Assignment) :
    (assignmentMap block).entries = (firsts (fun a : Assignment => a.key.name) block).map
    (·.entry) := by
  rw [assignmentMap, OrderedMap.entries_ofFirsts, firsts_map]
  rfl

/-- The entries of a block give a key the value of its first assignment. -/
theorem lookup_map_entry (l : List Assignment) (key : String) :
    (l.map (·.entry)).lookup key = (l.find? fun a => a.key.name == key).map (·.value) := by
  induction l with
  | nil => rfl
  | cons a l ih =>
    rw [List.map_cons, Assignment.entry, List.lookup_cons, List.find?_cons, ih, BEq.comm]
    split
    · rfl
    · rfl

/-- The value of a key is that of its first assignment. -/
theorem get?_assignmentMap (block : List Assignment) (key : String) :
    (assignmentMap block).get? key = (block.find? fun a => a.key.name == key).map (·.value) := by
  rw [OrderedMap.get?, entries_assignmentMap, lookup_map_entry, find?_firsts]

theorem exists_assignment_of_mem {block : List Assignment} {e : String × Literal}
    (h : e ∈ (assignmentMap block).entries) : ∃ a ∈ block, (a.key.name, a.value) = e :=
  List.mem_map.1 (OrderedMap.mem_of_mem_ofFirsts h)

namespace Workspace

variable {w : Workspace} {f : FileScope} {s : Symbol} {t : TypeDef}

theorem modifier_of_resolveSymbol (h : w.resolveSymbol f s = .ok t) :
    t.modifier = s.decl.modifier := by
  obtain ⟨baseId, fields, -, -, rfl⟩ := resolveSymbol_eq_ok_iff.1 h
  rfl

/-- The fields of a resolved type are those of its declaration. -/
theorem fields_of_resolveSymbol (h : w.resolveSymbol f s = .ok t) :
    List.Forall₂
      (fun field d => ∃ index o, d = fieldDef s field index o) s.decl.fields t.fields := by
  obtain ⟨baseId, fields, -, hfields, rfl⟩ := resolveSymbol_eq_ok_iff.1 h
  refine (forall₂_of_zip s.decl.length_indexes hfields).imp ?_
  rintro field d ⟨index?, hd⟩
  obtain ⟨index, o, -, -, hd⟩ := resolveField_eq_ok_iff.1 hd
  exact ⟨index, o, hd⟩

/-! ### Annotations -/

theorem exists_annotation_of_mem (h : w.resolveSymbol f s = .ok t) {l : Literal}
    (hl : l ∈ t.annotationLiterals) :
    ∃ a ∈ (Rule.annotationBlocks s.decl).flatten, a.value = l := by
  have hblock : ∀ block ∈ Rule.annotationBlocks s.decl,
      l ∈ (assignmentMap block).entries.map (·.2) →
      ∃ a ∈ (Rule.annotationBlocks s.decl).flatten, a.value = l := by
    intro block hblock hl
    obtain ⟨e, he, rfl⟩ := List.mem_map.1 hl
    obtain ⟨a, ha, rfl⟩ := exists_assignment_of_mem he
    exact ⟨a, List.mem_flatten.2 ⟨block, hblock, ha⟩, rfl⟩
  rcases List.mem_append.1 hl with hl | hl
  · obtain ⟨baseId, fields, -, -, rfl⟩ := resolveSymbol_eq_ok_iff.1 h
    exact hblock _ List.mem_cons_self hl
  · obtain ⟨d, hd, hl⟩ := List.mem_flatMap.1 hl
    obtain ⟨field, hfield, index, o, rfl⟩ :=
      exists_mem_of_mem_of_forall₂ (fields_of_resolveSymbol h) hd
    exact hblock _ (List.mem_cons_of_mem _ (List.mem_map_of_mem hfield)) hl

/-! ### Defaults -/

/-- Every stored default was written in the block of the declaration. -/
theorem exists_default_of_mem (h : w.resolveSymbol f s = .ok t) {e : String × Literal}
    (he : e ∈ t.defaults.entries) : ∃ a ∈ s.decl.defaults, (a.key.name, a.value) = e := by
  obtain ⟨baseId, fields, -, -, rfl⟩ := resolveSymbol_eq_ok_iff.1 h
  exact exists_assignment_of_mem he

/-- The default of a field is that of its name in the type. -/
theorem defaultValue_of_mem_fields (h : w.resolveSymbol f s = .ok t) {d : FieldDef}
    (hd : d ∈ t.fields) :
    d.defaultValue = t.defaults.get? d.name := by
  obtain ⟨field, -, index, o, rfl⟩ := exists_mem_of_mem_of_forall₂ (fields_of_resolveSymbol h) hd
  obtain ⟨baseId, fields, -, -, rfl⟩ := resolveSymbol_eq_ok_iff.1 h
  rfl

theorem mem_defaults_of_mem_fields (h : w.resolveSymbol f s = .ok t) {d : FieldDef}
    (hd : d ∈ t.fields)
    {l : Literal} (hl : d.defaultValue = some l) : l ∈ t.defaults.entries.map (·.2) := by
  rw [defaultValue_of_mem_fields h hd] at hl
  exact List.mem_map_of_mem (OrderedMap.get?_eq_some_iff.1 hl)

/-- Where each default names a field, each one is the default of a field. -/
theorem exists_field_of_mem_defaults (h : w.resolveSymbol f s = .ok t)
    (hnamed : ∀ a ∈ s.decl.defaults, (s.decl.field? a.key.name).isSome) {l : Literal}
    (hl : l ∈ t.defaults.entries.map (·.2)) : ∃ d ∈ t.fields, d.defaultValue = some l := by
  obtain ⟨e, he, rfl⟩ := List.mem_map.1 hl
  obtain ⟨a, ha, hae⟩ := exists_default_of_mem h he
  obtain ⟨field, hfield⟩ := Option.isSome_iff_exists.1 (hnamed a ha)
  have hkey := List.find?_some hfield
  have hnames : s.decl.fields.map (·.name.name) = t.fields.map (·.name) := by
    refine map_eq_of_forall₂ ((fields_of_resolveSymbol h).imp ?_)
    rintro field d ⟨index, o, rfl⟩
    rfl
  have hmem : e.1 ∈ t.fields.map (·.name) := by
    rw [← hnames, ← hae, ← eq_of_beq hkey]
    exact List.mem_map_of_mem (List.mem_of_find?_eq_some hfield)
  obtain ⟨d, hd, hname⟩ := List.mem_map.1 hmem
  refine ⟨d, hd, ?_⟩
  rw [defaultValue_of_mem_fields h hd, hname]
  exact OrderedMap.get?_eq_some_iff.2 he

/-! ### All literals -/

/-- A resolved type has no other literals than its declaration. -/
theorem literals_subset_of_resolveSymbol (h : w.resolveSymbol f s = .ok t) :
    t.literals ⊆ s.decl.literals := by
  have hannotations : t.annotationLiterals ⊆ s.decl.literals := by
    intro l hl
    obtain ⟨a, ha, rfl⟩ := exists_annotation_of_mem h hl
    exact List.mem_map_of_mem (List.mem_append_right _ ha)
  have hdefaults : t.defaults.entries.map (·.2) ⊆ s.decl.literals := by
    intro l hl
    obtain ⟨e, he, rfl⟩ := List.mem_map.1 hl
    obtain ⟨a, ha, rfl⟩ := exists_default_of_mem h he
    exact List.mem_map_of_mem (List.mem_append_left _ ha)
  refine List.append_subset.2 ⟨List.append_subset.2 ⟨?_, hdefaults⟩, fun l hl => ?_⟩
  · exact List.Subset.trans (List.subset_append_left _ _) hannotations
  · obtain ⟨d, hd, hl⟩ := List.mem_flatMap.1 hl
    rcases List.mem_append.1 hl with hl | hl
    · exact hannotations (List.mem_append_right _ (List.mem_flatMap.2 ⟨d, hd, hl⟩))
    · exact hdefaults (mem_defaults_of_mem_fields h hd (Option.mem_toList.1 hl))

/-- A snapshot has no other literals than its sources. -/
theorem Mirrors.literals_subset {sources : List SourceFile} {version : UInt32} {snap : Snapshot}
    (hw : w.Mirrors sources) (h : w.snapshot version = .ok snap) :
    snap.literals ⊆ sources.flatMap (·.literals) := by
  intro l hl
  obtain ⟨t, ht, hl⟩ := List.mem_flatMap.1 hl
  obtain ⟨f, hf, s, hs, hresolve⟩ := exists_resolveSymbol_of_mem_types h ht
  obtain ⟨source, hsource, rfl⟩ := hw.exists_source_of_mem_files hf
  obtain ⟨d, hd, rfl⟩ := List.mem_map.1 hs
  refine List.mem_flatMap.2 ⟨source, hsource, List.mem_flatMap.2 ⟨d, hd, ?_⟩⟩
  exact literals_subset_of_resolveSymbol hresolve hl

end Workspace

/-! ## Snapshots say what their sources say -/

/-! ### What it is to say the same -/

/-- A field of a snapshot is what is declared in the type `decl`, under its effective index. -/
structure FieldDef.Mirrors (d : FieldDef) (decl : TypeDecl) (field : FieldDecl)
    (index : Option Int64) :
    Prop where
  name : d.name = field.name.name
  documentation : d.documentation = field.documentation
  index : some d.index = index
  annotations : d.annotations.entries = field.annotations.map (·.entry)
  /-- The types are of one form, whatever ids stand in place of names. -/
  valueType : Option.Rel (Resolves fun _ _ => True) field.valueType d.valueType
  defaultValue : ∀ l, d.defaultValue = some l ↔
    ∃ a ∈ decl.defaults, a.key.name = field.name.name ∧ a.value = l

/-- A type of a snapshot is what is declared. -/
structure TypeDef.Mirrors (t : TypeDef) (d : TypeDecl) : Prop where
  name : t.name = d.name.name
  modifier : t.modifier = d.modifier
  documentation : t.documentation = d.documentation
  annotations : t.annotations.entries = d.annotations.map (·.entry)
  defaults : t.defaults.entries = d.defaults.map (·.entry)
  fields : List.Forall₂ (fun field fieldDef => fieldDef.Mirrors d field.1 field.2)
    (d.fields.zip d.indexes) t.fields

/-- A file of a snapshot is what a source says. -/
structure CompiledFile.Mirrors (c : CompiledFile) (f : SourceFile) : Prop where
  path : c.path = Path.full f.package f.file.name
  packageName : c.packageName = String.ofList ((Path.segments f.file.path).getLastD [])
  types : List.Forall₂ (fun d t => t.Mirrors d) f.types c.types

/-! ### Blocks without repeated keys -/

/-- A type in which no block of defaults or annotations assigns a key twice. -/
def TypeDecl.KeysDiffer (d : TypeDecl) : Prop :=
  ∀ block ∈ d.defaults :: Rule.annotationBlocks d, (block.map (·.key.name)).Nodup

/-- Assignments of different keys all stay. -/
theorem entries_assignmentMap_of_nodup {block : List Assignment}
    (h : (block.map (·.key.name)).Nodup) :
    (assignmentMap block).entries = block.map (·.entry) := by
  rw [entries_assignmentMap, firsts_eq_self h]

/-- Assignments of different keys are found by their keys. -/
theorem get?_assignmentMap_eq_some_iff {block : List Assignment}
    (h : (block.map (·.key.name)).Nodup) {key : String}
    {l : Literal} : (assignmentMap block).get? key = some l ↔ ∃ a ∈ block, a.key.name = key ∧
      a.value = l := by
  rw [OrderedMap.get?_eq_some_iff, entries_assignmentMap_of_nodup h]
  simp [Assignment.entry]

namespace Rule

/-- Where the rules on keys are enforced, no key is assigned twice. -/
theorem keysDiffer_of_reports_eq_nil {c : Context} (henabled : .uniqueDefaultValue ∈ c.enabled)
    (hdefaults : uniqueDefaultValueReports c = [])
    (hkeys : assignmentKeyUniqueReports c = []) {s : Symbol}
    (hs : s ∈ c.scope.symbols) : s.decl.KeysDiffer := by
  have hblocks : keyBlocks c s.decl = annotationBlocks s.decl := by
    rw [keyBlocks, if_pos (List.contains_iff_mem.2 henabled), List.nil_append]
  refine List.forall_mem_cons.2 ⟨?_, fun block hblock => ?_⟩
  · exact repeatedKeyReports_eq_nil_iff.1 (List.flatMap_eq_nil_iff.1 hdefaults s hs)
  · have hnil := List.flatMap_eq_nil_iff.1 hkeys s hs
    rw [hblocks] at hnil
    exact repeatedKeyReports_eq_nil_iff.1 (List.flatMap_eq_nil_iff.1 hnil block hblock)

end Rule

/-! ### From declarations to definitions -/

namespace Workspace

variable {w : Workspace} {f : FileScope} {s : Symbol}

/-- A field of an accepted type has a resolved type just where a type is written, and that is of the
same form. -/
theorem rel_resolves_of_resolveFieldType (hs : s.Accepted w f) {field : FieldDecl}
    (hfield : field ∈ s.decl.fields) {o : Option ResolvedType}
    (ho : w.resolveFieldType f s field = .ok o) :
    Option.Rel (Resolves fun _ _ => True) field.valueType o := by
  rcases resolveFieldType_eq_ok_iff.1 ho with ⟨henum, rfl⟩ | ⟨-, t, v, ht, hv, rfl⟩
  · rw [(hs.typed field hfield).2 henum]
    exact .none
  · rw [ht]
    refine .some (resolves_of_resolveType hv fun n hn hp => ⟨?_, fun _ _ => trivial⟩)
    have hfit := hs.arguments n (TypeDecl.mem_typeNodes hfield ht hn)
    rwa [TypeExpr.ArgumentsFit, hp] at hfit

/-- A resolved field says what was written of it, with its own default. -/
theorem mirrors_of_resolveField (hs : s.Accepted w f) (hkeys : s.decl.KeysDiffer)
    {field : FieldDecl × Option Int64} (hfield : field.1 ∈ s.decl.fields) {d : FieldDef}
    (hd : w.resolveField f s field = .ok d) : d.Mirrors s.decl field.1 field.2 := by
  obtain ⟨index, o, hindex, ho, rfl⟩ := resolveField_eq_ok_iff.1 hd
  have hannotations : field.1.annotations ∈ Rule.annotationBlocks s.decl :=
    List.mem_cons_of_mem _ (List.mem_map_of_mem hfield)
  exact {
    name := rfl
    documentation := rfl
    index := hindex.symm
    annotations := entries_assignmentMap_of_nodup (hkeys _ (List.mem_cons_of_mem _ hannotations))
    valueType := rel_resolves_of_resolveFieldType hs hfield ho
    defaultValue := fun _ => get?_assignmentMap_eq_some_iff (hkeys _ List.mem_cons_self) }

/-- An accepted type without repeated keys stays as it is. -/
theorem mirrors_of_resolveSymbol (hs : s.Accepted w f) (hkeys : s.decl.KeysDiffer) {t : TypeDef}
    (ht : w.resolveSymbol f s = .ok t) : t.Mirrors s.decl := by
  obtain ⟨baseId, fields, -, hfields, rfl⟩ := resolveSymbol_eq_ok_iff.1 ht
  have hmirrors := ((List.forall₂_and_left _ _).2 ⟨fun field hfield => hfield, hfields⟩).imp
    fun field d hd => mirrors_of_resolveField hs hkeys (List.of_mem_zip hd.1).1 hd.2
  exact {
    name := rfl
    modifier := rfl
    documentation := rfl
    annotations :=
      entries_assignmentMap_of_nodup (hkeys _ (List.mem_cons_of_mem _ List.mem_cons_self))
    defaults := entries_assignmentMap_of_nodup (hkeys _ List.mem_cons_self)
    fields := hmirrors }

/-- A compiled file has the declarations of the source, one by one. -/
theorem mirrors_of_compileFile {f : SourceFile} {c : CompiledFile}
    (haccepted : ∀ s ∈ f.canonical.scope.symbols, s.Accepted w f.canonical.scope)
    (hkeys : ∀ d ∈ f.types, d.KeysDiffer) (hc : w.compileFile f.canonical.scope = .ok c) :
    c.Mirrors f := by
  obtain ⟨htypes, hname, hpath, -⟩ := compileFile_eq_ok_iff.1 hc
  rw [Mirrors.symbols_scope, List.forall₂_map_left_iff] at htypes
  refine ⟨hpath, hname.trans (Path.name_normalize f.file.path), ?_⟩
  refine ((List.forall₂_and_left _ _).2 ⟨fun d hd => hd, htypes⟩).imp fun d t ht => ?_
  exact mirrors_of_resolveSymbol (haccepted _ (Mirrors.symbolOf_mem_scope ht.1)) (hkeys d ht.1) ht.2

/-! ### Files in order -/

variable {snap : Snapshot} {version : UInt32}

/-- The files of a snapshot are in the order of their paths. -/
theorem pairwise_path_le (h : w.snapshot version = .ok snap) :
    snap.files.Pairwise fun a b => a.path ≤ b.path := by
  obtain ⟨files, -, hsort, -⟩ := snapshot_eq_ok_iff.1 h
  have hsorted : (files.mergeSort fun a b => a.path ≤ b.path).Pairwise fun a b =>
      decide (a.path ≤ b.path) := by
    refine List.pairwise_mergeSort ?_ ?_ files
    · simp only [decide_eq_true_eq]
      exact fun a b c => String.le_trans
    · simp only [Bool.or_eq_true, decide_eq_true_eq]
      exact fun a b => String.le_total a.path b.path
  rw [hsort]
  exact hsorted.imp of_decide_eq_true

/-- Files whose names have no slash have different paths. -/
theorem Mirrors.nodup_paths {sources : List SourceFile} (hw : w.Mirrors sources)
    (hnames : ∀ f ∈ sources, '/' ∉ f.file.name.toList) {files : List CompiledFile}
    (hfiles : List.Forall₂ (fun f (c : CompiledFile) => c.Mirrors f) sources files) :
    (files.map (·.path)).Nodup := by
  have hpaths : files.map (·.path) = sources.map fun f => Path.full f.package f.file.name :=
    (map_eq_of_forall₂ (hfiles.imp fun f c hc => hc.path.symm)).symm
  rw [hpaths]
  refine nodup_map_of_imp hw.nodup_files_sources fun f hf g hg e => ?_
  obtain ⟨hdir, hname⟩ := Path.full_inj (hnames f hf) (hnames g hg) e
  exact congrArg₂ FileRef.mk hdir hname

/-- Ascending paths that differ from one another are strictly ascending. -/
theorem pairwise_path_lt {files : List CompiledFile}
    (hle : files.Pairwise fun a b => a.path ≤ b.path)
    (hnodup : (files.map (·.path)).Nodup) : files.Pairwise fun a b => a.path < b.path :=
  (hle.and (List.pairwise_map.1 hnodup)).imp fun h =>
    String.not_le.1 fun hba => h.2 (String.le_antisymm h.1 hba)

end Workspace

/-! ### Compilations under the standard settings -/

theorem Settings.enforces_standard (r : Rule) : Settings.standard.Enforces r where
  enabled := by cases r <;> decide
  fatal := .inl rfl

/-- Compiling is building the snapshot of the compilation under the standard settings. -/
theorem compile_eq_ok_iff {sources : List SourceFile} {snap : Snapshot} :
    compile sources = .ok snap ↔
      ∃ c, Compilation.ofSources .standard sources = .ok c ∧ c.snapshot = .ok snap := bind_eq_ok_iff

theorem Compilation.keysDiffer_of_isValid {sources : List SourceFile} {c : Compilation}
    (h : ofSources .standard sources = .ok c) (hv : c.isValid) {f : SourceFile} (hf : f ∈ sources) :
    ∀ d ∈ f.types, d.KeysDiffer := by
  intro d hd
  have hfile := (mirrors_of_isValid h hv).scope_mem_files hf
  have hnil := fun r => reports_eq_nil_of_enforces h hv hfile (Settings.enforces_standard r)
  exact Rule.keysDiffer_of_reports_eq_nil (Settings.enforces_standard .uniqueDefaultValue).enabled
    (hnil .uniqueDefaultValue) (hnil .assignmentKeyUnique) (Workspace.Mirrors.symbolOf_mem_scope hd)

/-- The files of a snapshot are those of its sources, one for each, in the order of their paths.
Each of them says what its source says, and nothing else. -/
theorem compile_mirrors {sources : List SourceFile} {snap : Snapshot}
    (h : compile sources = .ok snap) :
    (∃ files : List CompiledFile, files.Perm snap.files ∧
      List.Forall₂ (fun f c => c.Mirrors f) sources files) ∧
    (snap.files.Pairwise fun a b => a.path ≤ b.path) ∧
    ((∀ f ∈ sources, '/' ∉ f.file.name.toList) → snap.files.Pairwise fun a b =>
      a.path < b.path) := by
  obtain ⟨c, hc, hsnap⟩ := compile_eq_ok_iff.1 h
  have hv := Compilation.isValid_of_snapshot hsnap
  have hw := Compilation.mirrors_of_isValid hc hv
  rw [Compilation.snapshot_of_isValid hv] at hsnap
  obtain ⟨files, hperm, hfiles⟩ := hw.exists_files hsnap
  have hmirrors : List.Forall₂ (fun f (c : CompiledFile) => c.Mirrors f) sources files := by
    refine ((List.forall₂_and_left _ _).2 ⟨fun f hf => hf, hfiles⟩).imp fun f file hfile => ?_
    exact Workspace.mirrors_of_compileFile
      (Compilation.isAccepted_of_isValid hc hv _ (hw.scope_mem_files hfile.1))
      (Compilation.keysDiffer_of_isValid hc hv hfile.1) hfile.2
  have hle := Workspace.pairwise_path_le hsnap
  refine ⟨⟨files, hperm, hmirrors⟩, hle, fun hnames => ?_⟩
  exact Workspace.pairwise_path_lt hle
    ((hperm.map (·.path)).nodup_iff.1 (hw.nodup_paths hnames hmirrors))

namespace Sample

def assignment (key : String) (value : Literal) : Assignment := ⟨ident key, value, (ident key).span⟩

def colour : TypeDecl where
  name := ident "Colour"
  modifier := .enum
  base := none
  fields := [⟨ident "warm", none, none, [], [], (ident "warm").span⟩,
    ⟨ident "cold", none, none, ["Blue."], [], (ident "cold").span⟩]
  defaults := []
  documentation := []
  annotations := []
  span := (ident "Colour").span

def light : TypeDecl where
  name := ident "Light"
  modifier := .struct
  base := none
  fields := [field "colour" (valueType "Colour" none []),
    field "levels" (valueType "list" none [valueType "uint8" none []])]
  defaults := [assignment "levels" (.list [.int 0, .int 255]), assignment "colour" (.string "cold")]
  documentation := ["Shines."]
  annotations := [assignment "since" (.int 2)]
  span := (ident "Light").span

def palette : SourceFile := ⟨⟨"common", "palette.nex"⟩, [], [colour, light]⟩

def paletteCompilation : Compilation := ⟨.standard, ⟨[palette.scope]⟩, [], []⟩

theorem ofSources_palette : Compilation.ofSources .standard [palette] = .ok paletteCompilation := by
  have hcanonical : palette.canonical = palette := by
    rw [SourceFile.canonical, palette, normalize_common]
  have hnodup : (palette.symbols.map Workspace.symbolKey).Nodup := by
    show [("common", "Colour"), ("common", "Light")].Nodup
    decide
  have hanalyze : analyze ⟨[palette.scope]⟩ .standard = [] := rfl
  have hlink := Workspace.link_singleton hcanonical rfl hnodup
  refine Compilation.ofSources_eq_ok_iff.2 ⟨rfl, _, [], hlink, ?_⟩
  rw [hanalyze, List.nil_append, Diagnostic.sort, List.mergeSort_nil]
  rfl

/-- The snapshot of the colours and lights has one file, which says what the source says. -/
theorem compile_palette :
    ∃ snap file, compile [palette] = .ok snap ∧ snap.files = [file] ∧ file.Mirrors palette := by
  obtain ⟨snap, hsnap⟩ := Compilation.exists_snapshot_of_isValid ofSources_palette rfl
  have hcompile : compile [palette] = .ok snap := compile_eq_ok_iff.2 ⟨_, ofSources_palette, hsnap⟩
  obtain ⟨⟨files, hperm, hfiles⟩, -⟩ := compile_mirrors hcompile
  obtain ⟨file, _, hfile, hnil, rfl⟩ := List.forall₂_cons_left_iff.1 hfiles
  obtain rfl := List.forall₂_nil_left_iff.1 hnil
  exact ⟨snap, file, hcompile, (List.singleton_perm.1 hperm).symm, hfile⟩

end Sample

end Schemata
