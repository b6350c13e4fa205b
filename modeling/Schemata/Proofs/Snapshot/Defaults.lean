import Schemata.Proofs.Snapshot.Correspondence

/-!
# Defaults are values of the types of their fields

The rule on defaults checks literals against value types as they are written. In a snapshot the type
of a field is resolved, and a default is a value of this type too: members of an enum are those of
the one enum in the snapshot that the type of the field names by its id.
-/

namespace Schemata

/-! ## Values of resolved types -/

/-- The numbers that an integer type has literals for. Literals are signed, so those of `uint64` end
where those of `int64` do. -/
def Primitive.Ranges : Primitive → Int → Prop
  | .int8, i => -2 ^ 7 ≤ i ∧ i < 2 ^ 7
  | .int16, i => -2 ^ 15 ≤ i ∧ i < 2 ^ 15
  | .int32, i => -2 ^ 31 ≤ i ∧ i < 2 ^ 31
  | .int64, i => -2 ^ 63 ≤ i ∧ i < 2 ^ 63
  | .uint8, i => 0 ≤ i ∧ i < 2 ^ 8
  | .uint16, i => 0 ≤ i ∧ i < 2 ^ 16
  | .uint32, i => 0 ≤ i ∧ i < 2 ^ 32
  | .uint64, i => 0 ≤ i ∧ i < 2 ^ 63
  | _, _ => False

/-- The scalars that are values of a primitive type. -/
inductive Primitive.Takes : Primitive → Literal → Prop where
  | string (s : String) : Takes .string (.string s)
  | timestamp (s : String) : Takes .timestamp (.string s)
  | bool (b : Bool) : Takes .bool (.bool b)
  | duration (i : Int64) : Takes .duration (.int i)
  | float {p : Primitive} (x : Binary64) (isFloat : p = .float32 ∨ p = .float64) :
      Takes p (.float x)
  | whole {p : Primitive} (i : Int64) (isFloat : p = .float32 ∨ p = .float64) : Takes p (.int i)
  | integer {p : Primitive} (i : Int64) (inRange : p.Ranges i.toInt) : Takes p (.int i)

/-- The literals that are values of a type of a snapshot. -/
inductive Literal.IsValue (snap : Snapshot) : Literal → ResolvedType → Prop where
  | scalar {p : Primitive} {nullable : Bool} {args : List ResolvedType} {l : Literal}
      (scalar : p.Takes l) :
      IsValue snap l (.primitive p nullable args)
  | list {nullable : Bool} {element : ResolvedType} {items : List Literal}
      (each : ∀ l ∈ items, IsValue snap l element) :
      IsValue snap (.list items) (.primitive .list nullable [element])
  | map {nullable : Bool} {key value : ResolvedType} {entries : List (Literal × Literal)}
      (eachKey : ∀ e ∈ entries, IsValue snap e.1 key)
      (eachValue : ∀ e ∈ entries, IsValue snap e.2 value) :
      IsValue snap (.map entries) (.primitive .map nullable [key, value])
  | member {t : TypeDef} {d : FieldDef} {nullable : Bool} {importAlias : Option String}
      (mem : t ∈ snap.types)
      (isEnum : t.modifier = .enum) (field : d ∈ t.fields) :
      IsValue snap (.string d.name) (.custom t.id nullable importAlias)

/-! ## Scalars -/

/-- The table of ranges has the ranges of the integer types. -/
theorem Primitive.ranges_iff {p : Primitive} {i : Int} :
    p.Ranges i ↔ ∃ least greatest, p.range? = some (least, greatest) ∧ least ≤ i ∧
      i ≤ greatest := by
  cases p <;> simp [Ranges, range?] <;> omega

theorem Primitive.isFloat_iff {p : Primitive} : p.isFloat ↔ p = .float32 ∨ p = .float64 := by
  cases p <;> simp [isFloat]

namespace Rule

/-- The rule takes a scalar exactly if it is a value of the primitive type. -/
theorem conformsToScalar_iff {p : Primitive} {l : Literal} : conformsToScalar p l ↔ p.Takes l := by
  constructor
  · intro h
    unfold conformsToScalar at h
    split at h
    · exact .string _
    · exact .timestamp _
    · exact .bool _
    · exact .duration _
    · exact .float _ (Primitive.isFloat_iff.1 h)
    · rcases Bool.or_eq_true_iff.1 h with h | h
      · exact .whole _ (Primitive.isFloat_iff.1 h)
      · split at h
        · next least greatest hrange =>
          have hbounds := by simpa using h
          exact .integer _ (Primitive.ranges_iff.2 ⟨least, greatest, hrange, hbounds⟩)
        · cases h
    · cases h
  · intro h
    cases h with
    | string | timestamp | bool | duration => rfl
    | float _ hp => rcases hp with rfl | rfl <;> rfl
    | whole _ hp => rcases hp with rfl | rfl <;> rfl
    | integer i hi =>
      obtain ⟨least, greatest, hrange, hbounds⟩ := Primitive.ranges_iff.1 hi
      cases p <;> simp_all [conformsToScalar]

end Rule

/-! ## Values of resolved types -/

namespace Workspace.Mirrors

variable {w : Workspace} {sources : List SourceFile} {snap : Snapshot} {version : UInt32}
  {f : SourceFile} {severity : Severity} {enabled : List Rule} {reported : List Diagnostic}
  {t : TypeExpr} {v : ResolvedType}
  {l : Literal}

/-- A type that a reference denotes has a definition in the snapshot, with the fields that are
declared. -/
theorem exists_definition_of_findRef (hw : w.Mirrors sources) (h : w.snapshot version = .ok snap)
    (haccepted : w.IsAccepted) (hf : f ∈ sources) {r : TypeRef} {target : Symbol}
    (ht : w.findRef f.canonical.scope r = [target]) :
    ∃ d ∈ snap.types, d.id = target.id ∧ d.modifier = target.decl.modifier ∧
      d.fields.map (·.name) = target.decl.fields.map (·.name.name) := by
  obtain ⟨g, e, rfl, hrefers⟩ :=
    hw.refersTo_of_resolveId h haccepted hf ht (resolveId_of_findRef ht)
  obtain ⟨hg, he⟩ := hrefers.denotes.mem hf
  have hdefines := hw.defines h haccepted hg he
  refine ⟨w.definition g e, hrefers.mem, hrefers.id, hdefines.modifier, ?_⟩
  exact (map_eq_of_forall₂ (hdefines.fields.imp fun field d hd => hd.1.symm)).symm

/-- What the rule takes for a value of a declared type is a member of an enum of the snapshot. -/
theorem isValue_of_conformsToReference (hw : w.Mirrors sources) (h : w.snapshot version = .ok snap)
    (haccepted : w.IsAccepted) (hf : f ∈ sources) {r : TypeRef} {target : Symbol}
    (ht : w.findRef f.canonical.scope r = [target])
    (hl : Rule.conformsToReference ⟨w, f.canonical.scope, severity, enabled, reported⟩ r l)
    (nullable : Bool)
    (importAlias : Option String) : l.IsValue snap (.custom target.id nullable importAlias) := by
  obtain ⟨d, hd, hid, hmodifier, hnames⟩ := hw.exists_definition_of_findRef h haccepted hf ht
  rw [Rule.conformsToReference, Rule.Context.lookup?, ht] at hl
  dsimp only at hl
  split at hl
  · next member henum =>
    obtain ⟨field, hfield⟩ := Option.isSome_iff_exists.1 hl
    obtain ⟨hmem, hname⟩ := key_of_find?_eq_some hfield
    have hmember : member ∈ d.fields.map (·.name) := by
      rw [hnames, ← hname]
      exact List.mem_map_of_mem hmem
    obtain ⟨fieldDef, hfieldDef, rfl⟩ := List.mem_map.1 hmember
    rw [← hid]
    exact .member hd (hmodifier.trans henum) hfieldDef
  · cases hl

/-- What the rule takes for a value of a type is a value of the resolved type. -/
theorem isValue_of_conforms (hw : w.Mirrors sources) (h : w.snapshot version = .ok snap)
    (haccepted : w.IsAccepted) (hf : f ∈ sources) (harguments : ∀ n ∈ t.nodes, n.ArgumentsFit)
    (hreferences : ∀ n ∈ t.nodes, n.primitive? = none →
      ∃ target, w.findRef f.canonical.scope n.ref = [target])
    (hresolve : w.resolveType f.canonical.scope t = .ok v)
    (hl : Rule.conforms ⟨w, f.canonical.scope, severity, enabled, reported⟩ l t) :
    l.IsValue snap v := by
  induction t using TypeExpr.ind generalizing l v with
  | mk r nullable args span ih =>
    have hself := TypeExpr.self_mem_nodes (.mk r nullable args span)
    have hargs : ∀ a ∈ args, ∀ v l, w.resolveType f.canonical.scope a = .ok v →
        Rule.conforms ⟨w, f.canonical.scope, severity, enabled, reported⟩ l a →
          l.IsValue snap v := by
      intro a ha v l hv hl
      exact ih a ha (fun n hn => harguments n (TypeExpr.mem_nodes_of_mem_args ha hn))
        (fun n hn => hreferences n (TypeExpr.mem_nodes_of_mem_args ha hn)) hv hl
    cases hp : (TypeExpr.mk r nullable args span).primitive? with
    | none =>
      obtain ⟨target, htarget⟩ := hreferences _ hself hp
      obtain ⟨id, hid, rfl⟩ := (resolveType_custom hp).1 hresolve
      obtain ⟨_, htarget', rfl⟩ := resolveId_eq_ok_iff.1 hid
      obtain rfl := List.singleton_inj.1 (htarget.symm.trans htarget')
      have hmember : Rule.conformsToReference
          ⟨w, f.canonical.scope, severity, enabled, reported⟩ r l := by
        cases l <;> simpa [Rule.conforms, hp, TypeExpr.ref] using hl
      exact hw.isValue_of_conformsToReference h haccepted hf htarget hmember nullable r.qualifier
    | some p =>
      obtain ⟨vs, hvs, rfl⟩ := (resolveType_primitive hp).1 hresolve
      have hfit := harguments _ hself
      rw [TypeExpr.ArgumentsFit, hp] at hfit
      cases l with
      | list items =>
        obtain rfl := Option.some.inj (hp.symm.trans (Rule.primitive?_of_conforms_list
          (fun hnone => nomatch hp.symm.trans hnone) hl))
        obtain ⟨element, rfl, -⟩ := hfit
        obtain ⟨v, _, hv, hnil, rfl⟩ := List.forall₂_cons_left_iff.1 hvs
        obtain rfl := List.forall₂_nil_left_iff.1 hnil
        simp only [Rule.conforms, hp, TypeExpr.args, Rule.itemsConform_iff] at hl
        exact .list fun l hmem => hargs element List.mem_cons_self v l hv (hl l hmem)
      | map entries =>
        obtain rfl := Option.some.inj (hp.symm.trans (Rule.primitive?_of_conforms_map
          (fun hnone => nomatch hp.symm.trans hnone) hl))
        obtain ⟨key, value, rfl, -⟩ := hfit
        obtain ⟨k, _, hk, hrest, rfl⟩ := List.forall₂_cons_left_iff.1 hvs
        obtain ⟨v, _, hv, hnil, rfl⟩ := List.forall₂_cons_left_iff.1 hrest
        obtain rfl := List.forall₂_nil_left_iff.1 hnil
        simp only [Rule.conforms, hp, TypeExpr.args, Rule.entriesConform_iff] at hl
        refine .map (fun e he => ?_) fun e he => ?_
        · exact hargs key (by simp) k e.1 hk (hl e he).1
        · exact hargs value (by simp) v e.2 hv (hl e he).2
      | _ => exact .scalar (Rule.conformsToScalar_iff.1 (by simpa [Rule.conforms, hp] using hl))

/-! ## Fields -/

/-- A default that the rule accepts is a value of the resolved type of its field, if the field is
the only one of its name. -/
theorem isValue_of_mem_fields (hw : w.Mirrors sources) (h : w.snapshot version = .ok snap)
    (haccepted : w.IsAccepted) (hf : f ∈ sources) {d : TypeDecl} (hd : d ∈ f.types)
    (hnames : (d.fields.map (·.name.name)).Nodup) (htyped : ∀ a ∈ d.defaults,
      Rule.defaultTypeReport? ⟨w, f.canonical.scope, severity, enabled, reported⟩
        (f.symbolOf d) a = none)
    {t : TypeDef} (ht : w.resolveSymbol f.canonical.scope (f.symbolOf d) = .ok t)
    {fieldDef : FieldDef} (hmem : fieldDef ∈ t.fields) (hv : fieldDef.valueType = some v)
    (hl : fieldDef.defaultValue = some l) :
    l.IsValue snap v := by
  have hs := haccepted _ (hw.scope_mem_files hf) _ (symbolOf_mem_scope hd)
  obtain ⟨baseId, fields, -, hfields, rfl⟩ := resolveSymbol_eq_ok_iff.1 ht
  obtain ⟨field, hfield, hresolve⟩ := exists_mem_of_mem_of_forall₂ hfields hmem
  obtain ⟨index, o, -, ho, rfl⟩ := resolveField_eq_ok_iff.1 hresolve
  replace hfield := (List.of_mem_zip hfield).1
  obtain rfl : o = some v := hv
  rcases resolveFieldType_eq_ok_iff.1 ho with ⟨-, ⟨⟩⟩ | ⟨-, t, _, htype, hresolved, ⟨⟩⟩
  obtain ⟨a, ha, hentry⟩ := exists_assignment_of_mem (OrderedMap.get?_eq_some_iff.1 hl)
  obtain ⟨hkey, rfl⟩ := Prod.mk.inj hentry
  have hfound : (d.field? a.key.name).bind (·.valueType) = some t := by
    rw [hkey, TypeDecl.field?_eq_some hnames hfield, Option.bind_some, htype]
  have hnodes : ∀ n ∈ t.nodes, n ∈ d.typeNodes := fun n hn => TypeDecl.mem_typeNodes hfield htype hn
  refine hw.isValue_of_conforms h haccepted hf (fun n hn => hs.arguments n (hnodes n hn))
    (fun n hn hp => ?_)
    hresolved (Rule.defaultTypeReport?_eq_none_iff.1 (htyped a ha) t hfound)
  obtain ⟨target, htarget, -⟩ := hs.references n (hnodes n hn) hp
  exact ⟨target, htarget⟩

end Workspace.Mirrors

/-- Where the rules on the types of defaults and on the names of fields are enforced, the default of
a field with a type is a value of this type. -/
theorem Compilation.isValue_defaultValue {settings : Settings} {sources : List SourceFile}
    {c : Compilation} {snap : Snapshot} (hdefaults : settings.Enforces .validDefaultValueType)
    (hnames : settings.Enforces .uniqueFieldName) (hc : ofSources settings sources = .ok c)
    (hsnap : c.snapshot = .ok snap) :
    ∀ t ∈ snap.types, ∀ d ∈ t.fields, ∀ v l, d.valueType = some v → d.defaultValue = some l →
      l.IsValue snap v := by
  intro t ht d hd v l hv hl
  have hvalid := isValid_of_snapshot hsnap
  have hw := mirrors_of_isValid hc hvalid
  have haccepted := isAccepted_of_isValid hc hvalid
  rw [snapshot_of_isValid hvalid] at hsnap
  obtain ⟨scope, hscope, s, hs, hresolve⟩ := Workspace.exists_resolveSymbol_of_mem_types hsnap ht
  have hnil := fun r hr => reports_eq_nil_of_enforces (r := r) hc hvalid hscope hr
  obtain ⟨f, hf, rfl⟩ := hw.exists_source_of_mem_files hscope
  have hdistinct :=
    Rule.fieldNameReports_eq_nil_iff.1 (List.flatMap_eq_nil_iff.1 (hnil _ hnames) s hs)
  have htyped := List.filterMap_eq_nil_iff.1 (List.flatMap_eq_nil_iff.1 (hnil _ hdefaults) s hs)
  obtain ⟨decl, hdecl, rfl⟩ := List.mem_map.1 hs
  exact hw.isValue_of_mem_fields hsnap haccepted hf hdecl hdistinct htyped hresolve hd hv hl

namespace Sample

def lightType : TypeDef :=
  let symbol := palette.symbolOf light
  let colourType : ResolvedType := .custom (palette.symbolOf colour).id false none
  let levelsType : ResolvedType := .primitive .list false [.primitive .uint8 false []]
  Workspace.typeDef symbol none
    [Workspace.fieldDef symbol (field "colour" (valueType "Colour" none [])) 0 (some colourType),
      Workspace.fieldDef symbol
      (field "levels" (valueType "list" none [valueType "uint8" none []])) 1
        (some levelsType)]

/-- The defaults of a light are a colour and a list of small numbers. -/
theorem exists_default_isValue : ∃ snap d d' v v', paletteCompilation.snapshot = .ok snap ∧
    lightType ∈ snap.types ∧ lightType.fields = [d, d'] ∧ d.valueType = some v ∧
      d'.valueType = some v' ∧
    (Literal.string "cold").IsValue snap v ∧ (Literal.list [.int 0, .int 255]).IsValue snap v' := by
  obtain ⟨snap, hsnap⟩ := Compilation.exists_snapshot_of_isValid ofSources_palette rfl
  have hvalues := Compilation.isValue_defaultValue (Settings.enforces_standard _)
    (Settings.enforces_standard _) ofSources_palette hsnap
  have hmem : lightType ∈ snap.types := by
    have hw := Compilation.mirrors_of_isValid ofSources_palette rfl
    have hlight : light ∈ palette.types := by simp [palette]
    have hresolve : paletteCompilation.workspace.resolveSymbol palette.canonical.scope
        (palette.symbolOf light) = .ok lightType := rfl
    rw [← Workspace.definition_eq hresolve]
    rw [Compilation.snapshot_of_isValid rfl] at hsnap
    exact hw.definition_mem_types hsnap List.mem_cons_self hlight
  refine ⟨snap, _, _, _, _, hsnap, hmem, rfl, rfl, rfl, ?_, ?_⟩
  · exact hvalues lightType hmem _ List.mem_cons_self _ _ rfl rfl
  · exact hvalues lightType hmem _ (List.mem_cons_of_mem _ List.mem_cons_self) _ _ rfl rfl

end Sample

end Schemata
