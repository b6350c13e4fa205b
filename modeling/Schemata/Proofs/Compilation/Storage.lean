import Schemata.Proofs.Container.Layout
import Schemata.Proofs.Snapshot.Correspondence
import Schemata.Proofs.Snapshot.Hashcode

/-!
# Storing compiled snapshots

Whatever a compilation yields can be stored if it is not too large, however deep its literals are
nested; it comes back only if they are not nested too deep. The rules on literals see to this for
annotations and for defaults of typed fields, but members of an enum have no type that would bound
their defaults.
-/

/-!
## How deep a snapshot is nested

Value types with the arguments that they take are nested to a fixed depth, and so is everything else
in a snapshot but the literals. Whether a snapshot is nested too deep to be read back depends on its
literals alone.
-/

namespace Schemata

open Json

namespace Json

theorem depth_strings (texts : List String) : (strings texts).depth = 1 := by
  have hitems : depthItems (texts.map .string) ≤ 0 := by
    rw [depthItems_le_iff, List.forall_mem_map]
    exact fun s _ => Nat.le_refl _
  rw [strings, depth, Nat.le_zero.1 hitems]

/-- An array is one level deeper than its deepest item. -/
theorem depth_array_le_iff {α : Type} {write : α → Json} {as : List α} {n : Nat} :
    (Json.array (as.map write)).depth ≤ n + 1 ↔ ∀ a ∈ as, (write a).depth ≤ n := by
  rw [depth, Nat.add_le_add_iff_right, depthItems_le_iff, List.forall_mem_map]

theorem depthMembers_memberIfAny_le_iff {α : Type} {key : String} {write : α → Json} {o : Option α}
    {n : Nat} :
    depthMembers (memberIfAny key write o) ≤ n ↔ ∀ a, o = some a → (write a).depth ≤ n := by
  cases o with
  | none => simp [memberIfAny, depthMembers]
  | some a => simp [memberIfAny, depthMembers]

end Json

/-- A map is one level deeper than its deepest value. -/
theorem OrderedMap.depth_toJson_le_iff {m : OrderedMap Literal} {n : Nat} :
    m.toJson.depth ≤ n + 1 ↔ ∀ l ∈ m.entries.map (·.2), l.toJson.depth ≤ n := by
  rw [toJson, depth, Nat.add_le_add_iff_right, depthMembers_le_iff, List.forall_mem_map,
    List.forall_mem_map]

/-! ### Value types -/

namespace ResolvedType

/-- A value type that is no collection has no arguments. -/
theorem depth_toJson_of_not_isCollection {t : ResolvedType} (ht : t.ArgumentsFit)
    (hcollection : ¬t.IsCollection) : t.toJson.depth = 1 := by
  cases t with
  | primitive p nullable as =>
    cases p with
    | list => exact absurd (.inl rfl) hcollection
    | map => exact absurd (.inr rfl) hcollection
    | _ =>
      obtain rfl : as = [] := ht
      rfl
  | custom typeId nullable importAlias => cases importAlias <;> rfl

/-- A key of a map is no collection. -/
theorem not_isCollection_of_isKey {t : ResolvedType} (h : t.IsKey) : ¬t.IsCollection := by
  obtain ⟨p, hp, hkey, -⟩ := h
  rintro (hlist | hmap)
  · obtain rfl : p = .list := Option.some.inj (hp.symm.trans hlist)
    simp [Primitive.isInteger, Primitive.isSigned, Primitive.isUnsigned] at hkey
  · obtain rfl : p = .map := Option.some.inj (hp.symm.trans hmap)
    simp [Primitive.isInteger, Primitive.isSigned, Primitive.isUnsigned] at hkey

theorem self_mem_nodes (t : ResolvedType) : t ∈ t.nodes := by
  cases t with
  | primitive p nullable as =>
    rw [nodes_primitive]
    exact List.mem_cons_self
  | custom typeId nullable importAlias => exact List.mem_cons_self

/-- Arguments that are no collections are nested less deep than any collection. -/
theorem depth_toJson_primitive_le {p : Primitive} {nullable : Bool} {as : List ResolvedType}
    (h : ∀ a ∈ as, a.ArgumentsFit ∧ ¬a.IsCollection) :
    (primitive p nullable as).toJson.depth ≤ 3 := by
  have harguments : (Json.array (argumentsToJson as)).depth ≤ 2 := by
    rw [argumentsToJson_eq_map, depth_array_le_iff]
    intro a ha
    exact (depth_toJson_of_not_isCollection (h a ha).1 (h a ha).2).le
  rw [toJson, depth, Nat.add_le_add_iff_right, depthMembers_append, Nat.max_le]
  refine ⟨by simp [depthMembers, depth], ?_⟩
  split
  · exact Nat.zero_le _
  · simpa [depthMembers] using harguments

/-- Value types with the arguments that they take are not nested any deeper than lists and maps of
others. -/
theorem depth_toJson_le {t : ResolvedType} (h : ∀ n ∈ t.nodes, n.ArgumentsFit) :
    t.toJson.depth ≤ 3 := by
  have ht := h t t.self_mem_nodes
  cases t with
  | custom typeId nullable importAlias =>
    rw [depth_toJson_of_not_isCollection ht (by simp [IsCollection, primitive?])]
    decide
  | primitive p nullable as =>
    refine depth_toJson_primitive_le fun a ha => ⟨h a ?_, ?_⟩
    · rw [nodes_primitive]
      exact List.mem_cons_of_mem _ (List.mem_flatMap.2 ⟨a, ha, a.self_mem_nodes⟩)
    · cases p with
      | list =>
        obtain ⟨element, rfl, helement⟩ := ht
        obtain rfl := List.mem_singleton.1 ha
        exact helement
      | map =>
        obtain ⟨key, value, rfl, hkey, hvalue⟩ := ht
        rcases List.mem_pair.1 ha with rfl | rfl
        · exact not_isCollection_of_isKey hkey
        · exact hvalue
      | _ =>
        obtain rfl : as = [] := ht
        cases ha

end ResolvedType

/-! ### Parts of snapshots -/

/-- A field whose value type has the arguments that it takes is nested as deep as its literals. -/
theorem FieldDef.depth_toJson_le_iff {d : FieldDef} {n : Nat}
    (h : ∀ v, d.valueType = some v → ∀ a ∈ v.nodes, a.ArgumentsFit) :
    d.toJson.depth ≤ n + 4 ↔
      (∀ l ∈ d.annotations.entries.map (·.2), l.toJson.depth ≤ n + 2) ∧
        ∀ l, d.defaultValue = some l → l.toJson.depth ≤ n + 3 := by
  have htype : depthMembers (memberIfAny "type" ResolvedType.toJson d.valueType) ≤ n + 3 := by
    rw [depthMembers_memberIfAny_le_iff]
    intro v hv
    exact (ResolvedType.depth_toJson_le (h v hv)).trans (Nat.le_add_left 3 n)
  rw [toJson, depth, Nat.add_le_add_iff_right, depthMembers_append, depthMembers_append, Nat.max_le,
    Nat.max_le, and_iff_left htype, depthMembers_memberIfAny_le_iff,
    ← OrderedMap.depth_toJson_le_iff]
  refine and_congr_left fun _ => ?_
  simp [depthMembers, depth, depth_strings]

/-- The depth of a written type is decided by its literals and its fields. -/
theorem TypeDef.depth_toJson_le_iff {t : TypeDef} {n : Nat} :
    t.toJson.depth ≤ n + 6 ↔
      (∀ l ∈ t.annotations.entries.map (·.2) ++ t.defaults.entries.map (·.2),
        l.toJson.depth ≤ n + 4) ∧
        ∀ d ∈ t.fields, d.toJson.depth ≤ n + 4 := by
  have hbase : depthMembers (memberIfAny "baseType" .string t.baseId) ≤ n + 5 := by
    rw [depthMembers_memberIfAny_le_iff]
    exact fun id _ => Nat.zero_le _
  rw [toJson, depth, Nat.add_le_add_iff_right, depthMembers_append, depthMembers_append, Nat.max_le,
    Nat.max_le, and_iff_left hbase, List.forall_mem_append, ← OrderedMap.depth_toJson_le_iff,
    ← OrderedMap.depth_toJson_le_iff, ← depth_array_le_iff]
  simp [depthMembers, depth, depth_strings]

/-- The depth of a written file is decided by its types. -/
theorem CompiledFile.depth_toJson_le_iff {f : CompiledFile} {n : Nat} :
    f.toJson.depth ≤ n + 2 ↔ ∀ t ∈ f.types, t.toJson.depth ≤ n := by
  rw [toJson, depth, Nat.add_le_add_iff_right, ← depth_array_le_iff]
  simp [depthMembers, depth]

/-- The files of a snapshot and their types make up four levels. -/
theorem Snapshot.depth_toJson_le_iff {s : Snapshot} {n : Nat} :
    s.toJson.depth ≤ n + 4 ↔ ∀ t ∈ s.types, t.toJson.depth ≤ n := by
  have hfiles : s.toJson.depth ≤ n + 4 ↔ ∀ f ∈ s.files, f.toJson.depth ≤ n + 2 := by
    rw [toJson, depth, Nat.add_le_add_iff_right, ← depth_array_le_iff]
    simp [depthMembers, depth]
  rw [hfiles, types, List.forall_mem_flatMap]
  exact forall₂_congr fun f _ => CompiledFile.depth_toJson_le_iff

/-- How deep the literals in a type may be nested if a snapshot with this type is to be
read back. -/
structure TypeDef.IsShallow (t : TypeDef) : Prop where
  annotations : ∀ l ∈ t.annotations.entries.map (·.2), l.toJson.depth ≤ 121
  defaults : ∀ l ∈ t.defaults.entries.map (·.2), l.toJson.depth ≤ 121
  fieldAnnotations : ∀ d ∈ t.fields, ∀ l ∈ d.annotations.entries.map (·.2), l.toJson.depth ≤ 119
  fieldDefaults : ∀ d ∈ t.fields, ∀ l, d.defaultValue = some l → l.toJson.depth ≤ 120

/-- A well-formed type is shallow enough to be stored when its literals are. -/
theorem TypeDef.WellFormed.depth_toJson_le_iff {t : TypeDef} (h : t.WellFormed) :
    t.toJson.depth ≤ 123 ↔ t.IsShallow := by
  have hfields : (∀ d ∈ t.fields, d.toJson.depth ≤ 121) ↔
      ∀ d ∈ t.fields, (∀ l ∈ d.annotations.entries.map (·.2), l.toJson.depth ≤ 119) ∧
        ∀ l, d.defaultValue = some l → l.toJson.depth ≤ 120 :=
    forall₂_congr fun d hd => FieldDef.depth_toJson_le_iff (n := 117) (h.arguments d hd)
  rw [TypeDef.depth_toJson_le_iff (n := 117), hfields, List.forall_mem_append]
  constructor
  · rintro ⟨⟨hannotations, hdefaults⟩, hfields⟩
    exact ⟨hannotations, hdefaults, fun d hd => (hfields d hd).1, fun d hd => (hfields d hd).2⟩
  · rintro ⟨hannotations, hdefaults, hfieldAnnotations, hfieldDefaults⟩
    exact ⟨⟨hannotations, hdefaults⟩, fun d hd => ⟨hfieldAnnotations d hd, hfieldDefaults d hd⟩⟩

/-- A snapshot of well-formed types is nested too deep to be read back only through its literals. -/
theorem Snapshot.depth_toJson_le_maxDepth_iff {s : Snapshot} (h : ∀ t ∈ s.types, t.WellFormed) :
    s.toJson.depth ≤ maxDepth ↔ ∀ t ∈ s.types, t.IsShallow := by
  have hdepth : s.toJson.depth ≤ maxDepth ↔ ∀ t ∈ s.types, t.toJson.depth ≤ 123 :=
    Snapshot.depth_toJson_le_iff
  rw [hdepth]
  exact forall₂_congr fun t ht => (h t ht).depth_toJson_le_iff

end Schemata

/-! ## Stored compilations -/

namespace Schemata

/-- Literals of a resolved type that are no deeper than this are not too deep anywhere in it. -/
theorem Workspace.isShallow_of_depth_le {w : Workspace} {f : FileScope} {s : Symbol} {t : TypeDef}
    (h : w.resolveSymbol f s = .ok t)
    (hannotations : ∀ l ∈ t.annotationLiterals, l.toJson.depth ≤ 119)
    (hdefaults : ∀ l ∈ t.defaults.entries.map (·.2), l.toJson.depth ≤ 120) : t.IsShallow where
  annotations := fun l hl => (hannotations l (List.mem_append_left _ hl)).trans (by decide)
  defaults := fun l hl => (hdefaults l hl).trans (by decide)
  fieldAnnotations := fun d hd l hl =>
    hannotations l (List.mem_append_right _ (List.mem_flatMap.2 ⟨d, hd, hl⟩))
  fieldDefaults := fun d hd l hl => hdefaults l (mem_defaults_of_mem_fields h hd hl)

namespace Compilation

open Container (encode decode)

variable {settings : Settings} {sources : List SourceFile} {c : Compilation} {s : Snapshot}
  {bytes : List UInt8}

/-- The literals of a compiled snapshot are finite if those of its sources are. -/
theorem isFinite_of_mem_literals (hfinite : ∀ f ∈ sources, ∀ l ∈ f.literals, l.IsFinite)
    (hc : ofSources settings sources = .ok c) (hs : c.snapshot = .ok s) :
    ∀ l ∈ s.literals, l.IsFinite := by
  have hv := isValid_of_snapshot hs
  rw [snapshot_of_isValid hv] at hs
  intro l hl
  obtain ⟨f, hf, hl⟩ := List.mem_flatMap.1 ((mirrors_of_isValid hc hv).literals_subset hs hl)
  exact hfinite f hf l hl

def literalRules : List Rule :=
  [.defaultValueValidField, .validDefaultValueType, .validAnnotationValue]

/-- Where the rules on literals are enforced, only defaults of enums can be nested too deep. -/
theorem isShallow_iff_of_enforces (henforces : ∀ r ∈ literalRules, settings.Enforces r)
    (hc : ofSources settings sources = .ok c) (hs : c.snapshot = .ok s) {t : TypeDef}
    (ht : t ∈ s.types) :
    t.IsShallow ↔
      (t.modifier = .enum → ∀ l ∈ t.defaults.entries.map (·.2), l.toJson.depth ≤ 120) := by
  have hv := isValid_of_snapshot hs
  rw [snapshot_of_isValid hv] at hs
  obtain ⟨f, hf, sym, hsym, hresolve⟩ := Workspace.exists_resolveSymbol_of_mem_types hs ht
  have haccepted := isAccepted_of_isValid hc hv f hf sym hsym
  have hreports : ∀ r ∈ literalRules, r.reports (settings.context c.workspace f [] r) = [] :=
    fun r hr => reports_eq_nil_of_enforces hc hv hf (henforces r hr)
  have hunknown := List.flatMap_eq_nil_iff.1 (hreports .defaultValueValidField (by decide)) sym hsym
  have htyped := List.flatMap_eq_nil_iff.1 (hreports .validDefaultValueType (by decide)) sym hsym
  have hscalar := List.flatMap_eq_nil_iff.1 (hreports .validAnnotationValue (by decide)) sym hsym
  constructor
  · intro hshallow _ l hl
    have hnamed := Rule.unknownDefaultReports_eq_nil_iff.1 hunknown
    obtain ⟨d, hd, hdefault⟩ := Workspace.exists_field_of_mem_defaults hresolve hnamed hl
    exact hshallow.fieldDefaults d hd l hdefault
  · intro henum
    refine Workspace.isShallow_of_depth_le hresolve ?_ ?_
    · intro l hl
      obtain ⟨a, ha, rfl⟩ := Workspace.exists_annotation_of_mem hresolve hl
      rw [Literal.depth_toJson_of_isScalar (Rule.annotationReports_eq_nil_iff.1 hscalar a ha)]
      decide
    · by_cases hm : t.modifier = .enum
      · exact henum hm
      · intro l hl
        obtain ⟨e, he, rfl⟩ := List.mem_map.1 hl
        obtain ⟨a, ha, rfl⟩ := Workspace.exists_default_of_mem hresolve he
        rw [Workspace.modifier_of_resolveSymbol hresolve] at hm
        have hnone := List.filterMap_eq_nil_iff.1 htyped a ha
        exact (Rule.depth_toJson_default_le haccepted hm hunknown ha hnone).trans (by decide)

/-- A stored snapshot of a compilation comes back exactly where it is not nested too deep. -/
theorem decode_of_encode_snapshot (hfinite : ∀ f ∈ sources, ∀ l ∈ f.literals, l.IsFinite)
    (hc : ofSources settings sources = .ok c) (hs : c.snapshot = .ok s)
    (hbytes : encode s = .ok bytes) :
    decode bytes = if s.toJson.depth ≤ Json.maxDepth then .ok s else .error .json := by
  rw [Container.decode_of_encode hbytes,
    Snapshot.ofText?_text (isFinite_of_mem_literals hfinite hc hs)]
  split <;> rfl

/-- A stored snapshot of a compilation comes back exactly if the literals in it are not nested too
deep, and its file is refused as JSON if they are. Where the rules on literals are enforced, this
comes down to the defaults of enums. -/
theorem decode_eq_ok_iff_isShallow (hfinite : ∀ f ∈ sources, ∀ l ∈ f.literals, l.IsFinite)
    (hc : ofSources settings sources = .ok c) (hs : c.snapshot = .ok s)
    (hbytes : encode s = .ok bytes) :
    (decode bytes = .ok s ↔ ∀ t ∈ s.types, t.IsShallow) ∧
      (decode bytes = .error .json ↔ ¬∀ t ∈ s.types, t.IsShallow) ∧
      ((∀ r ∈ literalRules, settings.Enforces r) →
        (decode bytes = .ok s ↔ ∀ t ∈ s.types, t.modifier = .enum →
          ∀ l ∈ t.defaults.entries.map (·.2), l.toJson.depth ≤ 120)) := by
  have hdepth := Snapshot.depth_toJson_le_maxDepth_iff (wellFormed_of_mem_types hc hs)
  have hdecode := decode_of_encode_snapshot hfinite hc hs hbytes
  have hok : decode bytes = .ok s ↔ ∀ t ∈ s.types, t.IsShallow := by
    rw [hdecode, ← hdepth]
    simp
  refine ⟨hok, ?_, fun henforces => hok.trans ?_⟩
  · rw [hdecode, ← hdepth]
    simp
  · exact forall₂_congr fun t ht => isShallow_iff_of_enforces henforces hc hs ht

end Compilation

/-! ### A default in a knot -/

namespace Sample

def nested : Nat → Literal
  | 0 => .bool true
  | n + 1 => .list [nested n]

def knotMember : FieldDecl := ⟨ident "tight", some 0, none, [], [], (ident "tight").span⟩

/-- An enum whose one member has a nested default. -/
def knotDecl (n : Nat) : TypeDecl :=
  ⟨ident "Knot", .enum, none, [knotMember],
    [⟨ident "tight", nested n, (ident "tight").span⟩], [], [], (ident "Knot").span⟩

def knot (n : Nat) : SourceFile := ⟨⟨"common", "knot.nex"⟩, [], [knotDecl n]⟩

def knotCompilation (n : Nat) : Compilation := ⟨.standard, ⟨[(knot n).scope]⟩, [], []⟩

def knotSymbol (n : Nat) : Symbol := ⟨⟨"common", "knot.nex"⟩, knotDecl n⟩

def knotType (n : Nat) : TypeDef :=
  Workspace.typeDef (knotSymbol n) none [Workspace.fieldDef (knotSymbol n) knotMember 0 none]

def knotFile (n : Nat) : CompiledFile :=
  let f : CompiledFile := ⟨"", "common", "common/knot.nex", [knotType n]⟩
  { f with id := f.contentId }

def knotSnapshot (n : Nat) : Snapshot := ⟨1, Snapshot.hashcodeOf [(knotFile n).id], [knotFile n]⟩

theorem ofSources_knot (n : Nat) :
    Compilation.ofSources .standard [knot n] = .ok (knotCompilation n) := by
  have hcanonical : (knot n).canonical = knot n := by
    rw [SourceFile.canonical, knot, normalize_common]
  have hnodup : ((knot n).symbols.map Workspace.symbolKey).Nodup := by
    rw [SourceFile.symbols, knot, List.map_singleton]
    exact List.nodup_singleton _
  have hanalyze : analyze ⟨[(knot n).scope]⟩ .standard = [] := by
    rw [analyze_eq_flatMap]
    rfl
  have hlink := Workspace.link_singleton hcanonical rfl hnodup
  refine Compilation.ofSources_eq_ok_iff.2 ⟨rfl, _, [], hlink, ?_⟩
  rw [hanalyze, List.nil_append, Diagnostic.sort, List.mergeSort_nil]
  rfl

theorem snapshot_knot (n : Nat) : (knotCompilation n).snapshot = .ok (knotSnapshot n) := by
  have hvalid : (knotCompilation n).isValid := rfl
  have hname : Path.name "common" = "common" := rfl
  have htype : (knotCompilation n).workspace.resolveSymbol (knot n).scope (knotSymbol n) =
      .ok (knotType n) := rfl
  have hfile : (knotCompilation n).workspace.compileFile (knot n).scope = .ok (knotFile n) :=
    Workspace.compileFile_eq_ok_iff.2 ⟨.cons htype .nil, hname.symm, rfl, rfl⟩
  have hsnapshot := Workspace.snapshot_singleton (f := (knot n).scope) normalize_common hfile 1
  rw [Compilation.snapshot_of_isValid hvalid]
  exact hsnapshot

theorem isFinite_nested (n : Nat) : (nested n).IsFinite := by
  have hfloats : (nested n).floats = [] := by
    induction n with
    | zero => rfl
    | succ n ih => simp [nested, Literal.floats, Literal.itemFloats, ih]
  intro x hx
  rw [hfloats] at hx
  cases hx

theorem isFinite_knot (n : Nat) : ∀ f ∈ [knot n], ∀ l ∈ f.literals, l.IsFinite := by
  have hliterals : (knot n).literals = [nested n] := rfl
  rw [List.forall_mem_singleton, hliterals, List.forall_mem_singleton]
  exact isFinite_nested n

theorem toJson_knotSnapshot (n : Nat) : (knotSnapshot n).toJson =
    .object [("version", .int 1), ("hashcode", .string (knotSnapshot n).hashcode),
      ("files", .array [.object [("id", .string (knotFile n).id), ("packageName", .string "common"),
        ("path", .string "common/knot.nex"),
        ("types", .array [.object [("id", .string (knotType n).id), ("name", .string "Knot"),
          ("modifier", .string "enum"), ("documentation", .array []), ("annotations", .object []),
          ("defaults", .object [("tight", (nested n).toJson)]),
          ("fields", .array [.object [("index", .int 0), ("name", .string "tight"),
            ("documentation", .array []), ("annotations", .object []),
            ("defaultValue", (nested n).toJson)]])]])]])] := rfl

/-- Every list of the default costs two levels: its tag and its items. -/
theorem depth_nested (n : Nat) : (nested n).toJson.depth = 2 * n + 1 := by
  induction n with
  | zero => rfl
  | succ n ih =>
    simp only [nested, Literal.toJson, Literal.itemsToJson, Literal.tagged, Json.depth,
      Json.depthMembers, Json.depthItems, ih]
    omega

theorem depth_knotSnapshot (n : Nat) : (knotSnapshot n).toJson.depth = 2 * n + 8 := by
  rw [toJson_knotSnapshot]
  simp only [Json.depth, Json.depthMembers, Json.depthItems, depth_nested]
  omega

theorem length_nested (n : Nat) :
    ((nested n).toJson.tokens.flatMap Json.Token.text).length = 26 * n + 28 := by
  induction n with
  | zero => rfl
  | succ n ih =>
    have hkind : (Json.stringText "kind").length = 6 := rfl
    have hlist : (Json.stringText "list").length = 6 := rfl
    have hvalue : (Json.stringText "value").length = 7 := rfl
    simp only [nested, Literal.toJson, Literal.itemsToJson, Literal.tagged, Json.tokens,
      Json.tokensOfMembers, Json.tokensOfItems, List.flatMap_cons, List.flatMap_append,
      List.flatMap_nil, List.append_nil, Json.Token.text, List.length_append, List.length_cons,
      List.length_nil, ih, hkind, hlist, hvalue, reduceIte, Bool.false_eq_true]
    omega

/-- The ids are fingerprints, so that their length is known without them. -/
theorem length_text_knotSnapshot (n : Nat) : (knotSnapshot n).text.length ≤ 52 * n + 2000 := by
  have hid (stream : List UInt8) : (Json.stringText (fingerprint stream)).length ≤ 386 := by
    have hid := Json.length_stringText_le (fingerprint stream)
    rwa [length_fingerprint] at hid
  have hhash : (Json.stringText (knotSnapshot n).hashcode).length ≤ 386 := hid _
  have hfile : (Json.stringText (knotFile n).id).length ≤ 386 := hid _
  have htype : (Json.stringText (knotType n).id).length ≤ 386 := hid _
  have hone : (Numeral.ofInt 1).length = 1 := rfl
  have hzero : (Numeral.ofInt 0).length = 1 := rfl
  rw [Snapshot.text, Json.compact, String.length_ofList, toJson_knotSnapshot]
  simp only [Json.tokens, Json.tokensOfMembers, Json.tokensOfItems, List.flatMap_cons,
    List.flatMap_append, List.flatMap_nil, List.append_nil, Json.Token.text, List.length_append,
    List.length_cons, List.length_nil, length_nested, hone, hzero, reduceIte, Bool.false_eq_true]
  generalize Json.stringText (knotSnapshot n).hashcode = hashText at *
  generalize Json.stringText (knotFile n).id = fileText at *
  generalize Json.stringText (knotType n).id = typeText at *
  simp [Json.stringText, Json.escapeChar]
  omega

/-- Encoding does not look at the depth: the snapshot of the knot is encoded. -/
theorem exists_encode_knotSnapshot {n : Nat} (hn : n < 2 ^ 20) :
    ∃ bytes, Container.encode (knotSnapshot n) = .ok bytes := by
  have hbytes := Bytes.length_ofString_le (knotSnapshot n).text
  have htext := length_text_knotSnapshot n
  have hlength : (Bytes.ofString (knotSnapshot n).text).length < 2 ^ 32 := by omega
  exact ⟨_, Container.encode_eq_ok_iff.2 ⟨hlength, rfl⟩⟩

/-- A default inside of 59 lists comes back. -/
theorem exists_decode_knot : ∃ c s bytes, Compilation.ofSources .standard [knot 59] = .ok c ∧
    c.snapshot = .ok s ∧ Container.encode s = .ok bytes ∧ Container.decode bytes = .ok s := by
  obtain ⟨bytes, hbytes⟩ := exists_encode_knotSnapshot (n := 59) (by decide)
  have henabled : ∀ r ∈ Compilation.literalRules, r ∈ Settings.standard.enabledRules := by decide
  have herror : ∀ r ∈ Compilation.literalRules, Settings.standard.severity r = .error := by decide
  have hdefaults : ∀ t ∈ (knotSnapshot 59).types, t.modifier = .enum →
      ∀ l ∈ t.defaults.entries.map (·.2), l.toJson.depth ≤ 120 := by
    intro t ht _ l hl
    obtain rfl : t = knotType 59 := List.mem_singleton.1 ht
    obtain rfl : l = nested 59 := List.mem_singleton.1 hl
    rw [depth_nested]
    decide
  have hdecode := Compilation.decode_eq_ok_iff_isShallow (isFinite_knot 59) (ofSources_knot 59)
    (snapshot_knot 59) hbytes
  refine ⟨_, _, bytes, ofSources_knot 59, snapshot_knot 59, hbytes, (hdecode.2.2 ?_).2 hdefaults⟩
  exact fun r hr => ⟨henabled r hr, .inl (herror r hr)⟩

/-- A default inside of 60 lists is stored and does not come back. -/
theorem not_decode_knot : (∀ f ∈ [knot 60], ∀ l ∈ f.literals, l.IsFinite) ∧
    ∃ c s bytes, Compilation.ofSources .standard [knot 60] = .ok c ∧ c.snapshot = .ok s ∧
      Container.encode s = .ok bytes ∧ Container.decode bytes = .error .json ∧
      Container.decode bytes ≠ .ok s := by
  obtain ⟨bytes, hbytes⟩ := exists_encode_knotSnapshot (n := 60) (by decide)
  have hdecode : Container.decode bytes = .error .json := by
    rw [Compilation.decode_of_encode_snapshot (isFinite_knot 60) (ofSources_knot 60)
      (snapshot_knot 60)
      hbytes, depth_knotSnapshot]
    rfl
  refine ⟨isFinite_knot 60, _, _, bytes, ofSources_knot 60, snapshot_knot 60, hbytes, hdecode, ?_⟩
  rw [hdecode]
  exact nofun

end Sample

end Schemata
