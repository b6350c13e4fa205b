import Schemata.Proofs.Data.Lists
import Schemata.Proofs.Data.OrderedMap
import Schemata.Proofs.Rule.Indexes
import Schemata.Proofs.Schema.Literal

/-!
# What required rules accept

A rule that reports nothing on a declaration has found something out about it. Together, the rules
on which snapshots rely have found out that the declaration is accepted: its indexes and arguments
fit, its fields have types where they should, and every reference in it denotes one type.
-/

/-!
## What the rules on names accept

The fields of a type have different names, and so have the keys of a block of defaults or
annotations. A field is then the one that its name finds.
-/

namespace Schemata

/-- Where no name is repeated, a field is found by its name. -/
theorem TypeDecl.field?_eq_some {d : TypeDecl}
    (h : (d.fields.map (·.name.name)).Nodup) {f : FieldDecl}
    (hf : f ∈ d.fields) : d.field? f.name.name = some f := find?_key_eq_self h hf

namespace Rule

variable {c : Context} {s : Symbol}

/-- No field name is reported exactly when none is repeated. -/
theorem fieldNameReports_eq_nil_iff :
    fieldNameReports c s = [] ↔ (s.decl.fields.map (·.name.name)).Nodup := by
  rw [fieldNameReports, List.map_eq_nil_iff, repeats_eq_nil_iff]

/-- No key is reported exactly when none is repeated. -/
theorem repeatedKeyReports_eq_nil_iff {kind : Diagnostic.Kind} {block : List Assignment} :
    repeatedKeyReports c kind block = [] ↔ (block.map (·.key.name)).Nodup := by
  rw [repeatedKeyReports, List.map_eq_nil_iff, repeats_eq_nil_iff]

end Rule

/-! ## Accepted types -/

/-- Whether a value type as it is written has the arguments that it takes. -/
def TypeExpr.ArgumentsFit (t : TypeExpr) : Prop :=
  match t.primitive? with
  | some .list => ∃ element, t.args = [element] ∧ Rule.collection? element = none
  | some .map =>
    ∃ key value, t.args = [key, value] ∧ Rule.isKeyType key ∧ Rule.collection? value = none
  | _ => t.args = []

/-- A type that a file declares, as the required rules accept it. -/
structure Symbol.Accepted (w : Workspace) (f : FileScope) (s : Symbol) : Prop where
  base : ∀ r, s.decl.base = some r →
    s.decl.modifier = .struct ∧ ∃ t, w.findRef f r = [t] ∧ t.decl.modifier = .base
  indexes : ∃ indexes : List Int64, s.decl.indexes = indexes.map some ∧
    IndexesFit (s.decl.modifier == .enum) indexes
  typed : ∀ field ∈ s.decl.fields, field.valueType = none ↔ s.decl.modifier = .enum
  arguments : ∀ t ∈ s.decl.typeNodes, t.ArgumentsFit
  references : ∀ t ∈ s.decl.typeNodes, t.primitive? = none →
    ∃ target, w.findRef f t.ref = [target] ∧ target.isSame s = false

/-- Whether every type of a workspace is accepted in its file. -/
def Workspace.IsAccepted (w : Workspace) : Prop := ∀ f ∈ w.files, ∀ s ∈ f.symbols, s.Accepted w f

namespace Rule

variable {c : Context} {s : Symbol}

/-- A reference resolves when it finds one declaration and no more. -/
theorem Context.resolve_eq_ok_iff {r : TypeRef} {t : Symbol} :
    c.resolve r = .ok t ↔ c.workspace.findRef c.scope r = [t] := by
  rw [Context.resolve]
  split
  · next h => simp [h]
  · next h => simp [h]
  · next hone _ =>
    simp only [reduceCtorEq, false_iff]
    exact hone t

/-- The rule on bases accepts what extends nothing, and a struct that extends a base. -/
theorem baseReports_eq_nil_iff :
    baseReports c s = [] ↔ ∀ r, s.decl.base = some r →
      s.decl.modifier = .struct ∧
        ∃ t, c.workspace.findRef c.scope r = [t] ∧ t.decl.modifier = .base := by
  rw [baseReports]
  split
  · next h => simp [h]
  · next base h =>
    simp only [h, Option.some.injEq, forall_eq', ← Context.resolve_eq_ok_iff]
    split
    · next hne => simp [hne]
    · next hstruct =>
      split
      · next hresolve => simp [hresolve]
      · next target hresolve =>
        simp only [hresolve, Except.ok.injEq, exists_eq_left', not_not.1 hstruct, true_and]
        split
        · next hbase => simp [hbase]
        · next hbase => simp [hbase]

/-- The rule on shapes accepts a value type exactly where there has to be one. -/
theorem shapeReport?_eq_none_iff {m : Modifier} {field : FieldDecl} :
    shapeReport? c m field = none ↔ (field.valueType = none ↔ m = .enum) := by
  unfold shapeReport?
  split <;> simp_all

theorem strayArguments_eq_nil_iff {t : TypeExpr} {name : String} :
    strayArguments c t name = [] ↔ t.args = [] := by
  rw [strayArguments]
  split <;> simp_all

/-- The rule on value types accepts arguments of collections only, and names that denote one other
type. -/
theorem typeReports_eq_nil_iff {t : TypeExpr} :
    typeReports c s t = [] ↔
      (collection? t = none → t.args = []) ∧
        (t.primitive? = none →
          ∃ target, c.workspace.findRef c.scope t.ref = [target] ∧ target.isSame s = false) := by
  rw [typeReports, collection?]
  split
  · next p hp =>
    simp only [hp, reduceCtorEq, false_implies, and_true, Option.filter_some]
    split
    · simp
    · simp [strayArguments_eq_nil_iff]
  · next hp =>
    simp only [hp, List.append_eq_nil_iff, strayArguments_eq_nil_iff, Option.filter_none,
      true_implies, ← Context.resolve_eq_ok_iff]
    refine and_congr_right fun _ => ?_
    split
    · next hresolve => simp [hresolve]
    · next target hresolve =>
      simp only [hresolve, Except.ok.injEq, exists_eq_left']
      split
      · next hsame => simp [hsame]
      · next hsame => simpa using hsame

/-- The rule on lists accepts one argument that is no collection. -/
theorem listReports_eq_nil_iff {t : TypeExpr} :
    listReports c t = [] ↔ ∃ element, t.args = [element] ∧ collection? element = none := by
  rw [listReports]
  split
  · next element hargs =>
    simp only [hargs, List.cons.injEq, and_true, exists_eq_left']
    split
    · next h => simp [h]
    · next h => simp [h]
  · next hone =>
    simp only [reduceCtorEq, false_iff]
    rintro ⟨element, hargs, -⟩
    exact hone element hargs

/-- The rule on maps accepts two arguments of which the first can be a key and the second is no
collection. -/
theorem mapReports_eq_nil_iff {t : TypeExpr} :
    mapReports c t = [] ↔
      ∃ key value, t.args = [key, value] ∧ isKeyType key ∧ collection? value = none := by
  rw [mapReports]
  split
  · next key value hargs =>
    rw [List.append_eq_nil_iff]
    constructor
    · rintro ⟨hkey, hvalue⟩
      refine ⟨key, value, hargs, ?_, ?_⟩
      · split at hkey <;> simp_all
      · split at hvalue <;> simp_all
    · rintro ⟨k, v, hkv, hkey, hvalue⟩
      obtain ⟨rfl, rfl⟩ : key = k ∧ value = v := by simpa [hargs] using hkv
      simp [hkey, hvalue]
  · next htwo =>
    simp only [reduceCtorEq, false_iff]
    rintro ⟨key, value, hargs, -⟩
    exact htwo key value hargs

/-- Arguments that the three rules on value types accept fit. -/
theorem argumentsFit_of_reports_eq_nil {c' c'' : Context} {t : TypeExpr}
    (htype : typeReports c s t = []) (hlist : t.primitive? = some .list → listReports c' t = [])
    (hmap : t.primitive? = some .map → mapReports c'' t = []) : t.ArgumentsFit := by
  have hstray := (typeReports_eq_nil_iff.1 htype).1
  rw [TypeExpr.ArgumentsFit]
  split
  · next h => exact listReports_eq_nil_iff.1 (hlist h)
  · next h => exact mapReports_eq_nil_iff.1 (hmap h)
  · next hnolist hnomap =>
    refine hstray ?_
    rw [collection?, Option.filter_eq_none_iff]
    intro p hp
    cases p with
    | list => exact absurd hp hnolist
    | map => exact absurd hp hnomap
    | _ => simp [Primitive.isCollection]

/-- A declaration in a file on which the required rules report nothing is accepted. -/
theorem accepted_of_reports_eq_nil {w : Workspace} {f : FileScope} {settings : Settings}
    (h : ∀ r : Rule, r.isRequired → r.reports (settings.context w f [] r) = [])
    (hs : s ∈ f.symbols) :
    s.Accepted w f where
  base := baseReports_eq_nil_iff.1 (List.flatMap_eq_nil_iff.1 (h .validBaseType rfl) s hs)
  indexes := indexReports_eq_nil_iff.1 (List.flatMap_eq_nil_iff.1 (h .fieldIndex rfl) s hs)
  typed := fun field hfield => shapeReport?_eq_none_iff.1
    (List.filterMap_eq_nil_iff.1 (List.flatMap_eq_nil_iff.1 (h .fieldShape rfl) s hs) field hfield)
  arguments := fun t ht => by
    have htype :=
      List.flatMap_eq_nil_iff.1 (List.flatMap_eq_nil_iff.1 (h .validFieldType rfl) s hs) t ht
    have hnode : ∀ p r, t.primitive? = some p → t ∈ nodesOf (settings.context w f [] r) p := by
      intro p r hp
      exact List.mem_filter.2 ⟨List.mem_flatMap.2 ⟨s, hs, ht⟩, by simp [hp]⟩
    have hlist hp := List.flatMap_eq_nil_iff.1 (h .validListArguments rfl) t (hnode .list _ hp)
    have hmap hp := List.flatMap_eq_nil_iff.1 (h .validMapArguments rfl) t (hnode .map _ hp)
    exact argumentsFit_of_reports_eq_nil htype hlist hmap
  references := fun t ht =>
    (typeReports_eq_nil_iff.1 (List.flatMap_eq_nil_iff.1
      (List.flatMap_eq_nil_iff.1 (h .validFieldType rfl) s hs) t ht)).2

end Rule

/-!
## What the rules on literals accept

Annotations that are accepted are scalars. A default that is accepted names a field, and if this
field has a value type, the default is a value of it: a scalar, or a list or map of scalars, since
collections are not nested in types. Members of an enum have no value type, so that their defaults
can be any literals.
-/

namespace Literal

open Json

theorem depth_toJson_of_isScalar {l : Literal} (h : l.isScalar) : l.toJson.depth = 1 := by
  cases l with
  | list items => cases h
  | map entries => cases h
  | _ => rfl

/-- A list is nested two levels deeper than its items. -/
theorem depth_toJson_list_le {items : List Literal} {n : Nat}
    (h : ∀ l ∈ items, l.toJson.depth ≤ n) :
    (list items).toJson.depth ≤ n + 2 := by
  have hitems : depthItems (itemsToJson items) ≤ n := by
    rwa [itemsToJson_eq_map, depthItems_le_iff, List.forall_mem_map]
  simpa [toJson, tagged, depth, depthMembers] using hitems

/-- A map is nested three levels deeper than its keys and values. -/
theorem depth_toJson_map_le {entries : List (Literal × Literal)} {n : Nat}
    (h : ∀ e ∈ entries, e.1.toJson.depth ≤ n ∧ e.2.toJson.depth ≤ n) :
    (map entries).toJson.depth ≤ n + 3 := by
  have hentries : depthItems (entriesToJson entries) ≤ n + 1 := by
    rw [entriesToJson_eq_map, depthItems_le_iff, List.forall_mem_map]
    intro e he
    simpa [depth, depthItems] using h e he
  simpa [toJson, tagged, depth, depthMembers] using hentries

end Literal

namespace Rule

variable {c : Context} {s : Symbol} {a : Assignment} {l : Literal} {t : TypeExpr}

/-! ### Values of a type -/

theorem itemsConform_iff {items : List Literal} :
    itemsConform c t items ↔ ∀ l ∈ items, conforms c l t := by
  induction items with
  | nil => simp [itemsConform]
  | cons l rest ih => rw [itemsConform, Bool.and_eq_true, ih, List.forall_mem_cons]

theorem entriesConform_iff {key value : TypeExpr} {entries : List (Literal × Literal)} :
    entriesConform c key value entries ↔ ∀ e ∈ entries, conforms c e.1 key ∧
      conforms c e.2 value := by
  induction entries with
  | nil => simp [entriesConform]
  | cons e rest ih =>
    rw [entriesConform, Bool.and_eq_true, Bool.and_eq_true, ih, List.forall_mem_cons]

/-- Values of a declared type are members of an enum. -/
theorem isScalar_of_conformsToReference {r : TypeRef} {target : Symbol}
    (hr : c.workspace.findRef c.scope r = [target]) (h : conformsToReference c r l) :
    l.isScalar := by
  rw [conformsToReference, Context.lookup?, hr] at h
  dsimp only at h
  split at h
  · rfl
  · cases h

/-- Lists are values of lists only. -/
theorem primitive?_of_conforms_list {items : List Literal}
    (hreference : t.primitive? = none → ∃ target, c.workspace.findRef c.scope t.ref = [target])
    (h : conforms c (.list items) t) : t.primitive? = some .list := by
  rw [conforms] at h
  split at h
  · next hp =>
    obtain ⟨target, htarget⟩ := hreference hp
    cases isScalar_of_conformsToReference htarget h
  · next hp => exact hp
  · cases h

/-- Maps are values of maps only. -/
theorem primitive?_of_conforms_map {entries : List (Literal × Literal)}
    (hreference : t.primitive? = none → ∃ target, c.workspace.findRef c.scope t.ref = [target])
    (h : conforms c (.map entries) t) : t.primitive? = some .map := by
  rw [conforms] at h
  split at h
  · next hp =>
    obtain ⟨target, htarget⟩ := hreference hp
    cases isScalar_of_conformsToReference htarget h
  · next hp => exact hp
  · cases h

/-- Values of a type that is no collection are scalars. -/
theorem isScalar_of_conforms (hcollection : collection? t = none)
    (hreference : t.primitive? = none → ∃ target, c.workspace.findRef c.scope t.ref = [target])
    (h : conforms c l t) : l.isScalar := by
  rw [collection?, Option.filter_eq_none_iff] at hcollection
  cases l with
  | list items => exact absurd rfl (hcollection _ (primitive?_of_conforms_list hreference h))
  | map entries => exact absurd rfl (hcollection _ (primitive?_of_conforms_map hreference h))
  | _ => rfl

theorem collection?_of_isKeyType (h : isKeyType t) : collection? t = none := by
  rw [isKeyType, Bool.and_eq_true, Option.any_eq_true] at h
  obtain ⟨⟨p, hp, hkey⟩, -⟩ := h
  rw [collection?, hp, Option.filter_some, if_neg]
  cases p with
  | list => cases hkey
  | map => cases hkey
  | _ => decide

/-- Values of a type of which every part denotes something and has the arguments that it takes are
nested no deeper than maps of scalars. -/
theorem depth_toJson_le_of_conforms (harguments : t.ArgumentsFit)
    (hreferences : ∀ n ∈ t.nodes, n.primitive? = none →
      ∃ target, c.workspace.findRef c.scope n.ref = [target])
    (h : conforms c l t) : l.toJson.depth ≤ 4 := by
  have hreference := hreferences t t.self_mem_nodes
  have hargs : ∀ n ∈ t.args, collection? n = none → ∀ l, conforms c l n → l.toJson.depth ≤ 1 := by
    intro n hn hcollection l hl
    have hscalar := isScalar_of_conforms hcollection (hreferences n (t.arg_mem_nodes hn)) hl
    exact (Literal.depth_toJson_of_isScalar hscalar).le
  cases l with
  | list items =>
    have hp := primitive?_of_conforms_list hreference h
    rw [TypeExpr.ArgumentsFit, hp] at harguments
    obtain ⟨element, he, hcollection⟩ := harguments
    rw [he] at hargs
    simp only [conforms, hp, he, itemsConform_iff] at h
    have hdepth : (Literal.list items).toJson.depth ≤ 1 + 2 :=
      Literal.depth_toJson_list_le fun l hl => hargs element (by simp) hcollection l (h l hl)
    exact hdepth.trans (by decide)
  | map entries =>
    have hp := primitive?_of_conforms_map hreference h
    rw [TypeExpr.ArgumentsFit, hp] at harguments
    obtain ⟨key, value, he, hkey, hcollection⟩ := harguments
    rw [he] at hargs
    simp only [conforms, hp, he, entriesConform_iff] at h
    refine Literal.depth_toJson_map_le fun e he => ⟨?_, ?_⟩
    · exact hargs key (by simp) (collection?_of_isKeyType hkey) e.1 (h e he).1
    · exact hargs value (by simp) hcollection e.2 (h e he).2
  | _ => exact (Literal.depth_toJson_of_isScalar rfl).trans_le (by decide)

/-! ### Reports -/

/-- No annotation is reported exactly when every value is a scalar. -/
theorem annotationReports_eq_nil_iff :
    annotationReports c s = [] ↔ ∀ a ∈ (annotationBlocks s.decl).flatten, a.value.isScalar := by
  rw [annotationReports, List.map_eq_nil_iff, List.filter_eq_nil_iff]
  simp only [Bool.not_eq_true', Bool.not_eq_false]

/-- The rule on the fields of defaults accepts names of fields. -/
theorem unknownDefaultReports_eq_nil_iff :
    unknownDefaultReports c s = [] ↔ ∀ a ∈ s.decl.defaults, (s.decl.field? a.key.name).isSome := by
  rw [unknownDefaultReports, List.map_eq_nil_iff, List.filter_eq_nil_iff]
  simp only [Option.isNone_iff_eq_none, Option.isSome_iff_ne_none]

/-- The rule on the types of defaults accepts values of the type of their field, and anything where
there is no such type. -/
theorem defaultTypeReport?_eq_none_iff : defaultTypeReport? c s a = none ↔
    ∀ t, (s.decl.field? a.key.name).bind (·.valueType) = some t → conforms c a.value t := by
  rw [defaultTypeReport?]
  split
  · next hnone => simp [hnone]
  · next t hsome => simp [hsome]

/-- Defaults of an accepted type with typed fields are nested no deeper than maps of scalars. -/
theorem depth_toJson_default_le {c' : Context} (hs : s.Accepted c.workspace c.scope)
    (hmodifier : s.decl.modifier ≠ .enum) (hnamed : unknownDefaultReports c' s = [])
    (ha : a ∈ s.decl.defaults)
    (htyped : defaultTypeReport? c s a = none) : a.value.toJson.depth ≤ 4 := by
  have hsome := unknownDefaultReports_eq_nil_iff.1 hnamed a ha
  obtain ⟨f, hf⟩ := Option.isSome_iff_exists.1 hsome
  have hmem : f ∈ s.decl.fields := List.mem_of_find?_eq_some hf
  have hne : f.valueType ≠ none := fun hnone => hmodifier ((hs.typed f hmem).1 hnone)
  obtain ⟨t, ht⟩ := Option.ne_none_iff_exists'.1 hne
  have hconforms :=
    defaultTypeReport?_eq_none_iff.1 htyped t (Option.bind_eq_some_iff.2 ⟨f, hf, ht⟩)
  refine depth_toJson_le_of_conforms ?_ (fun n hn hp => ?_) hconforms
  · exact hs.arguments t (TypeDecl.mem_typeNodes hmem ht t.self_mem_nodes)
  · obtain ⟨target, htarget, -⟩ := hs.references n (TypeDecl.mem_typeNodes hmem ht hn) hp
    exact ⟨target, htarget⟩

end Rule

end Schemata
