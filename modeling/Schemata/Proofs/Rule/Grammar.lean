import Schemata.Proofs.Compilation.Outcome
import Schemata.Proofs.Scope.Lookup

/-!
# The grammar of value types

What the rules on value types accept has a grammar of its own: a list of what is no collection, a
map from keys to what is no collection, any other primitive by itself, or the name of a declared
type. The grammar follows a value type from its arguments up, while the rules go through the value
types of a file node by node and look at one thing each.
-/

namespace Schemata

namespace TypeExpr

variable {t : TypeExpr} {p : Primitive}

/-! ## Primitives by their keywords -/

/-- A value type that is written as the keyword of a primitive. A keyword behind an alias is a name
like any other. -/
def Is (t : TypeExpr) (p : Primitive) : Prop := t.ref.qualifier = none ∧ t.ref.name = p.keyword

theorem primitive?_eq_some_iff : t.primitive? = some p ↔ t.Is p := by
  rw [primitive?, Is]
  cases hq : t.ref.qualifier with
  | some a => simp
  | none =>
    rw [Option.isSome_none, if_neg Bool.false_ne_true, eq_self_iff_true, true_and]
    constructor
    · intro h
      exact (Primitive.keyword_of_ofKeyword? h).symm
    · intro h
      rw [h]
      exact Primitive.ofKeyword?_keyword p

/-- A type that is no primitive is read as a name. -/
theorem primitive?_eq_none_iff : t.primitive? = none ↔ ∀ p, ¬t.Is p := by
  rw [Option.eq_none_iff_forall_ne_some]
  exact forall_congr' fun p => not_congr primitive?_eq_some_iff

/-- A list or a map. -/
def IsCollection (t : TypeExpr) : Prop := t.Is .list ∨ t.Is .map

/-- A value type whose values can be keys of a map: a string, a bool or an integer that cannot be
missing. -/
def IsKey (t : TypeExpr) : Prop :=
  t.nullable = false ∧ ∃ p, t.Is p ∧ (p = .string ∨ p = .bool ∨ p.isInteger)

theorem collection?_eq_none_iff : Rule.collection? t = none ↔ ¬t.IsCollection := by
  rw [Rule.collection?, Option.filter_eq_none_iff, IsCollection, ← primitive?_eq_some_iff,
    ← primitive?_eq_some_iff]
  constructor
  · rintro h (hlist | hmap)
    · exact h _ hlist rfl
    · exact h _ hmap rfl
  · intro h p hp hcollection
    cases p with
    | list => exact h (.inl hp)
    | map => exact h (.inr hp)
    | _ => cases hcollection

theorem isKeyType_iff : Rule.isKeyType t ↔ t.IsKey := by
  rw [Rule.isKeyType, IsKey, Bool.and_eq_true, Option.any_eq_true, Bool.not_eq_true', and_comm]
  simp only [primitive?_eq_some_iff, Primitive.isMapKey, Bool.or_eq_true, beq_iff_eq, or_assoc]

/-! ## The grammar -/

/-- The value types that a field of `s` may have in a file. -/
inductive Grammatical (w : Workspace) (f : FileScope) (s : Symbol) : TypeExpr → Prop where
  | list {t element : TypeExpr} (is : t.Is .list) (args : t.args = [element])
      (flat : ¬element.IsCollection)
      (element_ok : Grammatical w f s element) : Grammatical w f s t
  | map {t key value : TypeExpr} (is : t.Is .map) (args : t.args = [key, value]) (isKey : key.IsKey)
      (flat : ¬value.IsCollection) (key_ok : Grammatical w f s key)
      (value_ok : Grammatical w f s value) :
      Grammatical w f s t
  | scalar {t : TypeExpr} {p : Primitive} (is : t.Is p) (flat : p.isCollection = false)
      (args : t.args = []) :
      Grammatical w f s t
  | declared {t : TypeExpr} {target : Symbol} (named : ∀ p, ¬t.Is p) (args : t.args = [])
      (denotes : w.findRef f t.ref = [target]) (other : target ≠ s) : Grammatical w f s t

/-- What the rules ask of a value type without regard to those inside it. -/
structure NodeFits (w : Workspace) (f : FileScope) (s : Symbol) (t : TypeExpr) : Prop where
  arguments : t.ArgumentsFit
  denotes : t.primitive? = none → ∃ target, w.findRef f t.ref = [target] ∧ target ≠ s

/-! ## Arguments by what takes them -/

/-- A value type is a list, a map, another primitive, or a name. -/
theorem is_cases (t : TypeExpr) :
    t.Is .list ∨ t.Is .map ∨ (∃ p, t.Is p ∧ p.isCollection = false) ∨ ∀ p, ¬t.Is p := by
  cases hp : t.primitive? with
  | none => exact .inr (.inr (.inr (primitive?_eq_none_iff.1 hp)))
  | some p =>
    have is := primitive?_eq_some_iff.1 hp
    cases p with
    | list => exact .inl is
    | map => exact .inr (.inl is)
    | _ => exact .inr (.inr (.inl ⟨_, is, rfl⟩))

/-- A list takes one element, which is no collection. -/
theorem argumentsFit_list_iff (is : t.Is .list) :
    t.ArgumentsFit ↔ ∃ element, t.args = [element] ∧ ¬element.IsCollection := by
  rw [ArgumentsFit, primitive?_eq_some_iff.2 is]
  simp only [collection?_eq_none_iff]

/-- A map takes a key that may be one and a value that is no collection. -/
theorem argumentsFit_map_iff (is : t.Is .map) :
    t.ArgumentsFit ↔ ∃ key value, t.args = [key, value] ∧ key.IsKey ∧ ¬value.IsCollection := by
  rw [ArgumentsFit, primitive?_eq_some_iff.2 is]
  simp only [isKeyType_iff, collection?_eq_none_iff]

theorem argumentsFit_scalar_iff (is : t.Is p) (flat : p.isCollection = false) :
    t.ArgumentsFit ↔ t.args = [] := by
  rw [ArgumentsFit, primitive?_eq_some_iff.2 is]
  cases p with
  | list => cases flat
  | map => cases flat
  | _ => rfl

/-- A named type takes no arguments. -/
theorem argumentsFit_named_iff (named : ∀ p, ¬t.Is p) : t.ArgumentsFit ↔ t.args = [] := by
  rw [ArgumentsFit, primitive?_eq_none_iff.2 named]

/-! ## Node by node -/

section Nodes

variable {w : Workspace} {f : FileScope} {s : Symbol}

theorem NodeFits.of_is (is : t.Is p) (arguments : t.ArgumentsFit) : t.NodeFits w f s where
  arguments := arguments
  denotes := fun hnone => absurd is (primitive?_eq_none_iff.1 hnone p)

/-- A value type is grammatical if it fits by itself and its arguments are grammatical. -/
theorem NodeFits.grammatical (h : t.NodeFits w f s) (hargs : ∀ a ∈ t.args, a.Grammatical w f s) :
    t.Grammatical w f s := by
  rcases t.is_cases with is | is | ⟨p, is, flat⟩ | named
  · obtain ⟨element, args, flat⟩ := (argumentsFit_list_iff is).1 h.arguments
    rw [args, List.forall_mem_singleton] at hargs
    exact .list is args flat hargs
  · obtain ⟨key, value, args, isKey, flat⟩ := (argumentsFit_map_iff is).1 h.arguments
    rw [args, List.forall_mem_cons, List.forall_mem_singleton] at hargs
    exact .map is args isKey flat hargs.1 hargs.2
  · exact .scalar is flat ((argumentsFit_scalar_iff is flat).1 h.arguments)
  · obtain ⟨target, denotes, other⟩ := h.denotes (primitive?_eq_none_iff.2 named)
    exact .declared named ((argumentsFit_named_iff named).1 h.arguments) denotes other

/-- The grammar asks of every value type inside another one what the rules ask of each by itself. -/
theorem grammatical_iff (t : TypeExpr) : t.Grammatical w f s ↔ ∀ n ∈ t.nodes, n.NodeFits w f s := by
  constructor
  · intro h
    induction h with
    | list is args flat _ ih =>
      rw [forall_mem_nodes_iff, args, List.forall_mem_singleton]
      exact ⟨.of_is is ((argumentsFit_list_iff is).2 ⟨_, args, flat⟩), ih⟩
    | map is args isKey flat _ _ ihKey ihValue =>
      rw [forall_mem_nodes_iff, args, List.forall_mem_cons, List.forall_mem_singleton]
      exact ⟨.of_is is ((argumentsFit_map_iff is).2 ⟨_, _, args, isKey, flat⟩), ihKey, ihValue⟩
    | scalar is flat args =>
      rw [forall_mem_nodes_iff, args]
      exact ⟨.of_is is ((argumentsFit_scalar_iff is flat).2 args), fun a ha =>
        absurd ha List.not_mem_nil⟩
    | declared named args denotes other =>
      rw [forall_mem_nodes_iff, args]
      exact ⟨⟨(argumentsFit_named_iff named).2 args, fun _ => ⟨_, denotes, other⟩⟩,
        fun a ha => absurd ha List.not_mem_nil⟩
  · induction t using TypeExpr.ind with
    | mk ref nullable args span ih =>
      intro h
      rw [forall_mem_nodes_iff] at h
      exact h.1.grammatical fun a ha => ih a ha (h.2 a ha)

end Nodes

end TypeExpr

/-! ## The three rules -/

namespace Rule

variable {c : Context} {s : Symbol} {t : TypeExpr}

/-- Arguments that fit are accepted by each of the three rules. -/
theorem reports_eq_nil_of_argumentsFit (h : t.ArgumentsFit) : (collection? t = none → t.args = []) ∧
    (t.primitive? = some .list → listReports c t = []) ∧
    (t.primitive? = some .map → mapReports c t = []) := by
  rw [TypeExpr.ArgumentsFit] at h
  refine ⟨fun hcollection => ?_, fun hp => ?_, fun hp => ?_⟩
  · rw [collection?, Option.filter_eq_none_iff] at hcollection
    split at h
    · next hp => exact absurd rfl (hcollection _ hp)
    · next hp => exact absurd rfl (hcollection _ hp)
    · exact h
  · rw [hp] at h
    exact listReports_eq_nil_iff.2 h
  · rw [hp] at h
    exact mapReports_eq_nil_iff.2 h

/-- What the three rules ask of a value type by itself. -/
theorem nodeReports_eq_nil_iff :
    (typeReports c s t = [] ∧ (t.primitive? = some .list → listReports c t = []) ∧
      (t.primitive? = some .map → mapReports c t = [])) ↔
    t.ArgumentsFit ∧ (t.primitive? = none →
      ∃ target, c.workspace.findRef c.scope t.ref = [target] ∧ target.isSame s = false) := by
  constructor
  · rintro ⟨htype, hlist, hmap⟩
    exact ⟨argumentsFit_of_reports_eq_nil htype hlist hmap, (typeReports_eq_nil_iff.1 htype).2⟩
  · rintro ⟨hfit, hdenotes⟩
    obtain ⟨hstray, hlist, hmap⟩ := reports_eq_nil_of_argumentsFit (c := c) hfit
    exact ⟨typeReports_eq_nil_iff.2 ⟨hstray, hdenotes⟩, hlist, hmap⟩

/-- The nodes on which a rule looks are those of all types that are the given primitive. -/
theorem forall_mem_nodesOf_iff {P : TypeExpr → Prop} {p : Primitive} : (∀ t ∈ nodesOf c p, P t) ↔
    ∀ s ∈ c.scope.symbols, ∀ t ∈ s.decl.typeNodes, t.primitive? = some p → P t := by
  constructor
  · intro h s hs t ht hp
    exact h t (List.mem_filter.2 ⟨List.mem_flatMap.2 ⟨s, hs, ht⟩, beq_iff_eq.2 hp⟩)
  · intro h t ht
    obtain ⟨ht, hp⟩ := List.mem_filter.1 ht
    obtain ⟨s, hs, ht⟩ := List.mem_flatMap.1 ht
    exact h s hs t ht (beq_iff_eq.1 hp)

/-- The rules that look at value types. -/
def onValueTypes : List Rule := [.validFieldType, .validListArguments, .validMapArguments]

/-- The three rules look at every value type of the file. -/
theorem onValueTypes_eq_nil_iff : (∀ r ∈ onValueTypes, r.reports c = []) ↔
    ∀ s ∈ c.scope.symbols, ∀ t ∈ s.decl.typeNodes, typeReports c s t = [] ∧
      (t.primitive? = some .list → listReports c t = []) ∧
      (t.primitive? = some .map → mapReports c t = []) := by
  simp only [onValueTypes, List.forall_mem_cons, List.not_mem_nil, false_implies, implies_true,
    and_true, reports, validFieldTypeReports, validListArgumentsReports, validMapArgumentsReports,
    List.flatMap_eq_nil_iff, forall_mem_nodesOf_iff]
  constructor
  · rintro ⟨htype, hlist, hmap⟩ s hs t ht
    exact ⟨htype s hs t ht, hlist s hs t ht, hmap s hs t ht⟩
  · intro h
    exact ⟨fun s hs t ht => (h s hs t ht).1, fun s hs t ht => (h s hs t ht).2.1, fun s hs t ht =>
      (h s hs t ht).2.2⟩

end Rule

namespace Workspace

variable {w : Workspace} {f : FileScope} {s : Symbol} {t : TypeExpr}

/-- In an orderly workspace a node fits just if the rules that look at it have nothing to report. -/
theorem IsOrderly.nodeFits_iff (hw : w.IsOrderly) (hf : f ∈ w.files) (hs : s ∈ f.symbols)
    {severity : Severity} {enabled : List Rule} {reported : List Diagnostic} :
    t.NodeFits w f s ↔ Rule.typeReports ⟨w, f, severity, enabled, reported⟩ s t = [] ∧
      (t.primitive? = some .list → Rule.listReports ⟨w, f, severity, enabled, reported⟩ t = []) ∧
      (t.primitive? = some .map → Rule.mapReports ⟨w, f, severity, enabled, reported⟩ t = []) := by
  have hmem : s ∈ w.symbols := List.mem_flatMap.2 ⟨f, hf, hs⟩
  have hsame : ∀ target, w.findRef f t.ref = [target] → (target.isSame s = false ↔ target ≠ s) := by
    intro target htarget
    have hfound : target ∈ w.find f t.ref.name t.ref.qualifier := by
      rw [← findRef, htarget]
      exact List.mem_singleton_self target
    exact hw.isSame_eq_false_iff (mem_of_mem_find hf hfound).1 hmem
  have hdenotes : (∃ target, w.findRef f t.ref = [target] ∧ target.isSame s = false) ↔
      ∃ target, w.findRef f t.ref = [target] ∧ target ≠ s :=
    exists_congr fun target => and_congr_right (hsame target)
  rw [Rule.nodeReports_eq_nil_iff]
  constructor
  · rintro ⟨harguments, hother⟩
    exact ⟨harguments, fun hp => hdenotes.2 (hother hp)⟩
  · rintro ⟨harguments, hother⟩
    exact ⟨harguments, fun hp => hdenotes.1 (hother hp)⟩

/-- The rules on value types have nothing to report on a file just if every value type written in it
is grammatical. -/
theorem valueTypes_accepted_iff {sources : List SourceFile} {ds : List Diagnostic}
    (h : link sources = .ok (w, ds))
    (hf : f ∈ w.files) (severity : Severity) (enabled : List Rule) (reported : List Diagnostic) :
    (∀ r ∈ Rule.onValueTypes, r.reports ⟨w, f, severity, enabled, reported⟩ = []) ↔
      ∀ s ∈ f.symbols, ∀ field ∈ s.decl.fields, ∀ t, field.valueType = some t →
        t.Grammatical w f s := by
  simp only [Rule.onValueTypes_eq_nil_iff, TypeExpr.grammatical_iff,
    ← TypeDecl.forall_mem_typeNodes_iff]
  refine forall₂_congr fun s hs => forall₂_congr fun t _ => ?_
  exact ((isOrderly_of_link h).nodeFits_iff hf hs).symm

end Workspace

namespace Sample

/-- The rules accept a list of links to values of a declared type, which is grammatical. -/
theorem valueTypes_accepted_user : user.scope ∈ workspace.files ∧
    (∀ r ∈ Rule.onValueTypes, r.reports ⟨workspace, user.scope, .error, Rule.all, []⟩ = []) ∧
    ∀ s ∈ user.scope.symbols, ∀ field ∈ s.decl.fields, ∀ t, field.valueType = some t →
      t.Grammatical workspace user.scope s := by
  have hmem : user.scope ∈ workspace.files := List.mem_cons_of_mem _ (List.mem_singleton_self _)
  have hchecks : ∀ r ∈ Rule.onValueTypes, r.reports ⟨workspace, user.scope, .error,
      Rule.all, []⟩ = [] := by
    rw [Rule.onValueTypes, List.forall_mem_cons, List.forall_mem_cons, List.forall_mem_singleton]
    exact ⟨rfl, rfl, rfl⟩
  exact ⟨hmem, hchecks,
    (Workspace.valueTypes_accepted_iff link_sources hmem .error Rule.all []).1 hchecks⟩

end Sample

end Schemata
