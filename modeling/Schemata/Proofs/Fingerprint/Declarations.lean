import Schemata.Proofs.Fingerprint.Records
import Schemata.Proofs.Schema.Plain

/-!
# Declarations in streams

The stream of a declared type says just what makes types alike: types with one stream are alike, and
types that are alike have one stream.
-/

namespace Schemata

/-! ## The lengths in a declaration -/

namespace Lengths

def typeRef (r : TypeRef) : List Nat := text r.name ++ optional text r.qualifier

def assignments (items : List Assignment) : List Nat := entries (items.map (·.entry))

mutual

def typeExpr : TypeExpr → List Nat
  | .mk r _ as _ => typeRef r ++ as.length :: typeExprs as

def typeExprs : List TypeExpr → List Nat
  | [] => []
  | t :: rest => typeExpr t ++ typeExprs rest

end

def fieldDecl (f : FieldDecl) : List Nat :=
  text f.name.name ++ optional typeExpr f.valueType ++ assignments f.annotations

def typeDecl (package : String) (d : TypeDecl) : List Nat :=
  text package ++ text d.name.name ++ optional typeRef d.base ++ list fieldDecl d.fields ++
    assignments d.defaults ++ assignments d.annotations

end Lengths

namespace Stream

/-! ## From the stream to the declaration -/

theorem framed_typeRef : Framed Lengths.typeRef TypeRef.Alike
    fun r => text r.name ++ optional text r.qualifier :=
  (framed_text.of TypeRef.name).append (framed_text.optionalEq.of TypeRef.qualifier)

theorem framed_assignments :
    Framed Lengths.assignments (fun as bs => as.map (·.entry) = bs.map (·.entry)) assignments :=
  framed_entries.of fun items : List Assignment => items.map Assignment.entry

mutual

/-- Type expressions with one stream in front of the rest are alike, and so the rest is the same. -/
theorem typeExpr_append_inj (t u : TypeExpr) (ht : Fits (Lengths.typeExpr t))
    (hu : Fits (Lengths.typeExpr u)) (r r' : List UInt8) (e : typeExpr t ++ r = typeExpr u ++ r') :
    t.Alike u ∧ r = r' := by
  match t, u with
  | .mk ref nullable as span, .mk ref' nullable' bs span' =>
    simp only [Lengths.typeExpr, fits_append, fits_cons] at ht hu
    simp only [typeExpr, List.append_assoc] at e
    rw [← List.append_assoc, ← List.append_assoc (text ref'.name)] at e
    obtain ⟨href, e₁⟩ := framed_typeRef ht.1 hu.1 e
    obtain ⟨rfl, e₂⟩ := framed_bool fits_nil fits_nil e₁
    obtain ⟨hlen, e₃⟩ := framed_count (by simpa using ht.2.1) (by simpa using hu.2.1) e₂
    obtain ⟨hargs, e₄⟩ := typeExprs_append_inj as bs ht.2.2 hu.2.2 hlen r r' e₃
    exact ⟨.mk href hargs, e₄⟩

theorem typeExprs_append_inj (ts us : List TypeExpr) (hts : Fits (Lengths.typeExprs ts))
    (hus : Fits (Lengths.typeExprs us)) (hlen : ts.length = us.length) (r r' : List UInt8)
    (e : typeExprs ts ++ r = typeExprs us ++ r') : List.Forall₂ TypeExpr.Alike ts us ∧ r = r' := by
  match ts, us with
  | [], [] => exact ⟨.nil, e⟩
  | t :: ts, u :: us =>
    simp only [typeExprs, List.append_assoc] at e
    simp only [Lengths.typeExprs, fits_append] at hts hus
    obtain ⟨halike, e₁⟩ := typeExpr_append_inj t u hts.1 hus.1 _ _ e
    obtain ⟨hrest, e₂⟩ := typeExprs_append_inj ts us hts.2 hus.2 (by simpa using hlen) r r' e₁
    exact ⟨.cons halike hrest, e₂⟩

end

/-- The stream of a type expression tells it apart from every one that is not alike. -/
theorem framed_typeExpr : Framed Lengths.typeExpr TypeExpr.Alike typeExpr :=
  fun t u ht hu r r' e => typeExpr_append_inj t u ht hu r r' e

/-- A field is known up to what is alike, and its index in effect. -/
theorem framed_fieldDecl :
    Framed (fun f : FieldDecl × Option Int64 => Lengths.fieldDecl f.1)
      (fun f g => f.1.Alike g.1 ∧ f.2 = g.2) fieldDecl := by
  refine ((((framed_int.optionalEq.of Prod.snd).append
    (framed_text.of fun f : FieldDecl × Option Int64 => f.1.name.name)).append
    (framed_typeExpr.optional.of fun f : FieldDecl × Option Int64 => f.1.valueType)).append
    (framed_assignments.of fun f : FieldDecl × Option Int64 => f.1.annotations)).imp ?_ ?_
  · rintro ⟨f, _ | i⟩ h
    · simpa [Lengths.fieldDecl, Lengths.optional] using h
    · simpa [Lengths.fieldDecl, Lengths.optional] using h
  · rintro f g ⟨⟨⟨hindex, hname⟩, htype⟩, hannotations⟩
    exact ⟨⟨hname, htype, hannotations⟩, hindex⟩

theorem lengths_zip_indexes (d : TypeDecl) :
    Lengths.list (fun f : FieldDecl × Option Int64 => Lengths.fieldDecl f.1)
      (d.fields.zip d.indexes) =
      Lengths.list Lengths.fieldDecl d.fields := by
  have hfst : (d.fields.zip d.indexes).map Prod.fst = d.fields :=
    List.map_fst_zip (Nat.le_of_eq d.length_indexes.symm)
  rw [Lengths.list, Lengths.list, ← List.flatMap_map, hfst, ← List.length_map (f := Prod.fst), hfst]

/-- A type is known from its stream up to what is alike, and so is its package. -/
theorem framed_typeDecl :
    Framed (fun t : String × TypeDecl => Lengths.typeDecl t.1 t.2)
      (fun t u => t.1 = u.1 ∧ t.2.Alike u.2) fun t => typeDecl t.1 t.2 := by
  let decl : String × TypeDecl → TypeDecl := Prod.snd
  refine ((((((((framed_const (text "type")).append (framed_text.of Prod.fst)).append
    (framed_text.of fun t => (decl t).name.name)).append
    (framed_modifier.of fun t => (decl t).modifier)).append
    (framed_typeRef.optional.of fun t => (decl t).base)).append
    (framed_fieldDecl.list.of fun t => (decl t).fields.zip (decl t).indexes)).append
    (framed_assignments.of fun t => (decl t).defaults)).append
    (framed_assignments.of fun t => (decl t).annotations)).imp ?_ ?_
  · rintro ⟨p, d⟩ h
    simp only [lengths_zip_indexes, decl]
    exact h
  · rintro ⟨p, d⟩ ⟨q, e⟩
      ⟨⟨⟨⟨⟨⟨⟨-, hpackage⟩, hname⟩, hmodifier⟩, hbase⟩, hfields⟩, hdefaults⟩, hannotations⟩
    obtain ⟨hfields, hindexes⟩ := (forall₂_zip_iff d.length_indexes e.length_indexes).1 hfields
    exact ⟨hpackage, ⟨hname, hmodifier, hbase, hdefaults, hannotations⟩, hfields, hindexes⟩

/-! ## From the declaration to the stream -/

/-- Alike references have the same stream. -/
theorem typeRef_eq_of_alike (r s : TypeRef) (h : r.Alike s) :
    text r.name ++ optional text r.qualifier = text s.name ++ optional text s.qualifier := by
  rw [h.1, h.2]

/-- Blocks with the same entries have the same stream. -/
theorem assignments_eq_of_alike {as bs : List Assignment}
    (h : as.map (·.entry) = bs.map (·.entry)) : assignments as = assignments bs :=
  congrArg entries h

theorem optional_eq_of_rel {α : Type} {same : α → α → Prop} {write : α → List UInt8}
    (hsame : ∀ a b, same a b → write a = write b) {o o' : Option α} (h : Option.Rel same o o') :
    optional write o = optional write o' := by
  cases h with
  | some h => rw [optional, optional, hsame _ _ h]
  | none => rfl

theorem flatMap_eq_of_forall₂ {α : Type} {write : α → List UInt8} {as bs : List α}
    (h : List.Forall₂ (fun a b => write a = write b) as bs) :
    as.flatMap write = bs.flatMap write := by
  rw [List.flatMap_def, List.flatMap_def, map_eq_of_forall₂ h]

theorem list_eq_of_forall₂ {α : Type} {same : α → α → Prop} {write : α → List UInt8}
    (hsame : ∀ a b, same a b → write a = write b) {as bs : List α} (h : List.Forall₂ same as bs) :
    list write as = list write bs := by
  rw [list, list, h.length_eq, flatMap_eq_of_forall₂ (h.imp hsame)]

theorem typeExprs_eq_flatMap (as : List TypeExpr) : typeExprs as = as.flatMap typeExpr := by
  induction as with
  | nil => rfl
  | cons t rest ih => rw [typeExprs, ih, List.flatMap_cons]

/-- Alike type expressions have the same stream. -/
theorem typeExpr_eq_of_alike (t u : TypeExpr) (h : t.Alike u) : typeExpr t = typeExpr u := by
  induction t using TypeExpr.ind generalizing u with
  | mk r nullable as span ih =>
    cases h with
    | mk href hargs =>
      have hwrite := ((List.forall₂_and_left _ _).2 ⟨ih, hargs⟩).imp fun a b hab => hab.1 b hab.2
      rw [typeExpr, typeExpr, typeRef_eq_of_alike _ _ href, typeExprs_eq_flatMap,
        typeExprs_eq_flatMap, hargs.length_eq, flatMap_eq_of_forall₂ hwrite]

/-- Alike fields of one index have the same stream. -/
theorem fieldDecl_eq_of_alike (f g : FieldDecl × Option Int64) (h : f.1.Alike g.1 ∧ f.2 = g.2) :
    fieldDecl f = fieldDecl g := by
  obtain ⟨⟨hname, htype, hannotations⟩, hindex⟩ := h
  rw [fieldDecl, fieldDecl, hindex, hname, optional_eq_of_rel typeExpr_eq_of_alike htype,
    assignments_eq_of_alike hannotations]

/-- Alike declarations of one package have the same stream. -/
theorem typeDecl_eq_of_alike (p : String) {d e : TypeDecl} (h : d.Alike e) :
    typeDecl p d = typeDecl p e := by
  have hfields := (forall₂_zip_iff d.length_indexes e.length_indexes).2 ⟨h.fields, h.indexes⟩
  rw [typeDecl, typeDecl, h.name, h.modifier,
    optional_eq_of_rel typeRef_eq_of_alike h.base,
    list_eq_of_forall₂ fieldDecl_eq_of_alike hfields, assignments_eq_of_alike h.defaults,
    assignments_eq_of_alike h.annotations]

/-! ## What an id covers -/

/-- Types have one stream exactly if they are alike and belong to one package. A type that is
spelled in another way keeps its stream. -/
theorem typeDecl_eq_iff_alike {p q : String} {d e : TypeDecl} (hd : Fits (Lengths.typeDecl p d))
    (he : Fits (Lengths.typeDecl q e)) :
    (typeDecl p d = typeDecl q e ↔ p = q ∧ d.Alike e) ∧
      ∀ d', d.Respelled d' → typeDecl p d' = typeDecl p d := by
  refine ⟨⟨fun h => ?_, ?_⟩, fun d' h => (typeDecl_eq_of_alike p h.alike).symm⟩
  · exact framed_typeDecl.same_of_eq (a := (p, d)) (b := (q, e)) hd he h
  · rintro ⟨rfl, h⟩
    exact typeDecl_eq_of_alike p h

end Stream

namespace Sample

/-- A struct with two fields, of which the first one has index 4. -/
def lamp (place : Span) (documentation : List String) (second : Option Int64) : TypeDecl where
  name := ⟨"Lamp", place⟩
  modifier := .struct
  base := some ⟨"Entity", some "c", place⟩
  fields := [
    ⟨⟨"watts", place⟩, some 4, some (.mk ⟨"float64", none, place⟩ true [] place), [], [], place⟩,
    ⟨⟨"tags", place⟩, second,
      some (.mk ⟨"list", none, place⟩ false [.mk ⟨"string", none, place⟩ false [] place] place),
      documentation, [⟨⟨"since", place⟩, .int 2, place⟩], place⟩]
  defaults := [⟨⟨"tags", place⟩, .list [.string "warm"], place⟩]
  documentation := documentation
  annotations := []
  span := place

theorem lamp_respelled (place place' : Span) (documentation documentation' : List String) :
    (lamp place documentation none).Respelled (lamp place' documentation' (some 5)) := by
  have hindexes : (lamp place documentation none).indexes = [some 4, some 5] := by
    show indexesFrom (some (-1)) [some 4, none] = _
    decide
  refine ⟨⟨rfl, rfl, .some ⟨rfl, rfl⟩, rfl, rfl⟩, ?_⟩
  rw [hindexes]
  refine .cons ⟨⟨rfl, .some (.mk ⟨rfl, rfl⟩ .nil), rfl⟩, .inl rfl⟩
    (.cons ⟨⟨rfl, ?_, rfl⟩, .inr rfl⟩ .nil)
  exact .some (.mk ⟨rfl, rfl⟩ (.cons (.mk ⟨rfl, rfl⟩ .nil) .nil))

/-- The struct keeps its stream when it moves, is documented and has its second index written out.
With another second index it has another stream. -/
theorem typeDecl_lamp : ∃ here there : Span, here ≠ there ∧
    Stream.typeDecl "home" (lamp there ["Shines."] (some 5)) =
      Stream.typeDecl "home" (lamp here [] none) ∧
    Stream.typeDecl "home" (lamp here [] none) ≠
      Stream.typeDecl "home" (lamp here [] (some 6)) := by
  let here : Span := ⟨⟨1, 1⟩, ⟨1, 5⟩⟩
  let there : Span := ⟨⟨7, 2⟩, ⟨9, 1⟩⟩
  obtain ⟨hiff, hrespelled⟩ := Stream.typeDecl_eq_iff_alike
    (p := "home") (q := "home") (d := lamp here [] none) (e := lamp here [] (some 6))
    (by decide) (by decide +kernel)
  refine ⟨here, there, by decide, hrespelled _ (lamp_respelled here there [] ["Shines."]),
    fun h => ?_⟩
  have hindexes := (hiff.1 h).2.indexes
  revert hindexes
  decide

end Sample

end Schemata
