import Mathlib.Data.List.Forall2
import Mathlib.Data.List.Nodup
import Schemata.Fingerprint.Identity
import Schemata.Proofs.Data.Bytes

/-!
# Streams of records

A stream can be cut into its parts in one way only, so it tells the record that it was written for.
-/

/-!
## Streams without collisions

A digest has fewer bytes than most streams, so there are streams that share one. What can be asked
for is that none of the streams at hand do.
-/

namespace Schemata

/-- A digest has thirty-two bytes. -/
theorem Blake3.length_digest (bytes : List UInt8) : (digest bytes).length = 32 := by
  simp [digest, List.length_flatMap]

theorem length_fingerprint (stream : List UInt8) : (fingerprint stream).length = 64 := by
  rw [fingerprint, Hex.length_ofBytes, Blake3.length_digest]

/-- Streams of which no two different ones have the same digest. -/
def CollisionFree (streams : List (List UInt8)) : Prop :=
  ∀ a ∈ streams, ∀ b ∈ streams, Blake3.digest a = Blake3.digest b → a = b

namespace CollisionFree

variable {streams : List (List UInt8)}

/-- Streams with different digests are free of collisions. -/
theorem of_nodup (h : (streams.map Blake3.digest).Nodup) : CollisionFree streams :=
  fun _ ha _ hb e => List.inj_on_of_nodup_map h ha hb e

/-- Without collisions, a stream is known from its fingerprint. -/
theorem eq_of_fingerprint_eq (h : CollisionFree streams) {a b : List UInt8} (ha : a ∈ streams)
    (hb : b ∈ streams) (e : fingerprint a = fingerprint b) : a = b :=
  h a ha b hb (Hex.ofBytes_inj e)

end CollisionFree

/-!
## Streams come apart in one way

What is written into a stream shows where it ends, whatever stands behind it. Two streams that agree
byte by byte therefore say the same, part by part, as long as every length in them fits the word
that states it.

`Framed` is this property of one way of writing. It passes from the parts of a thing to the whole.
-/

/-! ### The lengths in a stream -/

namespace Lengths

def text (s : String) : List Nat := [s.utf8ByteSize]

def optional {α : Type} (f : α → List Nat) : Option α → List Nat
  | none => []
  | some a => f a

def list {α : Type} (f : α → List Nat) (items : List α) : List Nat :=
  items.length :: items.flatMap f

def texts (items : List String) : List Nat := list text items

mutual

def literal : Literal → List Nat
  | .string s => text s
  | .int _ | .float _ | .bool _ => []
  | .list items => items.length :: literals items
  | .map entries => entries.length :: literalPairs entries

def literals : List Literal → List Nat
  | [] => []
  | l :: rest => literal l ++ literals rest

def literalPairs : List (Literal × Literal) → List Nat
  | [] => []
  | (k, v) :: rest => literal k ++ literal v ++ literalPairs rest

end

def entries (items : List (String × Literal)) : List Nat :=
  list (fun e => text e.1 ++ literal e.2) items

mutual

def resolvedType : ResolvedType → List Nat
  | .primitive _ _ as => as.length :: resolvedTypes as
  | .custom typeId _ importAlias => text typeId ++ optional text importAlias

def resolvedTypes : List ResolvedType → List Nat
  | [] => []
  | t :: rest => resolvedType t ++ resolvedTypes rest

end

def fieldDef (f : FieldDef) : List Nat :=
  text f.name ++ texts f.documentation ++ entries f.annotations.entries ++
    optional literal f.defaultValue ++ optional resolvedType f.valueType

def typeDef (t : TypeDef) : List Nat :=
  text t.id ++ text t.name ++ texts t.documentation ++ entries t.annotations.entries ++
    entries t.defaults.entries ++ optional text t.baseId ++ list fieldDef t.fields

def compiledFile (f : CompiledFile) : List Nat :=
  text f.packageName ++ text f.path ++ list typeDef f.types

end Lengths

namespace Stream

/-- Lengths that a 64-bit word can state. -/
def Fits (lengths : List Nat) : Prop := ∀ n ∈ lengths, n < 2 ^ 64

instance (lengths : List Nat) : Decidable (Fits lengths) :=
  inferInstanceAs (Decidable (∀ n ∈ lengths, n < 2 ^ 64))

@[simp] theorem fits_nil : Fits [] := by simp [Fits]

@[simp] theorem fits_cons {n : Nat} {lengths : List Nat} :
    Fits (n :: lengths) ↔ n < 2 ^ 64 ∧ Fits lengths := List.forall_mem_cons

@[simp] theorem fits_append {l m : List Nat} : Fits (l ++ m) ↔ Fits l ∧ Fits m :=
  List.forall_mem_append

@[simp] theorem fits_flatMap {α : Type} {f : α → List Nat} {items : List α} :
    Fits (items.flatMap f) ↔ ∀ a ∈ items, Fits (f a) := by
  simp only [Fits, List.mem_flatMap, forall_exists_index, and_imp]
  exact ⟨fun h a ha n hn => h n a ha hn, fun h n a ha hn => h a ha n hn⟩

/-! ### Framed writing -/

/-- A way of writing that shows where it ends and what it says, up to the relation `same`. -/
def Framed {α : Type} (lengths : α → List Nat) (same : α → α → Prop) (write : α → List UInt8) :
    Prop :=
  ∀ ⦃a b : α⦄, Fits (lengths a) → Fits (lengths b) → ∀ ⦃r r' : List UInt8⦄,
    write a ++ r = write b ++ r' → same a b ∧ r = r'

variable {α β : Type} {lengths lengths' : α → List Nat} {same same' : α → α → Prop}
  {write write' : α → List UInt8}

/-- Framed writing at the end of a stream. -/
theorem Framed.same_of_eq (h : Framed lengths same write) {a b : α} (ha : Fits (lengths a))
    (hb : Fits (lengths b)) (e : write a = write b) : same a b :=
  (h ha hb (show write a ++ [] = write b ++ [] by rw [e])).1

/-- A framing may be read with longer lengths and a weaker sameness. -/
theorem Framed.imp (h : Framed lengths same write) (hl : ∀ a, Fits (lengths' a) → Fits (lengths a))
    (hs : ∀ a b, same a b → same' a b) : Framed lengths' same' write :=
  fun a b ha hb _ _ e => (h (hl a ha) (hl b hb) e).imp_left (hs a b)

/-- Writing one part of a thing. -/
theorem Framed.of (h : Framed lengths same write) (part : β → α) :
    Framed (fun b => lengths (part b)) (fun b c => same (part b) (part c)) fun b =>
      write (part b) :=
  fun _ _ ha hb _ _ e => h ha hb e

/-- Writing one thing behind another. -/
theorem Framed.append (h : Framed lengths same write) (h' : Framed lengths' same' write') :
    Framed (fun a => lengths a ++ lengths' a) (fun a b => same a b ∧ same' a b)
      fun a => write a ++ write' a := by
  intro a b ha hb r r' e
  simp only [List.append_assoc] at e
  obtain ⟨hs, e⟩ := h (fits_append.1 ha).1 (fits_append.1 hb).1 e
  obtain ⟨hs', e⟩ := h' (fits_append.1 ha).2 (fits_append.1 hb).2 e
  exact ⟨⟨hs, hs'⟩, e⟩

/-- Writing what is always the same. -/
theorem framed_const (bytes : List UInt8) :
    Framed (fun _ : α => []) (fun _ _ => True) fun _ => bytes :=
  fun _ _ _ _ _ _ e => ⟨trivial, List.append_cancel_left e⟩

theorem tag_append_inj {m n : UInt8} {r r' : List UInt8} (e : tag m ++ r = tag n ++ r') :
    m = n ∧ r = r' := List.cons_eq_cons.1 e

/-- A count below the bound tells itself apart: its eight bytes hold all of it. -/
theorem framed_count : Framed (fun n => [n]) Eq count := by
  intro m n hm hn r r' e
  obtain ⟨e, er⟩ := List.append_inj e (by simp [count])
  exact ⟨Bytes.littleEndian_inj (hm m List.mem_cons_self) (hn n List.mem_cons_self) e, er⟩

theorem framed_word : Framed (fun _ => []) Eq fun w : UInt64 => count w.toNat := by
  intro v w _ _ r r' e
  have hv : Fits [v.toNat] := by simpa using v.toNat_lt
  have hw : Fits [w.toNat] := by simpa using w.toNat_lt
  exact (framed_count hv hw e).imp_left UInt64.toNat_inj.1

/-- An integer tells itself apart without a bound, since it is a word of eight bytes. -/
theorem framed_int : Framed (fun _ => []) Eq int := by
  refine (framed_word.of Int64.toUInt64).imp (fun _ h => h) fun i j e => ?_
  rw [← i.toInt64_toUInt64, e, j.toInt64_toUInt64]

theorem framed_bool : Framed (fun _ => []) Eq bool := by
  intro a b _ _ r r' e
  obtain ⟨e, er⟩ := tag_append_inj e
  refine ⟨?_, er⟩
  cases a <;> cases b <;> simp_all

/-- A text stands behind its length. -/
theorem framed_text : Framed Lengths.text Eq text := by
  intro s t hs ht r r' e
  simp only [text, List.append_assoc] at e
  obtain ⟨elen, e⟩ := framed_count hs ht e
  obtain ⟨e, er⟩ := List.append_inj e (by rw [Bytes.length_ofString, Bytes.length_ofString, elen])
  exact ⟨Bytes.ofString_inj e, er⟩

/-- An optional part is framed by the tag in front of it. -/
theorem Framed.optional (h : Framed lengths same write) :
    Framed (Lengths.optional lengths) (Option.Rel same) (Stream.optional write) := by
  intro a b ha hb r r' e
  cases a with
  | none =>
    cases b with
    | none => exact ⟨.none, (tag_append_inj e).2⟩
    | some b => simp [Stream.optional, tag] at e
  | some a =>
    cases b with
    | none => simp [Stream.optional, tag] at e
    | some b =>
      simp only [Stream.optional, List.append_assoc] at e
      obtain ⟨hs, er⟩ := h ha hb (tag_append_inj e).2
      exact ⟨.some hs, er⟩

/-- As many things, one behind the other. -/
theorem Framed.items (h : Framed lengths same write) {as bs : List α}
    (ha : ∀ a ∈ as, Fits (lengths a)) (hb : ∀ b ∈ bs, Fits (lengths b))
    (hlen : as.length = bs.length) {r r' : List UInt8}
    (e : as.flatMap write ++ r = bs.flatMap write ++ r') : List.Forall₂ same as bs ∧ r = r' := by
  induction as generalizing bs with
  | nil =>
    obtain rfl := List.length_eq_zero_iff.1 hlen.symm
    exact ⟨.nil, e⟩
  | cons a as ih =>
    cases bs with
    | nil => simp at hlen
    | cons b bs =>
      simp only [List.flatMap_cons, List.append_assoc] at e
      obtain ⟨ha, has⟩ := List.forall_mem_cons.1 ha
      obtain ⟨hb, hbs⟩ := List.forall_mem_cons.1 hb
      obtain ⟨hs, e⟩ := h ha hb e
      obtain ⟨hss, er⟩ := ih has hbs (by simpa using hlen) e
      exact ⟨.cons hs hss, er⟩

/-- A list is framed by the count in front of it. -/
theorem Framed.list (h : Framed lengths same write) :
    Framed (Lengths.list lengths) (List.Forall₂ same) (Stream.list write) := by
  intro as bs ha hb r r' e
  simp only [Lengths.list, fits_cons, fits_flatMap] at ha hb
  simp only [Stream.list, List.append_assoc] at e
  obtain ⟨elen, e⟩ := framed_count (by simpa using ha.1) (by simpa using hb.1) e
  exact h.items ha.2 hb.2 elen e

theorem optionRel_eq {a b : Option α} (h : Option.Rel Eq a b) : a = b := by
  cases h with
  | some h => rw [h]
  | none => rfl

theorem Framed.optionalEq (h : Framed lengths Eq write) :
    Framed (Lengths.optional lengths) Eq (Stream.optional write) :=
  h.optional.imp (fun _ => id) fun _ _ => optionRel_eq

theorem Framed.listEq (h : Framed lengths Eq write) :
    Framed (Lengths.list lengths) Eq (Stream.list write) :=
  h.list.imp (fun _ => id) fun _ _ hs => by rwa [List.forall₂_eq_eq_eq] at hs

/-- Texts are told apart by the count and the length in front of each. -/
theorem framed_texts : Framed Lengths.texts Eq texts := framed_text.listEq

end Stream

end Schemata

/-!
## Records in streams

Literals, resolved types and the records that are made of them are written so that they come apart
in one way. In the end, a compiled file is known from its stream up to its id.
-/

namespace Schemata.Stream

/-! ### Literals -/

mutual

/-- A literal opens with the tag of its kind; behind that the parts of the kind follow. -/
theorem literal_append_inj (a b : Literal) (ha : Fits (Lengths.literal a))
    (hb : Fits (Lengths.literal b)) (r r' : List UInt8) (e : literal a ++ r = literal b ++ r') :
    a = b ∧ r = r' := by
  match a with
  | .string s =>
    cases b with
    | string t =>
      simp only [literal, List.append_assoc] at e
      obtain ⟨rfl, e₁⟩ := framed_text ha hb (tag_append_inj e).2
      exact ⟨rfl, e₁⟩
    | _ => simp [literal, tag] at e
  | .int i =>
    cases b with
    | int j =>
      simp only [literal, List.append_assoc] at e
      obtain ⟨rfl, e₁⟩ := framed_int fits_nil fits_nil (tag_append_inj e).2
      exact ⟨rfl, e₁⟩
    | _ => simp [literal, tag] at e
  | .float x =>
    cases b with
    | float y =>
      simp only [literal, List.append_assoc] at e
      obtain ⟨hbits, e₁⟩ := framed_word fits_nil fits_nil (tag_append_inj e).2
      exact ⟨congrArg Literal.float (congrArg Binary64.mk hbits), e₁⟩
    | _ => simp [literal, tag] at e
  | .bool p =>
    cases b with
    | bool q =>
      simp only [literal, List.append_assoc] at e
      obtain ⟨rfl, e₁⟩ := framed_bool fits_nil fits_nil (tag_append_inj e).2
      exact ⟨rfl, e₁⟩
    | _ => simp [literal, tag] at e
  | .list items =>
    cases b with
    | list items' =>
      simp only [literal, List.append_assoc] at e
      simp only [Lengths.literal, fits_cons] at ha hb
      obtain ⟨hlen, e₁⟩ :=
        framed_count (by simpa using ha.1) (by simpa using hb.1) (tag_append_inj e).2
      obtain ⟨rfl, e₂⟩ := literals_append_inj items items' ha.2 hb.2 hlen r r' e₁
      exact ⟨rfl, e₂⟩
    | _ => simp [literal, tag] at e
  | .map entries =>
    cases b with
    | map entries' =>
      simp only [literal, List.append_assoc] at e
      simp only [Lengths.literal, fits_cons] at ha hb
      obtain ⟨hlen, e₁⟩ :=
        framed_count (by simpa using ha.1) (by simpa using hb.1) (tag_append_inj e).2
      obtain ⟨rfl, e₂⟩ := literalPairs_append_inj entries entries' ha.2 hb.2 hlen r r' e₁
      exact ⟨rfl, e₂⟩
    | _ => simp [literal, tag] at e

/-- Equally many literals with one stream in front of the rest are the same. -/
theorem literals_append_inj (as bs : List Literal) (ha : Fits (Lengths.literals as))
    (hb : Fits (Lengths.literals bs)) (hlen : as.length = bs.length) (r r' : List UInt8)
    (e : literals as ++ r = literals bs ++ r') : as = bs ∧ r = r' := by
  match as, bs with
  | [], [] => exact ⟨rfl, e⟩
  | a :: as, b :: bs =>
    simp only [literals, List.append_assoc] at e
    simp only [Lengths.literals, fits_append] at ha hb
    obtain ⟨rfl, e₁⟩ := literal_append_inj a b ha.1 hb.1 _ _ e
    obtain ⟨rfl, e₂⟩ := literals_append_inj as bs ha.2 hb.2 (by simpa using hlen) r r' e₁
    exact ⟨rfl, e₂⟩

theorem literalPairs_append_inj (as bs : List (Literal × Literal))
    (ha : Fits (Lengths.literalPairs as)) (hb : Fits (Lengths.literalPairs bs))
    (hlen : as.length = bs.length) (r r' : List UInt8)
    (e : literalPairs as ++ r = literalPairs bs ++ r') : as = bs ∧ r = r' := by
  match as, bs with
  | [], [] => exact ⟨rfl, e⟩
  | (k, v) :: as, (k', v') :: bs =>
    simp only [literalPairs, List.append_assoc] at e
    simp only [Lengths.literalPairs, fits_append] at ha hb
    obtain ⟨rfl, e₁⟩ := literal_append_inj k k' ha.1.1 hb.1.1 _ _ e
    obtain ⟨rfl, e₂⟩ := literal_append_inj v v' ha.1.2 hb.1.2 _ _ e₁
    obtain ⟨rfl, e₃⟩ := literalPairs_append_inj as bs ha.2 hb.2 (by simpa using hlen) r r' e₂
    exact ⟨rfl, e₃⟩

end

/-- The stream of a literal tells it apart from every other literal. -/
theorem framed_literal : Framed Lengths.literal Eq literal :=
  fun a b ha hb r r' e => literal_append_inj a b ha hb r r' e

theorem framed_entries : Framed Lengths.entries Eq entries := by
  refine Framed.listEq (((framed_text.of Prod.fst).append (framed_literal.of Prod.snd)).imp
    (fun _ h => h) ?_)
  rintro ⟨k, v⟩ ⟨k', v'⟩ ⟨hk, hv⟩
  exact Prod.ext hk hv

/-- Keys in their order, with their values. -/
theorem framed_orderedMap :
    Framed (fun m : OrderedMap Literal => Lengths.entries m.entries) Eq fun m =>
      entries m.entries := by
  refine (framed_entries.of OrderedMap.entries).imp (fun _ h => h) ?_
  rintro ⟨items, _⟩ ⟨items', _⟩ h
  cases h
  rfl

/-! ### Resolved types -/

theorem primitive_keyword_injective {p q : Primitive} (e : p.keyword = q.keyword) : p = q := by
  have h := Primitive.ofKeyword?_keyword p
  rw [e, Primitive.ofKeyword?_keyword q] at h
  exact (Option.some.inj h).symm

/-- The word of a primitive is short. -/
theorem fits_keyword (p : Primitive) : Fits (Lengths.text p.keyword) := by
  cases p <;> simp [Lengths.text, Primitive.keyword] <;> decide

mutual

/-- Resolved types with one stream in front of the rest are the same. -/
theorem resolvedType_append_inj (a b : ResolvedType) (ha : Fits (Lengths.resolvedType a))
    (hb : Fits (Lengths.resolvedType b)) (r r' : List UInt8)
    (e : resolvedType a ++ r = resolvedType b ++ r') : a = b ∧ r = r' := by
  match a with
  | .primitive p nullable as =>
    cases b with
    | primitive q nullable' bs =>
      simp only [resolvedType, List.append_assoc] at e
      simp only [Lengths.resolvedType, fits_cons] at ha hb
      obtain ⟨hpq, e₁⟩ := framed_text (fits_keyword p) (fits_keyword q) (tag_append_inj e).2
      obtain rfl := primitive_keyword_injective hpq
      obtain ⟨rfl, e₂⟩ := framed_bool fits_nil fits_nil e₁
      obtain ⟨hlen, e₃⟩ := framed_count (by simpa using ha.1) (by simpa using hb.1) e₂
      obtain ⟨rfl, e₄⟩ := resolvedTypes_append_inj as bs ha.2 hb.2 hlen r r' e₃
      exact ⟨rfl, e₄⟩
    | custom => simp [resolvedType, tag] at e
  | .custom typeId nullable importAlias =>
    cases b with
    | primitive => simp [resolvedType, tag] at e
    | custom typeId' nullable' importAlias' =>
      simp only [resolvedType, List.append_assoc] at e
      simp only [Lengths.resolvedType, fits_append] at ha hb
      obtain ⟨rfl, e₁⟩ := framed_text ha.1 hb.1 (tag_append_inj e).2
      obtain ⟨rfl, e₂⟩ := framed_bool fits_nil fits_nil e₁
      obtain ⟨rfl, e₃⟩ := framed_text.optionalEq ha.2 hb.2 e₂
      exact ⟨rfl, e₃⟩

theorem resolvedTypes_append_inj (as bs : List ResolvedType) (ha : Fits (Lengths.resolvedTypes as))
    (hb : Fits (Lengths.resolvedTypes bs)) (hlen : as.length = bs.length) (r r' : List UInt8)
    (e : resolvedTypes as ++ r = resolvedTypes bs ++ r') : as = bs ∧ r = r' := by
  match as, bs with
  | [], [] => exact ⟨rfl, e⟩
  | a :: as, b :: bs =>
    simp only [resolvedTypes, List.append_assoc] at e
    simp only [Lengths.resolvedTypes, fits_append] at ha hb
    obtain ⟨rfl, e₁⟩ := resolvedType_append_inj a b ha.1 hb.1 _ _ e
    obtain ⟨rfl, e₂⟩ := resolvedTypes_append_inj as bs ha.2 hb.2 (by simpa using hlen) r r' e₁
    exact ⟨rfl, e₂⟩

end

/-- The stream of a resolved type tells it apart from every other one. -/
theorem framed_resolvedType : Framed Lengths.resolvedType Eq resolvedType :=
  fun a b ha hb r r' e => resolvedType_append_inj a b ha hb r r' e

/-! ### Fields, types and files -/

theorem framed_fieldDef : Framed Lengths.fieldDef Eq fieldDef := by
  refine ((((((framed_int.of FieldDef.index).append (framed_text.of FieldDef.name)).append
    (framed_texts.of FieldDef.documentation)).append
    (framed_orderedMap.of FieldDef.annotations)).append
    (framed_literal.optionalEq.of FieldDef.defaultValue)).append
    (framed_resolvedType.optionalEq.of FieldDef.valueType)).imp (fun _ h => h) ?_
  rintro ⟨⟩ ⟨⟩ ⟨⟨⟨⟨⟨rfl, rfl⟩, rfl⟩, rfl⟩, rfl⟩, rfl⟩
  rfl

theorem modifier_keyword_injective {m n : Modifier} (e : m.keyword = n.keyword) : m = n := by
  cases m <;> cases n <;> simp_all [Modifier.keyword]

theorem framed_modifier : Framed (fun _ => []) Eq fun m : Modifier => text m.keyword := by
  intro m n _ _ r r' e
  have hfits : ∀ k : Modifier, Fits (Lengths.text k.keyword) := fun k => by
    cases k <;> simp [Lengths.text, Modifier.keyword] <;> decide
  exact (framed_text (hfits m) (hfits n) e).imp_left modifier_keyword_injective

/-- The stream of a type definition tells it apart from every other one. -/
theorem framed_typeDef : Framed Lengths.typeDef Eq typeDef := by
  refine ((((((((framed_text.of TypeDef.id).append (framed_text.of TypeDef.name)).append
    (framed_modifier.of TypeDef.modifier)).append (framed_texts.of TypeDef.documentation)).append
    (framed_orderedMap.of TypeDef.annotations)).append
    (framed_orderedMap.of TypeDef.defaults)).append
    (framed_text.optionalEq.of TypeDef.baseId)).append
    (framed_fieldDef.listEq.of TypeDef.fields)).imp (fun t h => ?_) ?_
  · simpa [Lengths.typeDef] using h
  · rintro ⟨⟩ ⟨⟩ ⟨⟨⟨⟨⟨⟨⟨rfl, rfl⟩, rfl⟩, rfl⟩, rfl⟩, rfl⟩, rfl⟩, rfl⟩
    rfl

/-- Two compiled files with one stream differ at most in their ids. -/
theorem framed_compiledFile :
    Framed Lengths.compiledFile (fun f g => f = { g with id := f.id }) compiledFile := by
  refine ((((framed_const (text "file")).append (framed_text.of CompiledFile.packageName)).append
    (framed_text.of CompiledFile.path)).append
    (framed_typeDef.listEq.of CompiledFile.types)).imp (fun _ h => h) ?_
  rintro ⟨⟩ ⟨⟩ ⟨⟨⟨-, rfl⟩, rfl⟩, rfl⟩
  rfl

/-- The stream of a declared type says its package and its name. -/
theorem key_of_typeDecl_eq {p q : String} {d e : TypeDecl}
    (hp : Fits (Lengths.text p ++ Lengths.text d.name.name))
    (hq : Fits (Lengths.text q ++ Lengths.text e.name.name)) (h : typeDecl p d = typeDecl q e) :
    p = q ∧ d.name.name = e.name.name := by
  rw [fits_append] at hp hq
  simp only [typeDecl, List.append_assoc] at h
  obtain ⟨hpackage, h₁⟩ := framed_text hp.1 hq.1 (List.append_cancel_left h)
  obtain ⟨hname, -⟩ := framed_text hp.2 hq.2 h₁
  exact ⟨hpackage, hname⟩

end Schemata.Stream
