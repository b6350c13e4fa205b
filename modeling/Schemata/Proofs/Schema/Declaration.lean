import Mathlib.Data.List.Forall2
import Schemata.Snapshot.Basic

/-!
# Declarations

The indexes of the fields of a type, and the types at every depth of a declaration.
-/

/-!
## Effective indexes

Every field has its place among the effective indexes of its type. Writing out an index where it is
in effect anyway changes none of them.

In whole numbers, which do not end, the indexes are the same as in words, so no sum on the way to
them is ever cut to fit a word. This gives each index from what is written: a field without an index
of its own is as far behind the last written index as its place is behind the place of that one, or
has none if there is no index so great.
-/

namespace Schemata

/-! ### The next index -/

theorem toInt_add_one {p : Int64} (h : p < Int64.maxValue) : (p + 1).toInt = p.toInt + 1 := by
  have hlt := Int64.lt_iff_toInt_lt.1 h
  have hge := p.le_toInt
  rw [Int64.toInt_maxValue] at hlt
  rw [Int64.toInt_add, Int64.toInt_one]
  exact Int.bmod_eq_of_le (by omega) (by omega)

/-- The next index is the one above, where there is one above. -/
theorem nextIndex_eq_some_iff {p q : Int64} :
    nextIndex (some p) = some q ↔ q.toInt = p.toInt + 1 := by
  rw [nextIndex, Option.bind_some]
  split
  · next h => rw [Option.some.injEq, ← Int64.toInt_inj, toInt_add_one h, eq_comm]
  · next h =>
    have hlt := q.toInt_lt
    rw [Int64.lt_iff_toInt_lt, Int64.toInt_maxValue] at h
    simp only [reduceCtorEq, false_iff]
    omega

/-- Only the greatest index has none behind it. -/
theorem nextIndex_eq_none_iff {p : Int64} : nextIndex (some p) = none ↔ ∀ q : Int64, q ≤ p := by
  rw [nextIndex, Option.bind_some]
  split
  · next h =>
    simp only [reduceCtorEq, false_iff, not_forall, Int64.not_le]
    exact ⟨_, h⟩
  · next h =>
    simp only [true_iff]
    exact fun q => Int64.le_trans q.le_maxValue (Int64.not_lt.1 h)

/-! ### Places of indexes -/

theorem length_indexesFrom (previous : Option Int64) (written : List (Option Int64)) :
    (indexesFrom previous written).length = written.length := by
  induction written generalizing previous with
  | nil => rfl
  | cons i rest ih => rw [indexesFrom, List.length_cons, ih, List.length_cons]

/-- Every field has its place among the indexes. -/
theorem TypeDecl.length_indexes (d : TypeDecl) : d.indexes.length = d.fields.length := by
  rw [TypeDecl.indexes, length_indexesFrom, List.length_map]

/-- Indexes that are all in effect as they are written stay so. -/
theorem indexesFrom_indexesFrom (previous : Option Int64) (written : List (Option Int64)) :
    indexesFrom previous (indexesFrom previous written) = indexesFrom previous written := by
  induction written generalizing previous with
  | nil => rfl
  | cons i rest ih => rw [indexesFrom, indexesFrom, Option.or_assoc, Option.or_self, ih]

/-- Indexes that stay as they are written, or are written out as they are in effect, stay
in effect. -/
theorem indexesFrom_eq_of_forall₂ {α β : Type} {written : α → Option Int64}
    {written' : β → Option Int64} {previous : Option Int64} {l : List α} {l' : List β}
    (h : List.Forall₂ (fun a b => written' b = written a.1 ∨ written' b = a.2)
      (l.zip (indexesFrom previous (l.map written))) l') :
    indexesFrom previous (l'.map written') = indexesFrom previous (l.map written) := by
  induction l generalizing l' previous with
  | nil =>
    obtain rfl := List.forall₂_nil_left_iff.1 h
    rfl
  | cons a l ih =>
    simp only [List.map_cons, indexesFrom, List.zip_cons_cons, List.forall₂_cons_left_iff] at h
    obtain ⟨b, rest, hb, hrest, rfl⟩ := h
    -- the index of the head in effect, which the fields behind it go on from
    have hhead : (written' b).or (nextIndex previous) = (written a).or (nextIndex previous) := by
      rcases hb with hb | hb
      · rw [hb]
      · rw [hb, Option.or_assoc, Option.or_self]
    simp only [List.map_cons, indexesFrom, hhead, List.cons.injEq, true_and]
    exact ih hrest

/-! ### Indexes as whole numbers -/

/-- A number, unless it is beyond the greatest index there is. -/
def bounded? (n : Int) : Option Int := if n ≤ Int64.maxValue.toInt then some n else none

/-- The number behind a given one, unless it is beyond the greatest index there is. -/
def nextNumber (previous : Option Int) : Option Int := previous.bind fun n => bounded? (n + 1)

/-- The indexes of some fields, in whole numbers: a field without a written index goes on from the
field before it. -/
def numbersFrom (previous : Option Int) : List (Option Int) → List (Option Int)
  | [] => []
  | written :: rest =>
    let number := written.or (nextNumber previous)
    number :: numbersFrom number rest

theorem bounded?_eq_some {n : Int} (h : n ≤ Int64.maxValue.toInt) : bounded? n = some n := if_pos h

theorem bounded?_eq_none {n : Int} (h : Int64.maxValue.toInt < n) : bounded? n = none :=
  if_neg (Int.not_le.2 h)

/-- Every index is in bounds. -/
theorem bounded?_toInt (i : Int64) : bounded? i.toInt = some i.toInt :=
  bounded?_eq_some (Int64.le_iff_toInt_le.1 i.le_maxValue)

/-- Whoever goes on beyond the bound stays there. -/
theorem nextNumber_bounded? (n : Int) : nextNumber (bounded? n) = bounded? (n + 1) := by
  rcases Int.lt_or_le Int64.maxValue.toInt n with h | h
  · rw [bounded?_eq_none h, bounded?_eq_none (Int.lt_add_one_of_le (Int.le_of_lt h))]
    rfl
  · rw [bounded?_eq_some h]
    rfl

/-- The sum in words is the sum in whole numbers, or there is none where the latter is beyond the
bound. -/
theorem map_nextIndex (previous : Option Int64) :
    (nextIndex previous).map Int64.toInt = nextNumber (previous.map Int64.toInt) := by
  rcases previous with _ | p
  · rfl
  · show _ = bounded? (p.toInt + 1)
    rcases hnext : nextIndex (some p) with _ | q
    · have hle : Int64.maxValue.toInt ≤ p.toInt :=
        Int64.le_iff_toInt_le.1 (nextIndex_eq_none_iff.1 hnext _)
      rw [bounded?_eq_none (Int.lt_add_one_of_le hle), Option.map_none]
    · rw [← nextIndex_eq_some_iff.1 hnext, bounded?_toInt, Option.map_some]

/-- The indexes are the unbounded numbers cut off at the greatest word. -/
theorem map_indexesFrom (previous : Option Int64) (written : List (Option Int64)) :
    (indexesFrom previous written).map (Option.map Int64.toInt) =
      numbersFrom (previous.map Int64.toInt) (written.map (Option.map Int64.toInt)) := by
  induction written generalizing previous with
  | nil => rfl
  | cons index rest ih =>
    rw [indexesFrom, List.map_cons, List.map_cons, numbersFrom, ih, Option.map_or, map_nextIndex]

/-! ### Where an index comes from -/

/-- A written index is in effect. -/
theorem getElem?_indexesFrom_of_written {previous : Option Int64} {written : List (Option Int64)}
    {i : Nat} {x : Int64}
    (h : written[i]? = some (some x)) : (indexesFrom previous written)[i]? = some (some x) := by
  induction written generalizing previous i with
  | nil => simp at h
  | cons w rest ih =>
    cases i with
    | succ i => exact ih h
    | zero =>
      obtain rfl : w = some x := by simpa using h
      rfl

section

variable {previous : Option Int} {written : List (Option Int)} {i : Nat}

/-- A field without a written index, behind another field. -/
theorem getElem?_numbersFrom_succ {number : Option Int}
    (hbefore : (numbersFrom previous written)[i]? = some number)
    (h : written[i + 1]? = some none) :
    (numbersFrom previous written)[i + 1]? = some (nextNumber number) := by
  induction written generalizing previous i with
  | nil => simp at h
  | cons w rest ih =>
    cases i with
    | succ i => exact ih hbefore h
    | zero =>
      cases rest with
      | nil => simp at h
      | cons w' rest =>
        obtain rfl : w' = none := by simpa using h
        obtain rfl : w.or (nextNumber previous) = number := by simpa [numbersFrom] using hbefore
        rfl

/-- Fields without a written index count on from the field before them. -/
theorem getElem?_numbersFrom_add {n : Int} {m : Nat}
    (hbefore : (numbersFrom previous written)[i]? = some (bounded? n))
    (h : ∀ k, i < k → k ≤ i + m → written[k]? = some none) :
    (numbersFrom previous written)[i + m]? = some (bounded? (n + m)) := by
  induction m with
  | zero => simpa using hbefore
  | succ m ih =>
    have hlast := ih fun k hlt hle => h k hlt (by omega)
    have hnext := getElem?_numbersFrom_succ hlast (h (i + m + 1) (by omega) (by omega))
    rw [nextNumber_bounded?] at hnext
    rw [← Nat.add_assoc, hnext, Int.natCast_add, Int.natCast_one, Int.add_assoc]

/-- The first field counts on from the index in front of all fields as from that of a field. -/
theorem numbersFrom_cons (previous : Option Int) (written : List (Option Int)) :
    numbersFrom none (previous :: written) = previous :: numbersFrom previous written := by
  rw [numbersFrom, nextNumber, Option.bind_none, Option.or_none]

end

namespace TypeDecl

def writtenNumbers (d : TypeDecl) : List (Option Int) :=
  d.fields.map fun f => f.index.map Int64.toInt

def numbers (d : TypeDecl) : List (Option Int) := d.indexes.map (Option.map Int64.toInt)

/-- The last written index before place `i` is `x`, at place `j`. -/
structure LastWritten (d : TypeDecl) (i j : Nat) (x : Int64) : Prop where
  before : j < i
  written : ∃ f, d.fields[j]? = some f ∧ f.index = some x
  last : ∀ (k : Nat) (f : FieldDecl), j < k → k < i → d.fields[k]? = some f → f.index = none

/-- The indexes of a type are told by those that are written: each field without one of its own is
as far behind the last written index as its place is behind that one's, or counts from 0, up to the
greatest index there is. -/
structure CountsOn (d : TypeDecl) : Prop where
  length : d.indexes.length = d.fields.length
  written : ∀ (i : Nat) (f : FieldDecl) (x : Int64), d.fields[i]? = some f → f.index = some x →
    d.indexes[i]? = some (some x)
  behind : ∀ (i j : Nat) (f : FieldDecl) (x : Int64), d.fields[i]? = some f → f.index = none →
    d.LastWritten i j x → d.numbers[i]? = some (bounded? (x.toInt + ((i : Int) - j)))
  start : ∀ (i : Nat) (f : FieldDecl), d.fields[i]? = some f → f.index = none →
    (∀ (k : Nat) (g : FieldDecl), k < i → d.fields[k]? = some g → g.index = none) →
    d.numbers[i]? = some (bounded? i)
  /-- A sum in words is the sum in whole numbers, or there is none because that one is beyond the
  bound. -/
  sums : ∀ p : Int64, (nextIndex (some p)).map Int64.toInt = bounded? (p.toInt + 1)
  /-- So nothing is ever cut to fit a word: whole numbers yield the same indexes, field by field. -/
  exact : d.numbers = numbersFrom (some (-1)) d.writtenNumbers

variable {d : TypeDecl} {i : Nat} {f : FieldDecl}

theorem numbers_eq (d : TypeDecl) : d.numbers = numbersFrom (some (-1)) d.writtenNumbers := by
  rw [numbers, indexes, map_indexesFrom, List.map_map]
  rfl

/-- A written index is the index of its field. -/
theorem getElem?_indexes_of_written {x : Int64} (hf : d.fields[i]? = some f)
    (hx : f.index = some x) :
    d.indexes[i]? = some (some x) := by
  apply getElem?_indexesFrom_of_written
  rw [List.getElem?_map, hf, Option.map_some, hx]

/-- Fields without a written index, up to that at place `i`. -/
theorem getElem?_writtenNumbers_of_omitted {k : Nat} (hf : d.fields[i]? = some f)
    (hnone : f.index = none) (hk : k ≤ i)
    (h : ∀ g, k < i → d.fields[k]? = some g → g.index = none) :
    d.writtenNumbers[k]? = some none := by
  obtain ⟨hlt, rfl⟩ := List.getElem?_eq_some_iff.1 hf
  have hg : d.fields[k]? = some d.fields[k] := List.getElem?_eq_getElem (Nat.lt_of_le_of_lt hk hlt)
  have homitted : d.fields[k].index = none := by
    rcases Nat.lt_or_eq_of_le hk with hk | rfl
    · exact h _ hk hg
    · exact hnone
  rw [writtenNumbers, List.getElem?_map, hg, Option.map_some, homitted, Option.map_none]

/-- Behind a written index the omitted ones count on from it. -/
theorem number_of_lastWritten {j : Nat} {x : Int64} (hf : d.fields[i]? = some f)
    (hnone : f.index = none)
    (h : d.LastWritten i j x) : d.numbers[i]? = some (bounded? (x.toInt + ((i : Int) - j))) := by
  obtain ⟨m, rfl⟩ := Nat.exists_eq_add_of_lt h.before
  obtain ⟨g, hg, hx⟩ := h.written
  have hbefore : (numbersFrom (some (-1)) d.writtenNumbers)[j]? = some (bounded? x.toInt) := by
    rw [← numbers_eq, numbers, List.getElem?_map, getElem?_indexes_of_written hg hx, bounded?_toInt]
    rfl
  have homitted : ∀ k, j < k → k ≤ j + (m + 1) → d.writtenNumbers[k]? = some none := by
    intro k hlt hle
    exact getElem?_writtenNumbers_of_omitted hf hnone hle fun g => h.last k g hlt
  rw [numbers_eq, Nat.add_assoc, getElem?_numbersFrom_add hbefore homitted]
  congr 3
  omega

/-- Without a written index before them the omitted ones count from zero. -/
theorem number_of_forall_omitted (hf : d.fields[i]? = some f) (hnone : f.index = none)
    (h : ∀ (k : Nat) (g : FieldDecl), k < i → d.fields[k]? = some g → g.index = none) :
    d.numbers[i]? = some (bounded? i) := by
  -- as if a field with the index -1 stood in front of all others
  have hbefore : (numbersFrom none (some (-1) :: d.writtenNumbers))[0]? = some (bounded? (-1)) :=
    rfl
  have homitted : ∀ k, 0 < k → k ≤ 0 + (i + 1) →
      (some (-1) :: d.writtenNumbers)[k]? = some none := by
    intro k hlt hle
    obtain ⟨k, rfl⟩ := Nat.exists_eq_add_of_lt hlt
    rw [Nat.zero_add, List.getElem?_cons_succ]
    exact getElem?_writtenNumbers_of_omitted hf hnone (by omega) fun g => h _ g
  have hlast := getElem?_numbersFrom_add hbefore homitted
  rw [numbersFrom_cons, Nat.zero_add, List.getElem?_cons_succ] at hlast
  rw [numbers_eq, hlast]
  congr 2
  omega

/-- Every type counts its indexes on from those that are written. -/
theorem countsOn (d : TypeDecl) : d.CountsOn where
  length := d.length_indexes
  written _ _ _ hf hx := getElem?_indexes_of_written hf hx
  behind _ _ _ _ hf hnone h := number_of_lastWritten hf hnone h
  start _ _ hf hnone h := number_of_forall_omitted hf hnone h
  sums p := map_nextIndex (some p)
  exact := d.numbers_eq

end TypeDecl

/-- Fields go on from indexes below 0 as well, the least one included. -/
example :
    indexesFrom (some (-1)) [none, some (-3), none, some Int64.minValue, none, some (-1), none] =
    [some 0, some (-3), some (-2), some Int64.minValue, some (Int64.minValue + 1), some (-1),
      some 0] := by decide

/-!
## Value types at every depth

A property that passes from the arguments of a value type to the type itself holds of all value
types. The nodes of a value type, as it is written or resolved, are the value types inside it at
every depth, itself included.
-/

namespace TypeExpr

/-- Induction on type expressions, with the hypothesis for every argument. -/
theorem ind {motive : TypeExpr → Prop}
    (mk : ∀ ref nullable args span, (∀ a ∈ args, motive a) → motive (.mk ref nullable args span)) :
    ∀ t, motive t
  | .mk ref nullable args span => mk ref nullable args span (all args)
where
  all : ∀ args : List TypeExpr, ∀ a ∈ args, motive a
  | [] => by simp
  | t :: rest => by
    have ht := ind mk t
    have hrest := all rest
    rintro a (_ | ⟨_, ha⟩)
    · exact ht
    · exact hrest a ha

theorem argNodes_eq_flatMap (args : List TypeExpr) : argNodes args = args.flatMap nodes := by
  induction args with
  | nil => rfl
  | cons t rest ih => rw [argNodes, ih, List.flatMap_cons]

theorem nodes_mk (ref : TypeRef) (nullable : Bool) (args : List TypeExpr) (span : Span) :
    nodes (.mk ref nullable args span) = .mk ref nullable args span :: args.flatMap nodes := by
  rw [nodes, argNodes_eq_flatMap]

/-- A value type is a node of itself. -/
theorem self_mem_nodes (t : TypeExpr) : t ∈ t.nodes := by
  cases t with
  | mk ref nullable args span =>
    rw [nodes_mk]
    exact List.mem_cons_self

/-- The nodes of an argument are nodes of the whole. -/
theorem mem_nodes_of_mem_args {ref : TypeRef} {nullable : Bool} {args : List TypeExpr} {span : Span}
    {a n : TypeExpr} (ha : a ∈ args) (hn : n ∈ a.nodes) :
    n ∈ nodes (.mk ref nullable args span) := by
  rw [nodes_mk]
  exact List.mem_cons_of_mem _ (List.mem_flatMap.2 ⟨a, ha, hn⟩)

/-- An argument is a node of the type. -/
theorem arg_mem_nodes {t a : TypeExpr} (ha : a ∈ t.args) : a ∈ t.nodes := by
  cases t with
  | mk ref nullable args span => exact mem_nodes_of_mem_args ha a.self_mem_nodes

/-- The nodes of a value type are itself and those of its arguments. -/
theorem forall_mem_nodes_iff {P : TypeExpr → Prop} {t : TypeExpr} :
    (∀ n ∈ t.nodes, P n) ↔ P t ∧ ∀ a ∈ t.args, ∀ n ∈ a.nodes, P n := by
  cases t with
  | mk ref nullable args span =>
    rw [nodes_mk, List.forall_mem_cons, List.forall_mem_flatMap, TypeExpr.args]

end TypeExpr

/-- The value type of a field is among those written in its type. -/
theorem TypeDecl.mem_typeNodes {d : TypeDecl} {f : FieldDecl} {t n : TypeExpr} (hf : f ∈ d.fields)
    (ht : f.valueType = some t) (hn : n ∈ t.nodes) : n ∈ d.typeNodes :=
  List.mem_flatMap.2 ⟨t, List.mem_filterMap.2 ⟨f, hf, ht⟩, hn⟩

/-- The value types written in a type are those of its fields at every depth. -/
theorem TypeDecl.forall_mem_typeNodes_iff {P : TypeExpr → Prop} {d : TypeDecl} :
    (∀ n ∈ d.typeNodes, P n) ↔ ∀ f ∈ d.fields, ∀ t, f.valueType = some t → ∀ n ∈ t.nodes, P n := by
  constructor
  · intro h f hf t ht n hn
    exact h n (TypeDecl.mem_typeNodes hf ht hn)
  · intro h n hn
    obtain ⟨t, ht, hn⟩ := List.mem_flatMap.1 hn
    obtain ⟨f, hf, ht⟩ := List.mem_filterMap.1 ht
    exact h f hf t ht n hn

namespace ResolvedType

mutual

/-- A resolved value type with all value types inside it, each one before its arguments. -/
def nodes : ResolvedType → List ResolvedType
  | .primitive p nullable args => .primitive p nullable args :: argNodes args
  | .custom typeId nullable importAlias => [.custom typeId nullable importAlias]

def argNodes : List ResolvedType → List ResolvedType
  | [] => []
  | t :: rest => nodes t ++ argNodes rest

end

theorem argNodes_eq_flatMap (args : List ResolvedType) : argNodes args = args.flatMap nodes := by
  induction args with
  | nil => rfl
  | cons t rest ih => rw [argNodes, ih, List.flatMap_cons]

theorem nodes_primitive (p : Primitive) (nullable : Bool) (args : List ResolvedType) :
    nodes (.primitive p nullable args) = .primitive p nullable args :: args.flatMap nodes := by
  rw [nodes, argNodes_eq_flatMap]

end ResolvedType

end Schemata
