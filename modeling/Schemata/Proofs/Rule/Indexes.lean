import Mathlib.Data.List.Nodup
import Schemata.Proofs.Rule.Errors
import Schemata.Proofs.Schema.Declaration

/-!
# Indexes without reports

The rule on indexes has nothing to report exactly if every field has an index, none is negative, no
two are the same, and those of an enum count up from 0.

The rule goes through the fields once. In an enum, the indexes of the fields behind it are the
numbers up to the last index, so a field that comes behind the greatest index there is has a
repeated index, if it has any.

Each report is made at the name of a field.
-/

namespace Schemata

/-! ## Well-formed indexes -/

/-- Indexes as a type has to have them. -/
structure IndexesFit (isEnum : Bool) (indexes : List Int64) : Prop where
  nodup : indexes.Nodup
  nonneg : ∀ i ∈ indexes, 0 ≤ i
  enumerated : isEnum → indexes.map Int64.toInt = (List.range indexes.length).map Int.ofNat

/-- Indexes that count up behind a number. -/
def CountsBehind (n : Int) (indexes : List Int64) : Prop :=
  indexes.map Int64.toInt = (List.range indexes.length).map fun k : Nat => n + 1 + k

theorem countsBehind_nil {n : Int} : CountsBehind n [] := rfl

/-- A list counts on behind a number when its head is the next one and its tail counts on. -/
theorem countsBehind_cons_iff {n : Int} {index : Int64} {indexes : List Int64} :
    CountsBehind n (index :: indexes) ↔ index.toInt = n + 1 ∧ CountsBehind index.toInt indexes := by
  rw [CountsBehind, CountsBehind, List.map_cons, List.length_cons,
    List.range_succ_eq_map, List.map_cons, List.map_map, List.cons.injEq,
    Int.ofNat_zero, Int.add_zero]
  refine and_congr_right fun hindex => ?_
  have hcount : (List.range indexes.length).map ((fun k : Nat => n + 1 + k) ∘ Nat.succ) =
      (List.range indexes.length).map fun k : Nat => index.toInt + 1 + k := by
    refine List.map_congr_left fun k _ => ?_
    rw [Function.comp_apply, hindex]
    omega
  rw [hcount]

/-- Indexes of an enum count up behind -1. -/
theorem countsBehind_start_iff {indexes : List Int64} : CountsBehind (-1 : Int64).toInt indexes ↔
    indexes.map Int64.toInt = (List.range indexes.length).map Int.ofNat := by
  have hcount : (List.range indexes.length).map (fun k : Nat => (-1 : Int64).toInt + 1 + k) =
      (List.range indexes.length).map Int.ofNat := by
    refine List.map_congr_left fun k _ => ?_
    rw [show (-1 : Int64).toInt = -1 by decide, Int.ofNat_eq_natCast]
    omega
  rw [CountsBehind, hcount]

namespace Rule

variable {c : Context} {isEnum isFirst : Bool} {p : Int64} {taken : List (Int64 × Span)}
  {f : FieldDecl}

/-- A written index is accepted when it is not negative and, in an enum, the expected one. -/
theorem writtenIndexReport?_eq_none_iff {expected : Option Int64} {index : Int64} :
    writtenIndexReport? c isEnum isFirst expected f index = none ↔
      0 ≤ index ∧ (isEnum → isFirst → index = 0) ∧
        (isEnum → ¬isFirst → ∀ e, expected = some e → index = e) := by
  unfold writtenIndexReport?
  rw [← Int64.not_lt]
  by_cases hneg : index < 0
  · simp [hneg]
  · cases isEnum <;> cases isFirst <;> cases expected <;> simp [hneg]

/-- Where the rule has come: the last index, and the indexes of the fields so far. -/
structure Progress (isEnum isFirst : Bool) (p : Int64) (taken : List (Int64 × Span)) : Prop where
  ge : -1 ≤ p.toInt
  first : isFirst → p.toInt = -1
  counted : isEnum → ∀ i : Int64, i ∈ taken.map Prod.fst ↔ 0 ≤ i.toInt ∧ i.toInt ≤ p.toInt

theorem Progress.start : Progress isEnum true (-1) [] where
  ge := by decide
  first := fun _ => by decide
  counted := fun _ i => by
    have : (-1 : Int64).toInt = -1 := by decide
    simp only [List.map_nil, List.not_mem_nil, false_iff, this]
    omega

/-- A field brings the rule on by its index. -/
theorem Progress.step (h : Progress isEnum isFirst p taken) {index : Int64} {span : Span}
    (hnonneg : 0 ≤ index.toInt) (henum : isEnum → index.toInt = p.toInt + 1) :
    Progress isEnum false index ((index, span) :: taken) where
  ge := Int.le_trans (by decide) hnonneg
  first := by simp
  counted := fun he i => by
    have hp := henum he
    have hi : i = index ↔ i.toInt = index.toInt := Int64.toInt_inj.symm
    have hge := h.ge
    rw [List.map_cons, List.mem_cons, h.counted he, hi]
    omega

theorem lookup_eq_none_iff {index : Int64} :
    taken.lookup index = none ↔ index ∉ taken.map Prod.fst := by
  induction taken with
  | nil => simp
  | cons t taken ih =>
    obtain ⟨i, span⟩ := t
    rw [List.lookup_cons]
    split
    · next h => simp [eq_of_beq h]
    · next h => simp_all

/-- A written index that is not reported, and is not taken. -/
theorem toInt_of_written (h : Progress isEnum isFirst p taken) {index : Int64}
    (hwritten : writtenIndexReport? c isEnum isFirst (nextIndex (some p)) f index = none)
    (htaken : index ∉ taken.map Prod.fst) :
    0 ≤ index.toInt ∧ (isEnum → index.toInt = p.toInt + 1) := by
  obtain ⟨hnonneg, hzero, hnext⟩ := writtenIndexReport?_eq_none_iff.1 hwritten
  have hge : 0 ≤ index.toInt := by simpa using Int64.le_iff_toInt_le.1 hnonneg
  refine ⟨hge, fun he => ?_⟩
  by_cases hfirst : isFirst
  · rw [h.first hfirst, hzero he hfirst]
    decide
  · cases hp : nextIndex (some p) with
    | some e =>
      rw [hnext he hfirst e hp]
      exact nextIndex_eq_some_iff.1 hp
    | none =>
      -- nothing is beyond the greatest index, and everything up to it is taken
      have hle : index ≤ p := nextIndex_eq_none_iff.1 hp index
      exact absurd ((h.counted he index).2 ⟨hge, Int64.le_iff_toInt_le.1 hle⟩) htaken

/-- A field that is not reported has an index that is neither negative nor taken, and in an enum the
one behind the last. -/
theorem index_of_indexReportsAfter_eq_nil (h : Progress isEnum isFirst p taken)
    {rest : List (FieldDecl × Option Int64)}
    (hnil : indexReportsAfter c isEnum isFirst (some p) taken
      ((f, f.index.or (nextIndex (some p))) :: rest) = []) :
    ∃ index, f.index.or (nextIndex (some p)) = some index ∧ 0 ≤ index.toInt ∧
      index ∉ taken.map Prod.fst ∧ (isEnum → index.toInt = p.toInt + 1) ∧
      indexReportsAfter c isEnum false (some index) ((index, f.name.span) :: taken) rest = [] := by
  cases hindex : f.index.or (nextIndex (some p)) with
  | none => simp [hindex, indexReportsAfter] at hnil
  | some index =>
    rw [hindex, indexReportsAfter] at hnil
    split at hnil
    · simp at hnil
    · simp at hnil
    · next hwritten htaken =>
      rw [lookup_eq_none_iff] at htaken
      have hint : 0 ≤ index.toInt ∧ (isEnum → index.toInt = p.toInt + 1) := by
        cases hf : f.index with
        | some written =>
          obtain rfl : written = index := by simpa [hf] using hindex
          exact toInt_of_written h (by simpa [hf] using hwritten) htaken
        | none =>
          have hnext : index.toInt = p.toInt + 1 := by
            rw [hf, Option.none_or] at hindex
            exact nextIndex_eq_some_iff.1 hindex
          have hge := h.ge
          exact ⟨by omega, fun _ => hnext⟩
      exact ⟨index, rfl, hint.1, htaken, hint.2, hnil⟩

/-- The indexes of fields of which none is reported, behind the index `p`. -/
theorem indexes_of_indexReportsAfter_eq_nil {fs : List FieldDecl}
    (h : Progress isEnum isFirst p taken) (hnil : indexReportsAfter c isEnum isFirst (some p) taken
      (fs.zip (indexesFrom (some p) (fs.map (·.index)))) = []) :
    ∃ indexes : List Int64, indexesFrom (some p) (fs.map (·.index)) = indexes.map some ∧
      indexes.Nodup ∧ (∀ i ∈ indexes, 0 ≤ i.toInt ∧ i ∉ taken.map Prod.fst) ∧
      (isEnum → CountsBehind p.toInt indexes) := by
  induction fs generalizing isFirst p taken with
  | nil => exact ⟨[], rfl, List.nodup_nil, by simp, fun _ => countsBehind_nil⟩
  | cons f fs ih =>
    rw [List.map_cons, indexesFrom, List.zip_cons_cons] at hnil
    obtain ⟨index, hindex, hnonneg, htaken, henum, hnil⟩ :=
      index_of_indexReportsAfter_eq_nil h hnil
    rw [hindex] at hnil
    obtain ⟨indexes, heq, hnodup, hrest, hcount⟩ := ih (h.step hnonneg henum) hnil
    refine ⟨index :: indexes, ?_, ?_, ?_, fun he => countsBehind_cons_iff.2 ⟨henum he, hcount he⟩⟩
    · rw [List.map_cons, indexesFrom, hindex, heq, List.map_cons]
    · refine List.nodup_cons.2 ⟨fun hmem => ?_, hnodup⟩
      exact (hrest index hmem).2 (List.mem_cons_self)
    · intro i hi
      rcases List.mem_cons.1 hi with rfl | hi
      · exact ⟨hnonneg, htaken⟩
      · obtain ⟨hi, hnot⟩ := hrest i hi
        exact ⟨hi, fun hmem => hnot (List.mem_cons_of_mem _ hmem)⟩

/-! ## From indexes to reports -/

/-- A written index that is not negative, and in an enum comes behind the last one, is
not reported. -/
theorem writtenIndexReport?_eq_none {index : Int64} (hfirst : isFirst → p.toInt = -1)
    (hnonneg : 0 ≤ index.toInt) (henum : isEnum → index.toInt = p.toInt + 1) :
    writtenIndexReport? c isEnum isFirst (nextIndex (some p)) f index = none := by
  refine writtenIndexReport?_eq_none_iff.2 ⟨?_, fun he hf => ?_, fun he _ e hnext => ?_⟩
  · rw [Int64.le_iff_toInt_le]
    simpa using hnonneg
  · rw [← Int64.toInt_inj, henum he, hfirst hf]
    decide
  · rw [← Int64.toInt_inj, henum he, nextIndex_eq_some_iff.1 hnext]

/-- Fields whose indexes are new, not negative, and in an enum count on, are not reported. -/
theorem indexReportsAfter_eq_nil {fs : List FieldDecl} {indexes : List Int64}
    (heq : indexesFrom (some p) (fs.map (·.index)) = indexes.map some)
    (hfirst : isFirst → p.toInt = -1)
    (hnodup : indexes.Nodup) (hnew : ∀ i ∈ indexes, 0 ≤ i.toInt ∧ i ∉ taken.map Prod.fst)
    (henum : isEnum → CountsBehind p.toInt indexes) :
    indexReportsAfter c isEnum isFirst (some p) taken
      (fs.zip (indexesFrom (some p) (fs.map (·.index)))) = [] := by
  induction fs generalizing isFirst p taken indexes with
  | nil => rfl
  | cons f fs ih =>
    cases indexes with
    | nil => cases heq
    | cons index indexes =>
      rw [List.map_cons, indexesFrom, List.map_cons, List.cons.injEq] at heq
      obtain ⟨hindex, heq⟩ := heq
      rw [hindex] at heq
      obtain ⟨hnotin, hnodup⟩ := List.nodup_cons.1 hnodup
      obtain ⟨⟨hnonneg, htaken⟩, hnew⟩ := List.forall_mem_cons.1 hnew
      have hcount : isEnum → index.toInt = p.toInt + 1 :=
        fun he => (countsBehind_cons_iff.1 (henum he)).1
      have hwritten : (if f.index.isSome then
          writtenIndexReport? c isEnum isFirst (nextIndex (some p)) f index else none) = none := by
        split
        · exact writtenIndexReport?_eq_none hfirst hnonneg hcount
        · rfl
      rw [List.map_cons, indexesFrom, List.zip_cons_cons, hindex, indexReportsAfter, hwritten,
        lookup_eq_none_iff.2 htaken]
      refine ih heq (by simp) hnodup (fun i hi => ⟨(hnew i hi).1, ?_⟩)
        fun he => (countsBehind_cons_iff.1 (henum he)).2
      rw [List.map_cons, List.mem_cons, not_or]
      exact ⟨fun e : i = index => hnotin (e ▸ hi), (hnew i hi).2⟩

/-- The rule on indexes accepts a type exactly if every field has an index and the indexes fit. -/
theorem indexReports_eq_nil_iff {s : Symbol} :
    indexReports c s = [] ↔ ∃ indexes : List Int64, s.decl.indexes = indexes.map some ∧
      IndexesFit (s.decl.modifier == .enum) indexes := by
  constructor
  · intro h
    obtain ⟨indexes, heq, hnodup, hnonneg, henum⟩ := indexes_of_indexReportsAfter_eq_nil .start h
    refine ⟨indexes, heq, hnodup, fun i hi => ?_, fun he => countsBehind_start_iff.1 (henum he)⟩
    simpa [Int64.le_iff_toInt_le] using (hnonneg i hi).1
  · rintro ⟨indexes, heq, hnodup, hnonneg, henum⟩
    refine indexReportsAfter_eq_nil heq (fun _ => by decide) hnodup (fun i hi => ⟨?_, by simp⟩)
      fun he => countsBehind_start_iff.2 (henum he)
    simpa [Int64.le_iff_toInt_le] using hnonneg i hi

end Rule

/-! ## Types with indexes as they have to be -/

/-- A type of which every field has an index, none is negative and no two are the same; those of an
enum count up from 0. -/
structure TypeDecl.WellIndexed (d : TypeDecl) : Prop where
  exist : none ∉ d.indexes
  nonneg : ∀ i : Int64, some i ∈ d.indexes → 0 ≤ i.toInt
  nodup : d.indexes.Nodup
  enumerated : d.modifier = .enum →
    ∀ (k : Nat) (i : Int64), d.indexes[k]? = some (some i) → i.toInt = k

/-- Indexes count up from 0 if each of them is its own place. -/
theorem map_toInt_eq_iff {indexes : List Int64} :
    indexes.map Int64.toInt = (List.range indexes.length).map Int.ofNat ↔
      ∀ (k : Nat) (i : Int64), indexes[k]? = some i → i.toInt = k := by
  constructor
  · intro h k i hi
    obtain ⟨hlt, rfl⟩ := List.getElem?_eq_some_iff.1 hi
    have hk : (indexes.map Int64.toInt)[k]? = ((List.range indexes.length).map Int.ofNat)[k]? := by
      rw [h]
    simpa [hlt] using hk
  · intro h
    apply List.ext_getElem?
    intro k
    rw [List.getElem?_map, List.getElem?_map]
    cases hi : indexes[k]? with
    | none =>
      have hle := List.getElem?_eq_none_iff.1 hi
      rw [List.getElem?_eq_none (by simpa using hle), Option.map_none, Option.map_none]
    | some i =>
      obtain ⟨hlt, -⟩ := List.getElem?_eq_some_iff.1 hi
      rw [List.getElem?_range hlt, Option.map_some, Option.map_some, h k i hi, Int.ofNat_eq_natCast]

theorem exists_eq_map_some {α : Type} {l : List (Option α)} (h : none ∉ l) :
    ∃ l' : List α, l = l'.map some := by
  induction l with
  | nil => exact ⟨[], rfl⟩
  | cons o l ih =>
    obtain ⟨hhead, htail⟩ := List.ne_and_not_mem_of_not_mem_cons h
    obtain ⟨l', rfl⟩ := ih htail
    obtain ⟨a, rfl⟩ := Option.ne_none_iff_exists'.1 hhead.symm
    exact ⟨a :: l', rfl⟩

/-- A declaration is well indexed when all its indexes are there and fit. -/
theorem TypeDecl.wellIndexed_iff {d : TypeDecl} : d.WellIndexed ↔
    ∃ indexes : List Int64,
      d.indexes = indexes.map some ∧ IndexesFit (d.modifier == .enum) indexes := by
  have hfit : ∀ indexes : List Int64, d.indexes = indexes.map some →
      (d.WellIndexed ↔ IndexesFit (d.modifier == .enum) indexes) := by
    intro indexes heq
    have hnodup : d.indexes.Nodup ↔ indexes.Nodup := by
      rw [heq, List.nodup_map_iff (fun _ _ => Option.some.inj)]
    have hmem : ∀ i, some i ∈ d.indexes ↔ i ∈ indexes := by
      intro i
      rw [heq, List.mem_map_of_injective (fun _ _ => Option.some.inj)]
    have hat : ∀ (k : Nat) (i : Int64), d.indexes[k]? = some (some i) ↔ indexes[k]? = some i := by
      intro k i
      rw [heq, List.getElem?_map, Option.map_eq_some_iff]
      simp
    constructor
    · intro h
      constructor
      case nodup => exact hnodup.1 h.nodup
      case nonneg => exact fun i hi => Int64.le_iff_toInt_le.2 (h.nonneg i ((hmem i).2 hi))
      case enumerated =>
        exact fun he => map_toInt_eq_iff.2 fun k i hi => h.enumerated (eq_of_beq he) k i
          ((hat k i).2 hi)
    · intro h
      constructor
      case exist =>
        rw [heq]
        simp
      case nonneg => exact fun i hi => Int64.le_iff_toInt_le.1 (h.nonneg i ((hmem i).1 hi))
      case nodup => exact hnodup.2 h.nodup
      case enumerated =>
        exact fun he k i hi => map_toInt_eq_iff.1 (h.enumerated (beq_iff_eq.2 he)) k i
          ((hat k i).1 hi)
  constructor
  · intro h
    obtain ⟨indexes, heq⟩ := exists_eq_map_some h.exist
    exact ⟨indexes, heq, (hfit indexes heq).1 h⟩
  · rintro ⟨indexes, heq, h⟩
    exact (hfit indexes heq).2 h

/-- Behind the greatest index a field has none, up to the next index that is written. -/
example : indexesFrom (some (-1)) [some Int64.maxValue, none, none, some 3, none] =
    [some Int64.maxValue, none, none, some 3, some 4] := by decide

/-- The rule on indexes goes through the types of a file. What it reports on a type is at the names
of its fields, and it reports nothing exactly if the type has indexes as it has to have them. -/
theorem Rule.fieldIndex_exact (c : Context) :
    fieldIndex.reports c = c.scope.symbols.flatMap (indexReports c) ∧
    (∀ s ∈ c.scope.symbols, ∀ d ∈ indexReports c s,
      IsReport c fieldIndex.kinds d ∧ ∃ f ∈ s.decl.fields, d.span = f.name.span) ∧
    ∀ s ∈ c.scope.symbols, indexReports c s = [] ↔ s.decl.WellIndexed := by
  refine ⟨rfl, fun s _ => of_mem_indexReports, fun s _ => ?_⟩
  rw [indexReports_eq_nil_iff, TypeDecl.wellIndexed_iff]

end Schemata
