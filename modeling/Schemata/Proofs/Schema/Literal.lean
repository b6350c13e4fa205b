import Schemata.Proofs.Json.Parser
import Schemata.Schema.Declaration

/-!
# Literals are read back

A literal comes back from its JSON value exactly where the whole value is readable.
-/

namespace Schemata.Literal

open Json

theorem itemsToJson_eq_map (items : List Literal) : itemsToJson items = items.map toJson := by
  induction items with
  | nil => rfl
  | cons l rest ih => rw [itemsToJson, ih, List.map_cons]

theorem entriesToJson_eq_map (entries : List (Literal × Literal)) :
    entriesToJson entries = entries.map fun e => .array [e.1.toJson, e.2.toJson] := by
  induction entries with
  | nil => rfl
  | cons e rest ih => rw [entriesToJson, ih, List.map_cons]

theorem readPair_readBack {α β : Type} {first : Reader α} {second : Reader β} {j j' : Json} {a : α}
    {b : β} {levels : Nat} (hj : first (j.readBack levels) = if j.depth ≤ levels
      then some a else none)
    (hj' : second (j'.readBack levels) = if j'.depth ≤ levels then some b else none) :
    readPair first second ((Json.array [j, j']).readBack (levels + 1)) =
      if (Json.array [j, j']).depth ≤ levels + 1 then some (a, b) else none := by
  simp only [readBack, Nat.add_one_ne_zero, if_false, Nat.add_sub_cancel,
    readBackItems, readPair, hj, hj', Option.bind_eq_bind, bind_guard, depth, depthItems,
    Nat.add_le_add_iff_right, Nat.max_le, ite_and, Nat.zero_le, if_true]
  rfl

def readValue (item : Reader Literal) (kind : String) (value : Json) : Option Literal :=
  match kind with
  | "string" => .string <$> readString value
  | "int" => .int <$> readInt64 value
  | "float" => .float <$> readFloat value
  | "bool" => .bool <$> readBool value
  | "list" => .list <$> readList item value
  | "map" => .map <$> readList (readPair item item) value
  | _ => none

/-- A literal is read off its kind and its value. -/
theorem readWithin_tagged (bound : Nat) (kind : String) (value : Json) :
    readWithin (bound + 1) .direct (tagged kind value) =
      readValue (readWithin bound .direct) kind value := by
  rfl

/-- A literal comes back as far as its value does. -/
theorem readWithin_readBack_tagged {levels bound : Nat} {kind : String} {value : Json} {l : Literal}
    (hbound : ((tagged kind value).readBack levels).depth ≤ bound)
    (h : ∀ levels bound, (value.readBack levels).depth ≤ bound →
      readValue (readWithin bound .direct) kind (value.readBack levels) =
        if value.depth ≤ levels then some l else none) :
    readWithin bound .direct ((tagged kind value).readBack levels) =
      if (tagged kind value).depth ≤ levels then some l else none := by
  cases levels with
  | zero => cases bound <;> simp [tagged, readBack, readWithin, readKindOf, depth]
  | succ levels =>
    have hobject : (tagged kind value).readBack (levels + 1) =
        tagged kind (value.readBack levels) := by
      simp [tagged, readBack, readBackMembers]
    rw [hobject] at hbound ⊢
    simp only [tagged, depth, depthMembers, Nat.zero_max, Nat.max_zero] at hbound
    obtain ⟨bound, rfl⟩ : ∃ b, bound = b + 1 := ⟨bound - 1, by omega⟩
    rw [readWithin_tagged, h levels bound (by omega)]
    simp only [tagged, depth, depthMembers, Nat.zero_max, Nat.max_zero, Nat.add_le_add_iff_right]

/-- The items of a collection are read within its value. -/
theorem depthItems_readBackItems_le {levels bound : Nat} {items : List Json}
    (h : ((Json.array items).readBack (levels + 1)).depth ≤ bound) :
    depthItems (readBackItems levels items) ≤ bound := by
  simp only [readBack, Nat.add_one_ne_zero, if_false, Nat.add_sub_cancel, depth] at h
  omega

mutual

/-- A literal is read back exactly when all of it is within the levels. -/
theorem readWithin_readBack {levels bound : Nat} (l : Literal)
    (hbound : (l.toJson.readBack levels).depth ≤ bound) :
    readWithin bound .direct (l.toJson.readBack levels) =
      if l.toJson.depth ≤ levels then some l else none := by
  cases l with
  | string s => exact readWithin_readBack_tagged hbound fun _ _ _ => rfl
  | int i =>
    refine readWithin_readBack_tagged hbound fun levels _ _ => ?_
    show Literal.int <$> readInt64 _ = _
    rw [readsBack_int64 i levels]
    split <;> rfl
  | float x => exact readWithin_readBack_tagged hbound fun _ _ _ => rfl
  | bool b => exact readWithin_readBack_tagged hbound fun _ _ _ => rfl
  | list items =>
    refine readWithin_readBack_tagged hbound fun levels bound hbound => ?_
    cases levels with
    | zero => rfl
    | succ levels =>
      have hitems := readWithin_items items (depthItems_readBackItems_le hbound)
      rw [itemsToJson_eq_map]
      show Literal.list <$> readList _ _ = _
      rw [readList_readBack hitems]
      split <;> rfl
  | map entries =>
    refine readWithin_readBack_tagged hbound fun levels bound hbound => ?_
    cases levels with
    | zero => rfl
    | succ levels =>
      have hentries := readWithin_entries entries (depthItems_readBackItems_le hbound)
      rw [entriesToJson_eq_map]
      show Literal.map <$> readList _ _ = _
      rw [readList_readBack hentries]
      split <;> rfl

/-- Each item of a list is read back exactly when all of it is within the levels. -/
theorem readWithin_items {levels bound : Nat} (items : List Literal)
    (hbound : depthItems (readBackItems levels (itemsToJson items)) ≤ bound) :
    ∀ l ∈ items, readWithin bound .direct (l.toJson.readBack levels) =
      if l.toJson.depth ≤ levels then some l else none := by
  cases items with
  | nil => exact fun l hl => by cases hl
  | cons l rest =>
    rw [itemsToJson, readBackItems, depthItems, Nat.max_le] at hbound
    exact List.forall_mem_cons.2 ⟨readWithin_readBack l hbound.1, readWithin_items rest hbound.2⟩

/-- Each entry of a map is read back exactly when all of it is within the levels. -/
theorem readWithin_entries {levels bound : Nat} (entries : List (Literal × Literal))
    (hbound : depthItems (readBackItems levels (entriesToJson entries)) ≤ bound) :
    ∀ e ∈ entries, readPair (readWithin bound .direct) (readWithin bound .direct)
      ((Json.array [e.1.toJson, e.2.toJson]).readBack levels) =
      if (Json.array [e.1.toJson, e.2.toJson]).depth ≤ levels then some e else none := by
  cases entries with
  | nil => exact fun e he => by cases he
  | cons e rest =>
    obtain ⟨k, v⟩ := e
    rw [entriesToJson, readBackItems, depthItems, Nat.max_le] at hbound
    refine List.forall_mem_cons.2 ⟨?_, readWithin_entries rest hbound.2⟩
    cases levels with
    | zero => simp [readBack, readPair, depth]
    | succ levels =>
      have hpair := hbound.1
      simp only [readBack, Nat.add_one_ne_zero, if_false, Nat.add_sub_cancel, depth, readBackItems,
        depthItems] at hpair
      exact readPair_readBack (readWithin_readBack k (by omega)) (readWithin_readBack v (by omega))

end

/-- A literal is read off its JSON value. -/
theorem readsBack (l : Literal) : ReadsBack read l.toJson l := fun _ => readWithin_readBack l le_rfl

/-! ## Numbers in literals -/

mutual

def floats : Literal → List Binary64
  | .float x => [x]
  | .list items => itemFloats items
  | .map entries => entryFloats entries
  | _ => []

def itemFloats : List Literal → List Binary64
  | [] => []
  | l :: rest => floats l ++ itemFloats rest

def entryFloats : List (Literal × Literal) → List Binary64
  | [] => []
  | (k, v) :: rest => floats k ++ floats v ++ entryFloats rest

end

/-- A literal in which every number is finite. -/
def IsFinite (l : Literal) : Prop := ∀ x ∈ l.floats, x.isFinite

instance (l : Literal) : Decidable l.IsFinite :=
  inferInstanceAs (Decidable (∀ x ∈ l.floats, x.isFinite))

/-- A tagged value is exact when the value is. -/
theorem isExact_tagged {kind : String} {value : Json} (h : value.IsExact) :
    (tagged kind value).IsExact :=
  isExact_object (by simp [h, isExact_string])

mutual

/-- A literal has a text of its own if the numbers in it are finite. -/
theorem isExact_toJson (l : Literal) (h : l.IsFinite) : l.toJson.IsExact := by
  cases l with
  | string s => exact isExact_tagged (isExact_string s)
  | int i => exact isExact_tagged (isExact_int64 i)
  | float x => exact isExact_tagged (isExact_float (h x (by simp [floats])))
  | bool b => exact isExact_tagged (isExact_bool b)
  | list items => exact isExact_tagged (isExact_array (isExact_itemsToJson items h))
  | map entries => exact isExact_tagged (isExact_array (isExact_entriesToJson entries h))

theorem isExact_itemsToJson (items : List Literal) (h : ∀ x ∈ itemFloats items, x.isFinite) :
    ∀ j ∈ itemsToJson items, j.IsExact := by
  cases items with
  | nil => exact fun j hj => by cases hj
  | cons l rest =>
    rw [itemFloats, List.forall_mem_append] at h
    exact List.forall_mem_cons.2 ⟨isExact_toJson l h.1, isExact_itemsToJson rest h.2⟩

theorem isExact_entriesToJson (entries : List (Literal × Literal))
    (h : ∀ x ∈ entryFloats entries, x.isFinite) : ∀ j ∈ entriesToJson entries, j.IsExact := by
  cases entries with
  | nil => exact fun j hj => by cases hj
  | cons e rest =>
    obtain ⟨k, v⟩ := e
    rw [entryFloats, List.forall_mem_append, List.forall_mem_append] at h
    have hk := isExact_toJson k h.1.1
    have hv := isExact_toJson v h.1.2
    exact List.forall_mem_cons.2 ⟨isExact_array (by simp [hk, hv]), isExact_entriesToJson rest h.2⟩

end

end Schemata.Literal
