/-!
# Bytes, maps and lists

Texts and numbers as bytes, maps that keep their keys in order, and lists whose elements have keys.
-/

/-!
## Bytes

Texts and numbers as bytes: texts in UTF-8, numbers with the least significant byte first.
-/

namespace Schemata.Bytes

def ofString (s : String) : List UInt8 := s.toUTF8.data.toList

/-- The text whose UTF-8 form the bytes are. -/
def toString? (bytes : List UInt8) : Option String := String.fromUTF8? ⟨bytes.toArray⟩

/-- The characters of bytes from a place on. A byte that is part of no character stands
as `none`. -/
def symbolsFrom (bytes : ByteArray) (i : Nat) : List (Option Char) :=
  if i < bytes.size then
    match bytes.utf8DecodeChar? i with
    | some c => some c :: symbolsFrom bytes (i + c.utf8Size)
    | none => none :: symbolsFrom bytes (i + 1)
  else []
termination_by bytes.size - i
decreasing_by
  · have := c.utf8Size_pos
    omega
  · omega

/-- The characters of bytes, which need not be the UTF-8 form of a text. -/
def symbols (bytes : List UInt8) : List (Option Char) :=
  match toString? bytes with
  | some text => text.toList.map some
  | none => symbolsFrom ⟨bytes.toArray⟩ 0

/-- The last `width` bytes of a number. -/
def littleEndian : Nat → Nat → List UInt8
  | 0, _ => []
  | width + 1, n => UInt8.ofNat n :: littleEndian width (n / 256)

def toNat : List UInt8 → Nat
  | [] => 0
  | b :: rest => b.toNat + 256 * toNat rest

/-- The bytes cut into pieces of `size`, of which the last one may be shorter. -/
def slices (size : Nat) (bytes : List UInt8) : List (List UInt8) :=
  if bytes = [] ∨ size = 0 then [] else bytes.take size :: slices size (bytes.drop size)
termination_by bytes.length
decreasing_by
  rename_i h
  simp only [not_or] at h
  have := List.length_pos_iff.2 h.1
  simp only [List.length_drop]
  omega

end Schemata.Bytes

/-!
## Ordered maps

A map from texts to values that keeps its keys in the order in which they came. `insert` gives an
existing key a new value in its old place; `insertNew` leaves an existing key alone.
-/

namespace Schemata

/-- Entries with pairwise distinct keys. -/
structure OrderedMap (α : Type) where
  entries : List (String × α)
  distinct : (entries.map (·.1)).Nodup

namespace OrderedMap

variable {α : Type}

def empty : OrderedMap α := ⟨[], by simp⟩

def get? (m : OrderedMap α) (key : String) : Option α := m.entries.lookup key

def contains (m : OrderedMap α) (key : String) : Bool := m.entries.any (·.1 == key)

/-- `entries` with another value for `key`. -/
def replace (key : String) (value : α) (entries : List (String × α)) : List (String × α) :=
  entries.map fun e => if e.1 = key then (key, value) else e

theorem keys_replace (key : String) (value : α) (entries : List (String × α)) :
    (replace key value entries).map (·.1) = entries.map (·.1) := by
  induction entries with
  | nil => rfl
  | cons e rest ih =>
    simp only [replace, List.map_cons, List.cons.injEq] at ih ⊢
    refine ⟨?_, ih⟩
    split <;> simp_all

/-- A key that is not there yet may be appended without a repeat. -/
theorem nodup_append_new {m : OrderedMap α} {key : String} (value : α)
    (h : ¬ m.contains key = true) : ((m.entries ++ [(key, value)]).map (·.1)).Nodup := by
  rw [List.map_append, List.nodup_append]
  refine ⟨m.distinct, by simp, ?_⟩
  intro a ha b hb
  simp only [List.map_cons, List.map_nil, List.mem_singleton] at hb
  subst hb
  intro hab
  subst hab
  apply h
  obtain ⟨e, he, rfl⟩ := List.mem_map.1 ha
  exact List.any_eq_true.2 ⟨e, he, by simp⟩

/-- The map with `value` for `key`. -/
def insert (m : OrderedMap α) (key : String) (value : α) : OrderedMap α :=
  if h : m.contains key = true then
    ⟨replace key value m.entries, by rw [keys_replace]; exact m.distinct⟩
  else ⟨m.entries ++ [(key, value)], nodup_append_new value h⟩

/-- The map with `value` for `key` unless the key has a value. -/
def insertNew (m : OrderedMap α) (key : String) (value : α) : OrderedMap α :=
  if h : m.contains key = true then m
  else ⟨m.entries ++ [(key, value)], nodup_append_new value h⟩

/-- The map of some entries, of which a later one replaces the value of an earlier one. -/
def ofLasts (entries : List (String × α)) : OrderedMap α :=
  entries.foldl (fun m e => m.insert e.1 e.2) empty

/-- The map of some entries, of which the first one of each key counts. -/
def ofFirsts (entries : List (String × α)) : OrderedMap α :=
  entries.foldl (fun m e => m.insertNew e.1 e.2) empty

end OrderedMap

/-!
## First occurrences and repeats

In a list whose elements have keys, `firsts` keeps the first element of each key, and `repeats`
pairs every other element with the first one of its key. Together they account for the whole list.
-/

variable {α κ : Type} [BEq κ]

namespace Repeats

/-- `firsts` of a list that comes behind the elements `seen`. -/
def firstsAfter (key : α → κ) (seen : List α) : List α → List α
  | [] => []
  | a :: rest =>
    if seen.any fun s => key s == key a then firstsAfter key seen rest
    else a :: firstsAfter key (a :: seen) rest

/-- `repeats` of a list that comes behind the elements `seen`. -/
def repeatsAfter (key : α → κ) (seen : List α) : List α → List (α × α)
  | [] => []
  | a :: rest =>
    match seen.find? fun s => key s == key a with
    | some first => (a, first) :: repeatsAfter key seen rest
    | none => repeatsAfter key (a :: seen) rest

end Repeats

/-- The elements whose key no element before them has. -/
def firsts (key : α → κ) (l : List α) : List α := Repeats.firstsAfter key [] l

/-- The elements whose key an element before them has, each with the first element of that key. -/
def repeats (key : α → κ) (l : List α) : List (α × α) := Repeats.repeatsAfter key [] l

theorem Repeats.length_firstsAfter_add_length_repeatsAfter (key : α → κ) (seen l : List α) :
    (firstsAfter key seen l).length + (repeatsAfter key seen l).length = l.length := by
  induction l generalizing seen with
  | nil => rfl
  | cons a rest ih =>
    simp only [firstsAfter, repeatsAfter]
    cases h : seen.find? fun s => key s == key a with
    | none =>
      have : seen.any (fun s => key s == key a) = false := by
        simpa [List.find?_eq_none] using h
      simp only [this, Bool.false_eq_true, if_false, List.length_cons]
      have := ih (a :: seen)
      omega
    | some first =>
      have : seen.any (fun s => key s == key a) = true := by
        rw [List.any_eq_true]
        exact ⟨first, List.mem_of_find?_eq_some h,
          List.find?_some (p := fun s => key s == key a) h⟩
      simp only [this, if_true, List.length_cons]
      have := ih seen
      omega

/-- Every element is either a first one or a repeat, and none is both. -/
theorem length_firsts_add_length_repeats (key : α → κ) (l : List α) :
    (firsts key l).length + (repeats key l).length = l.length :=
  Repeats.length_firstsAfter_add_length_repeatsAfter key [] l

end Schemata
