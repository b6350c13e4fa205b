import Schemata.Proofs.Data.OrderedMap
import Schemata.Proofs.Schema.Literal
import Schemata.Snapshot.Exchange

/-!
# Snapshots are read back

A snapshot whose numbers are finite comes back from either of its texts where it is not nested too
deep, and does not come back from either where it is.
-/

namespace Schemata

open Json

/-! ## Members that may be left out -/

namespace Json

variable {α : Type} {write : α → Json} {o : Option α}

@[simp]
theorem Members.named_memberIfAny (key key' : String) :
    named (memberIfAny key write o) key' = if key == key' then (o.map write).toList else [] := by
  cases o with
  | none =>
    rw [memberIfAny, named_nil]
    split <;> rfl
  | some a => rw [memberIfAny, named_cons, named_nil, Option.map_some, Option.toList_some]

/-- A member that may be left out is read as far as it is readable. -/
theorem Members.optional_readBack {members : Members} {reader : Reader α} (key : String)
    (hnamed : named members key = (o.map write).toList) (hnull : reader .null = none)
    (h : ∀ a, o = some a → ReadsBack reader (write a) a) (levels : Nat) :
    optional (readBackMembers levels members) key reader =
      if depthMembers (memberIfAny key write o) ≤ levels then some o else none := by
  rw [optional, named_readBackMembers, hnamed]
  cases o with
  | none => rfl
  | some a =>
    have hread := h a rfl levels
    have hnotNull : (write a).readBack levels ≠ .null := by
      intro hj
      have hdepth := (isReadable_readBack levels (write a)).1 (by rw [hj]; rfl)
      rw [hj, hnull, if_pos hdepth] at hread
      cases hread
    have hdepth : depthMembers (memberIfAny key write (some a)) = (write a).depth := by
      simp [memberIfAny, depthMembers]
    simp only [Option.map_some, Option.toList_some, List.map_singleton, hread, hdepth]
    rw [apply_ite (Option.map some)]
    rfl

theorem isExact_memberIfAny {key : String} (h : ∀ a, o = some a → (write a).IsExact) :
    ∀ m ∈ memberIfAny key write o, m.2.IsExact := by
  cases o with
  | none => exact fun m hm => by cases hm
  | some a => simpa [memberIfAny] using h a rfl

end Json

/-! ## Ordered maps -/

namespace OrderedMap

/-- Entries are read one by one. -/
theorem read_object (members : List (String × Json)) :
    read (.object members) =
      (members.mapM fun m => (Literal.read m.2).bind fun value => some (m.1, value)).bind
        fun entries => some (ofLasts entries) := rfl

theorem mapM_readBackMembers (levels : Nat) (entries : List (String × Literal)) :
    ((readBackMembers levels (entries.map fun e => (e.1, e.2.toJson))).mapM
      fun m => (Literal.read m.2).bind fun value => some (m.1, value)) =
      if depthMembers (entries.map fun e => (e.1, e.2.toJson)) ≤ levels
        then some entries else none := by
  induction entries with
  | nil => rfl
  | cons e rest ih =>
    have he := Literal.readsBack e.2 levels
    rw [List.map_cons, readBackMembers, List.mapM_cons, ih, he]
    simp only [Option.bind_eq_bind, bind_guard, depthMembers, Nat.max_le, ite_and]
    rfl

/-- A map is read back with its entries in order. -/
theorem readsBack (m : OrderedMap Literal) : ReadsBack read m.toJson m := by
  rintro (- | levels)
  · rfl
  · simp only [toJson, readBack, Nat.add_one_ne_zero, if_false, Nat.add_sub_cancel, read_object,
      mapM_readBackMembers, bind_guard, ofLasts_entries, depth, Nat.add_le_add_iff_right]

theorem isExact_toJson {m : OrderedMap Literal}
    (h : ∀ l ∈ m.entries.map (·.2), l.IsFinite) : m.toJson.IsExact := by
  refine isExact_object fun member hmember => ?_
  obtain ⟨e, he, rfl⟩ := List.mem_map.1 hmember
  exact Literal.isExact_toJson e.2 (h e.2 (List.mem_map_of_mem he))

end OrderedMap

/-! ## Value types -/

/-- A modifier is read from its own keyword. -/
theorem Modifier.ofKeyword?_keyword (m : Modifier) : ofKeyword? m.keyword = some m := by
  cases m <;> decide

namespace ResolvedType

theorem argumentsToJson_eq_map (as : List ResolvedType) : argumentsToJson as = as.map toJson := by
  induction as with
  | nil => rfl
  | cons t rest ih => rw [argumentsToJson, ih, List.map_cons]

theorem readList_map {α : Type} {reader : Reader α} {write : α → Json} {as : List α}
    (h : ∀ a ∈ as, reader (write a) = some a) :
    readList reader (.array (as.map write)) = some as := by
  rw [readList]
  induction as with
  | nil => rfl
  | cons a rest ih =>
    obtain ⟨ha, hrest⟩ := List.forall_mem_cons.1 h
    rw [List.map_cons, List.mapM_cons, ha, ih hrest]
    rfl

theorem read_primitive {p : Primitive} : Primitive.read (.string p.keyword) = some p := by
  rw [Primitive.read, readWord, Option.bind_eq_bind, Option.bind_some, Primitive.ofKeyword?_keyword]

/-- A primitive is read off its parts. -/
theorem readWithin_primitive {bound : Nat} {access : Access} {members : Members} {p : Primitive}
    {nullable : Bool} {arguments : List ResolvedType}
    (hkind : members.named "kind" = [.string "primitive"])
    (hp : members.required "primitive" Primitive.read = some p)
    (hnullable : members.required "nullable" readBool = some nullable)
    (harguments : members.withDefault "arguments" [] (readList (readWithin bound .buffered)) =
      some arguments) :
    readWithin (bound + 1) access (.object members) = some (.primitive p nullable arguments) := by
  have hkindOf : readKindOf access (.object members) = some "primitive" := by
    rw [readKindOf, Members.required, hkind]
    rfl
  rw [readWithin, hkindOf]
  simp only [Option.bind_eq_bind, Option.bind_some, readRecord, hp, hnullable, harguments,
    Option.pure_def]

mutual

/-- A value type is read off its JSON value, also where this was put aside. -/
theorem readWithin_toJson {bound : Nat} {access : Access} (t : ResolvedType)
    (hbound : t.toJson.depth ≤ bound) : readWithin bound access t.toJson = some t := by
  cases t with
  | primitive p nullable as =>
    rw [toJson, depth, depthMembers_append] at hbound
    obtain ⟨bound, rfl⟩ : ∃ b, bound = b + 1 := ⟨bound - 1, by omega⟩
    rw [toJson]
    rcases as with - | ⟨t, rest⟩
    · exact readWithin_primitive rfl read_primitive rfl rfl
    · have hdepth : depthItems (argumentsToJson (t :: rest)) ≤ bound := by
        simp [depthMembers, depth] at hbound
        omega
      have harguments : ∀ a ∈ t :: rest, readWithin bound .buffered a.toJson = some a :=
        readWithin_argumentsToJson (t :: rest) hdepth
      have hlist := readList_map harguments
      rw [argumentsToJson_eq_map]
      exact readWithin_primitive rfl read_primitive rfl hlist
  | custom typeId nullable importAlias =>
    rw [toJson, depth] at hbound
    obtain ⟨bound, rfl⟩ : ∃ b, bound = b + 1 := ⟨bound - 1, by omega⟩
    cases importAlias with
    | none => rfl
    | some importAlias => rfl

theorem readWithin_argumentsToJson {bound : Nat} {access : Access} (as : List ResolvedType)
    (hbound : depthItems (argumentsToJson as) ≤ bound) :
    ∀ t ∈ as, readWithin bound access t.toJson = some t := by
  cases as with
  | nil => exact fun t ht => by cases ht
  | cons t rest =>
    rw [argumentsToJson, depthItems, Nat.max_le] at hbound
    exact List.forall_mem_cons.2
      ⟨readWithin_toJson t hbound.1, readWithin_argumentsToJson rest hbound.2⟩

end

mutual

/-- The JSON value of a value type has a text of its own. -/
theorem isExact_toJson (t : ResolvedType) : t.toJson.IsExact := by
  cases t with
  | primitive p nullable as =>
    have harguments := isExact_array (isExact_argumentsToJson as)
    refine isExact_object (List.forall_mem_append.2 ⟨?_, ?_⟩)
    · simp [isExact_string, isExact_bool]
    · split
      · exact fun m hm => by cases hm
      · simpa using harguments
  | custom typeId nullable importAlias =>
    refine isExact_object (List.forall_mem_append.2 ⟨?_, ?_⟩)
    · simp [isExact_string, isExact_bool]
    · exact isExact_memberIfAny fun a _ => isExact_string a

theorem isExact_argumentsToJson (as : List ResolvedType) :
    ∀ j ∈ argumentsToJson as, j.IsExact := by
  cases as with
  | nil => exact fun j hj => by cases hj
  | cons t rest => exact List.forall_mem_cons.2 ⟨isExact_toJson t, isExact_argumentsToJson rest⟩

end

mutual

/-- Nothing in a written resolved type is unreadable. -/
theorem isReadable_toJson (t : ResolvedType) : t.toJson.isReadable := by
  cases t with
  | primitive p nullable as =>
    cases as with
    | nil => rfl
    | cons t rest =>
      have harguments := isReadable_argumentsToJson (t :: rest)
      simpa [toJson, isReadable, allMembersReadable] using harguments
  | custom typeId nullable importAlias => cases importAlias <;> rfl

theorem isReadable_argumentsToJson (as : List ResolvedType) : allReadable (argumentsToJson as) := by
  cases as with
  | nil => rfl
  | cons t rest =>
    rw [argumentsToJson, allReadable, isReadable_toJson t, isReadable_argumentsToJson rest]
    rfl

end

/-- A value type is read off its JSON value. -/
theorem readsBack (t : ResolvedType) : ReadsBack read t.toJson t := by
  intro levels
  rw [read]
  by_cases hdepth : t.toJson.depth ≤ levels
  · rw [if_pos ((isReadable_readBack levels t.toJson).2 hdepth), if_pos hdepth,
      readBack_of_depth_le t.toJson t.isReadable_toJson hdepth, readWithin_toJson t le_rfl]
  · rw [if_neg (mt (isReadable_readBack levels t.toJson).1 hdepth), if_neg hdepth]

end ResolvedType

/-! ## Records -/

theorem readsBack_modifier (m : Modifier) : ReadsBack Modifier.read (.string m.keyword) m := by
  refine readsBack_leaf (fun _ => rfl) rfl ?_
  rw [Modifier.read, readWord, Option.bind_eq_bind, Option.bind_some, Modifier.ofKeyword?_keyword]

namespace FieldDef

/-- A field is read off its JSON value. -/
theorem readsBack (f : FieldDef) : ReadsBack read f.toJson f := by
  refine readsBack_record fun levels => ?_
  rw [Members.required_readBack "index" (j := .int f.index.toInt) ?_ (readsBack_int64 f.index),
    Members.required_readBack "name" (j := .string f.name) ?_ (readsBack_string f.name),
    Members.required_readBack "documentation" (j := strings f.documentation) ?_
      (readsBack_strings f.documentation),
    Members.required_readBack "annotations" (j := f.annotations.toJson) ?_
      f.annotations.readsBack,
    Members.optional_readBack "defaultValue" (o := f.defaultValue) ?_ rfl
      fun l _ => l.readsBack,
    Members.optional_readBack "type" (o := f.valueType) ?_ rfl fun t _ => t.readsBack]
  · simp only [Option.bind_eq_bind, bind_guard, Option.pure_def]
    simp only [depthMembers_append, depthMembers, Nat.max_le, Nat.zero_le, and_true, ite_and]
  all_goals simp

end FieldDef

namespace TypeDef

/-- A type is read off its JSON value. -/
theorem readsBack (t : TypeDef) : ReadsBack read t.toJson t := by
  refine readsBack_record fun levels => ?_
  rw [Members.required_readBack "id" (j := .string t.id) ?_ (readsBack_string t.id),
    Members.required_readBack "name" (j := .string t.name) ?_ (readsBack_string t.name),
    Members.required_readBack "modifier" (j := .string t.modifier.keyword) ?_
      (readsBack_modifier t.modifier),
    Members.required_readBack "documentation" (j := strings t.documentation) ?_
      (readsBack_strings t.documentation),
    Members.required_readBack "annotations" (j := t.annotations.toJson) ?_
      t.annotations.readsBack,
    Members.required_readBack "defaults" (j := t.defaults.toJson) ?_ t.defaults.readsBack,
    Members.optional_readBack "baseType" (o := t.baseId) ?_ rfl
      fun id _ => readsBack_string id,
    Members.required_readBack "fields" (j := .array (t.fields.map (·.toJson))) ?_
      (readsBack_list fun f _ => f.readsBack)]
  · simp only [Option.bind_eq_bind, bind_guard, Option.pure_def]
    simp only [depthMembers_append, depthMembers, Nat.max_le, Nat.zero_le, and_true, ite_and]
  all_goals simp

end TypeDef

namespace CompiledFile

/-- A file is read off its JSON value. -/
theorem readsBack (f : CompiledFile) : ReadsBack read f.toJson f := by
  refine readsBack_record fun levels => ?_
  rw [Members.required_readBack "id" (j := .string f.id) rfl (readsBack_string f.id),
    Members.required_readBack "packageName" (j := .string f.packageName) rfl
      (readsBack_string f.packageName),
    Members.required_readBack "path" (j := .string f.path) rfl (readsBack_string f.path),
    Members.required_readBack "types" (j := .array (f.types.map (·.toJson))) rfl
      (readsBack_list fun t _ => t.readsBack)]
  simp only [Option.bind_eq_bind, bind_guard, Option.pure_def]
  simp only [depthMembers, Nat.max_le, Nat.zero_le, and_true, ite_and]

end CompiledFile

namespace Snapshot

/-- A snapshot is read off its JSON value. -/
theorem readsBack (s : Snapshot) : ReadsBack read s.toJson s := by
  refine readsBack_record fun levels => ?_
  rw [Members.required_readBack "version" (j := .int s.version.toNat) rfl
      (readsBack_uint32 s.version),
    Members.required_readBack "hashcode" (j := .string s.hashcode) rfl
      (readsBack_string s.hashcode),
    Members.required_readBack "files" (j := .array (s.files.map (·.toJson))) rfl
      (readsBack_list fun f _ => f.readsBack)]
  simp only [Option.bind_eq_bind, bind_guard, Option.pure_def]
  simp only [depthMembers, Nat.max_le, Nat.zero_le, and_true, ite_and]

end Snapshot

/-! ## Numbers in snapshots -/

theorem isExact_strings (texts : List String) : (strings texts).IsExact := by
  refine isExact_array fun j hj => ?_
  obtain ⟨s, -, rfl⟩ := List.mem_map.1 hj
  exact isExact_string s

namespace FieldDef

def literals (f : FieldDef) : List Literal :=
  f.annotations.entries.map (·.2) ++ f.defaultValue.toList

theorem isExact_toJson {f : FieldDef} (h : ∀ l ∈ f.literals, l.IsFinite) : f.toJson.IsExact := by
  obtain ⟨hannotations, hdefault⟩ := List.forall_mem_append.1 h
  have hannotations := OrderedMap.isExact_toJson hannotations
  refine isExact_object (List.forall_mem_append.2 ⟨List.forall_mem_append.2 ⟨?_, ?_⟩, ?_⟩)
  · simp [isExact_int64, isExact_string, isExact_strings, hannotations]
  · exact isExact_memberIfAny fun l hl => Literal.isExact_toJson l (hdefault l (by simp [hl]))
  · exact isExact_memberIfAny fun t _ => ResolvedType.isExact_toJson t

end FieldDef

namespace TypeDef

def literals (t : TypeDef) : List Literal :=
  t.annotations.entries.map (·.2) ++ t.defaults.entries.map (·.2) ++ t.fields.flatMap (·.literals)

theorem isExact_toJson {t : TypeDef} (h : ∀ l ∈ t.literals, l.IsFinite) : t.toJson.IsExact := by
  obtain ⟨h, hfields⟩ := List.forall_mem_append.1 h
  obtain ⟨hannotations, hdefaults⟩ := List.forall_mem_append.1 h
  have hannotations := OrderedMap.isExact_toJson hannotations
  have hdefaults := OrderedMap.isExact_toJson hdefaults
  have hfields : (Json.array (t.fields.map (·.toJson))).IsExact := by
    refine isExact_array fun j hj => ?_
    obtain ⟨f, hf, rfl⟩ := List.mem_map.1 hj
    exact FieldDef.isExact_toJson fun l hl => hfields l (List.mem_flatMap.2 ⟨f, hf, hl⟩)
  refine isExact_object (List.forall_mem_append.2 ⟨List.forall_mem_append.2 ⟨?_, ?_⟩, ?_⟩)
  · simp [isExact_string, isExact_strings, hannotations, hdefaults]
  · exact isExact_memberIfAny fun id _ => isExact_string id
  · simpa using hfields

end TypeDef

namespace CompiledFile

theorem isExact_toJson {f : CompiledFile} (h : ∀ t ∈ f.types, ∀ l ∈ t.literals, l.IsFinite) :
    f.toJson.IsExact := by
  have htypes : (Json.array (f.types.map (·.toJson))).IsExact := by
    refine isExact_array fun j hj => ?_
    obtain ⟨t, ht, rfl⟩ := List.mem_map.1 hj
    exact TypeDef.isExact_toJson (h t ht)
  exact isExact_object (by simp [isExact_string, htypes])

end CompiledFile

namespace Snapshot

variable {s : Snapshot}

def literals (s : Snapshot) : List Literal := s.types.flatMap (·.literals)

/-- A snapshot has a text of its own if the numbers in it are finite. -/
theorem isExact_toJson (h : ∀ l ∈ s.literals, l.IsFinite) : s.toJson.IsExact := by
  have hfiles : (Json.array (s.files.map (·.toJson))).IsExact := by
    refine isExact_array fun j hj => ?_
    obtain ⟨f, hf, rfl⟩ := List.mem_map.1 hj
    refine CompiledFile.isExact_toJson fun t ht l hl => h l ?_
    exact List.mem_flatMap.2 ⟨t, List.mem_flatMap.2 ⟨f, hf, ht⟩, hl⟩
  exact isExact_object (by simp [isExact_uint32, isExact_string, hfiles])

/-! ## Texts of snapshots -/

/-- A snapshot comes back from its text exactly where it is not nested too deep. -/
theorem ofText?_text (h : ∀ l ∈ s.literals, l.IsFinite) :
    ofText? s.text = if s.toJson.depth ≤ maxDepth then some s else none := by
  rw [ofText?, text, parse?_compact (isExact_toJson h), Option.bind_some]
  exact s.readsBack maxDepth

/-- The indented text of a snapshot is read back as deep as the parser goes. -/
theorem ofText?_prettyText (h : ∀ l ∈ s.literals, l.IsFinite) :
    ofText? s.prettyText = if s.toJson.depth ≤ maxDepth then some s else none := by
  rw [ofText?, prettyText, parse?_pretty (isExact_toJson h), Option.bind_some]
  exact s.readsBack maxDepth

/-- A snapshot whose numbers are finite and that is not nested too deep comes back from both its
texts. -/
theorem ofText?_both_texts (hfinite : ∀ l ∈ s.literals, l.IsFinite)
    (hdepth : s.toJson.depth ≤ maxDepth) :
    ofText? s.text = some s ∧ ofText? s.prettyText = some s := by
  rw [ofText?_text hfinite, ofText?_prettyText hfinite, if_pos hdepth]
  exact ⟨rfl, rfl⟩

/-- A snapshot in which every optional part is there in one place and absent in another. -/
def specimen : Snapshot where
  version := 1
  hashcode := "00ff"
  files := [{
    id := "17"
    packageName := "identity"
    path := "identity/user.nex"
    types := [
      { id := "1"
        name := "User"
        modifier := .struct
        documentation := ["A user.", "tab\t, quote \", backslash \\ and bell \x07"]
        annotations :=
          ⟨[("z", .bool true), ("a", .list [.float ⟨0x3fb999999999999a⟩, .int Int64.minValue]),
          ("", .map [(.string "k\n", .float ⟨0x8000000000000000⟩)])], by decide⟩
        defaults := ⟨[("name", .string "é")], by decide⟩
        baseId := some "2"
        fields := [
          { index := 0
            name := "name"
            documentation := []
            annotations := .empty
            defaultValue := some (.string "é")
            valueType := some (.primitive .string true []) },
          { index := Int64.maxValue
            name := "groups"
            documentation := []
            annotations := .empty
            defaultValue := none
            valueType := some (.primitive .map false
              [.primitive .int64 false [], .custom "3" true (some "other")]) }] },
      { id := "3"
        name := "Color"
        modifier := .enum
        documentation := []
        annotations := .empty
        defaults := .empty
        baseId := none
        fields := [⟨-1, "red", [], .empty, none, none⟩] }] }]

theorem ofText?_texts_specimen :
    ofText? specimen.text = some specimen ∧ ofText? specimen.prettyText = some specimen :=
  ofText?_both_texts (by decide) (by decide)

end Snapshot

end Schemata
