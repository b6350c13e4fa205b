import Mathlib.Data.List.Basic
import Mathlib.Tactic.SplitIfs
import Schemata.Json.Parser
import Schemata.Proofs.Json.Printer

/-!
# Printed values are read back

The tokens of a value are read as this value, where it is not nested too deep. Of a value that is,
the arrays and objects at the bottom come back unreadable, and nothing else is lost.
-/

namespace Schemata.Json

mutual

/-- What the tokens of a value are read as where so many levels of arrays and objects
are readable. -/
def readBack (levels : Nat) : Json → Json
  | .array items => if levels = 0 then .unreadable else .array (readBackItems (levels - 1) items)
  | .object members =>
    if levels = 0 then .unreadable else .object (readBackMembers (levels - 1) members)
  | .unreadable => .null
  | j => j

def readBackItems (levels : Nat) : List Json → List Json
  | [] => []
  | j :: rest => readBack levels j :: readBackItems levels rest

def readBackMembers (levels : Nat) : List (String × Json) → List (String × Json)
  | [] => []
  | (key, j) :: rest => (key, readBack levels j) :: readBackMembers levels rest

end

mutual

/-- A value that is not nested too deep is read back as it is. -/
theorem readBack_of_depth_le {levels : Nat} (j : Json) (hreadable : j.isReadable)
    (hdepth : j.depth ≤ levels) : j.readBack levels = j := by
  cases j with
  | array items =>
    rw [depth] at hdepth
    rw [readBack, if_neg (by omega), readBackItems_of_depth_le items hreadable (by omega)]
  | object members =>
    rw [depth] at hdepth
    rw [readBack, if_neg (by omega), readBackMembers_of_depth_le members hreadable (by omega)]
  | unreadable => cases hreadable
  | null | bool | int | float | string => rfl

/-- Items within the levels come back as they were. -/
theorem readBackItems_of_depth_le {levels : Nat} (items : List Json) (hreadable : allReadable items)
    (hdepth : depthItems items ≤ levels) : readBackItems levels items = items := by
  cases items with
  | nil => rfl
  | cons j rest =>
    rw [allReadable, Bool.and_eq_true] at hreadable
    rw [depthItems, Nat.max_le] at hdepth
    rw [readBackItems, readBack_of_depth_le j hreadable.1 hdepth.1,
      readBackItems_of_depth_le rest hreadable.2 hdepth.2]

theorem readBackMembers_of_depth_le {levels : Nat} (members : List (String × Json))
    (hreadable : allMembersReadable members) (hdepth : depthMembers members ≤ levels) :
    readBackMembers levels members = members := by
  cases members with
  | nil => rfl
  | cons m rest =>
    obtain ⟨key, j⟩ := m
    rw [allMembersReadable, Bool.and_eq_true] at hreadable
    rw [depthMembers, Nat.max_le] at hdepth
    rw [readBackMembers, readBack_of_depth_le j hreadable.1 hdepth.1,
      readBackMembers_of_depth_le rest hreadable.2 hdepth.2]

end

mutual

/-- What is read back is readable in all its parts if it is not nested too deep, and only then. -/
theorem isReadable_readBack (levels : Nat) (j : Json) :
    (j.readBack levels).isReadable ↔ j.depth ≤ levels := by
  cases j with
  | array items =>
    rw [readBack, depth]
    split_ifs with hlevels
    · simp [isReadable, hlevels]
    · rw [isReadable, allReadable_readBackItems]
      omega
  | object members =>
    rw [readBack, depth]
    split_ifs with hlevels
    · simp [isReadable, hlevels]
    · rw [isReadable, allMembersReadable_readBackMembers]
      omega
  | null | bool | int | float | string | unreadable => simp [readBack, isReadable, depth]

/-- Items come back readable exactly when none is nested too deep. -/
theorem allReadable_readBackItems (levels : Nat) (items : List Json) :
    allReadable (readBackItems levels items) ↔ depthItems items ≤ levels := by
  cases items with
  | nil => simp [readBackItems, allReadable, depthItems]
  | cons j rest =>
    rw [readBackItems, allReadable, Bool.and_eq_true, isReadable_readBack levels j,
      allReadable_readBackItems levels rest, depthItems, Nat.max_le]

theorem allMembersReadable_readBackMembers (levels : Nat) (members : List (String × Json)) :
    allMembersReadable (readBackMembers levels members) ↔ depthMembers members ≤ levels := by
  cases members with
  | nil => simp [readBackMembers, allMembersReadable, depthMembers]
  | cons m rest =>
    rw [readBackMembers, allMembersReadable, Bool.and_eq_true, isReadable_readBack levels m.2,
      allMembersReadable_readBackMembers levels rest, depthMembers, Nat.max_le]

end

namespace Parser

variable {e d : Expectation} {frames frames' : List Frame} {t : Token} {ts : List Token}

/-- The number of levels that are left inside the given frames. -/
def levels (frames : List Frame) : Nat := maxDepth - frames.length

theorem levels_cons (frame : Frame) : levels (frame :: frames) = levels frames - 1 := by
  rw [levels, levels, List.length_cons, Nat.sub_add_eq]

/-- A value below the last level is not read. -/
theorem nest_eq (j : Json) : nest frames j = if levels frames = 0 then .unreadable else j := by
  rw [nest, levels]
  split_ifs <;> first | rfl | omega

/-- A run takes the first token and goes on from the state behind it. -/
theorem run_of_step (h : step e frames t = some (d, frames')) :
    run e frames (t :: ts) = run d frames' ts := by
  have hrun : run e frames (t :: ts) = (step e frames t).bind fun p => run p.1 p.2 ts := by
    rw [run]
    rfl
  rw [hrun, h, Option.bind_some]

theorem step_itemOrEnd (ht : t ≠ .closeBracket) : step .itemOrEnd frames t = value frames t := by
  rw [step]
  rintro frames' rfl rfl
  exact ht rfl

/-- The first item of an array is a value like every other one. -/
theorem run_itemOrEnd (j : Json) :
    run .itemOrEnd frames (j.tokens ++ ts) = run .value frames (j.tokens ++ ts) := by
  have hcons : ∀ {t : Token} {ts : List Token}, t ≠ .closeBracket →
      run .itemOrEnd frames (t :: ts) = run .value frames (t :: ts) := fun ht => by
    rw [run, run, step_itemOrEnd ht, step]
  cases j <;> exact hcons (by simp)

/-- The object whose members all have names. -/
theorem ofParts_named (members : List (String × Json)) :
    ofParts (members.map fun m => (some m.1, m.2)) = .object members := by
  have hmapM {f : NamedPart → Option (String × Json)}
      (hf : ∀ key j, f (some key, j) = some (key, j)) :
      (members.map fun m => (some m.1, m.2)).mapM f = some members := by
    induction members with
    | nil => rfl
    | cons m rest ih =>
      rw [List.map_cons, List.mapM_cons, ih, hf]
      rfl
  rw [ofParts, hmapM fun key j => rfl]

mutual

/-- The tokens of a value leave the value itself behind. -/
theorem run_tokens {frames : List Frame} {ts : List Token} (j : Json) :
    run .value frames (j.tokens ++ ts) =
      run (.continuation (j.readBack (levels frames))) frames ts := by
  cases j with
  | null | bool | int | float | string | unreadable => exact run_of_step rfl
  | array items =>
    have hopen : run .value frames ((Json.array items).tokens ++ ts) =
        run .itemOrEnd (.array [] :: frames) (tokensOfItems true items ++ .closeBracket :: ts) := by
      rw [tokens, List.append_assoc]
      exact run_of_step rfl
    rw [hopen, readBack, ← nest_eq]
    cases items with
    | nil => exact run_of_step rfl
    | cons j rest =>
      have hfirst : run .itemOrEnd (.array [] :: frames)
          (tokensOfItems true (j :: rest) ++ .closeBracket :: ts) =
          run .value (.array [] :: frames)
            (j.tokens ++ (tokensOfItems false rest ++ .closeBracket :: ts)) := by
        rw [tokensOfItems, if_pos rfl, List.nil_append, List.append_assoc, run_itemOrEnd]
      rw [hfirst, run_tokens j, run_tokensOfItems _ [] rest, levels_cons]
      rfl
  | object members =>
    have hopen : run .value frames ((Json.object members).tokens ++ ts) =
        run .nameOrEnd frames (tokensOfMembers true members ++ .closeBrace :: ts) := by
      rw [tokens, List.append_assoc]
      exact run_of_step rfl
    rw [hopen, readBack, ← nest_eq]
    cases members with
    | nil => exact run_of_step rfl
    | cons m rest =>
      obtain ⟨key, j⟩ := m
      have hkey : run .nameOrEnd frames
          (tokensOfMembers true ((key, j) :: rest) ++ .closeBrace :: ts) =
          run .value (.object [] (some key) :: frames)
            (j.tokens ++ (tokensOfMembers false rest ++ .closeBrace :: ts)) := by
        simp only [tokensOfMembers, List.append_assoc, List.cons_append]
        exact (run_of_step (d := .colon [] (some key)) rfl).trans (run_of_step rfl)
      rw [hkey, run_tokens j, run_tokensOfMembers _ _ [] rest, levels_cons, readBackMembers,
        ← ofParts_named]
      rfl

/-- The tokens of further items, behind those that an array already has. -/
theorem run_tokensOfItems {frames : List Frame} {ts : List Token} (v : Json)
    (done rest : List Json) :
    run (.continuation v) (.array done :: frames)
      (tokensOfItems false rest ++ .closeBracket :: ts) =
      run (.continuation (nest frames
        (.array ((v :: done).reverse ++ readBackItems (levels frames - 1) rest)))) frames ts := by
  cases rest with
  | nil =>
    rw [readBackItems, List.append_nil]
    exact run_of_step rfl
  | cons j rest =>
    have hcomma : run (.continuation v) (.array done :: frames)
        (tokensOfItems false (j :: rest) ++ .closeBracket :: ts) =
        run .value (.array (v :: done) :: frames)
          (j.tokens ++ (tokensOfItems false rest ++ .closeBracket :: ts)) := by
      simp only [tokensOfItems, List.append_assoc]
      exact run_of_step rfl
    rw [hcomma, run_tokens j, run_tokensOfItems _ (v :: done) rest, levels_cons, readBackItems,
      List.reverse_cons, List.append_assoc, List.singleton_append]

/-- The tokens of further members, behind those that an object already has. -/
theorem run_tokensOfMembers {frames : List Frame} {ts : List Token} (v : Json) (key : Option String)
    (done : List NamedPart) (rest : List (String × Json)) :
    run (.continuation v) (.object done key :: frames)
        (tokensOfMembers false rest ++ .closeBrace :: ts) =
      run (.continuation (nest frames (ofParts (((key, v) :: done).reverse ++
        (readBackMembers (levels frames - 1) rest).map fun m => (some m.1, m.2))))) frames ts := by
  cases rest with
  | nil =>
    rw [readBackMembers, List.map_nil, List.append_nil]
    exact run_of_step rfl
  | cons m rest =>
    obtain ⟨key', j⟩ := m
    have hcomma : run (.continuation v) (.object done key :: frames)
        (tokensOfMembers false ((key', j) :: rest) ++ .closeBrace :: ts) =
        run .value (.object ((key, v) :: done) (some key') :: frames)
          (j.tokens ++ (tokensOfMembers false rest ++ .closeBrace :: ts)) := by
      simp only [tokensOfMembers, List.append_assoc, List.cons_append]
      exact (run_of_step (d := .name ((key, v) :: done)) rfl).trans
        ((run_of_step (d := .colon ((key, v) :: done) (some key')) rfl).trans (run_of_step rfl))
    rw [hcomma, run_tokens j, run_tokensOfMembers _ _ _ rest, levels_cons, readBackMembers,
      List.reverse_cons, List.append_assoc, List.map_cons, List.singleton_append]

end

end Parser

/-- A text that spells the tokens of a value is read as this value. -/
theorem parseSymbols?_of_spells {j : Json} {cs : List Char} (h : Token.Spells j.tokens cs) :
    parseSymbols? (cs.map some) = some (j.readBack maxDepth) := by
  have hrun : Parser.run .value [] (j.tokens ++ []) = Parser.run (.continuation _) [] [] :=
    Parser.run_tokens j
  rw [List.append_nil] at hrun
  rw [parseSymbols?, Token.scan_of_spells h, Option.bind_eq_bind, Option.bind_some, hrun]
  rfl

/-- Parsing the compact text gives the value back as deep as the parser goes. -/
theorem parse?_compact {j : Json} (hj : j.IsExact) :
    parse? j.compact = some (j.readBack maxDepth) :=
  parseSymbols?_of_spells (spells_compact hj)

/-- The indented text is parsed to the same value. -/
theorem parse?_pretty {j : Json} (hj : j.IsExact) : parse? j.pretty = some (j.readBack maxDepth) :=
  parseSymbols?_of_spells (spells_pretty hj)

/-!
## Data are read off their JSON values

A reader that undoes the writing of some data does so exactly where the value comes back readable in
all its parts. That goes for the parts of a value and carries over to lists of them and to records.
-/

variable {α β : Type}

theorem readBackMembers_eq_map (levels : Nat) (members : List (String × Json)) :
    readBackMembers levels members = members.map fun m => (m.1, m.2.readBack levels) := by
  induction members with
  | nil => rfl
  | cons m rest ih => rw [readBackMembers, ih, List.map_cons]

theorem depthItems_le_iff {items : List Json} {n : Nat} :
    depthItems items ≤ n ↔ ∀ j ∈ items, j.depth ≤ n := by
  induction items with
  | nil => simp [depthItems]
  | cons j rest ih => rw [depthItems, Nat.max_le, ih, List.forall_mem_cons]

theorem depthMembers_le_iff {members : List (String × Json)} {n : Nat} :
    depthMembers members ≤ n ↔ ∀ m ∈ members, m.2.depth ≤ n := by
  induction members with
  | nil => simp [depthMembers]
  | cons m rest ih => rw [depthMembers, Nat.max_le, ih, List.forall_mem_cons]

theorem depthMembers_append (ms ms' : List (String × Json)) :
    depthMembers (ms ++ ms') = max (depthMembers ms) (depthMembers ms') := by
  induction ms with
  | nil => simp [depthMembers]
  | cons m rest ih => rw [List.cons_append, depthMembers, depthMembers, ih, Nat.max_assoc]

/-- A value that counts under a condition is passed on under this condition. -/
theorem bind_guard {p : Prop} [Decidable p] (a : α) (f : α → Option β) :
    (if p then some a else none).bind f = if p then f a else none := by
  split <;> rfl

/-- A reader takes `a` off a value wherever the value comes back readable in all its parts, and
nothing elsewhere. -/
def ReadsBack (reader : Reader α) (j : Json) (a : α) : Prop :=
  ∀ levels, reader (j.readBack levels) = if j.depth ≤ levels then some a else none

/-! ### Values without parts -/

theorem readsBack_leaf {reader : Reader α} {j : Json} {a : α} (hj : ∀ levels, j.readBack levels = j)
    (hdepth : j.depth = 0) (h : reader j = some a) : ReadsBack reader j a := fun levels => by
  rw [hj, h, hdepth, if_pos (Nat.zero_le levels)]

/-- A text is read back. -/
theorem readsBack_string (s : String) : ReadsBack readString (.string s) s := fun _ => rfl

/-- A signed word is read back. -/
theorem readsBack_int64 (i : Int64) : ReadsBack readInt64 (.int i.toInt) i := by
  have hbounds : Int64.minValue.toInt ≤ i.toInt ∧ i.toInt ≤ Int64.maxValue.toInt :=
    ⟨Int64.minValue_le_toInt i, Int64.toInt_le i⟩
  refine readsBack_leaf (fun _ => rfl) rfl ?_
  rw [readInt64, if_pos hbounds, Int64.ofInt_toInt]

theorem readsBack_uint32 (n : UInt32) : ReadsBack readUInt32 (.int n.toNat) n := by
  have hbounds : 0 ≤ (n.toNat : Int) ∧ (n.toNat : Int) < UInt32.size :=
    ⟨Int.natCast_nonneg _, Int.ofNat_lt.2 n.toNat_lt_size⟩
  refine readsBack_leaf (fun _ => rfl) rfl ?_
  rw [readUInt32, if_pos hbounds, Int.toNat_natCast, UInt32.ofNat_toNat]

/-! ### Lists -/

/-- A list is read exactly as far as its items are readable. -/
theorem readList_readBack {reader : Reader α} {write : α → Json} {as : List α} {levels : Nat}
    (h : ∀ a ∈ as, reader ((write a).readBack levels) =
      if (write a).depth ≤ levels then some a else none) :
    readList reader ((Json.array (as.map write)).readBack (levels + 1)) =
      if (Json.array (as.map write)).depth ≤ levels + 1 then some as else none := by
  have hitems : (readBackItems levels (as.map write)).mapM reader =
      if depthItems (as.map write) ≤ levels then some as else none := by
    induction as with
    | nil => rfl
    | cons a rest ih =>
      obtain ⟨ha, hrest⟩ := List.forall_mem_cons.1 h
      rw [List.map_cons, readBackItems, List.mapM_cons, ha, ih hrest]
      simp only [Option.bind_eq_bind, bind_guard, depthItems, Nat.max_le, ite_and]
      rfl
  simp only [readBack, Nat.add_one_ne_zero, if_false, Nat.add_sub_cancel, readList, hitems, depth,
    Nat.add_le_add_iff_right]

/-- A list is read back when each of its items is. -/
theorem readsBack_list {reader : Reader α} {write : α → Json} {as : List α}
    (h : ∀ a ∈ as, ReadsBack reader (write a) a) :
    ReadsBack (readList reader) (.array (as.map write)) as := by
  rintro (- | levels)
  · simp [readBack, readList, depth]
  · exact readList_readBack fun a ha => h a ha levels

theorem readsBack_strings (texts : List String) :
    ReadsBack (readList readString) (.array (texts.map .string)) texts :=
  readsBack_list fun s _ => readsBack_string s

/-! ### Records -/

/-- A record is read off an object exactly as far as its members are readable. -/
theorem readsBack_record {names : List String} {members : List (String × Json)} {a : α}
    {body : Members → Option α} (h : ∀ levels, body (readBackMembers levels members) =
      if depthMembers members ≤ levels then some a else none) :
    ReadsBack (fun j => (readRecord names j).bind body) (.object members) a := by
  rintro (- | levels)
  · simp [readBack, readRecord, depth]
  · simp only [readBack, Nat.add_one_ne_zero, if_false, Nat.add_sub_cancel, readRecord,
      Option.bind_some, h, depth, Nat.add_le_add_iff_right]

namespace Members

@[simp]
theorem named_nil (key : String) : named [] key = [] := rfl

@[simp]
theorem named_cons (m : String × Json) (members : Members) (key : String) :
    named (m :: members) key = if m.1 == key then m.2 :: named members key
      else named members key := by
  rw [named, named, List.filter_cons]
  split <;> rfl

/-- The members of a name are those of the front and then those of the back. -/
@[simp]
theorem named_append (members members' : Members) (key : String) :
    named (members ++ members') key = named members key ++ named members' key := by
  simp [named]

/-- Reading back keeps the names of the members. -/
theorem named_readBackMembers (levels : Nat) (members : Members) (key : String) :
    named (readBackMembers levels members) key = (named members key).map (readBack levels) := by
  rw [readBackMembers_eq_map, named, named, List.filter_map, List.map_map, List.map_map]
  rfl

/-- A member that has to be there is read as far as it is readable. -/
theorem required_readBack {members : Members} {reader : Reader α} {j : Json} {a : α} (key : String)
    (hnamed : named members key = [j]) (h : ReadsBack reader j a) (levels : Nat) :
    required (readBackMembers levels members) key reader =
      if j.depth ≤ levels then some a else none := by
  rw [required, named_readBackMembers, hnamed, List.map_singleton]
  exact h levels

end Members

end Schemata.Json
