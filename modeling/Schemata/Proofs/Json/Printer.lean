import Schemata.Proofs.Json.Token

/-!
# Printed values spell their tokens

Both forms of a value spell the tokens of the value: they differ in blanks only.
-/

namespace Schemata.Json

open Token Scanner

/-- A value whose numbers and strings have texts of their own. -/
def IsExact (j : Json) : Prop := ∀ t ∈ j.tokens, t.IsExact

section Exact

theorem mem_tokensOfItems {t : Token} {isFirst : Bool} {items : List Json}
    (h : t ∈ tokensOfItems isFirst items) : t = .comma ∨ ∃ j ∈ items, t ∈ j.tokens := by
  induction items generalizing isFirst with
  | nil => cases h
  | cons j rest ih =>
    rw [tokensOfItems, List.mem_append, List.mem_append] at h
    rcases h with (hcomma | hj) | hrest
    · cases isFirst with
      | true => cases hcomma
      | false => exact .inl (List.mem_singleton.1 hcomma)
    · exact .inr ⟨j, List.mem_cons_self, hj⟩
    · exact (ih hrest).imp_right fun ⟨j', hj', ht⟩ => ⟨j', List.mem_cons_of_mem j hj', ht⟩

theorem mem_tokensOfMembers {t : Token} {isFirst : Bool} {members : List (String × Json)}
    (h : t ∈ tokensOfMembers isFirst members) :
    t = .comma ∨ t = .colon ∨ (∃ key, t = .string key) ∨ ∃ m ∈ members, t ∈ m.2.tokens := by
  induction members generalizing isFirst with
  | nil => cases h
  | cons m rest ih =>
    obtain ⟨key, j⟩ := m
    rw [tokensOfMembers, List.mem_append, List.mem_append, List.mem_cons, List.mem_cons] at h
    rcases h with (hcomma | hkey | hcolon | hj) | hrest
    · cases isFirst with
      | true => cases hcomma
      | false => exact .inl (List.mem_singleton.1 hcomma)
    · exact .inr (.inr (.inl ⟨key, hkey⟩))
    · exact .inr (.inl hcolon)
    · exact .inr (.inr (.inr ⟨(key, j), List.mem_cons_self, hj⟩))
    · exact (ih hrest).imp_right fun h => h.imp_right fun h =>
        h.imp_right fun ⟨m', hm', ht⟩ => ⟨m', List.mem_cons_of_mem (key, j) hm', ht⟩

/-- An array is exact when its items are. -/
theorem isExact_array {items : List Json} (h : ∀ j ∈ items, j.IsExact) :
    (Json.array items).IsExact := by
  intro t ht
  rw [tokens, List.mem_append, List.mem_cons] at ht
  rcases ht with (rfl | hitems) | hclose
  · trivial
  · obtain rfl | ⟨j, hj, ht⟩ := mem_tokensOfItems hitems
    · trivial
    · exact h j hj t ht
  · rw [List.mem_singleton.1 hclose]
    trivial

/-- An object is exact when its members are. -/
theorem isExact_object {members : List (String × Json)} (h : ∀ m ∈ members, m.2.IsExact) :
    (Json.object members).IsExact := by
  intro t ht
  rw [tokens, List.mem_append, List.mem_cons] at ht
  rcases ht with (rfl | hmembers) | hclose
  · trivial
  · obtain rfl | rfl | ⟨key, rfl⟩ | ⟨m, hm, ht⟩ := mem_tokensOfMembers hmembers
    · trivial
    · trivial
    · trivial
    · exact h m hm t ht
  · rw [List.mem_singleton.1 hclose]
    trivial

theorem isExact_string (s : String) : (Json.string s).IsExact := by
  simp [IsExact, tokens, Token.IsExact]

theorem isExact_bool (b : Bool) : (Json.bool b).IsExact := by
  simp [IsExact, tokens, Token.IsExact]

theorem isExact_float {x : Binary64} (h : x.isFinite) : (Json.float x).IsExact := by
  simpa [IsExact, tokens, Token.IsExact] using h

/-- An integer is exact when a signed or an unsigned word holds it. -/
theorem isExact_int {i : Int} (h : holdsInt i) : (Json.int i).IsExact := by
  simpa [IsExact, tokens, Token.IsExact] using h

theorem isExact_int64 (i : Int64) : (Json.int i.toInt).IsExact := by
  refine isExact_int ?_
  have hlow := Int64.minValue_le_toInt i
  have hhigh := Int64.toInt_lt i
  have hsize : (2 : Int) ^ 63 < UInt64.size := by decide
  simp only [holdsInt, Bool.and_eq_true, decide_eq_true_eq]
  omega

theorem isExact_uint32 (n : UInt32) : (Json.int n.toNat).IsExact := by
  refine isExact_int ?_
  have hlow : Int64.minValue.toInt ≤ 0 := by decide
  have hhigh : n.toNat < 2 ^ 32 := n.toNat_lt
  have hsize : (2 : Int) ^ 32 < UInt64.size := by decide
  simp only [holdsInt, Bool.and_eq_true, decide_eq_true_eq]
  omega

end Exact

section Separators

variable {ts : List Token} {cs : List Char}

/-- A character of no number and no word ends the token before it. -/
theorem stops_cons {c : Char} (hnumeric : isNumeric c = false) (hlower : c.isLower = false) :
    Stops (c :: cs) := by
  rintro _ ⟨⟩
  exact ⟨hnumeric, hlower⟩

/-- A comma in front of all items and members but the first. -/
theorem spells_separator (isFirst : Bool) (h : Spells ts cs) :
    Spells ((if isFirst then [] else [.comma]) ++ ts) ((if isFirst then [] else [',']) ++ cs) := by
  cases isFirst with
  | true => exact h
  | false => exact .closed (t := .comma) trivial rfl h

theorem spells_key (key : String) (h : Spells ts cs) :
    Spells (.string key :: .colon :: ts) (stringText key ++ ':' :: cs) :=
  .closed (t := .string key) trivial rfl (.closed (t := .colon) trivial rfl h)

/-- Line breaks and indentation spell no token. -/
theorem spells_newLine (level : Nat) (h : Spells ts cs) : Spells ts (newLine level ++ cs) := by
  have hspaces : ∀ n, Spells ts (List.replicate n ' ' ++ cs) := fun n => by
    induction n with
    | zero => exact h
    | succ n ih => exact .blank rfl ih
  exact .blank rfl (hspaces _)

end Separators

/-! ## Without blanks -/

section Compact

variable {cs : List Char}

theorem stops_tokensOfItems (items : List Json) (hcs : Stops cs) :
    Stops ((tokensOfItems false items).flatMap Token.text ++ cs) := by
  cases items with
  | nil => exact hcs
  | cons j rest => exact stops_cons rfl rfl

theorem stops_tokensOfMembers (members : List (String × Json)) (hcs : Stops cs) :
    Stops ((tokensOfMembers false members).flatMap Token.text ++ cs) := by
  cases members with
  | nil => exact hcs
  | cons m rest => exact stops_cons rfl rfl

theorem flatMap_text_separator (isFirst : Bool) :
    (if isFirst then [] else [Token.comma]).flatMap Token.text = if isFirst then [] else [','] := by
  cases isFirst <;> rfl

mutual

/-- The compact text of an exact value spells its tokens. -/
theorem spells_tokens {ts : List Token} {cs : List Char} (j : Json) (hj : j.IsExact)
    (hcs : Stops cs)
    (h : Spells ts cs) : Spells (j.tokens ++ ts) (j.tokens.flatMap Token.text ++ cs) := by
  cases j with
  | null | unreadable | bool | int | float | string =>
    rw [tokens, List.flatMap_singleton, List.singleton_append]
    exact .token (hj _ (by simp [tokens])) (.inr hcs) h
  | array items =>
    rw [tokens, List.flatMap_append, List.append_assoc, List.append_assoc]
    exact .closed (t := .openBracket) trivial rfl
      (spells_tokensOfItems true items (fun t ht => hj t (by simp [tokens, ht]))
        (stops_cons rfl rfl)
        (.closed (t := .closeBracket) trivial rfl h))
  | object members =>
    rw [tokens, List.flatMap_append, List.append_assoc, List.append_assoc]
    exact .closed (t := .openBrace) trivial rfl
      (spells_tokensOfMembers true members (fun t ht => hj t (by simp [tokens, ht]))
        (stops_cons rfl rfl)
        (.closed (t := .closeBrace) trivial rfl h))

theorem spells_tokensOfItems {ts : List Token} {cs : List Char} (isFirst : Bool) (items : List Json)
    (hitems : ∀ t ∈ tokensOfItems isFirst items, t.IsExact) (hcs : Stops cs) (h : Spells ts cs) :
    Spells (tokensOfItems isFirst items ++ ts)
      ((tokensOfItems isFirst items).flatMap Token.text ++ cs) := by
  cases items with
  | nil => exact h
  | cons j rest =>
    have hrest :=
      spells_tokensOfItems false rest (fun t ht => hitems t (by simp [tokensOfItems, ht])) hcs h
    have hj := spells_tokens j (fun t ht => hitems t (by simp [tokensOfItems, ht]))
      (stops_tokensOfItems rest hcs) hrest
    simp only [tokensOfItems, List.append_assoc, List.flatMap_append, flatMap_text_separator]
    exact spells_separator isFirst hj

theorem spells_tokensOfMembers {ts : List Token} {cs : List Char} (isFirst : Bool)
    (members : List (String × Json)) (hmembers : ∀ t ∈ tokensOfMembers isFirst members, t.IsExact)
    (hcs : Stops cs) (h : Spells ts cs) :
    Spells (tokensOfMembers isFirst members ++ ts)
      ((tokensOfMembers isFirst members).flatMap Token.text ++ cs) := by
  cases members with
  | nil => exact h
  | cons m rest =>
    obtain ⟨key, j⟩ := m
    have hrest := spells_tokensOfMembers false rest
      (fun t ht => hmembers t (by simp [tokensOfMembers, ht])) hcs h
    have hj := spells_tokens j (fun t ht => hmembers t (by simp [tokensOfMembers, ht]))
      (stops_tokensOfMembers rest hcs) hrest
    simp only [tokensOfMembers, List.append_assoc, List.flatMap_append, List.flatMap_cons,
      List.cons_append, flatMap_text_separator]
    exact spells_separator isFirst (spells_key key hj)

end

/-- The form without blanks spells the tokens. -/
theorem spells_compact {j : Json} (hj : j.IsExact) : Spells j.tokens j.compact.toList := by
  have h := spells_tokens j hj (fun c hc => by cases hc) .nil
  rwa [List.append_nil, List.append_nil,
    ← String.toList_ofList (l := j.tokens.flatMap Token.text)] at h

end Compact

/-! ## Over several lines -/

section Pretty

theorem stops_linesOfItems {cs : List Char} (level : Nat) (items : List Json) (hcs : Stops cs) :
    Stops (linesOfItems level false items ++ cs) := by
  cases items with
  | nil => exact hcs
  | cons j rest => exact stops_cons rfl rfl

theorem stops_linesOfMembers {cs : List Char} (level : Nat) (members : List (String × Json))
    (hcs : Stops cs) : Stops (linesOfMembers level false members ++ cs) := by
  cases members with
  | nil => exact hcs
  | cons m rest => exact stops_cons rfl rfl

mutual

/-- The indented text spells the same tokens. -/
theorem spells_lines {ts : List Token} {cs : List Char} (level : Nat) (j : Json) (hj : j.IsExact)
    (hcs : Stops cs) (h : Spells ts cs) : Spells (j.tokens ++ ts) (lines level j ++ cs) := by
  cases j with
  | null | unreadable | bool | int | float | string =>
    rw [tokens, List.singleton_append, lines]
    exact .token (hj _ (by simp [tokens])) (.inr hcs) h
  | array items =>
    have hclose := Spells.closed (t := .closeBracket) trivial rfl h
    rcases items with - | ⟨item, rest⟩
    · exact .closed (t := .openBracket) trivial rfl hclose
    · have hitems := spells_linesOfItems (level + 1) true (item :: rest)
        (fun t ht => hj t (by simp [tokens, ht])) (stops_cons rfl rfl) (spells_newLine level hclose)
      simp only [tokens, lines, List.cons_append, List.append_assoc]
      exact .closed (t := .openBracket) trivial rfl hitems
  | object members =>
    have hclose := Spells.closed (t := .closeBrace) trivial rfl h
    rcases members with - | ⟨member, rest⟩
    · exact .closed (t := .openBrace) trivial rfl hclose
    · have hmembers := spells_linesOfMembers (level + 1) true (member :: rest)
        (fun t ht => hj t (by simp [tokens, ht])) (stops_cons rfl rfl) (spells_newLine level hclose)
      simp only [tokens, lines, List.cons_append, List.append_assoc]
      exact .closed (t := .openBrace) trivial rfl hmembers

theorem spells_linesOfItems {ts : List Token} {cs : List Char} (level : Nat) (isFirst : Bool)
    (items : List Json) (hitems : ∀ t ∈ tokensOfItems isFirst items, t.IsExact) (hcs : Stops cs)
    (h : Spells ts cs) :
    Spells (tokensOfItems isFirst items ++ ts) (linesOfItems level isFirst items ++ cs) := by
  cases items with
  | nil => exact h
  | cons j rest =>
    have hrest := spells_linesOfItems level false rest
      (fun t ht => hitems t (by simp [tokensOfItems, ht])) hcs h
    have hj := spells_lines level j (fun t ht => hitems t (by simp [tokensOfItems, ht]))
      (stops_linesOfItems level rest hcs) hrest
    simp only [tokensOfItems, linesOfItems, List.append_assoc]
    exact spells_separator isFirst (spells_newLine level hj)

theorem spells_linesOfMembers {ts : List Token} {cs : List Char} (level : Nat) (isFirst : Bool)
    (members : List (String × Json)) (hmembers : ∀ t ∈ tokensOfMembers isFirst members, t.IsExact)
    (hcs : Stops cs) (h : Spells ts cs) :
    Spells (tokensOfMembers isFirst members ++ ts)
      (linesOfMembers level isFirst members ++ cs) := by
  cases members with
  | nil => exact h
  | cons m rest =>
    obtain ⟨key, j⟩ := m
    have hrest := spells_linesOfMembers level false rest
      (fun t ht => hmembers t (by simp [tokensOfMembers, ht])) hcs h
    have hj := spells_lines level j (fun t ht => hmembers t (by simp [tokensOfMembers, ht]))
      (stops_linesOfMembers level rest hcs) hrest
    simp only [tokensOfMembers, linesOfMembers, List.append_assoc, List.cons_append]
    exact spells_separator isFirst (spells_newLine level (spells_key key (.blank rfl hj)))

end

/-- The form over several lines spells the tokens. -/
theorem spells_pretty {j : Json} (hj : j.IsExact) : Spells j.tokens j.pretty.toList := by
  have h := spells_lines 0 j hj (fun c hc => by cases hc) .nil
  rwa [List.append_nil, List.append_nil, ← String.toList_ofList (l := lines 0 j)] at h

end Pretty

/-! ## Lengths of texts -/

theorem length_escapeChar_le (c : Char) : (escapeChar c).length ≤ 6 := by
  unfold escapeChar
  repeat' split
  all_goals simp [Hex.padded]

/-- Quoting makes a text at most six times as long. -/
theorem length_stringText_le (s : String) : (stringText s).length ≤ 6 * s.length + 2 := by
  have hchars := length_flatMap_le length_escapeChar_le s.toList
  rw [String.length_toList] at hchars
  rw [stringText]
  simp only [List.length_append, List.length_cons, List.length_nil]
  omega

end Schemata.Json
