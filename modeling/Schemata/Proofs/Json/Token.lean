import Schemata.Json.Printer
import Schemata.Proofs.Data.Bytes
import Schemata.Proofs.Json.Number

/-!
# Tokens are scanned from their texts

A text that spells some tokens is cut into these tokens. The scanner finishes a number or a word
when it sees what follows, so that no character of a number and no letter may come right behind one.
-/

namespace Schemata.Json

namespace Scanner

variable {s r : Scanner} {c : Char} {cs rest : List Char} {symbols : List (Option Char)}

/-- A character that completes no token only changes the state of the scanner. -/
theorem scan_of_step (h : s.stepChar c = some ([], r)) :
    s.scan (some c :: symbols) = r.scan symbols := by
  simp [scan, step, h]

theorem scan_of_start {t : Token} (h : start c = some ([t], .outside)) :
    outside.scan (some c :: symbols) = (outside.scan symbols).map (t :: ·) := by
  simp only [scan, step, stepChar, h, Option.bind_eq_bind, Option.bind_some]
  cases outside.scan symbols <;> rfl

/-! ## Strings -/

/-- Four digits are read as a code unit. -/
theorem scan_padded {read : List Piece} {n : Nat} (hn : n < 65536) :
    (inUnit read 0 0).scan ((Hex.padded 4 n).map some ++ symbols) =
      (inString (Piece.ofUnit n :: read)).scan symbols := by
  have hdigits : (Hex.padded 4 n).map some = [some (Hex.digit (n / 16 / 16 / 16 % 16)),
      some (Hex.digit (n / 16 / 16 % 16)), some (Hex.digit (n / 16 % 16)),
      some (Hex.digit (n % 16))] := rfl
  have hvalue (k : Nat) : Hex.digitValue? (Hex.digit (k % 16)) = some (k % 16) :=
    Hex.digitValue?_digit _ (Nat.mod_lt k (by decide))
  have hmore {digits u k : Nat} (h : digits < 3) :
      (inUnit read digits u).stepChar (Hex.digit (k % 16)) =
        some ([], .inUnit read (digits + 1) (16 * u + k % 16)) := by
    simp [stepChar, hvalue, h]
  have hlast {u k : Nat} : (inUnit read 3 u).stepChar (Hex.digit (k % 16)) =
      some ([], .inString (Piece.ofUnit (16 * u + k % 16) :: read)) := by
    simp [stepChar, hvalue]
  have hunit :
      16 * (16 * (16 * (16 * 0 + n / 16 / 16 / 16 % 16) + n / 16 / 16 % 16) + n / 16 % 16) +
      n % 16 = n := by
    omega
  rw [hdigits]
  simp only [List.cons_append, List.nil_append]
  rw [scan_of_step (hmore (by decide)), scan_of_step (hmore (by decide)),
    scan_of_step (hmore (by decide)), scan_of_step hlast, hunit]

/-- An escaped character is read as this character. -/
theorem scan_escapeChar (read : List Piece) (c : Char) :
    (inString read).scan ((escapeChar c).map some ++ symbols) =
      (inString (.char c :: read)).scan symbols := by
  have hshort {d : Char} (hu : d ≠ 'u') (hd : unescape? d = some c) :
      (inString read).scan (some '\\' :: some d :: symbols) =
        (inString (.char c :: read)).scan symbols := by
    rw [scan_of_step (r := .escaped read) rfl, scan_of_step]
    simp [stepChar, hu, hd]
  rw [escapeChar]
  split_ifs with hquote hbackslash hb hf hn hr ht hcontrol
  · exact hshort (by decide) (congrArg some hquote.symm)
  · exact hshort (by decide) (congrArg some hbackslash.symm)
  · exact hshort (by decide) (congrArg some hb.symm)
  · exact hshort (by decide) (congrArg some hf.symm)
  · exact hshort (by decide) (congrArg some hn.symm)
  · exact hshort (by decide) (congrArg some hr.symm)
  · exact hshort (by decide) (congrArg some ht.symm)
  · have hlt : c.toNat < 32 := hcontrol
    have hunit : Piece.ofUnit c.toNat = .char c := by
      have hleading : ¬0xD800 ≤ c.toNat := by omega
      have htrailing : ¬0xDC00 ≤ c.toNat := by omega
      simp [Piece.ofUnit, Piece.isLeading, Piece.isTrailing, hleading, htrailing]
    rw [List.map_cons, List.map_cons, List.cons_append, List.cons_append,
      scan_of_step (r := .escaped read) rfl, scan_of_step (r := .inUnit read 0 0) rfl,
      scan_padded (by omega), hunit]
  · exact scan_of_step (by simp [stepChar, hquote, hbackslash, hcontrol])

/-- Characters without a surrogate join to themselves. -/
theorem join?_map_char (cs : List Char) : Piece.join? (cs.map .char) = some cs := by
  induction cs with
  | nil => rfl
  | cons c cs ih => rw [List.map_cons, Piece.join?, ih, Option.map_some]

/-- A string is read up to its second quote. -/
theorem scan_inString (read : List Piece) (cs : List Char) :
    (inString read).scan ((cs.flatMap escapeChar).map some ++ some '"' :: symbols) =
      (outside.scan symbols).map (Piece.token (read.reverse ++ cs.map .char) :: ·) := by
  induction cs generalizing read with
  | nil =>
    simp only [List.flatMap_nil, List.nil_append, List.map_nil, List.append_nil]
    simp only [scan, step, stepChar, if_true, Option.bind_eq_bind, Option.bind_some]
    cases outside.scan symbols <;> rfl
  | cons c cs ih =>
    rw [List.flatMap_cons, List.map_append, List.append_assoc, scan_escapeChar, ih]
    simp

/-- Scanning a quoted text gives the token of that text. -/
theorem scan_stringText (text : String) :
    outside.scan ((stringText text).map some ++ symbols) =
      (outside.scan symbols).map (.string text :: ·) := by
  have htoken : Piece.token (text.toList.map .char) = .string text := by
    rw [Piece.token, join?_map_char, Option.map_some, Option.getD_some, String.ofList_toList]
  have hsymbols : (stringText text).map some ++ symbols =
      some '"' :: ((text.toList.flatMap escapeChar).map some ++ some '"' :: symbols) := by
    simp [stringText]
  rw [hsymbols, scan_of_step (r := .inString []) rfl, scan_inString, List.reverse_nil,
    List.nil_append, htoken]

/-! ## Numbers and words -/

/-- What may come right behind a number or a word. -/
def Stops (rest : List Char) : Prop :=
  ∀ c, rest.head? = some c → isNumeric c = false ∧ c.isLower = false

/-- Characters that a scanner keeps are behind what it has read. -/
theorem scan_of_keep {within : List Char → Scanner}
    (h : ∀ c ∈ cs, ∀ read, (within read).stepChar c = some ([], within (c :: read)))
    (read : List Char) :
    (within read).scan (cs.map some ++ symbols) = (within (cs.reverse ++ read)).scan symbols := by
  induction cs generalizing read with
  | nil => rfl
  | cons c cs ih =>
    obtain ⟨hc, hcs⟩ := List.forall_mem_cons.1 h
    rw [List.map_cons, List.cons_append, scan_of_step (hc read), ih hcs, List.reverse_cons,
      List.append_assoc, List.singleton_append]

/-- A token that ends where the next one starts. -/
theorem scan_of_stop {t : Token} (hfinish : s.finish = some [t])
    (hstep : ∀ c, rest.head? = some c → s.stepChar c = (start c).map fun p => (t :: p.1, p.2)) :
    s.scan (rest.map some) = (outside.scan (rest.map some)).map (t :: ·) := by
  cases rest with
  | nil => exact hfinish
  | cons c rest =>
    rw [List.map_cons, scan, scan, step, step, hstep c rfl, stepChar]
    simp only [Option.bind_eq_bind]
    cases start c with
    | none => rfl
    | some p =>
      simp only [Option.map_some, Option.bind_some]
      cases p.2.scan (rest.map some) <;> rfl

/-- A word is read up to what stops it. -/
theorem scan_word {t : Token} (hc : outside.stepChar c = some ([], .inWord [c]))
    (hcs : ∀ d ∈ cs, d.isLower) (ht : word? (cs.reverse ++ [c]) = some t) (hrest : Stops rest) :
    outside.scan ((c :: cs).map some ++ rest.map some) =
      (outside.scan (rest.map some)).map (t :: ·) := by
  have hkeep : ∀ d ∈ cs, ∀ read, (inWord read).stepChar d = some ([], .inWord (d :: read)) :=
    fun d hd read => by rw [stepChar, if_pos (hcs d hd)]
  rw [List.map_cons, List.cons_append, scan_of_step hc, scan_of_keep hkeep]
  refine scan_of_stop (by rw [finish, ht, Option.map_some]) fun d hd => ?_
  rw [stepChar, if_neg (by simp [(hrest d hd).2]), ht]
  cases start d <;> rfl

theorem isNumeric_of_isDigit (h : c.isDigit) : isNumeric c := by
  simp [isNumeric, h]

/-- A number is made of numeric characters. -/
theorem isNumeric_of_mem_text {l : NumberText} (h : l.IsProper) (hc : c ∈ l.text) :
    isNumeric c := by
  rw [NumberText.text, List.mem_append, List.mem_append, List.mem_append] at hc
  rcases hc with hsign | hwhole | hfraction | hexponent
  · rw [NumberText.signText] at hsign
    split at hsign
    · rw [List.mem_singleton.1 hsign]
      rfl
    · cases hsign
  · exact isNumeric_of_isDigit (h.whole.2 c hwhole)
  · rcases hl : l.fraction with - | ds
    · rw [hl] at hfraction
      cases hfraction
    · rw [hl, NumberText.fractionText, List.mem_cons] at hfraction
      rcases hfraction with rfl | hds
      · rfl
      · exact isNumeric_of_isDigit ((h.fraction ds hl).2 c hds)
  · rcases hl : l.exponent with - | ⟨negative, ds⟩
    · rw [hl] at hexponent
      cases hexponent
    · rw [hl, NumberText.exponentText, List.mem_cons, List.mem_cons] at hexponent
      rcases hexponent with rfl | rfl | hds
      · rfl
      · cases negative <;> rfl
      · exact isNumeric_of_isDigit ((h.exponent negative ds hl).2 c hds)

theorem stepChar_of_isDigit (h : c = '-' ∨ c.isDigit) :
    outside.stepChar c = some ([], .inNumber [c]) := by
  have hother : ∀ d ∈ [' ', '\t', '\n', '\r', '\x7b', '\x7d', '[', ']', ':', ',', '"'],
      ¬(d = '-' ∨ d.isDigit) := by simp
  have hne : ∀ d ∈ [' ', '\t', '\n', '\r', '\x7b', '\x7d', '[', ']', ':', ',', '"'], c ≠ d := by
    rintro d hd rfl
    exact hother c hd h
  simp only [List.forall_mem_cons] at hne
  simp [stepChar, start, isBlank, hne, h]

/-- A number is read up to what stops it. -/
theorem scan_numberText {l : NumberText} (h : l.IsProper) (hrest : Stops rest) :
    outside.scan (l.text.map some ++ rest.map some) =
      (outside.scan (rest.map some)).map (l.token :: ·) := by
  obtain ⟨c, cs, htext, hc⟩ : ∃ c cs, l.text = c :: cs ∧ (c = '-' ∨ c.isDigit) := by
    obtain ⟨d, ds, hwhole⟩ := List.exists_cons_of_ne_nil h.whole.1
    rw [NumberText.text, hwhole, NumberText.signText]
    split
    · exact ⟨_, _, rfl, .inl rfl⟩
    · exact ⟨_, _, rfl, .inr (h.whole.2 d (by rw [hwhole]; exact List.mem_cons_self))⟩
  have hkeep : ∀ d ∈ cs, ∀ read, (inNumber read).stepChar d = some ([], .inNumber (d :: read)) :=
    fun d hd read => by
      have hnumeric := isNumeric_of_mem_text h (htext ▸ List.mem_cons_of_mem c hd)
      rw [stepChar, if_pos hnumeric]
  have hnumber : number? (cs.reverse ++ [c]) = some l.token := by
    rw [number?, List.reverse_append, List.reverse_reverse, List.reverse_singleton,
      List.singleton_append, ← htext, NumberText.ofText?_text h, Option.map_some]
  rw [htext, List.map_cons, List.cons_append, scan_of_step (stepChar_of_isDigit hc),
    scan_of_keep hkeep]
  refine scan_of_stop (by rw [finish, hnumber, Option.map_some]) fun d hd => ?_
  rw [stepChar, if_neg (by simp [(hrest d hd).1]), hnumber]
  cases start d <;> rfl

end Scanner

/-! ## Texts that spell tokens -/

namespace Token

/-- A token that its text tells apart from all others. -/
def IsExact : Token → Prop
  | .int i => holdsInt i
  | .float x => x.isFinite
  | .overflow | .garbled => False
  | _ => True

/-- Whether a token ends at its own last character, whatever comes behind it. -/
def isClosed : Token → Bool
  | .null | .bool _ | .int _ | .float _ | .overflow => false
  | _ => true

/-- Blanks and tokens, with a character that ends each number and each word right behind it. -/
inductive Spells : List Token → List Char → Prop
  | nil : Spells [] []
  | blank {ts c cs} (hc : Scanner.isBlank c) (h : Spells ts cs) : Spells ts (c :: cs)
  | token {t ts cs} (ht : t.IsExact) (hcs : t.isClosed ∨ Scanner.Stops cs) (h : Spells ts cs) :
      Spells (t :: ts) (t.text ++ cs)

/-- A token that ends by itself may stand in front of anything. -/
theorem Spells.closed {t : Token} {ts : List Token} {cs : List Char} (ht : t.IsExact)
    (hclosed : t.isClosed) (h : Spells ts cs) : Spells (t :: ts) (t.text ++ cs) :=
  .token ht (.inl hclosed) h

/-- An exact token is read from its text. -/
theorem scan_text {t : Token} {rest : List Char} (ht : t.IsExact)
    (hrest : t.isClosed ∨ Scanner.Stops rest) :
    Scanner.outside.scan (t.text.map some ++ rest.map some) =
      (Scanner.outside.scan (rest.map some)).map (t :: ·) := by
  cases t with
  | openBrace | closeBrace | openBracket | closeBracket | colon | comma =>
    exact Scanner.scan_of_start rfl
  | null =>
    have hstops := hrest.resolve_left (by decide)
    exact Scanner.scan_word rfl (by simp) rfl hstops
  | bool b =>
    have hstops := hrest.resolve_left (by simp [isClosed])
    cases b
    · exact Scanner.scan_word rfl (by simp) rfl hstops
    · exact Scanner.scan_word rfl (by simp) rfl hstops
  | int i =>
    have hstops := hrest.resolve_left (by simp [isClosed])
    rw [text, ← NumberText.text_ofInt, Scanner.scan_numberText (NumberText.isProper_ofInt i) hstops,
      NumberText.token_ofInt ht]
  | float x =>
    have hstops := hrest.resolve_left (by simp [isClosed])
    rw [text, if_pos (show x.isFinite from ht), ← NumberText.text_ofFloat,
      Scanner.scan_numberText (NumberText.isProper_ofFloat ht) hstops, NumberText.token_ofFloat ht]
  | string s => exact Scanner.scan_stringText s
  | overflow | garbled => exact ht.elim

/-- A text is cut into the tokens that it spells. -/
theorem scan_of_spells {ts : List Token} {cs : List Char} (h : Spells ts cs) :
    scan (cs.map some) = some ts := by
  induction h with
  | nil => rfl
  | blank hc _ ih =>
    rw [scan, List.map_cons,
      Scanner.scan_of_step (by rw [Scanner.stepChar, Scanner.start, if_pos hc])]
    exact ih
  | token ht hcs _ ih =>
    rw [scan, List.map_append, scan_text ht hcs]
    exact congrArg (Option.map _) ih

end Token

end Schemata.Json
