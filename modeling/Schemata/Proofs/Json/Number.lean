import Schemata.Json.Token
import Schemata.Proofs.Number

/-!
# Numbers in JSON texts are read back

A number falls into its parts in one way. Integers in bounds and finite double-precision numbers
therefore come back from the texts that they are written as.
-/

namespace Schemata.Json

namespace NumberText

variable {l : NumberText}

def IsDigits (ds : List Char) : Prop := ds ≠ [] ∧ ∀ c ∈ ds, c.isDigit

/-- The parts of a number as JSON has them. -/
structure IsProper (l : NumberText) : Prop where
  whole : IsDigits l.whole
  noLeadingZero : l.whole.head? = some '0' → l.whole = ['0']
  fraction : ∀ ds, l.fraction = some ds → IsDigits ds
  exponent : ∀ negative ds, l.exponent = some (negative, ds) → IsDigits ds

def signText (negative : Bool) : List Char := if negative then ['-'] else []

def fractionText : Option (List Char) → List Char
  | none => []
  | some ds => '.' :: ds

def exponentText : Option (Bool × List Char) → List Char
  | none => []
  | some (negative, ds) => 'e' :: (if negative then '-' else '+') :: ds

def text (l : NumberText) : List Char :=
  signText l.negative ++ (l.whole ++ (fractionText l.fraction ++ exponentText l.exponent))

/-! ## Numbers fall into their parts -/

theorem takeWhile_digits {ds rest : List Char} (hds : ∀ c ∈ ds, c.isDigit)
    (hrest : ∀ c, rest.head? = some c → c.isDigit = false) :
    (ds ++ rest).takeWhile Char.isDigit = ds ∧ (ds ++ rest).dropWhile Char.isDigit = rest := by
  rw [List.takeWhile_append_of_pos hds, List.dropWhile_append_of_pos hds]
  cases rest with
  | nil => simp
  | cons c rest => simp [hrest c rfl]

theorem readExponent_exponentText
    (h : ∀ negative ds, l.exponent = some (negative, ds) → IsDigits ds) :
    readExponent (exponentText l.exponent) = some l.exponent := by
  rcases he : l.exponent with - | ⟨negative, ds⟩
  · rfl
  · obtain ⟨hne, hdigits⟩ := h negative ds he
    have hall : ds.all Char.isDigit := List.all_eq_true.2 hdigits
    cases negative <;> simp [exponentText, readExponent, hne, hall]

theorem head?_exponentText {e : Option (Bool × List Char)} {c : Char}
    (h : (exponentText e).head? = some c) : c = 'e' := by
  rcases e with - | ⟨negative, ds⟩
  · cases h
  · exact (Option.some.inj h).symm

/-- A minus sign is told apart from the number behind it. -/
theorem ofText?_minus {cs : List Char} (h : cs.head? ≠ some '-') :
    ofText? ('-' :: cs) = (ofText? cs).map fun l => { l with negative := true } := by
  have hplain : ∀ rest, cs = '-' :: rest → False := by
    rintro rest rfl
    exact h rfl
  rw [ofText?.eq_1, ofText?.eq_2 cs hplain]
  dsimp only
  split
  · rfl
  · split
    · split
      · rfl
      · cases readExponent _ <;> rfl
    · cases readExponent _ <;> rfl

/-- A number starts with a digit behind its sign. -/
theorem IsProper.head?_ne_minus (h : l.IsProper) (rest : List Char) :
    (l.whole ++ rest).head? ≠ some '-' := by
  obtain ⟨d, ds, hwhole⟩ := List.exists_cons_of_ne_nil h.whole.1
  rw [hwhole]
  intro hd
  obtain rfl := Option.some.inj hd
  exact absurd (h.whole.2 '-' (by rw [hwhole]; exact List.mem_cons_self)) (by decide)

/-- A number without a sign is read as the parts that it is made of. -/
theorem ofText?_unsigned (h : l.IsProper) :
    ofText? (l.whole ++ (fractionText l.fraction ++ exponentText l.exponent)) =
      some { l with negative := false } := by
  have hplain : ∀ rest, l.whole ++ (fractionText l.fraction ++ exponentText l.exponent) =
      '-' :: rest → False := fun rest hrest => h.head?_ne_minus _ (by rw [hrest]; rfl)
  have hexponent := readExponent_exponentText h.exponent
  have hnotDigit : ∀ c, (exponentText l.exponent).head? = some c → c.isDigit = false := by
    intro c hc
    rw [head?_exponentText hc]
    rfl
  have hwhole : ¬(l.whole = [] ∨ l.whole.head? = some '0' ∧ l.whole ≠ ['0']) := by
    rintro (hnil | ⟨hhead, hlong⟩)
    · exact h.whole.1 hnil
    · exact hlong (h.noLeadingZero hhead)
  rw [ofText?.eq_2 _ hplain]
  cases hfraction : l.fraction with
  | none =>
    obtain ⟨htake, hdrop⟩ := takeWhile_digits h.whole.2 hnotDigit
    simp only [fractionText, List.nil_append, htake, hdrop, if_neg hwhole]
    split
    · next hpoint => exact absurd (head?_exponentText (congrArg List.head? hpoint)) (by decide)
    · rw [hexponent]
      rfl
  | some ds =>
    obtain ⟨hds, hdigits⟩ := h.fraction ds hfraction
    have hpoint : ∀ c, ('.' :: (ds ++ exponentText l.exponent)).head? = some c →
        c.isDigit = false := by
      rintro c ⟨⟩
      rfl
    obtain ⟨htake, hdrop⟩ := takeWhile_digits h.whole.2 hpoint
    obtain ⟨htake', hdrop'⟩ := takeWhile_digits hdigits hnotDigit
    simp only [fractionText, List.cons_append, htake, hdrop, if_neg hwhole, htake',
      hdrop', if_neg hds, hexponent]
    rfl

/-- A number is read as the parts that it is made of. -/
theorem ofText?_text (h : l.IsProper) : ofText? l.text = some l := by
  have hunsigned := ofText?_unsigned h
  rw [text]
  cases hsign : l.negative with
  | false =>
    refine hunsigned.trans ?_
    rw [← hsign]
  | true =>
    refine (ofText?_minus (h.head?_ne_minus _)).trans ?_
    rw [hunsigned, ← hsign]
    rfl

/-! ## Integers -/

theorem isDigits_digits (n : Nat) : IsDigits (Numeral.digits n) :=
  ⟨Numeral.digits_ne_nil n, fun _ hc => Numeral.isDigit_of_mem_digits hc⟩

theorem isDigits_zero : IsDigits ['0'] := isDigits_digits 0

def ofInt (i : Int) : NumberText := ⟨i < 0, Numeral.digits i.natAbs, none, none⟩

/-- The numeral of an integer follows the grammar of numbers. -/
theorem isProper_ofInt (i : Int) : (ofInt i).IsProper where
  whole := isDigits_digits _
  noLeadingZero := by
    intro hzero
    by_cases hi : i.natAbs = 0
    · rw [ofInt, hi]
      rfl
    · exact absurd hzero (Numeral.head?_digits_ne_zero hi)
  fraction := by rintro ds ⟨⟩
  exponent := by rintro negative ds ⟨⟩

theorem text_ofInt (i : Int) : (ofInt i).text = Numeral.ofInt i := by
  cases i <;> simp [text, ofInt, signText, fractionText, exponentText, Numeral.ofInt]

/-- An integer in bounds is read as this integer. -/
theorem token_ofInt {i : Int} (h : holdsInt i) : (ofInt i).token = .int i := by
  have hinteger : (if i < 0 then -(i.natAbs : Int) else i.natAbs) = i := by
    split <;> omega
  have hnotZero : ¬(i < 0 ∧ i.natAbs = 0) := by
    omega
  simp only [token, ofInt, Option.getD_none, List.append_nil, Numeral.value_digits,
    decide_eq_true_eq, hinteger]
  rw [if_pos ⟨rfl, rfl, h, hnotZero⟩]

/-! ## Double-precision numbers -/

/-- The power of ten that an exponent stands for. -/
def scale (l : NumberText) : Int :=
  match l.exponent with
  | none => 0
  | some (true, ds) => -Numeral.value ds
  | some (false, ds) => Numeral.value ds

/-- A number with a point or an exponent is read as the nearest double-precision number. -/
theorem token_eq_float {x : Binary64} (h : l.fraction.isSome ∨ l.exponent.isSome)
    (hx : Binary64.ofDecimal? l.negative (Numeral.value (l.whole ++ l.fraction.getD []))
      (l.scale - (l.fraction.getD []).length) = some x) : l.token = .float x := by
  obtain ⟨negative, whole, fraction, exponent⟩ := l
  have hpoint : ¬(fraction.isNone ∧ exponent.isNone ∧
      holdsInt (if negative then -Numeral.value (whole ++ fraction.getD [])
        else Numeral.value (whole ++ fraction.getD [])) ∧
      ¬(negative ∧ Numeral.value (whole ++ fraction.getD []) = 0)) := by
    rintro ⟨hfraction, hexponent, -⟩
    simp_all
  simp only [token, if_neg hpoint]
  rcases exponent with - | ⟨_ | _, ds⟩ <;> simp_all [scale]

def positional (negative : Bool) (ds : List Char) (lead : Int) : NumberText :=
  if lead < 0 then ⟨negative, ['0'], some (Number.zeros (-lead - 1).toNat ++ ds), none⟩
  else
    let n := lead.toNat + 1
    ⟨negative, ds.take n ++ Number.zeros (n - ds.length),
      some (if ds.drop n = [] then ['0'] else ds.drop n), none⟩

def scientific (negative : Bool) (ds : List Char) (lead : Int) : NumberText :=
  ⟨negative, ds.take 1, if ds.drop 1 = [] then none else some (ds.drop 1),
    some (lead < 0, Numeral.digits lead.natAbs)⟩

def ofFloat (x : Binary64) : NumberText :=
  if x.code = 0 then ⟨x.isNegative, ['0'], some ['0'], none⟩
  else
    let d := Decimal.shortest .toEven x.code
    let ds := Numeral.digits d.coefficient
    let lead := d.exponent + ds.length - 1
    if -5 ≤ lead ∧ lead < 16 then positional x.isNegative ds lead
    else scientific x.isNegative ds lead

section Notation

variable {negative : Bool} {ds : List Char} {lead : Int}

theorem text_positional :
    (positional negative ds lead).text = signText negative ++ Number.positional ds lead := by
  simp only [positional, Number.positional]
  split
  · simp [text, fractionText, exponentText]
  · simp [text, fractionText, exponentText]

theorem text_scientific :
    (scientific negative ds lead).text = signText negative ++ Number.scientific true ds lead := by
  have hfraction : fractionText (if ds.drop 1 = [] then none else some (ds.drop 1)) =
      if ds.drop 1 = [] then [] else '.' :: ds.drop 1 := by
    split <;> rfl
  have hexponent : exponentText (some (decide (lead < 0), Numeral.digits lead.natAbs)) =
      'e' :: ((if true && decide (0 ≤ lead) then ['+'] else []) ++ Numeral.ofInt lead) := by
    cases lead with
    | ofNat n => simp [exponentText, Numeral.ofInt]
    | negSucc n =>
      have hsign : Int.negSucc n < 0 := by simp
      simp [exponentText, Numeral.ofInt, Int.not_le.2 hsign, hsign]
  rw [text, scientific, hfraction, hexponent, Number.scientific]
  simp only [List.append_assoc, List.cons_append]

theorem isDigit_of_mem_zeros {n : Nat} {c : Char} (h : c ∈ Number.zeros n) : c.isDigit := by
  rw [List.eq_of_mem_replicate h]
  rfl

/-- Digits that do not begin with zero give a proper numeral in positional form. -/
theorem isProper_positional (hds : IsDigits ds) (hhead : ds.head? ≠ some '0') :
    (positional negative ds lead).IsProper := by
  obtain ⟨hne, hdigits⟩ := hds
  rw [positional]
  split
  · refine ⟨isDigits_zero, fun _ => rfl, ?_, by rintro _ _ ⟨⟩⟩
    rintro _ ⟨⟩
    refine ⟨by simp [hne], fun c hc => ?_⟩
    rcases List.mem_append.1 hc with hc | hc
    · exact isDigit_of_mem_zeros hc
    · exact hdigits c hc
  · have htake : ds.take (lead.toNat + 1) ≠ [] := by simp [hne]
    refine ⟨⟨by simp [hne], fun c hc => ?_⟩, fun hzero => absurd ?_ hhead, ?_, by rintro _ _ ⟨⟩⟩
    · rcases List.mem_append.1 hc with hc | hc
      · exact hdigits c (List.mem_of_mem_take hc)
      · exact isDigit_of_mem_zeros hc
    · dsimp only at hzero
      rwa [List.head?_append_of_ne_nil _ htake, List.head?_take, if_neg (by omega)] at hzero
    · rintro _ ⟨⟩
      split
      · exact isDigits_zero
      · next hdrop => exact ⟨hdrop, fun c hc => hdigits c (List.mem_of_mem_drop hc)⟩

/-- Digits that do not begin with zero give a proper numeral in scientific form. -/
theorem isProper_scientific (hds : IsDigits ds) (hhead : ds.head? ≠ some '0') :
    (scientific negative ds lead).IsProper where
  whole := ⟨by simp [scientific, hds.1], fun c hc => hds.2 c (List.mem_of_mem_take hc)⟩
  noLeadingZero hzero := absurd (by simpa [scientific, List.head?_take] using hzero) hhead
  fraction ds' h := by
    by_cases hdrop : ds.drop 1 = []
    · rw [scientific, if_pos hdrop] at h
      cases h
    · rw [scientific, if_neg hdrop] at h
      obtain rfl := Option.some.inj h
      exact ⟨hdrop, fun c hc => hds.2 c (List.mem_of_mem_drop hc)⟩
  exponent _ _ h := by
    cases h
    exact isDigits_digits _

/-- Positional notation does not change the number. -/
theorem token_positional {m : Nat} {e : Int} {x : Binary64} (hm : m ≠ 0)
    (hlead : e + (Numeral.digits m).length - 1 = lead) (hlt : lead < 16)
    (hx : Binary64.ofDecimal? negative m e = some x) :
    (positional negative (Numeral.digits m) lead).token = .float x := by
  generalize hds : Numeral.digits m = ds at *
  have hvalue : Numeral.value ds = m := by rw [← hds, Numeral.value_digits]
  have hlength : ds.length ≠ 0 := by simp [← hds, Numeral.digits_ne_nil]
  rw [positional]
  split
  · refine token_eq_float (.inl rfl) ?_
    have hzeros : Numeral.value (['0'] ++ (Number.zeros (-lead - 1).toNat ++ ds)) = m := by
      rw [show ['0'] = List.replicate 1 '0' from rfl, Numeral.value_zeros_append, Number.zeros,
        Numeral.value_zeros_append, hvalue]
    have hscale : (0 : Int) - (Number.zeros (-lead - 1).toNat ++ ds).length = e := by
      simp only [List.length_append, Number.zeros, List.length_replicate]
      omega
    simp only [Option.getD_some, hzeros, scale, hscale, hx]
  · refine token_eq_float (.inl rfl) ?_
    simp only [Option.getD_some, scale]
    split
    · next hdrop =>
      -- All digits stand before the point, with zeros up to it.
      obtain ⟨k, rfl⟩ : ∃ k : Nat, e = k :=
        ⟨e.toNat, by have := List.drop_eq_nil_iff.1 hdrop; omega⟩
      have htake : ds.take (lead.toNat + 1) = ds :=
        List.take_of_length_le (List.drop_eq_nil_iff.1 hdrop)
      have hzeros : Number.zeros (lead.toNat + 1 - ds.length) ++ ['0'] =
          List.replicate (k + 1) '0' := by
        rw [Number.zeros, ← List.replicate_succ', show lead.toNat + 1 - ds.length = k by omega]
      rw [htake, List.append_assoc, hzeros, Numeral.value_append_zeros, hvalue]
      exact (Binary64.ofDecimal?_mul_ten hm (by omega)).trans hx
    · next hdrop =>
      have hlong : lead.toNat + 1 < ds.length := by
        rwa [List.drop_eq_nil_iff, Nat.not_le] at hdrop
      have hzeros : Number.zeros (lead.toNat + 1 - ds.length) = [] := by
        rw [Nat.sub_eq_zero_of_le hlong.le, Number.zeros, List.replicate_zero]
      have hscale : (0 : Int) - (ds.drop (lead.toNat + 1)).length = e := by
        rw [List.length_drop]
        omega
      rw [hzeros, List.append_nil, List.take_append_drop, hvalue, hscale, hx]

/-- An exponent does not change the number. -/
theorem token_scientific {m : Nat} {e : Int} {x : Binary64}
    (hlead : e + (Numeral.digits m).length - 1 = lead)
    (hx : Binary64.ofDecimal? negative m e = some x) :
    (scientific negative (Numeral.digits m) lead).token = .float x := by
  generalize hds : Numeral.digits m = ds at *
  have hvalue : Numeral.value ds = m := by rw [← hds, Numeral.value_digits]
  have hlength : ds.length ≠ 0 := by simp [← hds, Numeral.digits_ne_nil]
  have hdigits : ds.take 1 ++ (if ds.drop 1 = [] then none else some (ds.drop 1)).getD [] = ds := by
    split
    · next hdrop => rw [Option.getD_none, ← hdrop, List.take_append_drop]
    · rw [Option.getD_some, List.take_append_drop]
  have hbehind : ((if ds.drop 1 = [] then none else some (ds.drop 1)).getD []).length =
      ds.length - 1 := by
    have := congrArg List.length hdigits
    simp only [List.length_append, List.length_take] at this
    omega
  have hscale : (scientific negative ds lead).scale = lead := by
    by_cases hneg : lead < 0
    · simp only [scientific, scale, hneg, decide_true, Numeral.value_digits]
      omega
    · simp only [scientific, scale, hneg, decide_false, Numeral.value_digits]
      omega
  refine token_eq_float (.inr rfl) ?_
  rw [hscale]
  simp only [scientific]
  rw [hdigits, hvalue, hbehind, show lead - ((ds.length - 1 : Nat) : Int) = e by omega, hx]

end Notation

section Float

variable {x : Binary64}

theorem text_ofFloat : (ofFloat x).text = Number.render numberLayout x := by
  rw [ofFloat, Number.render, Number.renderMagnitude]
  split
  · rfl
  · dsimp only [numberLayout]
    rw [apply_ite text, text_positional, text_scientific]
    exact (apply_ite (signText x.isNegative ++ ·) _ _ _).symm

/-- The shortest decimal of a finite number is read as this number. -/
theorem ofDecimal?_shortest (hx : x.isFinite) (hcode : x.code ≠ 0) :
    Binary64.ofDecimal? x.isNegative (Decimal.shortest .toEven x.code).coefficient
      (Decimal.shortest .toEven x.code).exponent = some x := by
  have hlt : x.code < Binary64.infinityCode := of_decide_eq_true hx
  rw [Binary64.ofDecimal?_eq_map, Decimal.readsAs_iff.1 (Decimal.readsAs_shortest hcode hlt),
    Option.map_some, Binary64.code_ofCode_false hlt, Binary64.ofCode_code]

theorem coefficient_shortest_ne_zero (hx : x.isFinite) (hcode : x.code ≠ 0) :
    (Decimal.shortest .toEven x.code).coefficient ≠ 0 :=
  Decimal.coefficient_ne_zero hcode (of_decide_eq_true hx)
    (Decimal.readsAs_shortest hcode (of_decide_eq_true hx))

/-- The numeral of a finite float follows the grammar of numbers. -/
theorem isProper_ofFloat (hx : x.isFinite) : (ofFloat x).IsProper := by
  simp only [ofFloat]
  split
  · exact ⟨isDigits_zero, fun _ => rfl, by rintro _ ⟨⟩; exact isDigits_zero, by rintro _ _ ⟨⟩⟩
  · next hcode =>
    have hhead := Numeral.head?_digits_ne_zero (coefficient_shortest_ne_zero hx hcode)
    split
    · exact isProper_positional (isDigits_digits _) hhead
    · exact isProper_scientific (isDigits_digits _) hhead

/-- A finite double-precision number is read as this number. -/
theorem token_ofFloat (hx : x.isFinite) : (ofFloat x).token = .float x := by
  simp only [ofFloat]
  split
  · next hcode =>
    refine token_eq_float (.inl rfl) ?_
    have hzero := Binary64.ofCode_code x
    rw [hcode] at hzero
    exact congrArg some hzero
  · next hcode =>
    have hread := ofDecimal?_shortest hx hcode
    split
    · next hlead => exact token_positional (coefficient_shortest_ne_zero hx hcode) rfl hlead.2 hread
    · exact token_scientific rfl hread

end Float

end NumberText

end Schemata.Json
