import Mathlib.Algebra.Group.Nat.Defs
import Mathlib.Algebra.Order.Ring.Nat
import Mathlib.Data.List.Basic
import Mathlib.Order.Basic
import Mathlib.Tactic.ByContra
import Mathlib.Tactic.Ring
import Mathlib.Tactic.SplitIfs
import Schemata.Number

/-!
# Numbers and their decimals

A finite double-precision number comes back from the shortest decimal that is written for it.
-/

/-!
## Numerals are read back

The digits of a number denote it, and the first of them is not a zero unless the number is.
-/

namespace Schemata.Numeral

/-- The value of a run of digits is the one the library gives it. -/
theorem value_eq_ofDigitChars (ds : List Char) : value ds = Nat.ofDigitChars 10 ds 0 := by
  rw [Nat.ofDigitChars_eq_foldl]
  rfl

/-- The digits of a number denote this number. -/
theorem value_digits (n : Nat) : value (digits n) = n := by
  rw [value_eq_ofDigitChars, digits, Nat.ofDigitChars_ten_toDigits]

/-- Zeros behind a number multiply it by ten each. -/
theorem value_append_zeros (ds : List Char) (k : Nat) :
    value (ds ++ List.replicate k '0') = value ds * 10 ^ k := by
  rw [value_eq_ofDigitChars, Nat.ofDigitChars_append, Nat.ofDigitChars_replicate_zero,
    ← value_eq_ofDigitChars, Nat.mul_comm]

/-- Zeros in front of a number do not matter. -/
theorem value_zeros_append (k : Nat) (ds : List Char) :
    value (List.replicate k '0' ++ ds) = value ds := by
  rw [value_eq_ofDigitChars, Nat.ofDigitChars_append, Nat.ofDigitChars_replicate_zero, Nat.mul_zero,
    ← value_eq_ofDigitChars]

theorem isDigit_of_mem_digits {n : Nat} {c : Char} (h : c ∈ digits n) : c.isDigit :=
  Nat.isDigit_of_mem_toDigits (by decide) (by decide) h

theorem digits_ne_nil (n : Nat) : digits n ≠ [] := Nat.toDigits_ne_nil

/-- A number that is not zero does not start with a zero. -/
theorem head?_digits_ne_zero {n : Nat} (h : n ≠ 0) : (digits n).head? ≠ some '0' := by
  induction n using Nat.strongRecOn with
  | ind n ih =>
    rcases Nat.lt_or_ge n 10 with hn | hn
    · rw [digits, Nat.toDigits_of_lt_base hn]
      have hfirst : ∀ n < 10, n ≠ 0 → [Nat.digitChar n].head? ≠ some '0' := by decide
      exact hfirst n hn h
    · have hdiv : n / 10 ≠ 0 := by omega
      rw [digits, Nat.toDigits_of_base_le (by decide) hn,
        List.head?_append_of_ne_nil _ Nat.toDigits_ne_nil]
      exact ih (n / 10) (by omega) hdiv

end Schemata.Numeral

/-!
## Rounding to double precision

What a fraction rounds to depends on its value only, and a fraction that is the value of a code
rounds to this code.
-/

namespace Schemata.Binary64

/-! ### Codes and signs -/

theorem infinityCode_lt_signBit : infinityCode < signBit := by decide

/-- The sign and the code of a float give the float back. -/
theorem ofCode_code (x : Binary64) : ofCode x.isNegative x.code = x := by
  obtain ⟨bits⟩ := x
  have hlt : bits.toNat < 2 * signBit := bits.toNat_lt
  have hsum : (bits.toNat % signBit + if signBit ≤ bits.toNat then signBit else 0) =
      bits.toNat := by
    have hpos : 0 < signBit := by decide
    split
    · next h => rw [Nat.mod_eq_sub_mod h, Nat.mod_eq_of_lt (by omega)]; omega
    · next h => rw [Nat.mod_eq_of_lt (by omega), Nat.add_zero]
  simp only [ofCode, code, isNegative, decide_eq_true_eq, hsum, UInt64.ofNat_toNat]

theorem code_ofCode_false {c : Nat} (h : c < infinityCode) : (ofCode false c).code = c := by
  have hsize : c < UInt64.size := Nat.lt_trans h (by decide)
  have hsign : c < signBit := Nat.lt_trans h infinityCode_lt_signBit
  have hbits : (ofCode false c).bits.toNat = c := by
    simp [ofCode, UInt64.toNat_ofNat', Nat.mod_eq_of_lt hsize]
  rw [code, hbits, Nat.mod_eq_of_lt hsign]

/-- Two finite codes of the same float are the same code. -/
theorem ofCode_false_inj {c c' : Nat} (hc : c < infinityCode) (hc' : c' < infinityCode)
    (h : ofCode false c = ofCode false c') : c = c' := by
  rw [← code_ofCode_false hc, h, code_ofCode_false hc']

/-- The sign has no effect on how a fraction is rounded. -/
theorem ofRatio?_eq_map (negative : Bool) (num den : Nat) :
    ofRatio? negative num den = (ofRatio? false num den).map fun x => ofCode negative x.code := by
  simp only [ofRatio?]
  split
  · next h => rw [Option.map_some, code_ofCode_false h]
  · rfl

/-! ### The spacing of a fraction -/

/-- Of two numbers the one with more bits is greater. -/
theorem mul_two_pow_lt {m n i j : Nat} (hn : n ≠ 0) (h : m.log2 + i < n.log2 + j) :
    m * 2 ^ i < n * 2 ^ j :=
  calc m * 2 ^ i < 2 ^ (m.log2 + 1) * 2 ^ i :=
        Nat.mul_lt_mul_of_pos_right Nat.lt_log2_self (Nat.two_pow_pos _)
    _ = 2 ^ (m.log2 + 1 + i) := (Nat.pow_add ..).symm
    _ ≤ 2 ^ (n.log2 + j) := Nat.pow_le_pow_right (by decide) (by omega)
    _ = 2 ^ n.log2 * 2 ^ j := Nat.pow_add ..
    _ ≤ n * 2 ^ j := Nat.mul_le_mul_right _ (Nat.log2_self_le hn)

/-- The spacing of a fraction is the least one in which it takes no more than fifty-three bits. -/
theorem spacing_le_iff {num den t : Nat} (hnum : num ≠ 0) (hden : den ≠ 0) :
    spacing num den ≤ t ↔ num * 2 ^ 1074 < den * 2 ^ (t + 53) := by
  simp only [spacing, Nat.shiftLeft_eq]
  generalize 1074 = e
  generalize hs : (num.log2 + e) - (den.log2 + 53) = s
  rcases Nat.lt_trichotomy t s with ht | rfl | ht
  · refine iff_of_false ?_ (Nat.lt_asymm (mul_two_pow_lt hnum (by omega)))
    split <;> omega
  · split
    · next h => exact iff_of_true Nat.le.refl h
    · next h => exact iff_of_false (Nat.not_succ_le_self t) h
  · refine iff_of_true ?_ (mul_two_pow_lt hden (by omega))
    split <;> omega

theorem spacing_mul {k num den : Nat} (hk : k ≠ 0) (hnum : num ≠ 0) (hden : den ≠ 0) :
    spacing (k * num) (k * den) = spacing num den := by
  refine eq_of_forall_ge_iff fun t => ?_
  rw [spacing_le_iff (Nat.mul_ne_zero hk hnum) (Nat.mul_ne_zero hk hden), spacing_le_iff hnum hden,
    Nat.mul_assoc, Nat.mul_assoc, Nat.mul_lt_mul_left (Nat.pos_of_ne_zero hk)]

/-! ### The nearest code -/

theorem divNearest_mul {k num den : Nat} (hk : k ≠ 0) :
    divNearest (k * num) (k * den) = divNearest num den := by
  have hpos := Nat.pos_of_ne_zero hk
  simp only [divNearest, Nat.mul_div_mul_left _ _ hpos, Nat.mul_mod_mul_left,
    Nat.mul_left_comm 2 k, Nat.mul_lt_mul_left hpos]

/-- A multiple of a number is divided by it without rounding. -/
theorem divNearest_mul_self {m den : Nat} (hden : den ≠ 0) : divNearest (m * den) den = m := by
  have hpos := Nat.pos_of_ne_zero hden
  simp [divNearest, Nat.mul_div_cancel _ hpos, hpos]

/-- Rounding looks at the quotient only: a common factor changes nothing. -/
theorem nearestCode_mul {k num den : Nat} (hk : k ≠ 0) (hnum : num ≠ 0) (hden : den ≠ 0) :
    nearestCode (k * num) (k * den) = nearestCode num den := by
  simp only [nearestCode, spacing_mul hk hnum hden, Nat.shiftLeft_eq, Nat.mul_assoc,
    divNearest_mul hk]

/-- The nearest code depends on the value of a fraction only. -/
theorem nearestCode_eq_of_mul_eq {num den num' den' : Nat} (hnum : num ≠ 0) (hden : den ≠ 0)
    (hden' : den' ≠ 0) (h : num * den' = num' * den) :
    nearestCode num den = nearestCode num' den' := by
  have hnum' : num' ≠ 0 := by
    rintro rfl
    exact Nat.mul_ne_zero hnum hden' (by rw [h, Nat.zero_mul])
  rw [← nearestCode_mul hden' hnum hden, ← nearestCode_mul hden hnum' hden', Nat.mul_comm den', h,
    Nat.mul_comm den, Nat.mul_comm den']

/-- The value of a code, as the numerator of a fraction over `2 ^ 1074`. -/
def units (code : Nat) : Nat := (scaled code).1 * 2 ^ (scaled code).2

theorem units_ne_zero {code : Nat} (h : code ≠ 0) : units code ≠ 0 := by
  refine Nat.mul_ne_zero ?_ (Nat.two_pow_pos _).ne'
  simp only [scaled]
  split
  · exact h
  · have : binade ≠ 0 := by decide
    simp [this]

/-- In the spacing of its value, a code has fifty-three bits or, below the normal numbers, fewer. -/
theorem spacing_units {code : Nat} (h : code ≠ 0) :
    spacing (units code) (2 ^ 1074) = (scaled code).2 := by
  have hbinade : binade = 2 ^ 52 := by decide
  have hcancel (m n k : Nat) (hk : 0 < k) : m * k < k * n ↔ m < n := by
    rw [Nat.mul_comm, Nat.mul_lt_mul_left hk]
  refine eq_of_forall_ge_iff fun t => ?_
  have hpos (e : Nat) : 0 < 2 ^ e := Nat.two_pow_pos e
  rw [spacing_le_iff (units_ne_zero h) (hpos 1074).ne', hcancel _ _ _ (hpos 1074)]
  simp only [units, scaled]
  split
  · next hlt =>
    show code * 2 ^ 0 < 2 ^ (t + 53) ↔ 0 ≤ t
    have hpow : 2 ^ 53 ≤ 2 ^ (t + 53) := Nat.pow_le_pow_right (by decide) (by omega)
    omega
  · generalize code / binade - 1 = s
    generalize hm : code % binade + binade = m
    have hlow : 2 ^ 52 ≤ m := by omega
    have hhigh : m < 2 ^ 53 := by
      have : code % binade < binade := Nat.mod_lt _ (by decide)
      omega
    show m * 2 ^ s < 2 ^ (t + 53) ↔ s ≤ t
    constructor
    · intro hlt
      by_contra hst
      have : 2 ^ (t + 53) ≤ m * 2 ^ s := by
        calc 2 ^ (t + 53) ≤ 2 ^ (52 + s) := Nat.pow_le_pow_right (by decide) (by omega)
          _ = 2 ^ 52 * 2 ^ s := Nat.pow_add ..
          _ ≤ m * 2 ^ s := Nat.mul_le_mul_right _ hlow
      omega
    · intro hst
      calc m * 2 ^ s < 2 ^ 53 * 2 ^ s := Nat.mul_lt_mul_of_pos_right hhigh (Nat.two_pow_pos _)
        _ = 2 ^ (53 + s) := (Nat.pow_add ..).symm
        _ ≤ 2 ^ (t + 53) := Nat.pow_le_pow_right (by decide) (by omega)

/-- The value of a code rounds to this code. -/
theorem nearestCode_units {code : Nat} (h : code ≠ 0) :
    nearestCode (units code) (2 ^ 1074) = code := by
  have hexact : ∀ {k : Nat}, 0 < k →
      divNearest (units code * k) (k * 2 ^ (scaled code).2) = (scaled code).1 := fun {k} hk => by
    rw [units, Nat.mul_assoc, Nat.mul_comm k]
    exact divNearest_mul_self (Nat.mul_pos (Nat.two_pow_pos _) hk).ne'
  have hpos (e : Nat) : 0 < 2 ^ e := Nat.two_pow_pos e
  simp only [nearestCode, spacing_units h, Nat.shiftLeft_eq, hexact (hpos 1074)]
  simp only [scaled]
  split
  · simp
  · next hge =>
    have hdiv : 1 ≤ code / binade := (Nat.one_le_div_iff (by decide)).2 (by omega)
    have hle : binade ≤ binade * (code / binade) := Nat.le_mul_of_pos_right _ hdiv
    have hsum := Nat.div_add_mod code binade
    show (code / binade - 1) * binade + (code % binade + binade) = code
    rw [Nat.sub_mul, Nat.one_mul, Nat.mul_comm (code / binade)]
    omega

end Schemata.Binary64

/-!
## The shortest decimal reads back

Whichever decimal the search comes up with reads as the magnitude that it was looked for, and so
does the magnitude written out in full, which stands in where a search finds none.
-/

namespace Schemata

namespace Binary64

/-- In the range of double-precision numbers a decimal is read as the fraction that it is. -/
theorem ofDecimal?_eq_ofRatio? {negative : Bool} {m : Nat} {e : Int} (hm : m ≠ 0) (hhigh : e < 310)
    (hlow : -400 ≤ e + (m.log2 / 3 + 1 : Nat)) :
    ofDecimal? negative m e = ofRatio? negative (m * 10 ^ e.toNat) (10 ^ (-e).toNat) := by
  have hlow' : ¬e + ((m.log2 : Int) / 3 + 1) < -400 := by omega
  simp only [ofDecimal?, hm, if_false, Int.not_le.2 hhigh, hlow', Nat.pow_eq]
  split
  · have hzero : (-e).toNat = 0 := by omega
    rw [hzero, Nat.pow_zero]
  · have hzero : e.toNat = 0 := by omega
    rw [hzero, Nat.pow_zero, Nat.mul_one]

theorem ofDecimal?_zero (negative : Bool) (e : Int) :
    ofDecimal? negative 0 e = some (ofCode negative 0) := rfl

/-- The sign has no effect on how a decimal is read. -/
theorem ofDecimal?_eq_map (negative : Bool) (m : Nat) (e : Int) :
    ofDecimal? negative m e = (ofDecimal? false m e).map fun x => ofCode negative x.code := by
  have hzero : (ofCode false 0).code = 0 := code_ofCode_false (by decide)
  simp only [ofDecimal?]
  split_ifs
  · rw [Option.map_some, hzero]
  · rfl
  · rw [Option.map_some, hzero]
  · exact ofRatio?_eq_map ..
  · exact ofRatio?_eq_map ..

/-- A point and a zero behind a whole number do not matter. -/
theorem ofDecimal?_mul_ten {negative : Bool} {m k : Nat} (hm : m ≠ 0) (hk : k < 310) :
    ofDecimal? negative (m * 10 ^ (k + 1)) (-1) = ofDecimal? negative m k := by
  have hpow : ∀ {i : Nat}, 10 ^ i ≠ 0 := (Nat.pow_pos (by decide)).ne'
  rw [ofDecimal?_eq_ofRatio? (Nat.mul_ne_zero hm hpow) (by decide) (by omega),
    ofDecimal?_eq_ofRatio? hm (by omega) (by omega)]
  have hsame : nearestCode (m * 10 ^ (k + 1) * 10 ^ (0 : Nat)) (10 ^ (1 : Nat)) =
      nearestCode (m * 10 ^ k) (10 ^ (0 : Nat)) :=
    nearestCode_eq_of_mul_eq (Nat.mul_ne_zero (Nat.mul_ne_zero hm hpow) hpow) hpow hpow
      (by simp [Nat.pow_succ, Nat.mul_assoc])
  have hzero : (-(k : Int)).toNat = 0 := by omega
  have hone : (-(-1) : Int).toNat = 1 := rfl
  simp only [ofRatio?, Int.toNat_natCast, hzero, hone, show (-1 : Int).toNat = 0 from rfl, hsame]

end Binary64

namespace Decimal

open Binary64

variable {tie : Tie} {code : Nat}

theorem readsAs_iff {d : Decimal} :
    d.readsAs code ↔ ofDecimal? false d.coefficient d.exponent = some (ofCode false code) :=
  beq_iff_eq

/-- Only the code of zero is read from the coefficient zero. -/
theorem coefficient_ne_zero {d : Decimal} (hcode : code ≠ 0) (hlt : code < infinityCode)
    (h : d.readsAs code) : d.coefficient ≠ 0 := by
  intro hzero
  rw [readsAs_iff, hzero, ofDecimal?_zero, Option.some.injEq] at h
  exact hcode (ofCode_false_inj (by decide) hlt h).symm

/-- What the search accepts on one grid is read as the float it was asked for. -/
theorem readsAs_of_onGrid? {e : Int} {d : Decimal} (h : onGrid? tie code e = some d) :
    d.readsAs code := by
  simp only [onGrid?] at h
  split at h
  · next hlow hhigh =>
    obtain rfl := Option.some.inj h
    split_ifs
    · exact hhigh
    · exact hlow
  · next hlow _ => exact Option.some.inj h ▸ hlow
  · next hhigh => exact Option.some.inj h ▸ hhigh
  · cases h

/-- What the search accepts on any grid is read as the float it was asked for. -/
theorem readsAs_of_search {steps : Nat} {e : Int} {d : Decimal}
    (h : search tie code steps e = some d) : d.readsAs code := by
  induction steps generalizing e with
  | zero => cases h
  | succ steps ih =>
    rw [search] at h
    cases hgrid : onGrid? tie code e with
    | none => exact ih (by simpa [hgrid] using h)
    | some d' =>
      rw [hgrid] at h
      obtain rfl : d' = d := Option.some.inj h
      exact readsAs_of_onGrid? hgrid

/-- A decimal reads as a code if its fraction is the value of the code. -/
theorem readsAs_of_mul_eq {d : Decimal} (hcode : code ≠ 0) (hlt : code < infinityCode)
    (hhigh : d.exponent < 310) (hlow : -400 ≤ d.exponent + (d.coefficient.log2 / 3 + 1 : Nat))
    (h : d.coefficient * 10 ^ d.exponent.toNat * 2 ^ 1074 =
      units code * 10 ^ (-d.exponent).toNat) : d.readsAs code := by
  have hten : ∀ {i : Nat}, 10 ^ i ≠ 0 := (Nat.pow_pos (by decide)).ne'
  have htwo : ∀ {i : Nat}, 2 ^ i ≠ 0 := (Nat.two_pow_pos _).ne'
  have hd : d.coefficient ≠ 0 := by
    intro hzero
    rw [hzero, Nat.zero_mul, Nat.zero_mul] at h
    exact Nat.mul_ne_zero (units_ne_zero hcode) hten h.symm
  rw [readsAs_iff, ofDecimal?_eq_ofRatio? hd hhigh hlow, ofRatio?,
    nearestCode_eq_of_mul_eq (Nat.mul_ne_zero hd hten) hten htwo h, nearestCode_units hcode,
    if_pos hlt]

/-- A magnitude that is written out in full reads back. -/
theorem readsAs_exact (hcode : code ≠ 0) (hlt : code < infinityCode) :
    (exact code).readsAs code := by
  have hunits : units code = (scaled code).1 * 2 ^ (scaled code).2 := rfl
  have hm : (scaled code).1 ≠ 0 := by
    intro hzero
    rw [hzero, Nat.zero_mul] at hunits
    exact units_ne_zero hcode hunits
  simp only [exact]
  generalize (scaled code).1 = m at *
  generalize (scaled code).2 = s at *
  split
  · next hs =>
    have hpow : 2 ^ (s - 1074) * 2 ^ 1074 = 2 ^ s := by rw [← Nat.pow_add, Nat.sub_add_cancel hs]
    refine readsAs_of_mul_eq hcode hlt ?_ ?_ ?_
    · show (0 : Int) < 310
      decide
    · show -400 ≤ (0 : Int) + _
      omega
    · rw [hunits]
      show m <<< (s - 1074) * 10 ^ 0 * 2 ^ 1074 = m * 2 ^ s * 10 ^ 0
      rw [Nat.shiftLeft_eq, Nat.pow_zero, Nat.mul_one, Nat.mul_one, Nat.mul_assoc, hpow]
  · next hs =>
    generalize hk : 1074 - s = k
    have hexponent : (s : Int) - 1074 = -k := by omega
    have hpow : 2 ^ 1074 = 2 ^ s * 2 ^ k := by rw [← Nat.pow_add, show s + k = 1074 by omega]
    have hbits : 2 * k ≤ (m * 5 ^ k).log2 := by
      rw [Nat.le_log2 (Nat.mul_ne_zero hm (Nat.pow_pos (by decide)).ne'), Nat.pow_mul]
      exact Nat.le_trans (Nat.pow_le_pow_left (by decide) k)
        (Nat.le_mul_of_pos_left _ (Nat.pos_of_ne_zero hm))
    rw [hexponent]
    refine readsAs_of_mul_eq hcode hlt ?_ ?_ ?_
    · show -(k : Int) < 310
      omega
    · show -400 ≤ -(k : Int) + ((m * 5 ^ k).log2 / 3 + 1 : Nat)
      omega
    · have hzero : (-(k : Int)).toNat = 0 := by omega
      have hself : (-(-(k : Int))).toNat = k := by omega
      show m * Nat.pow 5 k * 10 ^ (-(k : Int)).toNat * 2 ^ 1074 = _ * 10 ^ (-(-(k : Int))).toNat
      have hten : 10 ^ k = 2 ^ k * 5 ^ k := by rw [← Nat.mul_pow]
      rw [hunits, hzero, hself, hpow, hten, Nat.pow_eq]
      ring

/-- The shortest decimal of a magnitude reads back. -/
theorem readsAs_shortest (hcode : code ≠ 0) (hlt : code < infinityCode) :
    (shortest tie code).readsAs code := by
  rw [shortest]
  cases h : search tie code 20 (ceiling code) with
  | none => exact readsAs_exact hcode hlt
  | some d => exact readsAs_of_search h

end Decimal

end Schemata
