/-!
# Numbers

Integers and double-precision numbers as they are written in base ten, and back.
-/

/-!
## Decimal numerals

Natural numbers and integers as they are written in base ten, and back.
-/

namespace Schemata.Numeral

/-- The digits of a number, the most significant one first; zero is a single `0`. -/
def digits (n : Nat) : List Char := Nat.toDigits 10 n

def value (ds : List Char) : Nat := ds.foldl (fun n d => 10 * n + (d.toNat - '0'.toNat)) 0

/-- An integer in base ten, a minus sign in front of a negative one. -/
def ofInt : Int → List Char
  | .ofNat n => digits n
  | .negSucc n => '-' :: digits (n + 1)

end Schemata.Numeral

/-!
## Double-precision numbers

A `Binary64` is the 64 bits of a double-precision number: a sign bit above a 63-bit code. The codes
of the finite magnitudes run through them in order: code `c` is a multiple of `2 ^ q`, the spacing
of the numbers around it, and codes below `2 ^ 52` share the spacing `2 ^ (-1074)` of the subnormal
ones.

`ofRatio?` gives the finite number nearest to a fraction, of two equally near ones that with an even
code.
-/

namespace Schemata

/-- The bits of a double-precision number. -/
structure Binary64 where
  bits : UInt64
deriving DecidableEq, Repr

namespace Binary64

/-- The number of codes between two powers of two, `2 ^ 52`. -/
def binade : Nat := 1 <<< 52

/-- The value of the sign bit, above all codes. -/
def signBit : Nat := 1 <<< 63

/-- The code of infinity, above all finite magnitudes. -/
def infinityCode : Nat := 2047 * binade

def isNegative (x : Binary64) : Bool := signBit ≤ x.bits.toNat

def code (x : Binary64) : Nat := x.bits.toNat % signBit

def isFinite (x : Binary64) : Bool := x.code < infinityCode

def isNaN (x : Binary64) : Bool := infinityCode < x.code

def ofCode (negative : Bool) (code : Nat) : Binary64 :=
  ⟨UInt64.ofNat (code + if negative then signBit else 0)⟩

/-- A finite magnitude is `m * 2 ^ (s - 1074)` for this pair `(m, s)` of its code. -/
def scaled (code : Nat) : Nat × Nat :=
  if code < binade then (code, 0) else (code % binade + binade, code / binade - 1)

/-- The quotient of two numbers, rounded to the nearest number and to the even one halfway. -/
def divNearest (num den : Nat) : Nat :=
  let q := num / den
  let r := num % den
  if 2 * r < den then q
  else if den < 2 * r then q + 1
  else if q % 2 = 0 then q else q + 1

/-- The spacing for a fraction: the least `s` for which `num / den` is below `2 ^ (s - 1074
+ 53)`. -/
def spacing (num den : Nat) : Nat :=
  let s := (num.log2 + 1074) - (den.log2 + 53)
  if num <<< 1074 < den <<< (s + 53) then s else s + 1

/-- The code of the finite magnitude nearest to `num / den`; `infinityCode` or more if that lies
beyond the greatest one. -/
def nearestCode (num den : Nat) : Nat :=
  let s := spacing num den
  s * binade + divNearest (num <<< 1074) (den <<< s)

/-- The number nearest to the fraction `num / den` with the given sign, unless it is too large. -/
def ofRatio? (negative : Bool) (num den : Nat) : Option Binary64 :=
  let c := nearestCode num den
  if c < infinityCode then some (ofCode negative c) else none

/-- The number nearest to `m * 10 ^ e` with the given sign, unless it is too large. Nothing at or
above `10 ^ 310` is in range, and nothing below `10 ^ (-400)` is nearer to another number than to
zero. -/
def ofDecimal? (negative : Bool) (m : Nat) (e : Int) : Option Binary64 :=
  let width : Int := m.log2 / 3 + 1
  if m = 0 then some (ofCode negative 0)
  else if 310 ≤ e then none
  else if e + width < -400 then some (ofCode negative 0)
  else if 0 ≤ e then ofRatio? negative (m * Nat.pow 10 e.toNat) 1
  else ofRatio? negative m (Nat.pow 10 (-e).toNat)

def ofInt? (i : Int) : Option Binary64 := ofDecimal? (i < 0) i.natAbs 0

end Binary64

/-!
## The shortest decimal that reads back

A decimal is a coefficient and a power of ten. `shortest` looks for one that reads back as a given
magnitude with as few digits as possible: it goes from coarse to fine powers of ten and tests the
two multiples around the magnitude. The first power with a hit wins; of two hits the nearer one
does, and `Tie` says which one when both are equally near.
-/

/-- A natural number times a power of ten. -/
structure Decimal where
  coefficient : Nat
  exponent : Int
deriving DecidableEq, Repr

/-- Which of two equally near decimals is taken. -/
inductive Tie where
  /-- The one with the even coefficient. -/
  | toEven
  /-- The greater one. -/
  | up
deriving DecidableEq, Repr

namespace Decimal

/-- Whether a decimal reads as the magnitude with the given code. -/
def readsAs (d : Decimal) (code : Nat) : Bool :=
  Binary64.ofDecimal? false d.coefficient d.exponent == some (Binary64.ofCode false code)

/-- The magnitude as a fraction. -/
def fraction (code : Nat) : Nat × Nat :=
  let (m, s) := Binary64.scaled code
  (m <<< s, 1 <<< 1074)

/-- The magnitude written out in full. -/
def exact (code : Nat) : Decimal :=
  let (m, s) := Binary64.scaled code
  if 1074 ≤ s then ⟨m <<< (s - 1074), 0⟩ else ⟨m * Nat.pow 5 (1074 - s), (s : Int) - 1074⟩

/-- The multiple of `10 ^ e` next to the magnitude that reads back, the nearer one of two. -/
def onGrid? (tie : Tie) (code : Nat) (e : Int) : Option Decimal :=
  let (num, den) := fraction code
  let num := num * Nat.pow 10 (-e).toNat
  let den := den * Nat.pow 10 e.toNat
  let low : Decimal := ⟨num / den, e⟩
  let high : Decimal := ⟨num / den + 1, e⟩
  match low.readsAs code, high.readsAs code with
  | true, true =>
    let twice := 2 * (num % den)
    let takesHigh := den < twice ||
      (twice == den && match tie with | .toEven => num / den % 2 == 1 | .up => true)
    some (if takesHigh then high else low)
  | true, false => some low
  | false, true => some high
  | false, false => none

/-- Goes through `steps` powers of ten from `10 ^ e` downwards. -/
def search (tie : Tie) (code : Nat) : Nat → Int → Option Decimal
  | 0, _ => none
  | steps + 1, e => (onGrid? tie code e).orElse fun _ => search tie code steps (e - 1)

/-- A power of ten, as its exponent, that is no less than the magnitude, and not much greater. -/
def ceiling (code : Nat) : Int :=
  let (num, den) := fraction code
  ((num.log2 : Int) - den.log2 + 1) * 30103 / 100000 + 1

/-- A decimal of least length that reads back as the magnitude. Seventeen digits always suffice, and
the search starts at most two powers of ten too high. -/
def shortest (tie : Tie) (code : Nat) : Decimal :=
  (search tie code 20 (ceiling code)).getD (exact code)

end Decimal

end Schemata

/-!
## How a double-precision number is written

The digits of a number are those of its shortest decimal. A `Layout` decides the rest: how a tie
between two shortest decimals goes, below which power of ten the number is written with an exponent,
and whether a positive exponent carries a sign. From `10 ^ 16` on every layout uses an exponent, and
a number in positional notation always has a digit behind the point.
-/

namespace Schemata.Number

/-- The choices in which written numbers differ. -/
structure Layout where
  tie : Tie
  /-- Numbers from `10 ^ least` on are written without an exponent. -/
  least : Int
  /-- Whether a positive exponent is written with a plus sign. -/
  signsExponent : Bool

def zeros (n : Nat) : List Char := List.replicate n '0'

/-- Digits and a scale in positional notation: the first digit stands for `10 ^ lead`. -/
def positional (digits : List Char) (lead : Int) : List Char :=
  if lead < 0 then '0' :: '.' :: zeros (-lead - 1).toNat ++ digits
  else
    let n := lead.toNat + 1
    let fraction := digits.drop n
    digits.take n ++ zeros (n - digits.length) ++ '.' :: (if fraction = [] then ['0'] else fraction)

/-- Digits and a scale with an exponent: one digit before the point, and no point behind a lone
digit. -/
def scientific (signsExponent : Bool) (digits : List Char) (lead : Int) : List Char :=
  let fraction := digits.drop 1
  let mantissa := digits.take 1 ++ if fraction = [] then [] else '.' :: fraction
  let sign := if signsExponent && 0 ≤ lead then ['+'] else []
  mantissa ++ 'e' :: sign ++ Numeral.ofInt lead

/-- The magnitude with the given code. -/
def renderMagnitude (layout : Layout) (code : Nat) : List Char :=
  if code = 0 then ['0', '.', '0']
  else
    let d := Decimal.shortest layout.tie code
    let digits := Numeral.digits d.coefficient
    let lead := d.exponent + digits.length - 1
    if layout.least ≤ lead ∧ lead < 16 then positional digits lead
    else scientific layout.signsExponent digits lead

/-- A finite number, a minus sign in front of a negative one and of the negative zero. -/
def render (layout : Layout) (x : Binary64) : List Char :=
  (if x.isNegative then ['-'] else []) ++ renderMagnitude layout x.code

end Schemata.Number
