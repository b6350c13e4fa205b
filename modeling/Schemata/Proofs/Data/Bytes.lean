import Mathlib.Algebra.Group.Nat.Defs
import Schemata.Data
import Schemata.Text.Quoted

/-!
# Bytes of numbers and texts

A number is known from its bytes as far as these reach, and a text is read back from its UTF-8 form.
-/

namespace Schemata

/-- What is put together from pieces is no longer than as many of the longest. -/
theorem length_flatMap_le {α β : Type} {f : α → List β} {n : Nat} (h : ∀ a, (f a).length ≤ n)
    (l : List α) : (l.flatMap f).length ≤ n * l.length := by
  induction l with
  | nil => exact Nat.zero_le _
  | cons a rest ih =>
    have ha := h a
    rw [List.flatMap_cons, List.length_append, List.length_cons, Nat.mul_add, Nat.mul_one]
    omega

namespace Bytes

/-! ## Numbers -/

@[simp] theorem length_littleEndian (width n : Nat) : (littleEndian width n).length = width := by
  induction width generalizing n with
  | zero => rfl
  | succ width ih => simp [littleEndian, ih]

/-- A number is read back as far as its bytes reach. -/
theorem toNat_littleEndian (width n : Nat) : toNat (littleEndian width n) = n % 256 ^ width := by
  induction width generalizing n with
  | zero => simp [littleEndian, toNat, Nat.mod_one]
  | succ width ih =>
    have hpow : 256 ^ (width + 1) = 256 * 256 ^ width := Nat.pow_succ'
    rw [littleEndian, toNat, ih, hpow, Nat.mod_mul, UInt8.toNat_ofNat']

theorem toNat_lt (bytes : List UInt8) : toNat bytes < 256 ^ bytes.length := by
  induction bytes with
  | nil => simp [toNat]
  | cons b rest ih =>
    have hb : b.toNat < 256 := b.toNat_lt
    rw [toNat, List.length_cons, Nat.pow_succ']
    omega

/-- Bytes are those of the number that they stand for. -/
theorem littleEndian_toNat (bytes : List UInt8) :
    littleEndian bytes.length (toNat bytes) = bytes := by
  induction bytes with
  | nil => rfl
  | cons b rest ih =>
    have hb : b.toNat < 256 := b.toNat_lt
    have hlow : UInt8.ofNat (b.toNat + 256 * toNat rest) = b := by
      apply UInt8.toNat_inj.1
      rw [UInt8.toNat_ofNat']
      omega
    have hhigh : (b.toNat + 256 * toNat rest) / 256 = toNat rest := by omega
    rw [toNat, List.length_cons, littleEndian, hlow, hhigh, ih]

theorem littleEndian_inj {width m n : Nat} (hm : m < 256 ^ width) (hn : n < 256 ^ width)
    (e : littleEndian width m = littleEndian width n) : m = n := by
  have h := congrArg toNat e
  rwa [toNat_littleEndian, toNat_littleEndian, Nat.mod_eq_of_lt hm, Nat.mod_eq_of_lt hn] at h

/-! ## Texts -/

theorem length_ofString (s : String) : (ofString s).length = s.utf8ByteSize := by
  simp [ofString]

theorem ofString_inj {s t : String} (e : ofString s = ofString t) : s = t := by
  rw [← String.toByteArray_inj]
  exact ByteArray.ext (Array.toList_inj.1 (by simpa [ofString] using e))

theorem length_ofString_le (s : String) : (ofString s).length ≤ 4 * s.length := by
  have hbytes : ofString s = s.toList.flatMap String.utf8EncodeChar := by
    obtain ⟨cs, rfl⟩ : ∃ cs, s = String.ofList cs := ⟨s.toList, String.ofList_toList.symm⟩
    simp [ofString, List.utf8Encode]
  have hchar (c : Char) : (String.utf8EncodeChar c).length ≤ 4 := by
    rw [String.length_utf8EncodeChar]
    exact c.utf8Size_le_four
  rw [hbytes, ← String.length_toList]
  exact length_flatMap_le hchar s.toList

theorem toString?_ofString (text : String) : toString? (ofString text) = some text := by
  have hbytes : (⟨(ofString text).toArray⟩ : ByteArray) = text.toByteArray := by
    simp [ofString]
  rw [toString?, hbytes, String.fromUTF8?, dif_pos text.isValidUTF8]
  rfl

/-- The symbols of a text are its characters. -/
theorem symbols_ofString (text : String) : symbols (ofString text) = text.toList.map some := by
  rw [symbols, toString?_ofString]

end Bytes

end Schemata

/-!
## Hexadecimal text is read back

Bytes come back from their digits, so different bytes have different texts. Each one has two digits.
-/

namespace Schemata.Hex

theorem digitValue?_digit : ∀ n < 16, digitValue? (digit n) = some n := by decide

/-- The digits of bytes read as these bytes. -/
theorem readBytes_digits (bytes : List UInt8) :
    readBytes (bytes.flatMap fun b => [digit (b.toNat / 16), digit (b.toNat % 16)]) =
      some bytes := by
  induction bytes with
  | nil => rfl
  | cons b rest ih =>
    have hb : b.toNat < 256 := b.toNat_lt
    have hhigh := digitValue?_digit (b.toNat / 16) (by omega)
    have hlow := digitValue?_digit (b.toNat % 16) (by omega)
    have hsum : 16 * (b.toNat / 16) + b.toNat % 16 = b.toNat := Nat.div_add_mod b.toNat 16
    simp only [List.flatMap_cons, List.cons_append, List.nil_append, readBytes, hhigh, hlow, ih,
      Option.bind_eq_bind, Option.bind_some, hsum, UInt8.ofNat_toNat]
    rfl

theorem toBytes?_ofBytes (bytes : List UInt8) : toBytes? (ofBytes bytes) = some bytes := by
  rw [toBytes?, ofBytes, String.toList_ofList, readBytes_digits]

theorem ofBytes_inj {a b : List UInt8} (e : ofBytes a = ofBytes b) : a = b := by
  have h := toBytes?_ofBytes a
  rw [e, toBytes?_ofBytes] at h
  exact (Option.some.inj h).symm

/-- There are two digits for each byte. -/
theorem length_ofBytes (bytes : List UInt8) : (ofBytes bytes).length = 2 * bytes.length := by
  rw [ofBytes, String.length_ofList]
  induction bytes with
  | nil => rfl
  | cons b rest ih =>
    simp only [List.flatMap_cons, List.length_append, ih, List.length_cons, List.length_nil]
    omega

end Schemata.Hex
