import Mathlib.Logic.Function.Iterate
import Schemata.Proofs.Container.Layout

/-!
# Local corruption is detected

A file is no longer one where bytes are missing at its end, where bytes follow it, or where it was
changed within four bytes in a row.
-/

/-!
## The checksum tells close messages apart

Taking in a bit is linear and loses nothing, and up to four bytes are taken in as one word. Two
messages of one length that differ within four bytes in a row therefore have different checksums.
-/

namespace Schemata.Crc32

/-! ### One bit -/

theorem testBit_shift (r : UInt32) (i : Nat) :
    (shift r).toNat.testBit i =
      (r.toNat.testBit (i + 1) ^^ (r.toNat.testBit 0 && polynomial.toNat.testBit i)) := by
  have hlow : r &&& 1 = 0 ↔ r.toNat.testBit 0 = false := by
    rw [← UInt32.toNat_inj, UInt32.toNat_and]
    simp [Nat.testBit_zero, Nat.and_one_is_mod]
  have hhigh : (r >>> 1).toNat.testBit i = r.toNat.testBit (i + 1) := by
    rw [UInt32.toNat_shiftRight]
    simp [Nat.testBit_shiftRight, Nat.add_comm]
  rw [shift]
  split
  · next h => rw [hhigh, hlow.1 h, Bool.false_and, Bool.xor_false]
  · next h =>
    have hone : r.toNat.testBit 0 = true := Bool.not_eq_false _ ▸ mt hlow.2 h
    rw [UInt32.toNat_xor, Nat.testBit_xor, hhigh, hone, Bool.true_and]

/-- Taking in a bit is linear. -/
theorem shift_xor (r r' : UInt32) : shift (r ^^^ r') = shift r ^^^ shift r' := by
  refine UInt32.toNat_inj.1 (Nat.eq_of_testBit_eq fun i => ?_)
  simp only [testBit_shift, UInt32.toNat_xor, Nat.testBit_xor]
  cases r.toNat.testBit (i + 1) <;> cases r'.toNat.testBit (i + 1) <;>
    cases r.toNat.testBit 0 <;> cases r'.toNat.testBit 0 <;>
    cases polynomial.toNat.testBit i <;> rfl

/-- Taking in a bit loses nothing: the top bit shows the bit that was taken out. -/
theorem shift_injective : Function.Injective shift := by
  intro r r' h
  have hbits (i : Nat) : _ = _ := congrArg (fun x : UInt32 => x.toNat.testBit i) h
  simp only [testBit_shift] at hbits
  have htop (x : UInt32) : x.toNat.testBit (31 + 1) = false :=
    Nat.testBit_lt_two_pow x.toNat_lt
  have hzero : r.toNat.testBit 0 = r'.toNat.testBit 0 := by
    have hpolynomial : polynomial.toNat.testBit 31 = true := by decide
    simpa [htop, hpolynomial] using hbits 31
  refine UInt32.toNat_inj.1 (Nat.eq_of_testBit_eq fun i => ?_)
  cases i with
  | zero => exact hzero
  | succ i => simpa [hzero] using hbits i

/-! ### Bytes -/

theorem iterate_shift_xor (n : Nat) (r r' : UInt32) :
    shift^[n] (r ^^^ r') = shift^[n] r ^^^ shift^[n] r' := by
  induction n generalizing r r' with
  | zero => rfl
  | succ n ih => rw [Function.iterate_succ_apply, shift_xor, ih]; rfl

/-- Zeros are taken out without a trace. -/
theorem shift_double {m : Nat} (h : 2 * m < 2 ^ 32) :
    shift (UInt32.ofNat (2 * m)) = UInt32.ofNat m := by
  have hm : m < 2 ^ 32 := by omega
  refine UInt32.toNat_inj.1 (Nat.eq_of_testBit_eq fun i => ?_)
  rw [testBit_shift, UInt32.toNat_ofNat_of_lt' h, UInt32.toNat_ofNat_of_lt' hm, Nat.testBit_succ,
    Nat.mul_div_cancel_left _ (by decide)]
  simp [Nat.testBit_zero]

theorem iterate_shift_mul {n m : Nat} (h : 2 ^ n * m < 2 ^ 32) :
    shift^[n] (UInt32.ofNat (2 ^ n * m)) = UInt32.ofNat m := by
  induction n with
  | zero => simp
  | succ n ih =>
    have hpow : 2 ^ (n + 1) * m = 2 * (2 ^ n * m) := by rw [Nat.pow_succ', Nat.mul_assoc]
    rw [hpow] at h ⊢
    rw [Function.iterate_succ_apply, shift_double h, ih (by omega)]

theorem absorb_eq (r : UInt32) (b : UInt8) : absorb r b = shift^[8] (r ^^^ b.toUInt32) := rfl

theorem absorb_injective (b : UInt8) : Function.Injective (absorb · b) := by
  intro r r' h
  have hxor : r ^^^ b.toUInt32 = r' ^^^ b.toUInt32 := shift_injective.iterate 8 h
  exact (UInt32.xor_left_inj _).1 hxor

/-- The register after some bytes shows the register before them. -/
theorem foldl_absorb_injective (bytes : List UInt8) :
    Function.Injective fun r => bytes.foldl absorb r := by
  induction bytes with
  | nil => exact Function.injective_id
  | cons b rest ih => exact ih.comp (absorb_injective b)

/-- The low byte of a number and the bytes above it. -/
theorem ofNat_add (b : UInt8) {m : Nat} (h : 256 * m < 2 ^ 32) :
    UInt32.ofNat (b.toNat + 256 * m) = b.toUInt32 ^^^ UInt32.ofNat (256 * m) := by
  have hb : b.toNat < 2 ^ 8 := b.toNat_lt
  have hsum : b.toNat + 256 * m = 2 ^ 8 * m + b.toNat := by omega
  have hlt : b.toNat + 256 * m < 2 ^ 32 := by omega
  refine UInt32.toNat_inj.1 (Nat.eq_of_testBit_eq fun i => ?_)
  rw [UInt32.toNat_xor, UInt32.toNat_ofNat_of_lt' hlt, UInt32.toNat_ofNat_of_lt' h, hsum,
    UInt8.toNat_toUInt32, Nat.testBit_xor, Nat.testBit_two_pow_mul_add m hb,
    show 256 * m = 2 ^ 8 * m from rfl, Nat.testBit_two_pow_mul]
  split
  · next hi => simp [Nat.not_le.2 hi]
  · next hi =>
    have hzero : b.toNat.testBit i = false :=
      Nat.testBit_lt_two_pow (Nat.lt_of_lt_of_le hb (Nat.pow_le_pow_right (by decide) (by omega)))
    simp [hzero, Nat.not_lt.1 hi]

/-- Up to four bytes are taken in as one word. -/
theorem foldl_absorb_word {bytes : List UInt8} (h : bytes.length ≤ 4) (r : UInt32) :
    bytes.foldl absorb r = shift^[8 * bytes.length] (r ^^^ UInt32.ofNat (Bytes.toNat bytes)) := by
  induction bytes generalizing r with
  | nil => simp [Bytes.toNat]
  | cons b rest ih =>
    rw [List.length_cons] at h ⊢
    have hrest : Bytes.toNat rest < 256 ^ 3 :=
      Nat.lt_of_lt_of_le (Bytes.toNat_lt rest) (Nat.pow_le_pow_right (by decide) (by omega))
    have hword : 2 ^ 8 * Bytes.toNat rest < 2 ^ 32 := by omega
    calc (b :: rest).foldl absorb r
        = shift^[8 * rest.length] (absorb r b ^^^ UInt32.ofNat (Bytes.toNat rest)) :=
        ih (by omega) _
      _ = shift^[8 * rest.length] (shift^[8] (r ^^^ b.toUInt32) ^^^
            shift^[8] (UInt32.ofNat (2 ^ 8 * Bytes.toNat rest))) := by
          rw [absorb_eq, iterate_shift_mul hword]
      _ = shift^[8 * rest.length] (shift^[8] (r ^^^ UInt32.ofNat (Bytes.toNat (b :: rest)))) := by
          rw [← iterate_shift_xor, UInt32.xor_assoc, Bytes.toNat, ofNat_add b hword]
          rfl
      _ = shift^[8 * (rest.length + 1)] (r ^^^ UInt32.ofNat (Bytes.toNat (b :: rest))) := by
          rw [← Function.iterate_add_apply, Nat.mul_add]

/-- Different bytes, up to four of them, leave different registers behind. -/
theorem eq_of_foldl_absorb_eq {bytes bytes' : List UInt8} (hlength : bytes.length = bytes'.length)
    (hshort : bytes.length ≤ 4) {r : UInt32} (h : bytes.foldl absorb r = bytes'.foldl absorb r) :
    bytes = bytes' := by
  rw [foldl_absorb_word hshort, foldl_absorb_word (hlength ▸ hshort), ← hlength] at h
  have hword := (UInt32.xor_right_inj _).1 (shift_injective.iterate _ h)
  have hlt {l : List UInt8} (hl : l.length ≤ 4) : Bytes.toNat l < 2 ^ 32 :=
    Nat.lt_of_lt_of_le (Bytes.toNat_lt l) (Nat.pow_le_pow_right (n := 256) (by decide) hl)
  have hnumber : Bytes.toNat bytes = Bytes.toNat bytes' := by
    rw [← UInt32.toNat_ofNat_of_lt' (hlt hshort), hword,
      UInt32.toNat_ofNat_of_lt' (hlt (hlength ▸ hshort))]
  rw [← Bytes.littleEndian_toNat bytes, hnumber, hlength, Bytes.littleEndian_toNat]

/-! ### Messages -/

/-- Messages with one checksum that differ within four bytes in a row do not differ. -/
theorem eq_of_checksum_eq {bytes bytes' : List UInt8} (h : checksum bytes = checksum bytes')
    (hlength : bytes.length = bytes'.length) (start : Nat)
    (hoff : ∀ j, j < start ∨ start + 4 ≤ j → bytes[j]? = bytes'[j]?) : bytes = bytes' := by
  have hparts (l : List UInt8) : l = l.take start ++
      ((l.drop start).take 4 ++ l.drop (start + 4)) := by
    rw [← List.drop_drop, List.take_append_drop, List.take_append_drop]
  have hbefore : bytes.take start = bytes'.take start := by
    refine List.ext_getElem? fun j => ?_
    rw [List.getElem?_take, List.getElem?_take]
    split
    · next hj => exact hoff j (.inl hj)
    · rfl
  have hafter : bytes.drop (start + 4) = bytes'.drop (start + 4) := by
    refine List.ext_getElem? fun j => ?_
    rw [List.getElem?_drop, List.getElem?_drop]
    exact hoff _ (.inr (by omega))
  have hfold := (UInt32.xor_left_inj _).1 h
  rw [hparts bytes, hparts bytes', hbefore, hafter] at hfold ⊢
  simp only [List.foldl_append] at hfold
  have hlength' : ((bytes.drop start).take 4).length = ((bytes'.drop start).take 4).length := by
    simp [hlength]
  have hshort : ((bytes.drop start).take 4).length ≤ 4 := List.length_take_le 4 _
  rw [eq_of_foldl_absorb_eq hlength' hshort (foldl_absorb_injective _ hfold)]

end Schemata.Crc32

/-! ## Files -/

namespace Schemata.Container

variable {bytes bytes' body body' : List UInt8}

/-! ### Places in a file -/

theorem Holds.length_eq (h : Holds bytes body) : bytes.length = body.length + 16 := by
  rw [h.2]
  simp only [List.length_append, List.length_cons, List.length_nil, Bytes.length_littleEndian]
  omega

/-- The body stands behind the sixteen bytes of the header. -/
theorem Holds.drop_eq (h : Holds bytes body) : bytes.drop 16 = body := by
  rw [h.2]
  exact List.drop_left' (by simp)

theorem Holds.getElem?_body (h : Holds bytes body) (j : Nat) : bytes[16 + j]? = body[j]? := by
  rw [← h.drop_eq, List.getElem?_drop]

/-- The checksum is the third word of the header. -/
theorem Holds.checksumBytes (h : Holds bytes body) :
    (bytes.drop 8).take 4 = Bytes.littleEndian 4 (Crc32.checksum body).toNat := by
  rw [h.2]
  simp

/-- The length of the body is the last word of the header. -/
theorem Holds.lengthBytes (h : Holds bytes body) :
    (bytes.drop 12).take 4 = Bytes.littleEndian 4 body.length := by
  rw [h.2]
  simp [List.drop_append, List.take_append]

theorem Holds.bytes_eq (h : Holds bytes body) (h' : Holds bytes' body) : bytes = bytes' := by
  rw [h.2, h'.2]

/-- Two files with one header have bodies of one length. -/
theorem length_eq_of_take_eq (h : Holds bytes body) (h' : Holds bytes' body')
    (hheader : bytes.take 16 = bytes'.take 16) : bytes.length = bytes'.length := by
  have hword (l : List UInt8) : (l.drop 12).take 4 = (l.take 16).drop 12 := by
    rw [List.drop_take]
  have hlength : body.length = body'.length := by
    have hbytes : Bytes.littleEndian 4 body.length = Bytes.littleEndian 4 body'.length := by
      rw [← h.lengthBytes, ← h'.lengthBytes, hword, hword, hheader]
    exact Bytes.littleEndian_inj (by exact h.1) (by exact h'.1) hbytes
  rw [h.length_eq, h'.length_eq, hlength]

/-- Two files that differ within four bytes in a row do not differ. -/
theorem eq_of_window (h : Holds bytes body) (h' : Holds bytes' body')
    (hlength : bytes'.length = bytes.length) {i : Nat}
    (hoff : ∀ j, j < i ∨ i + 4 ≤ j → bytes'[j]? = bytes[j]?) : bytes' = bytes := by
  have hbody : body' = body := by
    by_cases hi : i ≤ 12
    · -- The window ends in front of the body.
      refine List.ext_getElem? fun j => ?_
      rw [← h.getElem?_body, ← h'.getElem?_body]
      exact hoff (16 + j) (.inr (by omega))
    · -- The window starts behind the checksum.
      have hchecksum : Crc32.checksum body' = Crc32.checksum body := by
        have hbytes : (bytes'.drop 8).take 4 = (bytes.drop 8).take 4 := by
          refine List.ext_getElem? fun j => ?_
          rw [List.getElem?_take, List.getElem?_take, List.getElem?_drop, List.getElem?_drop]
          split
          · exact hoff _ (.inl (by omega))
          · rfl
        rw [h.checksumBytes, h'.checksumBytes] at hbytes
        exact UInt32.toNat_inj.1 (Bytes.littleEndian_inj (by exact UInt32.toNat_lt _)
          (by exact UInt32.toNat_lt _) hbytes)
      refine Crc32.eq_of_checksum_eq hchecksum ?_ (i - 16) fun j hj => ?_
      · have := h.length_eq
        have := h'.length_eq
        omega
      · rw [← h.getElem?_body, ← h'.getElem?_body]
        exact hoff (16 + j) (by omega)
  subst hbody
  exact h'.bytes_eq h

/-! ### Changed files -/

/-- A snapshot file is refused where bytes are missing at its end, where bytes follow it, and where
it was changed within four bytes in a row. -/
theorem decode_changed {s : Snapshot} (hencode : encode s = .ok bytes) :
    (∀ bytes', bytes' <+: bytes → bytes' ≠ bytes →
      ∃ fault, decode bytes' = .error (.invalidContainer fault)) ∧
    (∀ more, more ≠ [] → ∃ fault, decode (bytes ++ more) = .error (.invalidContainer fault)) ∧
    ∀ bytes', bytes'.length = bytes.length → bytes' ≠ bytes →
      (∃ i, ∀ j, j < i ∨ i + 4 ≤ j → bytes'[j]? = bytes[j]?) →
      ∃ fault, decode bytes' = .error (.invalidContainer fault) := by
  have hfile := encode_eq_ok_iff.1 hencode
  refine ⟨fun bytes' hprefix hne => ?_, fun more hmore => ?_, fun bytes' hlength hne hwindow => ?_⟩
  · refine decode_of_not_holds fun body' hfile' => hne ?_
    have hlong := hfile'.length_eq
    obtain ⟨rest, rfl⟩ := hprefix
    have hheader : (bytes' ++ rest).take 16 = bytes'.take 16 :=
      List.take_append_of_le_length (by omega)
    have hlength := length_eq_of_take_eq hfile hfile' hheader
    rw [List.length_append, Nat.add_eq_left, List.length_eq_zero_iff] at hlength
    rw [hlength, List.append_nil]
  · refine decode_of_not_holds fun body' hfile' => hmore ?_
    have hlong := hfile.length_eq
    have hheader : (bytes ++ more).take 16 = bytes.take 16 :=
      List.take_append_of_le_length (by omega)
    have hlength := length_eq_of_take_eq hfile' hfile hheader
    rwa [List.length_append, Nat.add_eq_left, List.length_eq_zero_iff] at hlength
  · obtain ⟨i, hoff⟩ := hwindow
    exact decode_of_not_holds fun body' hfile' => hne (eq_of_window hfile hfile' hlength hoff)

def blank : Snapshot := ⟨1, "af13", []⟩

theorem exists_encode_blank : ∃ bytes, encode blank = .ok bytes := by
  have hlength : (Bytes.ofString blank.text).length < 2 ^ 32 := by decide
  exact ⟨_, encode_eq_ok_iff.2 ⟨hlength, rfl⟩⟩

theorem decode_changed_blank :
    ∃ bytes, encode blank = .ok bytes ∧
      (∃ fault, decode [] = .error (.invalidContainer fault)) ∧
      (∃ fault, decode (bytes ++ [0]) = .error (.invalidContainer fault)) ∧
      ∃ fault, decode (bytes.set 20 0) = .error (.invalidContainer fault) := by
  obtain ⟨bytes, hencode⟩ := exists_encode_blank
  have hfile := encode_eq_ok_iff.1 hencode
  have hlength := hfile.length_eq
  have hlong : 4 < (Bytes.ofString blank.text).length := by decide
  have hbyte : bytes[20]? = some 114 := (hfile.getElem?_body 4).trans (by decide)
  obtain ⟨hmissing, hmore, hwindow⟩ := decode_changed hencode
  refine ⟨bytes, hencode, hmissing [] (List.nil_prefix) ?_, hmore [0] (by simp),
    hwindow _ (List.length_set ..) ?_ ⟨20, fun j hj => List.getElem?_set_ne (by omega) ..⟩⟩
  · rintro rfl
    cases hbyte
  · intro e
    rw [← e, List.getElem?_set_self (by omega)] at hbyte
    exact absurd hbyte (by decide)

end Schemata.Container
