import Mathlib.Logic.Basic
import Schemata.Container.Basic
import Schemata.Proofs.Snapshot.Exchange

/-!
# What a snapshot file is

The decoder accepts a header and the body that it describes, and nothing else. What it then yields
depends on the body alone.
-/

namespace Schemata

/-- The snapshot that bytes of JSON hold. -/
def Snapshot.ofBytes? (body : List UInt8) : Option Snapshot :=
  (Json.parseSymbols? (Bytes.symbols body)).bind Snapshot.read

theorem Snapshot.ofBytes?_ofString (text : String) :
    ofBytes? (Bytes.ofString text) = ofText? text := by
  rw [ofBytes?, Bytes.symbols_ofString, ofText?, Json.parse?]

namespace Container

/-- The bytes are those of a file with the given body: the mark, the version, the checksum and the
length of the body as words with the least significant byte first, and the body. -/
def Holds (bytes body : List UInt8) : Prop :=
  body.length < 2 ^ 32 ∧
    bytes = [78, 69, 88, 83] ++ Bytes.littleEndian 4 1 ++
      Bytes.littleEndian 4 (Crc32.checksum body).toNat ++ Bytes.littleEndian 4 body.length ++ body

variable {bytes body : List UInt8} {h : Header}

/-! ## Words -/

@[simp]
theorem length_wordBytes (w : UInt32) : (wordBytes w).length = 4 :=
  Bytes.length_littleEndian 4 w.toNat

theorem word_wordBytes (w : UInt32) : word (wordBytes w) = w := by
  have hw : w.toNat < 256 ^ 4 := w.toNat_lt
  rw [word, wordBytes, Bytes.toNat_littleEndian, Nat.mod_eq_of_lt hw, UInt32.ofNat_toNat]

theorem wordBytes_word (h : bytes.length = 4) : wordBytes (word bytes) = bytes := by
  have hlt : Bytes.toNat bytes < 2 ^ 32 := by simpa [h] using Bytes.toNat_lt bytes
  rw [wordBytes, word, UInt32.toNat_ofNat_of_lt' hlt, ← h, Bytes.littleEndian_toNat]

/-! ## Headers -/

namespace Header

theorem length_toBytes (hmagic : h.magic.length = 4) : h.toBytes.length = 16 := by
  simp [toBytes, hmagic]

/-- A header comes back from its bytes, whatever stands behind them. -/
theorem ofBytes_toBytes (hmagic : h.magic.length = 4) (body : List UInt8) :
    ofBytes (h.toBytes ++ body) = h := by
  have hdrop {part : List UInt8} (hpart : part.length = 4) {n : Nat} (hn : 4 ≤ n) :
      part.drop n = [] := List.drop_eq_nil_of_le (by omega)
  simp [toBytes, ofBytes, List.drop_append, hmagic, hdrop, word_wordBytes]

/-- Sixteen bytes come back from the header that they stand for. -/
theorem toBytes_ofBytes (hlength : 16 ≤ bytes.length) :
    (ofBytes bytes).toBytes ++ bytes.drop 16 = bytes := by
  have hword {n : Nat} (hn : n ≤ 12) :
      wordBytes (word ((bytes.drop n).take 4)) = (bytes.drop n).take 4 :=
    wordBytes_word (by rw [List.length_take, List.length_drop]; omega)
  have hrest (n : Nat) : (bytes.drop n).take 4 ++ bytes.drop (n + 4) = bytes.drop n := by
    rw [← List.drop_drop, List.take_append_drop]
  simp only [ofBytes, toBytes, hword (show 4 ≤ 12 by decide), hword (show 8 ≤ 12 by decide),
    hword (show 12 ≤ 12 by decide), List.append_assoc, hrest 12, hrest 8, hrest 4,
    List.take_append_drop]

theorem ofBody?_eq_some_iff : ofBody? body = some h ↔
    body.length < 2 ^ 32 ∧ h =
      ⟨mark, formatVersion, Crc32.checksum body, UInt32.ofNat body.length⟩ := by
  rw [ofBody?]
  split
  · next hlt =>
    rw [Option.some.injEq, eq_comm]
    exact (and_iff_right hlt).symm
  · next hlt => exact iff_of_false nofun fun e => hlt e.1

end Header

/-- A header in front of a body is without fault exactly if it is the header of this body. -/
theorem fault?_eq_none_iff : fault? h body = none ↔ Header.ofBody? body = some h := by
  have hguard {p : Prop} [Decidable p] {fault : ContainerFault} {o : Option ContainerFault} :
      (if p then some fault else o) = none ↔ ¬p ∧ o = none := by
    split <;> simp [*]
  have hlength (n : UInt32) :
      body.length = n.toNat ↔ body.length < 2 ^ 32 ∧ n = UInt32.ofNat body.length := by
    constructor
    · intro e
      rw [e, UInt32.ofNat_toNat]
      exact ⟨n.toNat_lt, rfl⟩
    · rintro ⟨hlt, rfl⟩
      rw [UInt32.toNat_ofNat_of_lt' hlt]
  rw [Header.ofBody?_eq_some_iff]
  obtain ⟨magic, version, checksum, bodyLength⟩ := h
  simp only [fault?, hguard, ne_eq, not_not, and_true, hlength, Header.mk.injEq]
  constructor
  · rintro ⟨hmagic, hversion, ⟨hlt, hbody⟩, hchecksum⟩
    exact ⟨hlt, hmagic, hversion, hchecksum.symm, hbody⟩
  · rintro ⟨hlt, hmagic, hversion, hchecksum, hbody⟩
    exact ⟨hmagic, hversion, ⟨hlt, hbody⟩, hchecksum.symm⟩

/-- The bytes of a file are a header without fault and its body. -/
theorem holds_iff :
    Holds bytes body ↔ ∃ h, Header.ofBody? body = some h ∧ bytes = h.toBytes ++ body := by
  simp only [Header.ofBody?_eq_some_iff, and_assoc, exists_and_left, exists_eq_left, Holds]
  refine and_congr_right fun hlt => ?_
  rw [Header.toBytes, wordBytes, wordBytes, wordBytes, UInt32.toNat_ofNat_of_lt' hlt]
  rfl

/-! ## Decoding and encoding -/

/-- What comes of the snapshot that a body holds, if it holds any. -/
def outcome : Option Snapshot → Except Error Snapshot
  | some s => .ok s
  | none => .error .json

theorem outcome_eq_ok_iff {o : Option Snapshot} {s : Snapshot} :
    outcome o = .ok s ↔ o = some s := by
  cases o <;> simp [outcome]

theorem outcome_eq_json_iff {o : Option Snapshot} : outcome o = .error .json ↔ o = none := by
  cases o <;> simp [outcome]

theorem outcome_ne_invalidContainer (o : Option Snapshot) (fault : ContainerFault) :
    outcome o ≠ .error (.invalidContainer fault) := by
  cases o <;> simp [outcome]

/-- What a file yields depends on its body alone. -/
theorem decode_of_holds (hfile : Holds bytes body) :
    decode bytes = outcome (Snapshot.ofBytes? body) := by
  obtain ⟨h, hbody, rfl⟩ := holds_iff.1 hfile
  have hmagic : h.magic.length = 4 := by
    rw [(Header.ofBody?_eq_some_iff.1 hbody).2]
    rfl
  have hlength := Header.length_toBytes hmagic
  have hlong : ¬(h.toBytes ++ body).length < 16 := by
    rw [List.length_append]
    omega
  rw [decode, if_neg hlong]
  simp only [Header.ofBytes_toBytes hmagic, List.drop_left' hlength, fault?_eq_none_iff.2 hbody]
  rw [Snapshot.ofBytes?]
  cases (Json.parseSymbols? (Bytes.symbols body)).bind Snapshot.read <;> rfl

/-- What is no file is refused as none. -/
theorem decode_of_not_holds (hfile : ∀ body, ¬Holds bytes body) :
    ∃ fault, decode bytes = .error (.invalidContainer fault) := by
  rw [decode]
  split
  · exact ⟨_, rfl⟩
  · next hlength =>
    dsimp only
    cases hfault : fault? (Header.ofBytes bytes) (bytes.drop 16) with
    | some fault => exact ⟨fault, rfl⟩
    | none =>
      have hheader := fault?_eq_none_iff.1 hfault
      exact absurd (holds_iff.2 ⟨_, hheader, (Header.toBytes_ofBytes (by omega)).symm⟩) (hfile _)

/-- Encoding yields the file whose body is the text of the snapshot. -/
theorem encode_eq_ok_iff {s : Snapshot} :
    encode s = .ok bytes ↔ Holds bytes (Bytes.ofString s.text) := by
  rw [holds_iff, encode]
  cases Header.ofBody? (Bytes.ofString s.text) with
  | none => simp
  | some h => simp [eq_comm]

/-- What comes back of a snapshot that was encoded is what its text holds. -/
theorem decode_of_encode {s : Snapshot} (hs : encode s = .ok bytes) :
    decode bytes = outcome (Snapshot.ofText? s.text) := by
  rw [decode_of_holds (encode_eq_ok_iff.1 hs), Snapshot.ofBytes?_ofString]

theorem invalidContainer_iff :
    (∃ fault, decode bytes = .error (.invalidContainer fault)) ↔ ∀ body, ¬Holds bytes body := by
  refine ⟨?_, decode_of_not_holds⟩
  rintro ⟨fault, hfault⟩ body hfile
  rw [decode_of_holds hfile] at hfault
  exact outcome_ne_invalidContainer _ _ hfault

/-- The files that are decoded are those of the layout whose body is the JSON of a snapshot. A file
of the layout with another body fails as JSON, and everything else is no snapshot file. -/
theorem decode_iff_layout (bytes : List UInt8) :
    (∀ s, decode bytes = .ok s ↔ ∃ body, Holds bytes body ∧ Snapshot.ofBytes? body = some s) ∧
      (decode bytes = .error .json ↔ ∃ body, Holds bytes body ∧ Snapshot.ofBytes? body = none) ∧
      ((∃ fault, decode bytes = .error (.invalidContainer fault)) ↔ ∀ body, ¬Holds bytes body) ∧
      ∀ s, encode s = .ok bytes →
        Holds bytes (Bytes.ofString s.text) ∧ decode bytes = outcome (Snapshot.ofText? s.text) := by
  refine ⟨fun s => ⟨fun hs => ?_, ?_⟩, ⟨fun hjson => ?_, ?_⟩, invalidContainer_iff, fun s hs =>
    ⟨encode_eq_ok_iff.1 hs, decode_of_encode hs⟩⟩
  · by_cases hfile : ∃ body, Holds bytes body
    · obtain ⟨body, hbody⟩ := hfile
      rw [decode_of_holds hbody, outcome_eq_ok_iff] at hs
      exact ⟨body, hbody, hs⟩
    · obtain ⟨fault, hfault⟩ := decode_of_not_holds (not_exists.1 hfile)
      rw [hfault] at hs
      cases hs
  · rintro ⟨body, hbody, hs⟩
    rw [decode_of_holds hbody, hs]
    rfl
  · by_cases hfile : ∃ body, Holds bytes body
    · obtain ⟨body, hbody⟩ := hfile
      rw [decode_of_holds hbody, outcome_eq_json_iff] at hjson
      exact ⟨body, hbody, hjson⟩
    · obtain ⟨fault, hfault⟩ := decode_of_not_holds (not_exists.1 hfile)
      rw [hfault] at hjson
      cases hjson
  · rintro ⟨body, hbody, hnone⟩
    rw [decode_of_holds hbody, hnone]
    rfl

theorem exists_encode_specimen : ∃ bytes, encode .specimen = .ok bytes := by
  have hlength : Snapshot.specimen.text.length < 2 ^ 30 := by
    rw [Snapshot.text, Json.compact, String.length_ofList]
    decide +kernel
  have hbytes := Bytes.length_ofString_le Snapshot.specimen.text
  exact ⟨_, encode_eq_ok_iff.2 ⟨by omega, rfl⟩⟩

/-- A snapshot with types comes back from its file. -/
theorem decode_layout_specimen :
    ∃ bytes, encode .specimen = .ok bytes ∧ Holds bytes (Bytes.ofString Snapshot.specimen.text) ∧
      decode bytes = .ok .specimen := by
  obtain ⟨bytes, hbytes⟩ := exists_encode_specimen
  obtain ⟨hholds, hdecode⟩ := (decode_iff_layout bytes).2.2.2 .specimen hbytes
  refine ⟨bytes, hbytes, hholds, hdecode.trans ?_⟩
  rw [Snapshot.ofText?_text (by decide), if_pos (by decide)]
  rfl

end Container

end Schemata
