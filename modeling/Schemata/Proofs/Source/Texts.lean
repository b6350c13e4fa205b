import Mathlib.Data.List.Infix
import Schemata.Source

/-!
# Offsets and ranges in source texts

A position is read as an offset between two characters of the text, or at one of its ends, whatever
line and column it names. A range starts at such an offset, is inside the text, and is empty only at
the end of the text.

It also stops between two characters, unless its span is empty: such a span is widened by a byte and
not by a character, so in front of a character of several bytes the range stops inside of that
character.
-/

/-!
## The order of files

The order by package path and name is a linear one.
-/

namespace Schemata.FileRef

variable {f g h : FileRef}

/-- File names are ordered by their paths and then by their names. -/
theorem le_iff : f.le g ↔ f.path < g.path ∨ (f.path = g.path ∧ f.name ≤ g.name) := by
  simp [le]

theorem le_trans (hfg : f.le g) (hgh : g.le h) : f.le h := by
  rw [le_iff] at *
  rcases hfg with hfg | ⟨hfg, hfgn⟩
  · rcases hgh with hgh | ⟨hgh, -⟩
    · exact .inl (String.lt_trans hfg hgh)
    · exact .inl (hgh ▸ hfg)
  · rcases hgh with hgh | ⟨hgh, hghn⟩
    · exact .inl (hfg ▸ hgh)
    · exact .inr ⟨hfg.trans hgh, String.le_trans hfgn hghn⟩

theorem le_total (f g : FileRef) : f.le g ∨ g.le f := by
  rw [le_iff, le_iff]
  by_cases hlt : f.path < g.path
  · exact .inl (.inl hlt)
  · by_cases hgt : g.path < f.path
    · exact .inr (.inl hgt)
    · have hpath : f.path = g.path := String.le_antisymm (String.not_lt.1 hgt) (String.not_lt.1 hlt)
      rcases String.le_total f.name g.name with hname | hname
      · exact .inl (.inr ⟨hpath, hname⟩)
      · exact .inr (.inr ⟨hpath.symm, hname⟩)

theorem le_or_le (f g : FileRef) : (f.le g || g.le f) = true := by
  rw [Bool.or_eq_true]
  exact le_total f g

theorem le_antisymm (hfg : f.le g) (hgf : g.le f) : f = g := by
  rw [le_iff] at *
  rcases hfg with hfg | ⟨hpath, hfg⟩
  · rcases hgf with hgf | ⟨hpath, -⟩
    · exact absurd hgf (String.lt_asymm hfg)
    · exact absurd (hpath ▸ hfg) (String.lt_irrefl _)
  · rcases hgf with hgf | ⟨-, hgf⟩
    · exact absurd (hpath ▸ hgf) (String.lt_irrefl _)
    · obtain ⟨path, name⟩ := f
      obtain ⟨path', name'⟩ := g
      simp only at hpath hfg hgf
      rw [hpath, String.le_antisymm hfg hgf]

end Schemata.FileRef

/-! ## Offsets and ranges -/

namespace Schemata

/-! ### Lengths in bytes -/

theorem byteLength_append (cs cs' : List Char) :
    byteLength (cs ++ cs') = byteLength cs + byteLength cs' := by
  induction cs with
  | nil => rw [List.nil_append, byteLength, Nat.zero_add]
  | cons c cs ih => rw [List.cons_append, byteLength, byteLength, ih, Nat.add_assoc]

/-- The bytes counted are those of the UTF-8 form. -/
theorem byteLength_eq_utf8ByteSize (cs : List Char) :
    byteLength cs = (String.ofList cs).utf8ByteSize := by
  induction cs with
  | nil => rfl
  | cons c cs ih =>
    rw [byteLength, ih, String.ofList_cons, String.utf8ByteSize_append,
      String.utf8ByteSize_singleton]

/-- The bytes counted are those of the text. -/
theorem byteLength_toList (text : String) : byteLength text.toList = text.utf8ByteSize := by
  rw [byteLength_eq_utf8ByteSize, String.ofList_toList]

theorem byteLength_take_le (cs : List Char) (i : Nat) : byteLength (cs.take i) ≤ byteLength cs := by
  conv_rhs => rw [← List.take_append_drop i cs, byteLength_append]
  exact Nat.le_add_right _ _

theorem byteLength_take_succ {cs : List Char} {i : Nat} (hi : i < cs.length) :
    byteLength (cs.take (i + 1)) = byteLength (cs.take i) + cs[i].utf8Size := by
  rw [List.take_succ_eq_append_getElem hi, byteLength_append, byteLength, byteLength, Nat.add_zero]

/-- A longer front has no fewer bytes. -/
theorem byteLength_take_mono (cs : List Char) {i j : Nat} (h : i ≤ j) :
    byteLength (cs.take i) ≤ byteLength (cs.take j) := by
  rw [← Nat.min_eq_left h, ← List.take_take]
  exact byteLength_take_le (cs.take j) i

/-- More characters take at least the bytes of the next one more. -/
theorem byteLength_take_add_le {cs : List Char} {i j : Nat} (hi : i < cs.length) (h : i < j) :
    byteLength (cs.take i) + cs[i].utf8Size ≤ byteLength (cs.take j) := by
  rw [← byteLength_take_succ hi]
  exact byteLength_take_mono cs h

/-- Each character takes bytes, so the characters in front of an offset can be counted. -/
theorem byteLength_take_lt {cs : List Char} {i j : Nat} (hi : i < cs.length) (h : i < j) :
    byteLength (cs.take i) < byteLength (cs.take j) :=
  Nat.lt_of_lt_of_le (Nat.lt_add_of_pos_right cs[i].utf8Size_pos) (byteLength_take_add_le hi h)

namespace Offset

variable {text : String} {n i : Nat}

/-! ### Offsets between characters -/

/-- An offset is valid just if some of the first characters end there. -/
theorem isValid_iff :
    String.Pos.Raw.IsValid text ⟨n⟩ ↔ ∃ i, n = byteLength (text.toList.take i) := by
  conv_lhs => rw [← String.ofList_toList (s := text)]
  rw [String.Pos.Raw.isValid_ofList]
  simp only [byteLength_eq_utf8ByteSize]

/-- A byte behind a valid offset is valid just if the character there takes no more than
that byte. -/
theorem isValid_succ_iff (hi : i < text.toList.length) :
    String.Pos.Raw.IsValid text ⟨byteLength (text.toList.take i) + 1⟩ ↔
      text.toList[i].utf8Size = 1 := by
  rw [isValid_iff]
  constructor
  · rintro ⟨j, hj⟩
    -- more than `i` characters are in front, so the one at `i` is among them
    have hlt : i < j := by
      by_contra hle
      have := byteLength_take_mono text.toList (Nat.not_lt.1 hle)
      omega
    have hsize := byteLength_take_add_le hi hlt
    have hpos := text.toList[i].utf8Size_pos
    omega
  · intro h
    refine ⟨i + 1, ?_⟩
    rw [byteLength_take_succ hi, h]

/-! ### Positions -/

theorem dropLines_suffix (n : Nat) (cs : List Char) : dropLines n cs <:+ cs := by
  induction n generalizing cs with
  | zero => exact List.suffix_refl cs
  | succ n ih =>
    cases cs with
    | nil => exact List.suffix_refl []
    | cons c cs =>
      apply (ih _).trans
      apply (List.drop_suffix 1 _).trans
      exact List.dropWhile_suffix _

/-- The offset of a position is behind some of the first characters. -/
theorem exists_ofPos_eq (cs : List Char) (p : Pos) : ∃ i, ofPos cs p = byteLength (cs.take i) := by
  obtain ⟨front, hfront⟩ := dropLines_suffix (p.line.toNat - 1) cs
  obtain ⟨back, hback⟩ : (line (dropLines (p.line.toNat - 1) cs)).take (p.column.toNat - 1) <+:
      dropLines (p.line.toNat - 1) cs := (List.take_prefix _ _).trans (List.takeWhile_prefix _)
  set rest := dropLines (p.line.toNat - 1) cs
  set here := (line rest).take (p.column.toNat - 1)
  have hcs : (front ++ here) ++ back = cs := by rw [List.append_assoc, hback, hfront]
  refine ⟨(front ++ here).length, ?_⟩
  have hlen : byteLength cs - byteLength rest = byteLength front := by
    rw [← hfront, byteLength_append, Nat.add_sub_cancel]
  rw [← hcs, List.take_left, byteLength_append, hcs, ← hlen]
  rfl

theorem ofPos_le (cs : List Char) (p : Pos) : ofPos cs p ≤ byteLength cs := by
  obtain ⟨i, hi⟩ := exists_ofPos_eq cs p
  rw [hi]
  exact byteLength_take_le cs i

/-- Every position is turned into a boundary between two characters. -/
theorem isValid_ofPos (text : String) (p : Pos) :
    String.Pos.Raw.IsValid text ⟨ofPos text.toList p⟩ :=
  isValid_iff.2 (exists_ofPos_eq text.toList p)

def CharAt (cs : List Char) (n : Nat) (c : Char) : Prop :=
  ∃ i, n = byteLength (cs.take i) ∧ cs[i]? = some c

/-- A character is the only one at its offset. -/
theorem charAt_take_iff {cs : List Char} (hi : i < cs.length) {c : Char} :
    CharAt cs (byteLength (cs.take i)) c ↔ c = cs[i] := by
  constructor
  · rintro ⟨j, hj, hc⟩
    obtain ⟨hj', rfl⟩ := List.getElem?_eq_some_iff.1 hc
    rcases Nat.lt_trichotomy i j with hlt | rfl | hlt
    · exact absurd hj (byteLength_take_lt hi hlt).ne
    · rfl
    · exact absurd hj (byteLength_take_lt hj' hlt).ne'
  · rintro rfl
    exact ⟨i, rfl, List.getElem?_eq_getElem hi⟩

/-- The offset widened by a byte, where the text goes on, is valid unless a character of several
bytes starts there. -/
theorem isValid_widened_iff (p : Pos) :
    String.Pos.Raw.IsValid text ⟨min (ofPos text.toList p + 1) (byteLength text.toList)⟩ ↔
      ∀ c, CharAt text.toList (ofPos text.toList p) c → c.utf8Size = 1 := by
  obtain ⟨i, hi⟩ := exists_ofPos_eq text.toList p
  rw [hi]
  by_cases hlt : i < text.toList.length
  · have hnext : byteLength (text.toList.take i) + 1 ≤ byteLength text.toList := by
      have := byteLength_take_lt hlt hlt
      rwa [List.take_length] at this
    rw [Nat.min_eq_left hnext, isValid_succ_iff hlt]
    simp only [charAt_take_iff hlt, forall_eq]
  · -- at the end of the text nothing is widened, and no character starts
    have hall : text.toList.take i = text.toList := List.take_of_length_le (Nat.not_lt.1 hlt)
    rw [hall, Nat.min_eq_right (Nat.le_succ _)]
    refine iff_of_true (isValid_iff.2 ⟨i, by rw [hall]⟩) ?_
    rintro c ⟨j, hj, hc⟩
    obtain ⟨hj', -⟩ := List.getElem?_eq_some_iff.1 hc
    have := byteLength_take_lt hj' hj'
    rw [List.take_length] at this
    exact absurd hj this.ne'

end Offset

/-! ### Ranges -/

/-- A range of a text for a span whose ends are at the offsets `first` and `last`. -/
structure RangeFits (text : String) (first last : Nat) (range : Nat × Nat) : Prop where
  start_eq : range.1 = first
  start_le_stop : range.1 ≤ range.2
  stop_le : range.2 ≤ text.utf8ByteSize
  start_lt_stop : range.1 < range.2 ∨ range.1 = text.utf8ByteSize
  isValid_start : String.Pos.Raw.IsValid text ⟨range.1⟩
  /-- Only a range that had to be widened may stop inside a character. -/
  isValid_stop : String.Pos.Raw.IsValid text ⟨range.2⟩ ↔
    first < last ∨ ∀ c, Offset.CharAt text.toList first c → c.utf8Size = 1

namespace RangeFits

variable {text : String} {p q : Pos}

/-- A range between the offsets of two positions, the first of which comes in front. -/
theorem of_lt (h : Offset.ofPos text.toList p < Offset.ofPos text.toList q) :
    RangeFits text (Offset.ofPos text.toList p) (Offset.ofPos text.toList q)
      (Offset.ofPos text.toList p, Offset.ofPos text.toList q) where
  start_eq := rfl
  start_le_stop := h.le
  stop_le := (Offset.ofPos_le text.toList q).trans_eq (byteLength_toList text)
  start_lt_stop := .inl h
  isValid_start := Offset.isValid_ofPos text p
  isValid_stop := iff_of_true (Offset.isValid_ofPos text q) (.inl h)

/-- An empty range widened by a byte, where the text goes on. -/
theorem of_not_lt (h : ¬Offset.ofPos text.toList p < Offset.ofPos text.toList q) :
    RangeFits text (Offset.ofPos text.toList p) (Offset.ofPos text.toList q)
      (Offset.ofPos text.toList p, min (Offset.ofPos text.toList p + 1)
        (byteLength text.toList)) := by
  have hle := Offset.ofPos_le text.toList p
  constructor
  case start_eq => rfl
  case start_le_stop => exact le_min (Nat.le_succ _) hle
  case stop_le => exact (min_le_right _ _).trans_eq (byteLength_toList text)
  case start_lt_stop =>
    rw [← byteLength_toList]
    rcases hle.lt_or_eq with hinside | hend
    · exact .inl (lt_min (Nat.lt_succ_self _) hinside)
    · exact .inr hend
  case isValid_start => exact Offset.isValid_ofPos text p
  case isValid_stop => rw [Offset.isValid_widened_iff, or_iff_right h]

end RangeFits

/-- The range of a span starts where the span does, is inside the text, and is empty at the end of
the text only. Both its ends are between characters, unless the span is empty and in front of a
character of several bytes. -/
theorem SourceTexts.rangeFits_of_get? {t : SourceTexts} {path text : String}
    (h : t.get? path = some text) (span : Span) : ∃ first last range,
      t.offset? path span.start = some first ∧ t.offset? path span.stop = some last ∧
      t.range? path span = some range ∧ RangeFits text first last range := by
  simp only [offset?, range?, h, Option.map_some, Option.some.injEq]
  by_cases hlt : Offset.ofPos text.toList span.start < Offset.ofPos text.toList span.stop
  · rw [Nat.max_eq_left hlt.le, if_neg hlt.ne]
    exact ⟨_, _, _, rfl, rfl, rfl, .of_lt hlt⟩
  · rw [Nat.max_eq_right (Nat.not_lt.1 hlt), if_pos rfl]
    exact ⟨_, _, _, rfl, rfl, rfl, .of_not_lt hlt⟩

namespace Sample

def accented : SourceTexts := SourceTexts.empty.add "x.nex" "ab\ncdé\nf"

def beforeAccent : Span := ⟨⟨2, 3⟩, ⟨2, 3⟩⟩

/-- The range of an empty span in front of a character of two bytes. -/
theorem rangeFits_accented : accented.get? "x.nex" = some "ab\ncdé\nf" ∧ ∃ first last range,
    accented.offset? "x.nex" beforeAccent.start = some first ∧
      accented.offset? "x.nex" beforeAccent.stop = some last ∧
      accented.range? "x.nex" beforeAccent = some range ∧ RangeFits "ab\ncdé\nf" first last range :=
  ⟨rfl, SourceTexts.rangeFits_of_get? rfl beforeAccent⟩

/-- The range of an empty span in front of a character of two bytes stops inside of
that character. -/
theorem not_isValid_stop_accented :
    accented.range? "x.nex" beforeAccent = some (5, 6) ∧
      ¬String.Pos.Raw.IsValid "ab\ncdé\nf" ⟨6⟩ := by
  decide

end Sample

end Schemata
