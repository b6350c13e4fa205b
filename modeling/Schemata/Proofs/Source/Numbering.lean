import Mathlib.Data.List.DropRight
import Mathlib.Data.List.TakeWhile
import Schemata.Proofs.Source.Texts

/-!
# Lines and columns

The offset of a position undoes the numbering of lines and columns: every offset between two
characters is the one of the line and column that are counted there. A column behind the end of a
line is read as that end, a line behind the last one as the end of the text, and a position that
comes later in reading order never has a smaller offset.
-/

namespace Schemata

namespace Offset

variable {cs front back : List Char} {p q : Pos} {n : Nat}

/-- The characters behind the last newline. -/
def lastLine (cs : List Char) : List Char := cs.rtakeWhile (· != '\n')

/-- The number of the line in which a text goes on behind some characters: the first line is the one
without a newline in front of it. -/
def lineAfter (front : List Char) : Nat := 1 + front.count '\n'

/-- The column in which a text goes on behind some characters: the first column is the one behind a
newline. -/
def columnAfter (front : List Char) : Nat := 1 + (lastLine front).length

/-! ## First and last lines -/

theorem forall_ne_newline (h : '\n' ∉ cs) : ∀ c ∈ cs, (c != '\n') = true := by
  intro c hc
  rw [bne_iff_ne]
  rintro rfl
  exact h hc

theorem line_of_notMem (h : '\n' ∉ cs) : line cs = cs :=
  List.takeWhile_eq_self_iff.2 (forall_ne_newline h)

theorem newline_notMem_line (cs : List Char) : '\n' ∉ line cs := by
  intro h
  have := List.mem_takeWhile_imp h
  contradiction

/-- A text without a line break belongs to the line that follows. -/
theorem line_append_of_notMem (h : '\n' ∉ front) (back : List Char) :
    line (front ++ back) = front ++ line back :=
  List.takeWhile_append_of_pos (forall_ne_newline h)

/-- Only what is in front of a newline counts for the first line. -/
theorem line_append_newline (front back : List Char) :
    line (front ++ '\n' :: back) = line front := by
  by_cases h : '\n' ∈ front
  · obtain ⟨u, v, rfl, hu⟩ := List.eq_append_cons_of_mem h
    rw [List.append_assoc, List.cons_append, line_append_of_notMem hu, line_append_of_notMem hu]
    rfl
  · rw [line_append_of_notMem h, line_of_notMem h]
    exact List.append_nil front

/-- The last line is the first one that is met from behind. -/
theorem lastLine_eq (cs : List Char) : lastLine cs = (line cs.reverse).reverse := rfl

theorem lastLine_of_notMem (h : '\n' ∉ cs) : lastLine cs = cs := by
  rw [lastLine_eq, line_of_notMem (mt List.mem_reverse.1 h), List.reverse_reverse]

/-- Only what is behind a newline counts for the last line. -/
theorem lastLine_append_newline (front back : List Char) :
    lastLine (front ++ '\n' :: back) = lastLine back := by
  rw [lastLine_eq, List.reverse_append, List.reverse_cons, List.append_assoc, List.singleton_append,
    line_append_newline, ← lastLine_eq]

theorem newline_notMem_lastLine (cs : List Char) : '\n' ∉ lastLine cs :=
  mt List.mem_reverse.1 (newline_notMem_line cs.reverse)

/-! ## Lines that are left out -/

theorem dropLines_nil (n : Nat) : dropLines n [] = [] := by
  cases n with
  | zero => rfl
  | succ n => rfl

theorem dropLines_succ (n : Nat) (cs : List Char) :
    dropLines (n + 1) cs = dropLines n ((cs.dropWhile (· != '\n')).drop 1) := by
  cases cs with
  | nil => exact (dropLines_nil n).symm
  | cons c cs => rfl

/-- A line is left out with its newline. -/
theorem dropLines_succ_append (h : '\n' ∉ front) (n : Nat) (back : List Char) :
    dropLines (n + 1) (front ++ '\n' :: back) = dropLines n back := by
  rw [dropLines_succ, List.dropWhile_append_of_pos (forall_ne_newline h)]
  rfl

/-- Nothing is left if more lines are left out than there are newlines. -/
theorem dropLines_of_count_lt (h : cs.count '\n' < n) : dropLines n cs = [] := by
  induction n generalizing cs with
  | zero => exact absurd h (Nat.not_lt_zero _)
  | succ n ih =>
    by_cases hmem : '\n' ∈ cs
    · obtain ⟨u, v, rfl, hu⟩ := List.eq_append_cons_of_mem hmem
      rw [dropLines_succ_append hu]
      apply ih
      rw [List.count_append, List.count_cons_self] at h
      omega
    · have hnone : cs.dropWhile (· != '\n') = [] := by
        have h := List.takeWhile_append_dropWhile (p := (· != '\n')) (l := cs)
        rwa [← line, line_of_notMem hmem, List.append_right_eq_self] at h
      rw [dropLines_succ, hnone]
      exact dropLines_nil n

/-- Behind as many lines as there are newlines in front comes the rest of the last one. -/
theorem dropLines_count (front back : List Char) :
    dropLines (front.count '\n') (front ++ back) = lastLine front ++ back := by
  induction hn : front.count '\n' generalizing front with
  | zero =>
    rw [lastLine_of_notMem (List.count_eq_zero.1 hn)]
    rfl
  | succ n ih =>
    have hmem : '\n' ∈ front := List.count_pos_iff.1 (by omega)
    obtain ⟨u, v, rfl, hu⟩ := List.eq_append_cons_of_mem hmem
    rw [List.count_append, List.count_cons_self, List.count_eq_zero.2 hu, Nat.zero_add,
      Nat.add_right_cancel_iff] at hn
    rw [List.append_assoc, List.cons_append, dropLines_succ_append hu, lastLine_append_newline]
    exact ih v hn

/-- Lines are left out one after the other. -/
theorem dropLines_add (m n : Nat) (cs : List Char) :
    dropLines (m + n) cs = dropLines n (dropLines m cs) := by
  induction m generalizing cs with
  | zero => rw [Nat.zero_add, dropLines]
  | succ m ih => rw [Nat.add_right_comm, dropLines_succ, dropLines_succ, ih]

/-- As many lines as there are newlines can be left out, each with its newline. -/
theorem exists_lines (h : n ≤ cs.count '\n') :
    ∃ front, cs = front ++ dropLines n cs ∧ front.count '\n' = n := by
  induction n generalizing cs with
  | zero => exact ⟨[], rfl, rfl⟩
  | succ n ih =>
    have hmem : '\n' ∈ cs := List.count_pos_iff.1 (by omega)
    obtain ⟨u, v, rfl, hu⟩ := List.eq_append_cons_of_mem hmem
    rw [List.count_append, List.count_cons_self, List.count_eq_zero.2 hu, Nat.zero_add,
      Nat.add_le_add_iff_right] at h
    obtain ⟨front, hv, hcount⟩ := ih h
    rw [dropLines_succ_append hu]
    refine ⟨u ++ '\n' :: front, ?_, ?_⟩
    · rw [List.append_assoc, List.cons_append, ← hv]
    · rw [List.count_append, List.count_cons_self, List.count_eq_zero.2 hu, hcount, Nat.zero_add]

/-! ## Offsets of positions -/

/-- The offset of a position in a line: what is in front of the line and the characters up to the
column. -/
theorem ofPos_append (hline : max 1 p.line.toNat = lineAfter front) :
    ofPos (front ++ back) p =
      byteLength front - byteLength (lastLine front) +
        byteLength ((lastLine front ++ line back).take (p.column.toNat - 1)) := by
  have hcount : p.line.toNat - 1 = front.count '\n' := by
    rw [lineAfter] at hline
    omega
  rw [ofPos, hcount, dropLines_count, line_append_of_notMem (newline_notMem_lastLine front),
    byteLength_append, byteLength_append, Nat.add_sub_add_right]

/-- What is in front of the last line and the last line make up the whole. -/
theorem byteLength_sub_lastLine_add (front : List Char) :
    byteLength front - byteLength (lastLine front) + byteLength (lastLine front) =
      byteLength front := by
  obtain ⟨lines, hlines⟩ : lastLine front <:+ front := List.rtakeWhile_suffix _ front
  have h := congrArg byteLength hlines
  rw [byteLength_append] at h
  omega

/-- The line and the column that are counted in front of an offset lead to that offset. -/
theorem ofPos_of_numbered (hline : p.line.toNat = lineAfter front)
    (hcolumn : p.column.toNat = columnAfter front) :
    ofPos (front ++ back) p = byteLength front := by
  have hmax : max 1 p.line.toNat = lineAfter front := by
    rw [hline]
    exact max_eq_right (Nat.le_add_right 1 _)
  have htake : p.column.toNat - 1 = (lastLine front).length := by
    rw [hcolumn, columnAfter, Nat.add_sub_cancel_left]
  rw [ofPos_append hmax, htake, List.take_left, byteLength_sub_lastLine_add]

/-- A column behind the end of a line leads to that end. -/
theorem ofPos_of_column_ge (hline : max 1 p.line.toNat = lineAfter front) (hend : line back = [])
    (hcolumn : columnAfter front ≤ p.column.toNat) :
    ofPos (front ++ back) p = byteLength front := by
  have hlength : (lastLine front).length ≤ p.column.toNat - 1 := by
    rw [columnAfter] at hcolumn
    omega
  rw [ofPos_append hline, hend, List.append_nil, List.take_of_length_le hlength,
    byteLength_sub_lastLine_add]

/-- A text goes on behind a line with a newline or not at all. -/
theorem dropWhile_newline_cases (cs : List Char) :
    cs.dropWhile (· != '\n') = [] ∨ ∃ rest, cs.dropWhile (· != '\n') = '\n' :: rest := by
  have h := List.head?_dropWhile_not (· != '\n') cs
  cases hrest : cs.dropWhile (· != '\n') with
  | nil => exact .inl rfl
  | cons c rest =>
    rw [hrest] at h
    obtain rfl : c = '\n' := by simpa using h
    exact .inr ⟨rest, rfl⟩

/-- Each line has an end, and the columns from there on lead to it. -/
theorem exists_line_end (p : Pos) (h : max 1 p.line.toNat ≤ lineAfter cs) :
    ∃ front back, cs = front ++ back ∧ (back = [] ∨ ∃ rest, back = '\n' :: rest) ∧
      lineAfter front = max 1 p.line.toNat ∧
      (columnAfter front ≤ p.column.toNat → ofPos cs p = byteLength front) := by
  have hle : max 1 p.line.toNat - 1 ≤ cs.count '\n' := by
    rw [lineAfter] at h
    omega
  obtain ⟨lines, hcs, hcount⟩ := exists_lines hle
  set rest := dropLines (max 1 p.line.toNat - 1) cs
  have hsplit : cs = lines ++ line rest ++ rest.dropWhile (· != '\n') := by
    rw [List.append_assoc, line, List.takeWhile_append_dropWhile, ← hcs]
  have hline : lineAfter (lines ++ line rest) = max 1 p.line.toNat := by
    rw [lineAfter, List.count_append, hcount, List.count_eq_zero.2 (newline_notMem_line rest)]
    omega
  have hend := dropWhile_newline_cases rest
  refine ⟨_, _, hsplit, hend, hline, fun hcolumn => ?_⟩
  rw [hsplit]
  apply ofPos_of_column_ge hline.symm _ hcolumn
  rcases hend with hnil | ⟨next, hcons⟩
  · rw [hnil]
    rfl
  · rw [hcons]
    rfl

/-- A line behind the last one leads to the end of the text. -/
theorem ofPos_of_line_gt (h : lineAfter cs < p.line.toNat) : ofPos cs p = byteLength cs := by
  rw [ofPos, dropLines_of_count_lt]
  · simp [line, byteLength]
  · rw [lineAfter] at h
    omega

/-! ## Reading order -/

/-- The next line begins behind the end of a line, wherever it is cut off. -/
theorem byteLength_take_line_le (n : Nat) (cs : List Char) :
    byteLength (dropLines 1 cs) + byteLength ((line cs).take n) ≤ byteLength cs := by
  have hsplit : line cs ++ cs.dropWhile (· != '\n') = cs := List.takeWhile_append_dropWhile
  have hnext : dropLines 1 cs = (cs.dropWhile (· != '\n')).drop 1 := dropLines_succ 0 cs
  have hdrop := congrArg byteLength (List.take_append_drop 1 (cs.dropWhile (· != '\n')))
  have htake := byteLength_take_le (line cs) n
  have hlength := congrArg byteLength hsplit
  rw [byteLength_append] at hdrop hlength
  rw [hnext]
  omega

/-- Dropping lines leaves no more bytes. -/
theorem byteLength_dropLines_le (n : Nat) (cs : List Char) :
    byteLength (dropLines n cs) ≤ byteLength cs := by
  obtain ⟨front, hfront⟩ := dropLines_suffix n cs
  have h := congrArg byteLength hfront
  rw [byteLength_append] at h
  omega

/-- An earlier column of a line has no greater offset. -/
theorem ofPos_le_of_column_le (hline : p.line = q.line) (hcolumn : p.column ≤ q.column)
    (cs : List Char) :
    ofPos cs p ≤ ofPos cs q := by
  rw [ofPos, ofPos, hline]
  apply Nat.add_le_add_left
  apply byteLength_take_mono
  exact Nat.sub_le_sub_right (UInt32.le_iff_toNat_le.1 hcolumn) 1

/-- An earlier line has no greater offset. -/
theorem ofPos_le_of_line_lt (hpos : 1 ≤ p.line) (hline : p.line < q.line) (cs : List Char) :
    ofPos cs p ≤ ofPos cs q := by
  have hpos : 1 ≤ p.line.toNat := UInt32.le_iff_toNat_le.1 hpos
  have hline : p.line.toNat < q.line.toNat := UInt32.lt_iff_toNat_lt.1 hline
  obtain ⟨k, hk⟩ : ∃ k, q.line.toNat - 1 = p.line.toNat - 1 + 1 + k :=
    ⟨q.line.toNat - 1 - p.line.toNat, by omega⟩
  have hhere := byteLength_take_line_le (p.column.toNat - 1) (dropLines (p.line.toNat - 1) cs)
  have hthere := byteLength_dropLines_le k (dropLines 1 (dropLines (p.line.toNat - 1) cs))
  have hstart := byteLength_dropLines_le (p.line.toNat - 1) cs
  rw [ofPos, ofPos, hk, dropLines_add, dropLines_add]
  omega

/-- A position further on has no smaller offset. -/
theorem ofPos_le_of_before (hpos : 1 ≤ p.line) (h : p.before q = true) (cs : List Char) :
    ofPos cs p ≤ ofPos cs q := by
  simp only [Pos.before, Bool.or_eq_true, Bool.and_eq_true, decide_eq_true_eq, beq_iff_eq] at h
  rcases h with hline | ⟨hline, hcolumn⟩
  · exact ofPos_le_of_line_lt hpos hline cs
  · exact ofPos_le_of_column_le hline (UInt32.le_of_lt hcolumn) cs

end Offset

open Offset (lineAfter columnAfter)

/-- Offsets into a text that undo the numbering of its lines and columns. -/
structure Renumbers (text : String) (offset : Pos → Nat) : Prop where
  /-- An offset between characters is that of the line and the column which the characters in front
  of it count. -/
  inverts : ∀ n, String.Pos.Raw.IsValid text ⟨n⟩ → ∃ front back, text.toList = front ++ back ∧
    byteLength front = n ∧
    ∀ p : Pos, p.line.toNat = lineAfter front → p.column.toNat = columnAfter front → offset p = n
  isValid : ∀ p, String.Pos.Raw.IsValid text ⟨offset p⟩
  le_length : ∀ p, offset p ≤ text.utf8ByteSize
  /-- Each line of the text has an end, to which the columns from there on lead. -/
  line_end : ∀ p : Pos, max 1 p.line.toNat ≤ lineAfter text.toList →
    ∃ front back, text.toList = front ++ back ∧
    (back = [] ∨ ∃ rest, back = '\n' :: rest) ∧ lineAfter front = max 1 p.line.toNat ∧
    (columnAfter front ≤ p.column.toNat → offset p = byteLength front)
  text_end : ∀ p : Pos, lineAfter text.toList < p.line.toNat → offset p = text.utf8ByteSize
  mono : ∀ p q : Pos, 1 ≤ p.line → p.before q = true → offset p ≤ offset q

/-- Offsets in a known text undo the numbering of its lines and columns. -/
theorem SourceTexts.renumbers_of_get? {t : SourceTexts} {path text : String}
    (h : t.get? path = some text) :
    ∃ offset, (∀ p, t.offset? path p = some (offset p)) ∧ Renumbers text offset := by
  refine ⟨Offset.ofPos text.toList, fun p => ?_, ?_⟩
  · rw [offset?, h, Option.map_some]
  · constructor
    case inverts =>
      intro n hn
      obtain ⟨i, rfl⟩ := Offset.isValid_iff.1 hn
      refine ⟨_, _, (List.take_append_drop i text.toList).symm, rfl, fun p hline hcolumn => ?_⟩
      conv_lhs => rw [← List.take_append_drop i text.toList]
      exact Offset.ofPos_of_numbered hline hcolumn
    case isValid => exact Offset.isValid_ofPos text
    case le_length =>
      exact fun p => (Offset.ofPos_le text.toList p).trans_eq (byteLength_toList text)
    case line_end => exact fun p hp => Offset.exists_line_end p hp
    case text_end => exact fun p hp => (Offset.ofPos_of_line_gt hp).trans (byteLength_toList text)
    case mono => exact fun p q hpos hpq => Offset.ofPos_le_of_before hpos hpq text.toList

example : lineAfter "ab\ncd".toList = 2 ∧ columnAfter "ab\ncd".toList = 3 := by
  decide

namespace Sample

/-- The numbering of a text of three lines with a character of two bytes is undone. -/
theorem renumbers_accented : accented.get? "x.nex" = some "ab\ncdé\nf" ∧
    ∃ offset, (∀ p, accented.offset? "x.nex" p = some (offset p)) ∧ Renumbers "ab\ncdé\nf" offset :=
  ⟨rfl, SourceTexts.renumbers_of_get? rfl⟩

end Sample

end Schemata
