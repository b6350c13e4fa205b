import Mathlib.Data.List.Infix
import Schemata.Diagnostic.Excerpt
import Schemata.Proofs.Source.Texts

/-!
# What an excerpt shows

The lines of a text follow one another without a gap, so each byte is in one line, and a place is
found there behind the characters in front of it. A window shows a part of a line that has the
columns of the window at most. The rows that are painted below the line are as many as the layout of
its marks has, and a stroke only ever makes them longer.
-/

namespace Schemata.Excerpt

/-! ## Lines -/

namespace Line

def whole (l : Line) : List Char :=
  l.text ++ match l.ending with
    | 0 => []
    | 1 => ['\n']
    | _ => ['\r', '\n']

theorem number_terminated (number start : Nat) (cs : List Char) :
    (terminated number start cs).number = number := by
  unfold terminated
  split <;> rfl

theorem start_terminated (number start : Nat) (cs : List Char) :
    (terminated number start cs).start = start := by
  unfold terminated
  split <;> rfl

/-- A line that ends with a line feed keeps all its characters. -/
theorem whole_terminated (number start : Nat) (cs : List Char) :
    (terminated number start cs).whole = cs ++ ['\n'] := by
  unfold terminated
  split
  · next h =>
    rw [whole]
    conv_rhs => rw [← List.dropLast_append_getLast? _ h, List.append_assoc]
    rfl
  · rfl

theorem stop_terminated (number start : Nat) (cs : List Char) :
    (terminated number start cs).stop = start + byteLength (cs ++ ['\n']) := by
  unfold terminated
  split
  · next h =>
    have hlength : byteLength cs = byteLength cs.dropLast + 1 := by
      conv_lhs => rw [← List.dropLast_append_getLast? _ h, byteLength_append]
      rfl
    rw [byteLength_append, hlength, stop, textStop, Nat.add_assoc, Nat.add_assoc]
    rfl
  · rw [byteLength_append, stop, textStop, Nat.add_assoc]
    rfl

/-- Lines that are numbered one by one and follow one another without a gap, up to an offset. -/
def Run (number start : Nat) : List Line → Nat → Prop
  | [], stop => stop = start
  | l :: ls, stop => l.number = number ∧ l.start = start ∧ Run (number + 1) l.stop ls stop

namespace Run

variable {number start stop offset : Nat} {l : Line} {ls : List Line}

/-- The lines are numbered one by one from the first. -/
theorem numbers (h : Run number start ls stop) :
    ls.map (·.number) = List.range' number ls.length := by
  induction ls generalizing number start with
  | nil => rfl
  | cons l ls ih =>
    obtain ⟨hnumber, -, hrest⟩ := h
    rw [List.map_cons, ih hrest, hnumber, List.length_cons, List.range'_succ]

/-- No line begins before the run does. -/
theorem start_le_of_mem (h : Run number start ls stop) (hl : l ∈ ls) : start ≤ l.start := by
  induction ls generalizing number start with
  | nil => cases hl
  | cons l' ls ih =>
    obtain ⟨-, rfl, hrest⟩ := h
    rcases List.mem_cons.1 hl with rfl | hl
    · exact Nat.le_refl _
    · have hle := ih hrest hl
      rw [Line.stop, textStop] at hle
      omega

/-- An offset of a line is found in this line. -/
theorem holding_eq (h : Run number start ls stop) (hl : l ∈ ls) (hstart : l.start ≤ offset)
    (hstop : offset < l.stop) : holding offset ls = l := by
  induction ls generalizing number start with
  | nil => cases hl
  | cons l' ls ih =>
    obtain ⟨-, -, hrest⟩ := h
    cases ls with
    | nil =>
      obtain rfl := List.mem_singleton.1 hl
      rfl
    | cons next ls =>
      show (if offset < l'.stop then l' else holding offset (next :: ls)) = l
      rcases List.mem_cons.1 hl with rfl | hl
      · rw [if_pos hstop]
      · have hbehind := hrest.start_le_of_mem hl
        rw [if_neg (by omega), ih hrest hl]

/-- Every offset up to the end of the lines is in one of them. -/
theorem exists_mem (h : Run number start ls stop) (hstart : start ≤ offset)
    (hstop : offset < stop) :
    ∃ l ∈ ls, l.start ≤ offset ∧ offset < l.stop := by
  induction ls generalizing number start with
  | nil =>
    rw [Run] at h
    omega
  | cons l ls ih =>
    obtain ⟨-, rfl, hrest⟩ := h
    by_cases hl : offset < l.stop
    · exact ⟨l, List.mem_cons_self, hstart, hl⟩
    · obtain ⟨l', hl', hin⟩ := ih hrest (Nat.le_of_not_lt hl)
      exact ⟨l', List.mem_cons_of_mem _ hl', hin⟩

end Run

/-- The pieces between line feeds make a run of lines, which have all characters of the pieces. -/
theorem run_ofPieces (number start : Nat) (pieces : List (List Char)) :
    Run number start (ofPieces number start pieces)
        (start + byteLength (['\n'].intercalate pieces)) ∧
      (ofPieces number start pieces).flatMap (·.whole) = ['\n'].intercalate pieces := by
  fun_induction ofPieces number start pieces with
  | case1 => exact ⟨rfl, rfl⟩
  | case2 number start last hempty =>
    obtain rfl := List.isEmpty_iff.1 hempty
    exact ⟨rfl, rfl⟩
  | case3 number start last => exact ⟨⟨rfl, rfl, by simp [Run, stop, textStop]⟩, by simp [whole]⟩
  | case4 number start piece pieces hne l ih =>
    obtain ⟨hrun, hwhole⟩ := ih
    obtain ⟨next, rest, rfl⟩ : ∃ next rest, pieces = next :: rest :=
      List.exists_cons_of_ne_nil hne
    rw [List.intercalate_cons_cons]
    constructor
    · refine ⟨number_terminated .., start_terminated .., ?_⟩
      rwa [byteLength_append, ← Nat.add_assoc, ← stop_terminated number]
    · rw [List.flatMap_cons, hwhole, whole_terminated]

/-- The lines of a text are a run, and with their endings they are the text. -/
theorem run_ofText (cs : List Char) :
    Run 1 0 (ofText cs) (byteLength cs) ∧ (ofText cs).flatMap (·.whole) = cs := by
  unfold ofText
  split
  · next hempty =>
    obtain rfl := List.isEmpty_iff.1 hempty
    exact ⟨⟨rfl, rfl, rfl⟩, rfl⟩
  · have htext : ['\n'].intercalate (cs.splitOnP (· == '\n')) = cs := by
      rw [← List.splitOn_eq_splitOnP, List.intercalate_splitOn]
    have hpieces := run_ofPieces 1 0 (cs.splitOnP (· == '\n'))
    rwa [htext, Nat.zero_add] at hpieces

/-- The lines of a text are numbered from 1, and every byte of the text is in one of them, which is
the one that is found for it. -/
theorem holding_ofText (cs : List Char) :
    (ofText cs).map (·.number) = List.range' 1 (ofText cs).length ∧
      ∀ offset < byteLength cs, ∃ l ∈ ofText cs, l.start ≤ offset ∧ offset < l.stop ∧
        holding offset (ofText cs) = l ∧
        ∀ l' ∈ ofText cs, l'.start ≤ offset → offset < l'.stop → l' = l := by
  have hrun := (run_ofText cs).1
  refine ⟨hrun.numbers, fun offset hoffset => ?_⟩
  obtain ⟨l, hl, hstart, hstop⟩ := hrun.exists_mem (Nat.zero_le _) hoffset
  have hholding := hrun.holding_eq hl hstart hstop
  refine ⟨l, hl, hstart, hstop, hholding, fun l' hl' hstart' hstop' => ?_⟩
  rw [← hholding, hrun.holding_eq hl' hstart' hstop']

end Line

/-! ## Places -/

theorem takeBytes_prefix (n : Nat) (cs : List Char) : takeBytes n cs <+: cs := by
  induction cs generalizing n with
  | nil => exact List.nil_prefix
  | cons c cs ih =>
    rw [takeBytes]
    split
    · exact List.cons_prefix_cons.2 ⟨rfl, ih _⟩
    · exact List.nil_prefix

/-- As many bytes as some characters at the start have lead back to these characters. -/
theorem takeBytes_append (front rest : List Char) :
    takeBytes (byteLength front) (front ++ rest) = front := by
  induction front with
  | nil =>
    cases rest with
    | nil => rfl
    | cons c rest =>
      have hpos := c.utf8Size_pos
      rw [byteLength, List.nil_append, takeBytes, if_neg (by omega)]
  | cons c front ih =>
    rw [byteLength, List.cons_append, takeBytes, if_pos (Nat.le_add_right ..),
      Nat.add_sub_cancel_left, ih]

theorem textWidth_append (a b : List Char) :
    Text.textWidth (a ++ b) = Text.textWidth a + Text.textWidth b := by
  induction a with
  | nil => exact (Nat.zero_add _).symm
  | cons c a ih =>
    show Text.charWidth c + Text.textWidth (a ++ b) = Text.charWidth c + Text.textWidth a + _
    rw [ih, Nat.add_assoc]

/-- The columns of two texts put together are added. -/
theorem columns_append (a b : List Char) : columns (a ++ b) = columns a + columns b := by
  rw [columns, shown, List.flatMap_append, textWidth_append]
  rfl

namespace Place

/-- A place is behind the characters that come before it in its line. -/
theorem ofOffset_eq {cs front rest : List Char} {l : Line} (hl : l ∈ Line.ofText cs)
    (htext : l.text = front ++ rest) (hin : l.start + byteLength front < l.stop) :
    ofOffset (Line.ofText cs) (l.start + byteLength front) =
      ⟨l.number, ⟨front.length, columns front⟩, l.start + byteLength front⟩ := by
  have hholding := (Line.run_ofText cs).1.holding_eq hl (Nat.le_add_right ..) hin
  rw [ofOffset, hholding, Nat.add_sub_cancel_left, htext, takeBytes_append]
  rfl

/-- No place is behind the end of its line. -/
theorem column_ofOffset_le (lines : List Line) (offset : Nat) :
    (ofOffset lines offset).spot.char ≤ (Line.holding offset lines).text.length ∧
      (ofOffset lines offset).spot.column ≤ columns (Line.holding offset lines).text := by
  obtain ⟨rest, hrest⟩ := takeBytes_prefix (offset - (Line.holding offset lines).start)
    (Line.holding offset lines).text
  constructor
  · conv_rhs => rw [← hrest, List.length_append]
    exact Nat.le_add_right ..
  · conv_rhs => rw [← hrest, columns_append]
    exact Nat.le_add_right ..

end Place

/-! ## Windows -/

theorem isSuffix_dropWidth (n : Nat) (cs : List Char) : Text.dropWidth n cs <:+ cs := by
  fun_induction Text.dropWidth n cs with
  | case1 => exact List.suffix_refl _
  | case2 => exact List.suffix_refl _
  | case3 n c cs ih => exact ih.trans (List.suffix_cons c cs)

theorem isPrefix_takeWidth (n : Nat) (cs : List Char) : Text.takeWidth n cs <+: cs := by
  induction cs generalizing n with
  | nil => exact List.nil_prefix
  | cons c cs ih =>
    rw [Text.takeWidth]
    split
    · exact List.cons_prefix_cons.2 ⟨rfl, ih _⟩
    · exact List.nil_prefix

theorem textWidth_takeWidth_le (n : Nat) (cs : List Char) :
    Text.textWidth (Text.takeWidth n cs) ≤ n := by
  induction cs generalizing n with
  | nil => exact Nat.zero_le n
  | cons c cs ih =>
    rw [Text.takeWidth]
    split
    · next hfits =>
      have hrest := ih (n - Text.charWidth c)
      show Text.charWidth c + Text.textWidth (Text.takeWidth (n - Text.charWidth c) cs) ≤ n
      omega
    · exact Nat.zero_le n

namespace Window

/-- A window shows a part of the line, in no more columns than the window has or there is
room for. -/
theorem code_view (w : Window) (l : Line) :
    (w.view l).code <:+: shown l.text ∧
      Text.textWidth (w.view l).code ≤ max w.room (w.right - w.left) := by
  constructor
  · exact (isPrefix_takeWidth _ _).isInfix.trans (isSuffix_dropWidth _ _).isInfix
  · refine Nat.le_trans (textWidth_takeWidth_le _ _) ?_
    generalize Text.textWidth (shown l.text) = width
    split <;> omega

end Window

/-! ## Rows -/

namespace Row

/-- Writing into a row makes it as long as the text needs and never shorter. -/
theorem length_write (column : Nat) (text : List Char) (row : Row) :
    (write column text row).length =
      if text.isEmpty then row.length else max row.length (column + text.length) := by
  unfold write
  split
  · rfl
  · simp only [List.length_append, List.length_take, List.length_replicate, List.length_drop]
    omega

/-- A text that is put on a row is seen there. -/
theorem getElem?_write_of_lt {column i : Nat} {text : List Char} (row : Row)
    (hi : i < text.length) :
    (write column text row)[column + i]? = text[i]? := by
  have hfront : (row.take column ++ List.replicate (column - row.length) ' ').length = column := by
    rw [List.length_append, List.length_take, List.length_replicate]
    omega
  have hne : text.isEmpty = false := by
    cases text with
    | nil => exact absurd hi (Nat.not_lt_zero i)
    | cons c text => rfl
  rw [write, hne, if_neg Bool.false_ne_true, List.append_assoc,
    List.getElem?_append_right (by omega), hfront, Nat.add_sub_cancel_left,
    List.getElem?_append_left hi]

end Row

/-- Painting strokes changes what the rows hold and not how many there are. -/
theorem length_paint (rows : List Row) (strokes : List Stroke) :
    (paint rows strokes).length = rows.length := by
  induction strokes generalizing rows with
  | nil => rfl
  | cons s strokes ih =>
    rw [paint, List.foldl_cons, ← paint, ih, Stroke.onto, List.length_modify]

/-- Strokes make no row shorter. -/
theorem length_le_paint (rows : List Row) (strokes : List Stroke) {i : Nat} {row : Row}
    (hrow : rows[i]? = some row) :
    ∃ painted, (paint rows strokes)[i]? = some painted ∧ row.length ≤ painted.length := by
  induction strokes generalizing rows row with
  | nil => exact ⟨row, hrow, Nat.le_refl _⟩
  | cons s strokes ih =>
    have honto : ∃ row', (Stroke.onto rows s)[i]? = some row' ∧ row.length ≤ row'.length := by
      rw [Stroke.onto, List.getElem?_modify, hrow]
      split
      · refine ⟨_, rfl, ?_⟩
        rw [Row.length_write]
        split <;> omega
      · exact ⟨row, rfl, Nat.le_refl _⟩
    obtain ⟨row', hrow', hle⟩ := honto
    obtain ⟨painted, hpainted, hle'⟩ := ih _ hrow'
    exact ⟨painted, hpainted, Nat.le_trans hle hle'⟩

/-- The last stroke is on top of all others. -/
theorem getElem?_paint_concat {rows : List Row} (strokes : List Stroke) {s : Stroke}
    (hrow : s.row < rows.length) {i : Nat} (hi : i < s.text.length) :
    ∃ row, (paint rows (strokes ++ [s]))[s.row]? = some row ∧ row[s.column + i]? = s.text[i]? := by
  have hplace : s.row < (paint rows strokes).length := by rwa [length_paint]
  refine ⟨Row.write s.column s.text (paint rows strokes)[s.row], ?_, Row.getElem?_write_of_lt _ hi⟩
  have hlast : paint rows (strokes ++ [s]) = Stroke.onto (paint rows strokes) s := List.foldl_append
  rw [hlast, Stroke.onto, List.getElem?_modify, List.getElem?_eq_getElem hplace]
  exact congrArg some (if_pos rfl)

namespace MarkedLine

theorem length_shorten (room : Nat) (column : Nat → Nat) (rows : List Row) (m : Mark)
    (isCrossed : Bool) : (shorten room column rows m isCrossed).length = rows.length := by
  unfold shorten
  split
  · simp only [List.length_modify]
  · rfl

/-- Rows that are changed one step after another stay as many as they were. -/
theorem length_foldl_rows {α : Type} {step : List Row → α → List Row}
    (h : ∀ rows a, (step rows a).length = rows.length) (l : List α) (rows : List Row) :
    (l.foldl step rows).length = rows.length := by
  induction l generalizing rows with
  | nil => rfl
  | cons a l ih => rw [List.foldl_cons, ih, h]

/-- A line takes one row where all its marks are bars beside it. Otherwise it takes a row for its
underlines too, and below that one for each level of its labels. -/
theorem length_rows (f : Frame) (w : Window) (m : MarkedLine) :
    (m.rows f w).1.length =
      if m.quietBars?.isSome then 1 else (Layout.ofMarks m.marks).height + 2 := by
  unfold rows
  cases m.quietBars? with
  | some depths => exact length_paint _ _
  | none =>
    refine (length_foldl_rows (fun rows x => length_shorten ..) _ _).trans ?_
    rw [length_paint, List.length_cons, List.length_replicate]
    rfl

end MarkedLine

end Schemata.Excerpt
