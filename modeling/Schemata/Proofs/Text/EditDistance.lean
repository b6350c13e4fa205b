import Mathlib.Order.Bounds.Basic
import Mathlib.Order.Lattice.Nat
import Schemata.Text.Suggestion

/-!
# Distances count edits

An edit puts in, takes out or replaces one character, anywhere in a text. The distance of two texts
is the least number of edits that lead from one to the other: an edit never brings a text nearer to
another one by more than one, and as many edits as the distance says are enough.
-/

namespace Schemata.Suggestion

/-- One edit of a text. -/
inductive Edit {α : Type} : List α → List α → Prop where
  | insert (front back : List α) (x : α) : Edit (front ++ back) (front ++ x :: back)
  | delete (front back : List α) (x : α) : Edit (front ++ x :: back) (front ++ back)
  | substitute (front back : List α) (x y : α) : Edit (front ++ x :: back) (front ++ y :: back)

/-- So many edits lead from one text to another. -/
inductive Edits {α : Type} : Nat → List α → List α → Prop where
  | refl (xs : List α) : Edits 0 xs xs
  | step {n : Nat} {xs ys zs : List α} (first : Edit xs ys) (rest : Edits n ys zs) :
      Edits (n + 1) xs zs

/-! ## Edits -/

section Edits

variable {α : Type} {m n : Nat} {xs ys zs : List α}

theorem Edit.symm (h : Edit xs ys) : Edit ys xs := by
  cases h with
  | insert front back x => exact .delete front back x
  | delete front back x => exact .insert front back x
  | substitute front back x y => exact .substitute front back y x

/-- A text may be edited behind another character. -/
theorem Edit.cons (x : α) (h : Edit xs ys) : Edit (x :: xs) (x :: ys) := by
  cases h with
  | insert front back y => exact .insert (x :: front) back y
  | delete front back y => exact .delete (x :: front) back y
  | substitute front back y z => exact .substitute (x :: front) back y z

/-- A text may be edited from behind. -/
theorem Edit.reverse (h : Edit xs ys) : Edit xs.reverse ys.reverse := by
  cases h with
  | insert front back x => simpa using Edit.insert back.reverse front.reverse x
  | delete front back x => simpa using Edit.delete back.reverse front.reverse x
  | substitute front back x y => simpa using Edit.substitute back.reverse front.reverse x y

namespace Edits

theorem single (h : Edit xs ys) : Edits 1 xs ys := .step h (.refl ys)

/-- Edits are made one after the other. -/
theorem trans (h : Edits m xs ys) (h' : Edits n ys zs) : Edits (m + n) xs zs := by
  induction h with
  | refl xs => rwa [Nat.zero_add]
  | step first _ ih =>
    rw [Nat.add_right_comm]
    exact .step first (ih h')

/-- Edits are undone by as many. -/
theorem symm (h : Edits n xs ys) : Edits n ys xs := by
  induction h with
  | refl xs => exact .refl xs
  | step first _ ih => exact ih.trans (single first.symm)

theorem cons (x : α) (h : Edits n xs ys) : Edits n (x :: xs) (x :: ys) := by
  induction h with
  | refl xs => exact .refl (x :: xs)
  | step first _ ih => exact .step (first.cons x) ih

/-- Edits of a text are edits of its reversal. -/
theorem reverse (h : Edits n xs ys) : Edits n xs.reverse ys.reverse := by
  induction h with
  | refl xs => exact .refl xs.reverse
  | step first _ ih => exact .step first.reverse ih

theorem eq_of_zero (h : Edits 0 xs ys) : xs = ys := by
  cases h
  rfl

/-- Texts are put in and taken out character by character. -/
theorem of_nil (ys : List α) : Edits ys.length [] ys := by
  induction ys with
  | nil => exact .refl []
  | cons y ys ih => exact .step (.insert [] [] y) (ih.cons y)

end Edits

end Edits

/-! ## The table of distances -/

section Table

variable {α : Type} [DecidableEq α] {n : Nat} {x y : α} {us vs xs ys zs : List α}

/-- The distance of two lists: the entry of the table for the whole of both. -/
def between (xs ys : List α) : Nat := (row xs ys).1

theorem distance_eq (a b : String) : distance a b = between a.toList b.toList := rfl

/-- One more character on the left gives the next row. -/
theorem row_cons (x : α) (xs ys : List α) : row (x :: xs) ys = extendRow x ys (row xs ys) := rfl

/-- Behind its first entry, a row is the row for a shorter text. -/
theorem row_cons_right (xs : List α) (y : α) (ys : List α) :
    row xs (y :: ys) = (between xs (y :: ys), between xs ys :: (row xs ys).2) := by
  induction xs with
  | nil => rfl
  | cons x xs ih =>
    rw [between, row_cons, ih]
    rfl

theorem between_nil_left (ys : List α) : between [] ys = ys.length := by
  induction ys with
  | nil => rfl
  | cons y ys ih => rw [List.length_cons, ← ih]; rfl

theorem between_nil_right (xs : List α) : between xs [] = xs.length := by
  induction xs with
  | nil => rfl
  | cons x xs ih => rw [List.length_cons, ← ih]; rfl

/-- The last edit that a distance counts takes out the first character, puts one in, or keeps or
replaces it. -/
theorem between_cons_cons (x y : α) (xs ys : List α) :
    between (x :: xs) (y :: ys) =
      min (min (between xs (y :: ys) + 1) (between (x :: xs) ys + 1))
        (between xs ys + if x = y then 0 else 1) := by
  rw [between, row_cons, row_cons_right]
  rfl

/-! ## No fewer edits are enough -/

theorem between_self (xs : List α) : between xs xs = 0 := by
  induction xs with
  | nil => rfl
  | cons x xs ih => simp [between_cons_cons, ih]

/-- One more character costs at most one edit. -/
theorem between_cons_left_le (x : α) (xs ys : List α) :
    between (x :: xs) ys ≤ between xs ys + 1 := by
  cases ys with
  | nil => rw [between_nil_right, between_nil_right, List.length_cons]
  | cons y ys =>
    rw [between_cons_cons]
    omega

theorem between_cons_right_le (xs : List α) (y : α) (ys : List α) :
    between xs (y :: ys) ≤ between xs ys + 1 := by
  cases xs with
  | nil => rw [between_nil_left, between_nil_left, List.length_cons]
  | cons x xs =>
    rw [between_cons_cons]
    omega

theorem between_le_cons_left (x : α) (xs ys : List α) :
    between xs ys ≤ between (x :: xs) ys + 1 := by
  induction ys with
  | nil =>
    rw [between_nil_right, between_nil_right, List.length_cons]
    omega
  | cons y ys ih =>
    have h := between_cons_right_le xs y ys
    rw [between_cons_cons]
    omega

/-- Putting another character in its place costs at most one edit. -/
theorem between_substitute_le (x y : α) (xs zs : List α) :
    between (x :: xs) zs ≤ between (y :: xs) zs + 1 := by
  induction zs with
  | nil =>
    rw [between_nil_right, between_nil_right, List.length_cons, List.length_cons]
    omega
  | cons z zs ih =>
    have hx : (if x = z then 0 else 1) ≤ 1 := by split <;> omega
    rw [between_cons_cons, between_cons_cons]
    omega

/-- What holds of an edit holds of it behind another character. -/
theorem between_cons_le_of_forall (h : ∀ zs, between us zs ≤ between vs zs + 1)
    (x : α) (zs : List α) :
    between (x :: us) zs ≤ between (x :: vs) zs + 1 := by
  induction zs with
  | nil =>
    have hnil := h []
    rw [between_nil_right, between_nil_right] at hnil ⊢
    rw [List.length_cons, List.length_cons]
    omega
  | cons z zs ih =>
    have hhere := h (z :: zs)
    have hthere := h zs
    rw [between_cons_cons, between_cons_cons]
    omega

/-- No edit brings a text nearer to another one by more than one. -/
theorem Edit.between_le (h : Edit xs ys) (zs : List α) : between xs zs ≤ between ys zs + 1 := by
  cases h with
  | insert front back x =>
    induction front generalizing zs with
    | nil => exact between_le_cons_left x back zs
    | cons y front ih => exact between_cons_le_of_forall ih y zs
  | delete front back x =>
    induction front generalizing zs with
    | nil => exact between_cons_left_le x back zs
    | cons y front ih => exact between_cons_le_of_forall ih y zs
  | substitute front back x x' =>
    induction front generalizing zs with
    | nil => exact between_substitute_le x x' back zs
    | cons y front ih => exact between_cons_le_of_forall ih y zs

/-- No list of edits is shorter than the distance. -/
theorem Edits.between_le (h : Edits n xs ys) : between xs ys ≤ n := by
  induction h with
  | refl xs => exact (between_self xs).le
  | step first _ ih => exact (first.between_le _).trans (Nat.add_le_add_right ih 1)

/-! ## As many edits are enough -/

/-- The distance is the length of some list of edits. -/
theorem edits_between (xs ys : List α) : Edits (between xs ys) xs ys := by
  induction xs generalizing ys with
  | nil =>
    rw [between_nil_left]
    exact .of_nil ys
  | cons x xs ihx =>
    induction ys with
    | nil =>
      rw [between_nil_right]
      exact (Edits.of_nil (x :: xs)).symm
    | cons y ys ihy =>
      rw [between_cons_cons]
      rcases min_choice (min (between xs (y :: ys) + 1) (between (x :: xs) ys + 1))
        (between xs ys + if x = y then 0 else 1) with h | h
      · rw [h]
        rcases min_choice (between xs (y :: ys) + 1) (between (x :: xs) ys + 1) with h | h
        · rw [h]
          exact .step (.delete [] xs x) (ihx (y :: ys))
        · rw [h]
          exact .step (.insert [] (x :: xs) y) (ihy.cons y)
      · rw [h]
        split
        · next heq =>
          subst heq
          exact (ihx ys).cons x
        · exact .step (.substitute [] xs x y) ((ihx ys).cons y)

/-- The distance is the least number of edits. -/
theorem isLeast_between (xs ys : List α) : IsLeast {n | Edits n xs ys} (between xs ys) :=
  ⟨edits_between xs ys, fun _ h => h.between_le⟩

/-! ## Distances -/

/-- The distance is the same in both directions. -/
theorem between_comm (xs ys : List α) : between xs ys = between ys xs :=
  le_antisymm (edits_between ys xs).symm.between_le (edits_between xs ys).symm.between_le

/-- Only equal texts are at no distance. -/
theorem between_eq_zero_iff : between xs ys = 0 ↔ xs = ys := by
  constructor
  · intro h
    apply Edits.eq_of_zero
    rw [← h]
    exact edits_between xs ys
  · rintro rfl
    exact between_self xs

/-- A way through a third text is not shorter. -/
theorem between_triangle (xs ys zs : List α) : between xs zs ≤ between xs ys + between ys zs :=
  ((edits_between xs ys).trans (edits_between ys zs)).between_le

/-- Distances may be counted from behind. -/
theorem between_reverse (xs ys : List α) : between xs.reverse ys.reverse = between xs ys := by
  apply le_antisymm
  · exact (edits_between xs ys).reverse.between_le
  · have h := (edits_between xs.reverse ys.reverse).reverse
    rw [List.reverse_reverse, List.reverse_reverse] at h
    exact h.between_le

end Table

/-!
## Two rows hold distances

What is filled in from the front are the distances of initial parts: while a row is filled, its
first entries are those of the text read so far, and all of the row above are those of that text
without its last character. So the two rows come to the same distance as the table of all suffixes.
-/

variable {α : Type} [DecidableEq α] {x y : α} {xs ys : List α}

/-- The last edit that a distance counts may also be at the end of the texts. -/
theorem between_concat_concat (xs ys : List α) (x y : α) :
    between (xs ++ [x]) (ys ++ [y]) =
      min (min (between xs (ys ++ [y]) + 1) (between (xs ++ [x]) ys + 1))
        (between xs ys + if x = y then 0 else 1) := by
  have h := between_cons_cons x y xs.reverse ys.reverse
  simp only [← List.reverse_concat, between_reverse] at h
  exact h

namespace EditRows

variable {row : List Nat} {r : EditRows} {i j k : Nat}

/-- A row whose entries up to column `j` are the distances of a text to the initial parts of
another. -/
structure Holds (xs ys : List α) (j : Nat) (row : List Nat) : Prop where
  length_eq : row.length = ys.length + 1
  entry_eq : ∀ k ≤ j, row.getD k 0 = between xs (ys.take k)

theorem getD_set_self (h : j < row.length) (v : Nat) : (row.set j v).getD j 0 = v := by
  rw [List.getD_eq_getElem?_getD, List.getElem?_set_self h, Option.getD_some]

theorem getD_set_ne (h : j ≠ k) (v : Nat) : (row.set j v).getD k 0 = row.getD k 0 := by
  rw [List.getD_eq_getElem?_getD, List.getD_eq_getElem?_getD, List.getElem?_set_ne h]

/-- The row of the empty text holds the lengths of the initial parts. -/
theorem Holds.start (ys : List α) : Holds [] ys ys.length (start ys.length).above where
  length_eq := List.length_range
  entry_eq k hk := by
    rw [between_nil_left, List.length_take_of_le hk, EditRows.start, List.getD_eq_getElem?_getD,
      List.getElem?_range (by omega), Option.getD_some]

/-- The first entry of a row is the length of the text. -/
theorem Holds.first (h : row.length = ys.length + 1) (xs : List α) :
    Holds xs ys 0 (row.set 0 xs.length) where
  length_eq := by rw [List.length_set, h]
  entry_eq k hk := by
    obtain rfl := Nat.le_zero.1 hk
    rw [getD_set_self (by omega), List.take_zero, between_nil_right]

/-- An entry is filled in with the distance of the texts up to its row and column. -/
theorem Holds.fillEntry (habove : Holds xs ys ys.length r.above)
    (h : Holds (xs ++ [x]) ys j r.current)
    (hy : ys[j]? = some y) : Holds (xs ++ [x]) ys (j + 1) (r.fillEntry x j y).current where
  length_eq := by rw [EditRows.fillEntry, List.length_set, h.length_eq]
  entry_eq k hk := by
    obtain ⟨hj, -⟩ := List.getElem?_eq_some_iff.1 hy
    rcases Nat.le_or_eq_of_le_succ hk with hk | rfl
    · rw [EditRows.fillEntry, getD_set_ne (by omega)]
      exact h.entry_eq k hk
    · have htake : ys.take (j + 1) = ys.take j ++ [y] := by
        rw [List.take_add_one, hy, Option.toList_some]
      rw [EditRows.fillEntry, getD_set_self (by rw [h.length_eq]; omega),
        habove.entry_eq (j + 1) (by omega), habove.entry_eq j (by omega),
        h.entry_eq j (Nat.le_refl j), htake, between_concat_concat]

theorem above_fillFrom (x : α) (r : EditRows) (j : Nat) (ys : List α) :
    (r.fillFrom x j ys).above = r.above := by
  induction ys generalizing r j with
  | nil => rfl
  | cons y ys ih => exact ih _ _

/-- Entry by entry a row is filled to its end. -/
theorem Holds.fillFrom {rest : List α} (habove : Holds xs ys ys.length r.above)
    (h : Holds (xs ++ [x]) ys j r.current) (hrest : ys.drop j = rest) (hj : j ≤ ys.length) :
    Holds (xs ++ [x]) ys ys.length (r.fillFrom x j rest).current := by
  induction rest generalizing r j with
  | nil =>
    obtain rfl : j = ys.length := by
      have := List.drop_eq_nil_iff.1 hrest
      omega
    exact h
  | cons y rest ih =>
    have hy : ys[j]? = some y := by
      rw [← List.head?_drop, hrest, List.head?_cons]
    obtain ⟨hlt, -⟩ := List.getElem?_eq_some_iff.1 hy
    have htail : ys.drop (j + 1) = rest := by
      rw [← List.tail_drop, hrest, List.tail_cons]
    exact ih (r := r.fillEntry x j y) habove (habove.fillEntry h hy) htail hlt

/-- With each character read, the row above becomes that of the text with this character. -/
theorem Holds.fillRow (habove : Holds xs ys ys.length r.above)
    (hcurrent : r.current.length = ys.length + 1) (x : α) :
    Holds (xs ++ [x]) ys ys.length (r.fillRow ys xs.length x).above ∧
      (r.fillRow ys xs.length x).current.length = ys.length + 1 := by
  have hfirst := Holds.first hcurrent (xs ++ [x])
  rw [List.length_append, List.length_singleton] at hfirst
  constructor
  · exact Holds.fillFrom (r := { r with current := r.current.set 0 (xs.length + 1) }) habove
      hfirst List.drop_zero
      (Nat.zero_le _)
  · rw [EditRows.fillRow, above_fillFrom]
    exact habove.length_eq

/-- Row by row the first text is read to its end. -/
theorem Holds.fillRows (habove : Holds xs ys ys.length r.above)
    (hcurrent : r.current.length = ys.length + 1)
    (rest : List α) : Holds (xs ++ rest) ys ys.length (r.fillRows ys xs.length rest).above := by
  induction rest generalizing xs r with
  | nil => rwa [List.append_nil]
  | cons x rest ih =>
    obtain ⟨habove', hcurrent'⟩ := habove.fillRow hcurrent x
    have h := ih habove' hcurrent'
    rw [List.append_assoc, List.singleton_append, List.length_append, List.length_singleton] at h
    exact h

/-- Two rows come to the distance. -/
theorem distance_eq (a b : String) : distance a b = Suggestion.distance a b := by
  rw [distance, Suggestion.distance_eq]
  split
  · next ha => rw [List.length_eq_zero_iff.1 ha, between_nil_left]
  · split
    · next hb => rw [List.length_eq_zero_iff.1 hb, between_nil_right]
    · have h := (Holds.start b.toList).fillRows List.length_replicate a.toList
      have hlast := h.entry_eq _ (Nat.le_refl _)
      rwa [List.take_length, List.nil_append] at hlast

end EditRows

end Schemata.Suggestion
