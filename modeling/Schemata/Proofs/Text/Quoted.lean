import Mathlib.Data.List.Basic
import Schemata.Text.Quoted

/-!
# What quoted text shows

Quoted text has no hidden characters, and it tells the text that is quoted: an escape starts with a
backslash, says in its second character which one it is, and ends where that calls for it.
-/

namespace Schemata

/-! ## Hexadecimal numbers -/

namespace Hex

/-- The characters of which a hexadecimal number is made. -/
def alphabet : List Char :=
  ['0', '1', '2', '3', '4', '5', '6', '7', '8', '9', 'a', 'b', 'c', 'd', 'e', 'f']

theorem digitChar_mem_alphabet : ∀ n < 16, n.digitChar ∈ alphabet := by decide

theorem digitChar_inj : ∀ m < 16, ∀ n < 16, m.digitChar = n.digitChar → m = n := by decide

theorem ofNat_eq (n : Nat) :
    ofNat n = if n < 16 then [n.digitChar] else ofNat (n / 16) ++ [(n % 16).digitChar] :=
  Nat.toDigits_eq_if (by decide)

/-- A number is written in hexadecimal digits. -/
theorem mem_alphabet_of_mem_ofNat {n : Nat} {c : Char} (hc : c ∈ ofNat n) : c ∈ alphabet := by
  induction n using Nat.strongRecOn with
  | ind n ih =>
    rw [ofNat_eq] at hc
    split at hc
    · next hn =>
      rw [List.mem_singleton.1 hc]
      exact digitChar_mem_alphabet n hn
    · rcases List.mem_append.1 hc with hc | hc
      · exact ih (n / 16) (by omega) hc
      · rw [List.mem_singleton.1 hc]
        exact digitChar_mem_alphabet (n % 16) (Nat.mod_lt n (by decide))

theorem ofNat_ne_nil (n : Nat) : ofNat n ≠ [] := by
  rw [ofNat_eq]
  split <;> simp

/-- Numbers written alike are the same. -/
theorem ofNat_inj {m n : Nat} (h : ofNat m = ofNat n) : m = n := by
  induction m using Nat.strongRecOn generalizing n with
  | ind m ih =>
    rw [ofNat_eq m, ofNat_eq n] at h
    split at h <;> split at h
    · next hm hn => exact digitChar_inj m hm n hn (List.singleton_inj.1 h)
    · exact absurd (List.append_eq_singleton_iff.1 h.symm) (by simp [ofNat_ne_nil])
    · exact absurd (List.append_eq_singleton_iff.1 h) (by simp [ofNat_ne_nil])
    · obtain ⟨hfront, hlast⟩ := List.append_inj' h rfl
      have hdiv := ih (m / 16) (by omega) hfront
      have hmod :=
        digitChar_inj (m % 16) (Nat.mod_lt m (by decide)) (n % 16) (Nat.mod_lt n (by decide))
        (List.singleton_inj.1 hlast)
      omega

end Hex

namespace Text

/-! ## Characters -/

/-- The letters behind the backslash of a short escape, with the characters that they stand for. -/
def shortEscapes : List (Char × Char) :=
  [('"', '"'), ('\\', '\\'), ('n', '\n'), ('r', '\r'), ('t', '\t'), ('0', Char.ofNat 0)]

/-- A character is quoted by a short escape, by its code point, or as it is. -/
theorem quoteChar_cases (c : Char) :
    (∃ letter, (letter, c) ∈ shortEscapes ∧ quoteChar c = ['\\', letter]) ∨
      quoteChar c = '\\' :: 'u' :: '\x7b' :: (Hex.ofNat c.toNat ++ ['\x7d']) ∨
      c ≠ '\\' ∧ isHidden c = false ∧ quoteChar c = [c] := by
  unfold quoteChar
  split
  · next h => exact .inl ⟨'"', by simp [shortEscapes, h], rfl⟩
  split
  · next h => exact .inl ⟨'\\', by simp [shortEscapes, h], rfl⟩
  split
  · next h => exact .inl ⟨'n', by simp [shortEscapes, h], rfl⟩
  split
  · next h => exact .inl ⟨'r', by simp [shortEscapes, h], rfl⟩
  split
  · next h => exact .inl ⟨'t', by simp [shortEscapes, h], rfl⟩
  split
  · next h =>
    have hzero : c = Char.ofNat 0 := by
      rw [← h, Char.ofNat_toNat]
    exact .inl ⟨'0', by simp [shortEscapes, hzero], rfl⟩
  split
  · exact .inr (.inl rfl)
  · next hbackslash _ _ _ _ hshown => exact .inr (.inr ⟨hbackslash, by simpa using hshown, rfl⟩)

/-- The graphic characters of ASCII are shown as they are. -/
theorem isHidden_of_graphic {c : Char} (hlow : 0x20 ≤ c.toNat) (hhigh : c.toNat ≤ 0x7e) :
    isHidden c = false := by
  have hranges : hiddenRanges.all (fun r => r.2 < 0x20 || 0x7e < r.1) = true := by decide +kernel
  refine List.any_eq_false.2 fun r hr hcovers => ?_
  have hapart := List.all_eq_true.1 hranges r hr
  simp only [Bool.or_eq_true, Bool.and_eq_true, decide_eq_true_eq] at hapart hcovers
  omega

/-- The characters of which escapes are made. -/
def escapeAlphabet : List Char :=
  ['"', '\\', 'n', 'r', 't', 'u', '\x7b', '\x7d'] ++ Hex.alphabet

theorem isHidden_of_mem_escapeAlphabet {c : Char} (hc : c ∈ escapeAlphabet) :
    isHidden c = false := by
  have hgraphic : escapeAlphabet.all (fun c => 0x20 ≤ c.toNat && c.toNat ≤ 0x7e) = true := by decide
  have hbounds := List.all_eq_true.1 hgraphic c hc
  simp only [Bool.and_eq_true, decide_eq_true_eq] at hbounds
  exact isHidden_of_graphic hbounds.1 hbounds.2

/-- Quoting a character leaves nothing hidden. -/
theorem isHidden_of_mem_quoteChar {c d : Char} (hd : d ∈ quoteChar c) : isHidden d = false := by
  rcases quoteChar_cases c with ⟨letter, hletter, hquote⟩ | hquote | ⟨-, hshown, hquote⟩
  · have hletters : shortEscapes.all (fun e => escapeAlphabet.contains e.1) = true := by decide
    rw [hquote, List.mem_pair] at hd
    refine isHidden_of_mem_escapeAlphabet ?_
    rcases hd with rfl | rfl
    · decide
    · exact List.contains_iff_mem.1 (List.all_eq_true.1 hletters _ hletter)
  · rw [hquote] at hd
    simp only [List.mem_cons, List.mem_append, List.not_mem_nil, or_false] at hd
    refine isHidden_of_mem_escapeAlphabet ?_
    rcases hd with rfl | rfl | rfl | hd | rfl
    · decide
    · decide
    · decide
    · exact List.mem_append_right _ (Hex.mem_alphabet_of_mem_ofNat hd)
    · decide
  · rw [hquote] at hd
    rw [List.mem_singleton.1 hd]
    exact hshown

/-- What comes in front of a character that is not in it is known from both. -/
theorem append_cons_inj {c : Char} {front front' rest rest' : List Char} (hfront : c ∉ front)
    (hfront' : c ∉ front') (h : front ++ c :: rest = front' ++ c :: rest') :
    front = front' ∧ rest = rest' := by
  rcases List.append_eq_append_iff.1 h with ⟨between, rfl, hrest⟩ | ⟨between, rfl, hrest⟩
  · cases between with
    | nil => simpa using hrest
    | cons d between =>
      obtain ⟨rfl, -⟩ := List.cons.inj hrest
      simp at hfront'
  · cases between with
    | nil => simpa [eq_comm] using hrest
    | cons d between =>
      obtain ⟨rfl, -⟩ := List.cons.inj hrest
      simp at hfront

/-- What stands for a character does not start what stands for another one. -/
theorem quoteChar_append_inj {c d : Char} {rest rest' : List Char}
    (h : quoteChar c ++ rest = quoteChar d ++ rest') : c = d ∧ rest = rest' := by
  have hshort : ∀ e ∈ shortEscapes, ∀ e' ∈ shortEscapes, e.1 = e'.1 → e.2 = e'.2 := by decide
  have hbrace : ∀ n, '\x7d' ∉ Hex.ofNat n := fun n hn =>
    absurd (Hex.mem_alphabet_of_mem_ofNat hn) (by decide)
  have hu : ∀ e ∈ shortEscapes, e.1 ≠ 'u' := by decide
  rcases quoteChar_cases c with ⟨letter, hc, hquote⟩ | hquote | ⟨hc, -, hquote⟩ <;>
    rcases quoteChar_cases d with ⟨letter', hd, hquote'⟩ | hquote' | ⟨hd, -, hquote'⟩ <;>
    rw [hquote, hquote'] at h
  case inl.inl =>
    simp only [List.cons_append, List.nil_append, List.cons.injEq, true_and] at h
    exact ⟨hshort _ hc _ hd h.1, h.2⟩
  case inl.inr.inl =>
    simp only [List.cons_append, List.nil_append, List.cons.injEq, true_and] at h
    exact absurd h.1 (hu _ hc)
  case inl.inr.inr =>
    simp only [List.cons_append, List.nil_append, List.cons.injEq] at h
    exact absurd h.1.symm hd
  case inr.inl.inl =>
    simp only [List.cons_append, List.nil_append, List.cons.injEq, true_and] at h
    exact absurd h.1.symm (hu _ hd)
  case inr.inl.inr.inl =>
    simp only [List.cons_append, List.append_assoc, List.nil_append, List.cons.injEq, true_and] at h
    obtain ⟨hnumber, hrest⟩ := append_cons_inj (hbrace _) (hbrace _) h
    exact ⟨Char.toNat_inj.1 (Hex.ofNat_inj hnumber), hrest⟩
  case inr.inl.inr.inr =>
    simp only [List.cons_append, List.nil_append, List.cons.injEq] at h
    exact absurd h.1.symm hd
  case inr.inr.inl =>
    simp only [List.cons_append, List.nil_append, List.cons.injEq] at h
    exact absurd h.1 hc
  case inr.inr.inr.inl =>
    simp only [List.cons_append, List.nil_append, List.cons.injEq] at h
    exact absurd h.1 hc
  case inr.inr.inr.inr => exact List.cons.inj h

/-- Texts quoted alike are the same. -/
theorem flatMap_quoteChar_inj {cs cs' : List Char}
    (h : cs.flatMap quoteChar = cs'.flatMap quoteChar) :
    cs = cs' := by
  have hne : ∀ c, quoteChar c ≠ [] := by
    intro c
    rcases quoteChar_cases c with ⟨_, -, hquote⟩ | hquote | ⟨-, -, hquote⟩ <;> simp [hquote]
  induction cs generalizing cs' with
  | nil =>
    cases cs' with
    | nil => rfl
    | cons c cs' => exact absurd (List.append_eq_nil_iff.1 h.symm).1 (hne c)
  | cons c cs ih =>
    cases cs' with
    | nil => exact absurd (List.append_eq_nil_iff.1 h).1 (hne c)
    | cons c' cs' =>
      obtain ⟨rfl, hrest⟩ := quoteChar_append_inj h
      rw [ih hrest]

/-! ## Texts -/

/-- Quoted text shows no hidden characters, and different texts have different quoted forms. -/
theorem quoted_shows (s : String) :
    (∀ c ∈ (quoted s).toList, isHidden c = false) ∧ ∀ t, quoted s = quoted t → s = t := by
  have hquote : isHidden '"' = false := isHidden_of_mem_escapeAlphabet (by decide)
  constructor
  · intro c hc
    rw [quoted, String.toList_ofList, List.cons_append] at hc
    rcases List.mem_cons.1 hc with rfl | hc
    · exact hquote
    rcases List.mem_append.1 hc with hc | hc
    · obtain ⟨d, -, hd⟩ := List.mem_flatMap.1 hc
      exact isHidden_of_mem_quoteChar hd
    · rw [List.mem_singleton.1 hc]
      exact hquote
  · intro t h
    rw [quoted, quoted, String.ofList_inj] at h
    exact String.toList_inj.1 (flatMap_quoteChar_inj (List.append_cancel_right (List.cons.inj h).2))

end Text

end Schemata
