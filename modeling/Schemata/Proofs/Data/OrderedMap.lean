import Mathlib.Data.List.Infix
import Mathlib.Data.List.Nodup
import Schemata.Data

/-!
# Repeats and ordered maps

A map keeps the first entry of each key, so what holds of first occurrences holds of maps.
-/

/-!
## First occurrences and lists without repeats

The first occurrences in a list are those elements of which none in front has the same key; the
others are its repeats. A list in which no key comes back has no repeats, and it consists of its
first occurrences.
-/

namespace Schemata

variable {α κ : Type} [BEq κ]

theorem Repeats.firstsAfter_sublist (key : α → κ) (seen l : List α) :
    (firstsAfter key seen l).Sublist l := by
  induction l generalizing seen with
  | nil => exact List.Sublist.refl _
  | cons a l ih =>
    rw [firstsAfter]
    split
    · exact (ih seen).cons a
    · exact (ih (a :: seen)).cons_cons a

/-- An element whose key none before it has is a first occurrence. -/
theorem Repeats.firstsAfter_cons_of_find?_eq_none {key : α → κ} {seen l : List α} {a : α}
    (h : (seen.find? fun b => key b == key a) = none) :
    firstsAfter key seen (a :: l) = a :: firstsAfter key (a :: seen) l := by
  have hnew : (seen.any fun b => key b == key a) = false :=
    List.any_eq_false.2 (List.find?_eq_none.1 h)
  rw [firstsAfter, hnew, if_neg Bool.false_ne_true]

/-- An element whose key one before it has is no first occurrence. -/
theorem Repeats.firstsAfter_cons_of_find?_eq_some {key : α → κ} {seen l : List α} {a first : α}
    (h : (seen.find? fun b => key b == key a) = some first) :
    firstsAfter key seen (a :: l) = firstsAfter key seen l := by
  have hold : (seen.any fun b => key b == key a) = true :=
    List.any_eq_true.2 ⟨first, List.mem_of_find?_eq_some h,
      List.find?_some h (p := fun b => key b == key a)⟩
  rw [firstsAfter, hold, if_pos rfl]

/-- Further elements come behind the first occurrences in front of them. -/
theorem Repeats.firstsAfter_append (key : α → κ) (seen l l' : List α) :
    firstsAfter key seen (l ++ l') =
      firstsAfter key seen l ++ firstsAfter key ((firstsAfter key seen l).reverse ++ seen) l' := by
  induction l generalizing seen with
  | nil => rfl
  | cons a l ih =>
    rw [List.cons_append, firstsAfter, firstsAfter]
    split
    · exact ih seen
    · rw [ih, List.reverse_cons, List.append_assoc, List.singleton_append, List.cons_append]

/-- Further elements repeat the first occurrences in front of them. -/
theorem Repeats.repeatsAfter_append (key : α → κ) (seen l l' : List α) :
    repeatsAfter key seen (l ++ l') =
      repeatsAfter key seen l ++ repeatsAfter key
        ((firstsAfter key seen l).reverse ++ seen) l' := by
  induction l generalizing seen with
  | nil => rfl
  | cons a l ih =>
    rw [List.cons_append, repeatsAfter, repeatsAfter]
    cases hfind : seen.find? fun b => key b == key a with
    | none =>
      rw [firstsAfter_cons_of_find?_eq_none hfind, List.reverse_cons, List.append_assoc,
        List.singleton_append]
      exact ih (a :: seen)
    | some first =>
      rw [firstsAfter_cons_of_find?_eq_some hfind, List.cons_append]
      exact congrArg _ (ih seen)

/-- The first occurrences among images are the images of the first occurrences. -/
theorem Repeats.firstsAfter_map {β : Type} (key : α → κ) (f : β → α) (seen l : List β) :
    firstsAfter key (seen.map f) (l.map f) = (firstsAfter (fun b => key (f b)) seen l).map f := by
  induction l generalizing seen with
  | nil => rfl
  | cons b l ih =>
    rw [List.map_cons, firstsAfter, firstsAfter, List.any_map, Function.comp_def]
    split
    · exact ih seen
    · rw [List.map_cons, ← ih (b :: seen), List.map_cons]

theorem firsts_map {β : Type} (key : α → κ) (f : β → α) (l : List β) :
    firsts key (l.map f) = (firsts (fun b => key (f b)) l).map f :=
  Repeats.firstsAfter_map key f [] l

theorem firsts_sublist (key : α → κ) (l : List α) : (firsts key l).Sublist l :=
  Repeats.firstsAfter_sublist key [] l

theorem firsts_subset (key : α → κ) (l : List α) : firsts key l ⊆ l := (firsts_sublist key l).subset

/-- Behind some elements, too, a list is made up of its repeats and its first occurrences. -/
theorem Repeats.repeatsAfter_append_firstsAfter_perm (key : α → κ) (seen l : List α) :
    ((repeatsAfter key seen l).map Prod.fst ++ firstsAfter key seen l).Perm l := by
  induction l generalizing seen with
  | nil => exact List.Perm.refl _
  | cons a l ih =>
    rw [repeatsAfter]
    cases hfind : seen.find? fun b => key b == key a with
    | none =>
      rw [firstsAfter_cons_of_find?_eq_none hfind]
      exact List.perm_middle.trans ((ih (a :: seen)).cons a)
    | some first =>
      rw [firstsAfter_cons_of_find?_eq_some hfind]
      exact (ih seen).cons a

/-- A list is made up of its repeats and its first occurrences. -/
theorem repeats_append_firsts_perm (key : α → κ) (l : List α) :
    ((repeats key l).map Prod.fst ++ firsts key l).Perm l :=
  Repeats.repeatsAfter_append_firstsAfter_perm key [] l

variable [LawfulBEq κ]

namespace Repeats

/-- Nothing repeats behind the elements `seen` exactly if the keys differ from one another and from
those of `seen`. -/
theorem repeatsAfter_eq_nil_iff {key : α → κ} {seen l : List α} :
    repeatsAfter key seen l = [] ↔
      (l.map key).Nodup ∧ ∀ a ∈ l, ∀ s ∈ seen, key s ≠ key a := by
  induction l generalizing seen with
  | nil => simp [repeatsAfter]
  | cons a l ih =>
    simp only [repeatsAfter, List.map_cons, List.nodup_cons, List.mem_map, not_exists, not_and]
    cases h : seen.find? fun s => key s == key a with
    | some first =>
      have hmem : first ∈ seen := List.mem_of_find?_eq_some h
      have hkey : key first = key a := by simpa using List.find?_some h
      simp only [reduceCtorEq, false_iff, not_and]
      intro _ hseen
      exact hseen a List.mem_cons_self first hmem hkey
    | none =>
      have hseen : ∀ s ∈ seen, key s ≠ key a := by simpa [List.find?_eq_none] using h
      rw [ih]
      constructor
      · rintro ⟨hnodup, hne⟩
        refine ⟨⟨fun b hb => fun e => hne b hb a List.mem_cons_self e.symm, hnodup⟩, ?_⟩
        intro b hb s hs
        rcases List.mem_cons.1 hb with rfl | hb
        · exact hseen s hs
        · exact hne b hb s (List.mem_cons_of_mem a hs)
      · rintro ⟨⟨hnew, hnodup⟩, hne⟩
        refine ⟨hnodup, fun b hb s hs => ?_⟩
        rcases List.mem_cons.1 hs with rfl | hs
        · exact fun e => hnew b hb e.symm
        · exact hne b (List.mem_cons_of_mem a hb) s hs

theorem firstsAfter_eq_self {key : α → κ} {seen l : List α} (hnodup : (l.map key).Nodup)
    (hne : ∀ a ∈ l, ∀ s ∈ seen, key s ≠ key a) : firstsAfter key seen l = l := by
  induction l generalizing seen with
  | nil => rfl
  | cons a l ih =>
    have hany : (seen.any fun s => key s == key a) = false := by
      simpa using hne a List.mem_cons_self
    simp only [List.map_cons, List.nodup_cons, List.mem_map, not_exists, not_and] at hnodup
    simp only [firstsAfter, hany, Bool.false_eq_true, if_false, List.cons.injEq, true_and]
    refine ih hnodup.2 fun b hb s hs => ?_
    rcases List.mem_cons.1 hs with rfl | hs
    · exact fun e => hnodup.1 b hb e.symm
    · exact hne b (List.mem_cons_of_mem a hb) s hs

/-- The elements of a list that is not empty, each with those in front of it. -/
theorem inits_zip_cons (a : α) (l : List α) :
    (a :: l).inits.zip (a :: l) = ([], a) :: (l.inits.zip l).map (Prod.map (a :: ·) id) := by
  rw [List.inits_cons, List.zip_cons_cons, ← List.zip_map_left]

/-- First occurrences have different keys, none of which has occurred before. -/
theorem nodup_map_firstsAfter {key : α → κ} {seen l : List α} :
    ((firstsAfter key seen l).map key).Nodup ∧
      ∀ a ∈ firstsAfter key seen l, ∀ s ∈ seen, key s ≠ key a := by
  induction l generalizing seen with
  | nil => simp [firstsAfter]
  | cons a l ih =>
    rw [firstsAfter]
    split
    · exact ih
    · next hnew =>
      obtain ⟨hnodup, hrest⟩ := @ih (a :: seen)
      refine ⟨?_, List.forall_mem_cons.2 ⟨by simpa using hnew, fun b hb s hs => ?_⟩⟩
      · rw [List.map_cons, List.nodup_cons, List.mem_map]
        refine ⟨?_, hnodup⟩
        rintro ⟨b, hb, hkey⟩
        exact hrest b hb a List.mem_cons_self hkey.symm
      · exact hrest b hb s (List.mem_cons_of_mem a hs)

/-- An element is a first occurrence exactly if neither the elements `seen` nor those in front of it
have its key. -/
theorem firstsAfter_eq_filter {key : α → κ} {seen l : List α} :
    firstsAfter key seen l =
      ((l.inits.zip l).filter fun x => !(seen ++ x.1).any fun b =>
        key b == key x.2).map Prod.snd := by
  induction l generalizing seen with
  | nil => rfl
  | cons a l ih =>
    -- behind `a` it makes no difference whether `seen` has `a`, as long as it has the key of `a`
    have hrest : ∀ seen', (∀ k, (seen'.any fun b => key b == k) =
        (a :: seen).any fun b => key b == k) →
        firstsAfter key seen' l = (((l.inits.zip l).map (Prod.map (a :: ·) id)).filter
          fun x => !(seen ++ x.1).any fun b => key b == key x.2).map Prod.snd := by
      intro seen' hseen'
      rw [ih, List.filter_map, List.map_map]
      refine congrArg (List.map Prod.snd) (List.filter_congr fun x _ => congrArg (!·) ?_)
      simp only [List.any_append, hseen', List.any_cons, Prod.map_fst, Prod.map_snd, id]
      rw [Bool.or_assoc, Bool.or_left_comm]
    rw [firstsAfter, inits_zip_cons, List.filter_cons, List.append_nil]
    cases hany : seen.any fun b => key b == key a with
    | false =>
      rw [if_neg Bool.false_ne_true, Bool.not_false, if_pos rfl, List.map_cons,
        hrest (a :: seen) fun _ => rfl]
    | true =>
      rw [if_pos rfl, if_neg (by simp), hrest seen]
      intro k
      rw [List.any_cons]
      cases hk : key a == k with
      | false => rw [Bool.false_or]
      | true => rw [← eq_of_beq hk, hany, Bool.true_or]

/-- The repeats are the elements whose key has one of the elements `seen`, or one in front of them;
the first of these is the one that they come with. -/
theorem repeatsAfter_eq_filterMap {key : α → κ} {seen l : List α} :
    repeatsAfter key seen l = (l.inits.zip l).filterMap fun x =>
      ((seen ++ x.1).find? fun b => key b == key x.2).map fun first => (x.2, first) := by
  induction l generalizing seen with
  | nil => rfl
  | cons a l ih =>
    -- behind `a` only the first element of each key matters
    have hrest : ∀ seen',
        (∀ k, (seen'.find? fun b => key b == k) = (seen ++ [a]).find? fun b => key b == k) →
        repeatsAfter key seen' l = ((l.inits.zip l).map (Prod.map (a :: ·) id)).filterMap fun x =>
          ((seen ++ x.1).find? fun b => key b == key x.2).map fun first => (x.2, first) := by
      intro seen' hseen'
      rw [ih, List.filterMap_map]
      refine List.filterMap_congr fun x _ => ?_
      rw [Function.comp_apply, Prod.map_fst, Prod.map_snd, id, ← List.singleton_append (l := x.1),
        ← List.append_assoc, List.find?_append, hseen', ← List.find?_append]
    rw [repeatsAfter, inits_zip_cons, List.filterMap_cons, List.append_nil]
    cases hfind : seen.find? fun b => key b == key a with
    | none =>
      rw [Option.map_none]
      refine hrest (a :: seen) fun k => ?_
      rw [List.find?_append, List.find?_cons]
      cases hk : key a == k with
      | false => simp [hk]
      | true => simp [← eq_of_beq hk, hfind]
    | some first =>
      rw [Option.map_some]
      refine congrArg ((a, first) :: ·) (hrest seen fun k => ?_)
      rw [List.find?_append]
      cases hk : key a == k with
      | false => simp [hk]
      | true => simp [← eq_of_beq hk, hfind]

/-- A repeat comes with a first occurrence, or with one of the elements `seen`, of its key. -/
theorem of_mem_repeatsAfter {key : α → κ} {seen l : List α} {x : α × α}
    (h : x ∈ repeatsAfter key seen l) :
    key x.2 = key x.1 ∧ (x.2 ∈ seen ∨ x.2 ∈ firstsAfter key seen l) := by
  induction l generalizing seen with
  | nil => simp [repeatsAfter] at h
  | cons a l ih =>
    rw [repeatsAfter] at h
    cases hfind : seen.find? fun b => key b == key a with
    | none =>
      rw [hfind] at h
      obtain ⟨hkey, hx⟩ := ih h
      refine ⟨hkey, ?_⟩
      rw [firstsAfter_cons_of_find?_eq_none hfind, List.mem_cons]
      rcases hx with hx | hx
      · rcases List.mem_cons.1 hx with rfl | hx
        · exact .inr (.inl rfl)
        · exact .inl hx
      · exact .inr (.inr hx)
    | some first =>
      rw [hfind] at h
      rw [firstsAfter_cons_of_find?_eq_some hfind]
      rcases List.mem_cons.1 h with rfl | h
      · have hkey : key first == key a := List.find?_some hfind (p := fun b => key b == key a)
        exact ⟨eq_of_beq hkey, .inl (List.mem_of_find?_eq_some hfind)⟩
      · exact ih h

/-- The first element of a key is found among the first occurrences, unless the key has occurred
before. -/
theorem find?_firstsAfter {key : α → κ} {seen l : List α} {k : κ} (hnew : ∀ s ∈ seen, key s ≠ k) :
    ((firstsAfter key seen l).find? fun a => key a == k) = l.find? fun a => key a == k := by
  induction l generalizing seen with
  | nil => rfl
  | cons a l ih =>
    rw [firstsAfter, List.find?_cons]
    split
    · next hseen =>
      obtain ⟨s, hs, hsa⟩ := List.any_eq_true.1 hseen
      have hne : key a ≠ k := eq_of_beq hsa ▸ hnew s hs
      rw [ih hnew, beq_false_of_ne hne]
    · rw [List.find?_cons]
      cases hk : key a == k with
      | true => rfl
      | false => exact ih (List.forall_mem_cons.2 ⟨ne_of_beq_false hk, hnew⟩)

/-- Every key occurs among the first occurrences, unless it has occurred before. -/
theorem exists_mem_firstsAfter {key : α → κ} {seen l : List α} {a : α} (ha : a ∈ l)
    (hnew : ∀ s ∈ seen, key s ≠ key a) : ∃ b ∈ firstsAfter key seen l, key b = key a := by
  induction l generalizing seen with
  | nil => simp at ha
  | cons c l ih =>
    rw [firstsAfter]
    split
    · next hseen =>
      obtain ⟨s, hs, hsc⟩ := List.any_eq_true.1 hseen
      rcases List.mem_cons.1 ha with rfl | ha
      · exact absurd (eq_of_beq hsc) (hnew s hs)
      · exact ih ha hnew
    · by_cases hc : key c = key a
      · exact ⟨c, List.mem_cons_self, hc⟩
      · have ha : a ∈ l := (List.mem_cons.1 ha).resolve_left fun e => hc (by rw [e])
        obtain ⟨b, hb, hkey⟩ := ih ha (List.forall_mem_cons.2 ⟨hc, hnew⟩)
        exact ⟨b, List.mem_cons_of_mem c hb, hkey⟩

end Repeats

/-- First occurrences have different keys. -/
theorem nodup_map_firsts (key : α → κ) (l : List α) : ((firsts key l).map key).Nodup :=
  Repeats.nodup_map_firstsAfter.1

/-- The first occurrences are the elements of which none in front has the same key. -/
theorem firsts_eq_filter (key : α → κ) (l : List α) : firsts key l =
    ((l.inits.zip l).filter fun x => !x.1.any fun b => key b == key x.2).map Prod.snd :=
  Repeats.firstsAfter_eq_filter

/-- The repeats are the elements of which one in front has the same key; they come with the first of
these. -/
theorem repeats_eq_filterMap (key : α → κ) (l : List α) :
    repeats key l = (l.inits.zip l).filterMap fun x =>
      (x.1.find? fun b => key b == key x.2).map fun first => (x.2, first) :=
  Repeats.repeatsAfter_eq_filterMap

/-- A repeat comes with a first occurrence of its key. -/
theorem of_mem_repeats {key : α → κ} {l : List α} {x : α × α} (h : x ∈ repeats key l) :
    key x.2 = key x.1 ∧ x.2 ∈ firsts key l := by
  obtain ⟨hkey, hx⟩ := Repeats.of_mem_repeatsAfter h
  exact ⟨hkey, hx.resolve_left List.not_mem_nil⟩

/-- The first element of a key is found among the first occurrences. -/
theorem find?_firsts (key : α → κ) (l : List α) (k : κ) :
    ((firsts key l).find? fun a => key a == k) = l.find? fun a => key a == k :=
  Repeats.find?_firstsAfter (by simp)

theorem exists_mem_firsts (key : α → κ) {l : List α} {a : α} (ha : a ∈ l) :
    ∃ b ∈ firsts key l, key b = key a := Repeats.exists_mem_firstsAfter ha (by simp)

/-- A list has no repeats exactly if its keys differ from one another. -/
theorem repeats_eq_nil_iff {key : α → κ} {l : List α} : repeats key l = [] ↔ (l.map key).Nodup := by
  simp [repeats, Repeats.repeatsAfter_eq_nil_iff]

/-- If the keys differ from one another, every element is the first of its key. -/
theorem firsts_eq_self {key : α → κ} {l : List α} (h : (l.map key).Nodup) : firsts key l = l :=
  Repeats.firstsAfter_eq_self h (by simp)

/-! ### Lists without repeats -/

theorem nodup_eraseDups (l : List κ) : l.eraseDups.Nodup := by
  induction h : l.length using Nat.strongRecOn generalizing l with
  | ind n ih =>
    cases l with
    | nil => simp
    | cons a l =>
      rw [List.eraseDups_cons, List.nodup_cons]
      have hlen := List.length_filter_le (fun b => !b == a) l
      exact ⟨by simp, ih _ (by simp at h; omega) _ rfl⟩

theorem eraseDups_eq_self {l : List κ} (h : l.Nodup) : l.eraseDups = l := by
  induction l with
  | nil => rfl
  | cons a l ih =>
    obtain ⟨ha, hl⟩ := List.nodup_cons.1 h
    have hfilter : (l.filter fun b => !b == a) = l := by
      refine List.filter_eq_self.2 fun b hb => ?_
      have hne : b ≠ a := fun e => ha (e ▸ hb)
      simpa using hne
    rw [List.eraseDups_cons, hfilter, ih hl]

end Schemata

/-!
## Ordered maps and their entries

The entries of a map make up this map again, and a map that is made from entries keeps the first
entry of each key, in order.
-/

namespace Schemata.OrderedMap

variable {α : Type}

theorem ext {m m' : OrderedMap α} (h : m.entries = m'.entries) : m = m' := by
  obtain ⟨entries, distinct⟩ := m
  subst h
  rfl

theorem contains_iff {m : OrderedMap α} {key : String} :
    m.contains key ↔ key ∈ m.entries.map (·.1) := by
  simp [contains]

/-- A new key comes behind all others. -/
theorem entries_insert_of_not_contains {m : OrderedMap α} {key : String} (value : α)
    (h : ¬m.contains key) : (m.insert key value).entries = m.entries ++ [(key, value)] := by
  rw [insert, dif_neg h]

/-- Entries with new and different keys come behind the entries of a map in their order. -/
theorem entries_foldl_insert {m : OrderedMap α} {entries : List (String × α)}
    (h : ((m.entries ++ entries).map (·.1)).Nodup) :
    (entries.foldl (fun m e => m.insert e.1 e.2) m).entries = m.entries ++ entries := by
  induction entries generalizing m with
  | nil => rw [List.foldl_nil, List.append_nil]
  | cons e rest ih =>
    have hnew : ¬m.contains e.1 := by
      intro hold
      rw [List.map_append, List.nodup_append] at h
      exact h.2.2 e.1 (contains_iff.1 hold) e.1 (by simp) rfl
    have hentries := entries_insert_of_not_contains e.2 hnew
    rw [List.foldl_cons, ih (by rwa [hentries, List.append_assoc]), hentries, List.append_assoc]
    rfl

/-- The last entry is inserted over those before it. -/
theorem ofLasts_concat (entries : List (String × α)) (e : String × α) :
    ofLasts (entries ++ [e]) = (ofLasts entries).insert e.1 e.2 := by
  rw [ofLasts, ofLasts, List.foldl_append]
  rfl

/-- Without repeats the entries stay as they were given. -/
theorem entries_ofLasts {entries : List (String × α)} (h : (entries.map (·.1)).Nodup) :
    (ofLasts entries).entries = entries :=
  entries_foldl_insert (m := empty) h

/-- The entries of a map make up this map. -/
theorem ofLasts_entries (m : OrderedMap α) : ofLasts m.entries = m :=
  ext (entries_ofLasts m.distinct)

/-- Entries are put into a map behind its own, unless the map or an entry before them has
their key. -/
theorem entries_foldl_insertNew {m : OrderedMap α} {seen entries : List (String × α)}
    (hseen : ∀ key, (seen.any fun e => e.1 == key) = m.contains key) :
    (entries.foldl (fun m e => m.insertNew e.1 e.2) m).entries =
      m.entries ++ Repeats.firstsAfter Prod.fst seen entries := by
  induction entries generalizing m seen with
  | nil => rw [List.foldl_nil, Repeats.firstsAfter, List.append_nil]
  | cons e rest ih =>
    rw [List.foldl_cons, Repeats.firstsAfter, hseen, insertNew]
    by_cases hold : m.contains e.1 = true
    · rw [dif_pos hold, if_pos hold, ih hseen]
    · rw [dif_neg hold, if_neg hold, ih, List.append_assoc, List.singleton_append]
      intro key
      rw [List.any_cons, hseen, contains, contains, List.any_append, List.any_cons, List.any_nil,
        Bool.or_false, Bool.or_comm]

/-- A map that is made from entries has the first one of each key. -/
theorem entries_ofFirsts (entries : List (String × α)) :
    (ofFirsts entries).entries = firsts Prod.fst entries :=
  entries_foldl_insertNew fun _ => rfl

/-- A map that is made from entries has no others. -/
theorem mem_of_mem_ofFirsts {entries : List (String × α)} {e : String × α}
    (h : e ∈ (ofFirsts entries).entries) : e ∈ entries := by
  rw [entries_ofFirsts] at h
  exact firsts_subset _ _ h

/-- The value of a key is that of its entry. -/
theorem get?_eq_some_iff {m : OrderedMap α} {key : String} {value : α} :
    m.get? key = some value ↔ (key, value) ∈ m.entries := by
  rw [get?, List.lookup_eq_some_iff]
  constructor
  · rintro ⟨l, l', hentries, -⟩
    rw [hentries]
    exact List.mem_append_right l List.mem_cons_self
  · intro hmem
    obtain ⟨l, l', hentries⟩ := List.append_of_mem hmem
    refine ⟨l, l', hentries, fun e he => ?_⟩
    have hdistinct := m.distinct
    rw [hentries, List.map_append, List.nodup_append] at hdistinct
    have hne := hdistinct.2.2 e.1 (List.mem_map_of_mem he) key (by simp)
    simpa using hne.symm

/-- Replacing changes what the key stands for and nothing else. -/
theorem lookup_replace (key k : String) (value : α) (entries : List (String × α)) :
    (replace key value entries).lookup k =
      if k = key then (entries.lookup k).map fun _ => value else entries.lookup k := by
  induction entries with
  | nil => simp [replace]
  | cons e rest ih =>
    obtain ⟨k', old⟩ := e
    rw [replace, List.map_cons, ← replace]
    by_cases hk : k = k'
    · subst hk
      by_cases hkey : k = key
      · subst hkey
        simp
      · simp [hkey]
    · have hother : (k == k') = false := beq_false_of_ne hk
      have hentry : ∀ e : String × α, e.1 = k' → (e :: replace key value rest).lookup k =
          (replace key value rest).lookup k := by
        rintro ⟨k'', v⟩ rfl
        rw [List.lookup_cons, hother]
      rw [hentry _ (by split <;> simp_all), ih, List.lookup_cons, hother]

/-- An insertion changes the value of its key only. -/
theorem get?_insert (m : OrderedMap α) (key k : String) (value : α) :
    (m.insert key value).get? k = if k = key then some value else m.get? k := by
  rw [insert]
  split
  · next hold =>
    obtain ⟨e, he, hkey⟩ := List.mem_map.1 (contains_iff.1 hold)
    have hsome : m.get? key = some e.2 := get?_eq_some_iff.2 (hkey ▸ he)
    rw [get?, lookup_replace]
    split
    · next hk =>
      rw [hk, ← get?, hsome]
      rfl
    · rfl
  · next hnew =>
    have hnone : m.get? key = none := by
      refine Option.eq_none_iff_forall_ne_some.2 fun v hv => hnew ?_
      exact contains_iff.2 (List.mem_map.2 ⟨(key, v), get?_eq_some_iff.1 hv, rfl⟩)
    rw [get?, List.lookup_append, ← get?]
    split
    · next hk => simp [hk, hnone]
    · next hk => simp [List.lookup_cons, beq_false_of_ne hk]

end Schemata.OrderedMap
