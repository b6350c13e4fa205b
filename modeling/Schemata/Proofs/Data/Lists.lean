import Mathlib.Data.List.Indexes
import Mathlib.Data.List.Induction
import Mathlib.Data.List.Nodup
import Mathlib.Data.List.Perm.Basic

/-!
# Lists

Lists whose elements have keys, lists up to their order, and places in lists.
-/

/-!
## Lists whose elements have keys

A list can be searched by key, and it falls into the parts with one key each.
-/

namespace Schemata

variable {α β κ : Type}

/-- Elements that have one key in one way have one key in the other, so keys are as different in the
other way. -/
theorem nodup_map_of_imp {κ' : Type} {key : α → κ} {key' : α → κ'} {l : List α}
    (hnodup : (l.map key).Nodup) (h : ∀ a ∈ l, ∀ b ∈ l, key' a = key' b → key a = key b) :
    (l.map key').Nodup := by
  rw [List.Nodup, List.pairwise_map] at hnodup ⊢
  exact hnodup.imp_of_mem fun {a b} ha hb hne e => hne (h a ha b hb e)

/-- Where keys are different, a list with two elements or more has two with different keys. -/
theorem two_le_length_iff {key : α → κ} {l : List α} (hnodup : (l.map key).Nodup) :
    2 ≤ l.length ↔ ∃ a ∈ l, ∃ b ∈ l, key a ≠ key b := by
  rcases l with _ | ⟨a, _ | ⟨b, l⟩⟩
  · simp
  · simp
  · have hne : key a ≠ key b := fun e => (List.nodup_cons.1 hnodup).1 (by simp [e])
    exact iff_of_true (by simp) ⟨a, by simp, b, by simp, hne⟩

/-- What a choice of elements yields is what each chosen element does. -/
theorem flatMap_filter (p : α → Bool) (part : α → List β) (l : List α) :
    (l.filter p).flatMap part = l.flatMap fun a => if p a then part a else [] := by
  induction l with
  | nil => rfl
  | cons a l ih =>
    rw [List.filter_cons, List.flatMap_cons, ← ih]
    split
    · rw [List.flatMap_cons]
    · rw [List.nil_append]

variable [BEq κ] [LawfulBEq κ]

/-! ### Search -/

theorem key_of_find?_eq_some {key : α → κ} {k : κ} {l : List α} {a : α}
    (h : l.find? (fun b => key b == k) = some a) : a ∈ l ∧ key a = k :=
  ⟨List.mem_of_find?_eq_some h, eq_of_beq (List.find?_some (p := fun b => key b == k) h)⟩

/-- Where keys are different, an element is found by its key. -/
theorem find?_key_eq_self {key : α → κ} {l : List α} (hnodup : (l.map key).Nodup) {a : α}
    (ha : a ∈ l) : l.find? (fun b => key b == key a) = some a := by
  cases h : l.find? (fun b => key b == key a) with
  | none => exact absurd (beq_self_eq_true _) (List.find?_eq_none.1 h a ha)
  | some b =>
    obtain ⟨hb, hkey⟩ := key_of_find?_eq_some h
    rw [List.inj_on_of_nodup_map hnodup hb ha hkey]

theorem find?_key_eq_some_iff {key : α → κ} {k : κ} {l : List α}
    (hnodup : (l.map key).Nodup) {a : α} :
    l.find? (fun b => key b == k) = some a ↔ a ∈ l ∧ key a = k := by
  refine ⟨key_of_find?_eq_some, ?_⟩
  rintro ⟨ha, rfl⟩
  exact find?_key_eq_self hnodup ha

/-- Where keys are different, the order has no part in which element is found by its key. -/
theorem find?_key_of_perm {key : α → κ} {l l' : List α} (hnodup : (l.map key).Nodup)
    (h : l.Perm l') (k : κ) :
    l.find? (fun b => key b == k) = l'.find? fun b => key b == k := by
  refine Option.ext fun a => ?_
  rw [find?_key_eq_some_iff hnodup,
    find?_key_eq_some_iff ((h.map key).nodup_iff.1 hnodup), h.mem_iff]

/-! ### Parts -/

/-- Out of parts that are told apart by their keys, a key picks its part. -/
theorem filter_flatMap_eq_part {key : α → κ} {key' : β → κ}
    {part : α → List β} {l : List α} (hnodup : (l.map key).Nodup)
    (hpart : ∀ a ∈ l, ∀ b ∈ part a, key' b = key a) {a : α} (ha : a ∈ l) :
    ((l.flatMap part).filter fun b => key' b == key a) = part a := by
  induction l with
  | nil => simp at ha
  | cons a' l ih =>
    obtain ⟨hnotin, hnodup⟩ := List.nodup_cons.1 hnodup
    obtain ⟨hpart, hrest⟩ := List.forall_mem_cons.1 hpart
    rw [List.flatMap_cons, List.filter_append]
    rcases List.mem_cons.1 ha with rfl | ha
    · have hall : ((part a).filter fun b => key' b == key a) = part a :=
        List.filter_eq_self.2 fun b hb => by simp [hpart b hb]
      have hnone : ((l.flatMap part).filter fun b => key' b == key a) = [] := by
        refine List.filter_eq_nil_iff.2 fun b hb e => hnotin ?_
        obtain ⟨x, hx, hb⟩ := List.mem_flatMap.1 hb
        rw [← eq_of_beq e, hrest x hx b hb]
        exact List.mem_map_of_mem hx
      rw [hall, hnone, List.append_nil]
    · have hnone : ((part a').filter fun b => key' b == key a) = [] := by
        refine List.filter_eq_nil_iff.2 fun b hb e => hnotin ?_
        rw [← hpart b hb, eq_of_beq e]
        exact List.mem_map_of_mem ha
      rw [hnone, List.nil_append, ih hnodup hrest ha]

/-- Where keys are different, an element is the only one with its key. -/
theorem filter_key_eq_singleton {key : α → κ} {l : List α} (hnodup : (l.map key).Nodup)
    {a : α} (ha : a ∈ l) :
    (l.filter fun b => key b == key a) = [a] := by
  have h : ((l.flatMap fun b => [b]).filter fun b => key b == key a) = [a] :=
    filter_flatMap_eq_part hnodup (by simp) ha
  rwa [List.flatMap_singleton'] at h

/-- What is left of parts that are told apart by their keys is the parts of it, one behind the
other. -/
theorem flatMap_filter_eq_of_sublist {key : α → κ} {key' : β → κ} {part : α → List β} {l : List α}
    (hnodup : (l.map key).Nodup) (hpart : ∀ a ∈ l, ∀ b ∈ part a, key' b = key a) {kept : List β}
    (hkept : kept.Sublist (l.flatMap part)) :
    (l.flatMap fun a => kept.filter fun b => key' b == key a) = kept := by
  induction l generalizing kept with
  | nil => simpa using hkept
  | cons a l ih =>
    obtain ⟨hnotin, hnodup⟩ := List.nodup_cons.1 hnodup
    obtain ⟨hpart, hrest⟩ := List.forall_mem_cons.1 hpart
    rw [List.flatMap_cons, List.sublist_append_iff] at hkept
    obtain ⟨front, back, rfl, hfront, hback⟩ := hkept
    have hfrontKey : ∀ b ∈ front, key' b = key a := fun b hb => hpart b (hfront.subset hb)
    have hbackKey : ∀ b ∈ back, key' b ∈ l.map key := fun b hb => by
      obtain ⟨a', ha', hb⟩ := List.mem_flatMap.1 (hback.subset hb)
      rw [hrest a' ha' b hb]
      exact List.mem_map_of_mem ha'
    have hfirst : ((front ++ back).filter fun b => key' b == key a) = front := by
      rw [List.filter_append, List.filter_eq_self.2, List.filter_eq_nil_iff.2, List.append_nil]
      · intro b hb e
        exact hnotin (eq_of_beq e ▸ hbackKey b hb)
      · exact fun b hb => beq_iff_eq.2 (hfrontKey b hb)
    have hothers : ∀ a' ∈ l, ((front ++ back).filter fun b => key' b == key a') =
        back.filter fun b => key' b == key a' := by
      intro a' ha'
      rw [List.filter_append, List.filter_eq_nil_iff.2, List.nil_append]
      intro b hb e
      rw [hfrontKey b hb] at e
      exact hnotin (eq_of_beq e ▸ List.mem_map_of_mem ha')
    rw [List.flatMap_cons, hfirst, List.flatMap_congr hothers, ih hnodup hrest hback]

/-- A list falls into the parts of its elements with the same key. -/
theorem flatMap_filter_key_perm {key : α → κ} {keys : List κ}
    {l : List α} (hnodup : keys.Nodup) (hkeys : ∀ a ∈ l, key a ∈ keys) :
    (keys.flatMap fun k => l.filter fun a => key a == k).Perm l := by
  induction keys generalizing l with
  | nil =>
    have : l = [] := List.eq_nil_iff_forall_not_mem.2 fun a ha => by simpa using hkeys a ha
    simp [this]
  | cons k keys ih =>
    obtain ⟨hk, hnodup⟩ := List.nodup_cons.1 hnodup
    let others := l.filter fun a => !(key a == k)
    have hothers : ∀ a ∈ others, key a ∈ keys := by
      intro a ha
      obtain ⟨ha, hne⟩ := List.mem_filter.1 ha
      simp only [Bool.not_eq_eq_eq_not, Bool.not_true, beq_eq_false_iff_ne] at hne
      exact (List.mem_cons.1 (hkeys a ha)).resolve_left hne
    have hsame : (keys.flatMap fun k' => l.filter fun a => key a == k') =
        keys.flatMap fun k' => others.filter fun a => key a == k' := by
      refine List.flatMap_congr fun k' hk' => ?_
      rw [List.filter_filter]
      refine List.filter_congr fun a _ => ?_
      by_cases e : key a = k'
      · have : k' ≠ k := by
          rintro rfl
          exact hk hk'
        simp [e, this]
      · simp [e]
    rw [List.flatMap_cons, hsame]
    exact ((ih hnodup hothers).append_left _).trans (List.filter_append_perm _ l)

end Schemata

/-!
## Lists up to their order

Lists that are sorted alike, and lists whose keys are the same up to their order.
-/

namespace Schemata

variable {α β : Type}

/-- Two lists with the same keys in some order have the same elements in some order, if elements
with one key are the same. -/
theorem perm_of_map_perm {key : α → β} {l l' : List α}
    (hkey : ∀ a ∈ l, ∀ b ∈ l', key a = key b → a = b) (h : (l.map key).Perm (l'.map key)) :
    l.Perm l' := by
  induction l generalizing l' with
  | nil =>
    have hnil : l' = [] := List.map_eq_nil_iff.1 h.nil_eq.symm
    rw [hnil]
  | cons a l ih =>
    have hmem : key a ∈ l'.map key := h.subset List.mem_cons_self
    obtain ⟨b, hb, hba⟩ := List.mem_map.1 hmem
    obtain rfl := hkey a List.mem_cons_self b hb hba.symm
    obtain ⟨front, back, rfl⟩ := List.append_of_mem hb
    have hmid : ((front ++ a :: back).map key).Perm (key a :: (front ++ back).map key) :=
      List.perm_middle.map key
    have hrest : (l.map key).Perm ((front ++ back).map key) := (h.trans hmid).cons_inv
    have hl : l.Perm (front ++ back) := by
      refine ih (fun x hx y hy => hkey x (List.mem_cons_of_mem _ hx) y ?_) hrest
      exact List.perm_middle.symm.subset (List.mem_cons_of_mem _ hy)
    exact (hl.cons a).trans List.perm_middle.symm

/-- Sorting forgets the order of its input, if no two elements tie. -/
theorem mergeSort_eq_of_perm {le : α → α → Bool} (htrans : ∀ a b c, le a b → le b c → le a c)
    (htotal : ∀ a b, le a b || le b a) {l l' : List α}
    (hantisymm : ∀ a ∈ l, ∀ b ∈ l', le a b → le b a → a = b) (h : l.Perm l') :
    l.mergeSort le = l'.mergeSort le := by
  refine List.Perm.eq_of_pairwise ?_ (List.pairwise_mergeSort htrans htotal l)
    (List.pairwise_mergeSort htrans htotal l') ?_
  · intro a b ha hb
    exact hantisymm a (List.mem_mergeSort.1 ha) b (List.mem_mergeSort.1 hb)
  · exact ((List.mergeSort_perm l le).trans h).trans (List.mergeSort_perm l' le).symm

/-- Texts have the same ascending order as lists exactly if they are the same up to their order. -/
theorem mergeSort_texts_eq_iff {l l' : List String} :
    l.mergeSort (fun a b => a ≤ b) = l'.mergeSort (fun a b => a ≤ b) ↔ l.Perm l' := by
  constructor
  · intro e
    have hperm := (List.mergeSort_perm l fun a b => decide (a ≤ b)).symm
    rw [e] at hperm
    exact hperm.trans (List.mergeSort_perm _ _)
  · refine mergeSort_eq_of_perm ?_ ?_ ?_
    · simp only [decide_eq_true_eq]
      exact fun a b c => String.le_trans
    · simp only [Bool.or_eq_true, decide_eq_true_eq]
      exact fun a b => String.le_total a b
    · simp only [decide_eq_true_eq]
      exact fun a _ b _ => String.le_antisymm

end Schemata

/-!
## Places in lists

A list that is made from the places and the elements of another one changes at one place as this one
does, and the places of some elements, in order, lead to these elements.
-/

namespace Schemata

variable {α β : Type}

theorem mapIdx_congr {f g : Nat → α → β} {l : List α} (h : ∀ n a, l[n]? = some a → f n a = g n a) :
    l.mapIdx f = l.mapIdx g := by
  refine List.ext_getElem? fun n => ?_
  rw [List.getElem?_mapIdx, List.getElem?_mapIdx]
  cases hn : l[n]? with
  | none => rfl
  | some a => rw [Option.map_some, Option.map_some, h n a hn]

/-- A change at one place of a list that is made from places and elements. -/
theorem modify_mapIdx {f g : Nat → α → β} {change : β → β} {place : Nat} {l : List α}
    (h : ∀ n a, l[n]? = some a → g n a = if place = n then change (f n a) else f n a) :
    (l.mapIdx f).modify place change = l.mapIdx g := by
  refine List.ext_getElem? fun n => ?_
  rw [List.getElem?_modify, List.getElem?_mapIdx, List.getElem?_mapIdx]
  cases hn : l[n]? with
  | none => rfl
  | some a =>
    rw [Option.map_some, Option.map_some, h n a hn]
    rfl

theorem nodup_concat {l : List α} {a : α} (h : l.Nodup) (ha : a ∉ l) : (l ++ [a]).Nodup := by
  rw [← List.concat_eq_append]
  exact h.concat ha

theorem map_mapIdx {γ : Type} {f : Nat → α → β} {g : β → γ} {k : α → γ} (h : ∀ n a, g (f n a) = k a)
    (l : List α) : (l.mapIdx f).map g = l.map k := by
  refine List.ext_getElem? fun n => ?_
  rw [List.getElem?_map, List.getElem?_mapIdx, List.getElem?_map, Option.map_map]
  exact congrArg (fun f => Option.map f _) (funext (h n))

/-- Elements that know their places have these as their numbers. -/
theorem map_eq_range {number : α → Nat} {l : List α} (h : ∀ n a, l[n]? = some a → number a = n) :
    l.map number = List.range l.length := by
  refine List.ext_getElem? fun n => ?_
  rw [List.getElem?_map]
  by_cases hn : n < l.length
  · rw [List.getElem?_eq_getElem hn, List.getElem?_range hn, Option.map_some,
      h n _ (List.getElem?_eq_getElem hn)]
  · rw [List.getElem?_eq_none (Nat.not_lt.1 hn), List.getElem?_eq_none (by simpa using hn)]
    rfl

/-- A change of the last element. -/
theorem modify_concat (change : α → α) (l : List α) (a : α) :
    (l ++ [a]).modify l.length change = l ++ [change a] := by
  induction l with
  | nil => rfl
  | cons b l ih =>
    rw [List.cons_append, List.length_cons, List.modify_succ_cons, ih, List.cons_append]

theorem findIdxs_concat (p : α → Bool) (l : List α) (a : α) :
    (l ++ [a]).findIdxs p = l.findIdxs p ++ if p a then [l.length] else [] := by
  rw [List.findIdxs_append, List.findIdxs_singleton, Nat.zero_add]

theorem zipIdx_concat (l : List α) (a : α) : (l ++ [a]).zipIdx = l.zipIdx ++ [(a, l.length)] := by
  rw [List.zipIdx_append, Nat.zero_add]
  rfl

/-- The elements at the places of some elements are these elements. -/
theorem filterMap_findIdxs (p : α → Bool) (l : List α) :
    ((l.findIdxs p).filterMap fun n => l[n]?) = l.filter p := by
  induction l using List.reverseRecOn with
  | nil => rfl
  | append_singleton l a ih =>
    have hfront : ((l.findIdxs p).filterMap fun n => (l ++ [a])[n]?) = l.filter p := by
      rw [← ih]
      refine List.filterMap_congr fun n hn => ?_
      obtain ⟨hlt, -⟩ := List.mem_findIdxs_iff_exists_getElem_pos.1 hn
      exact List.getElem?_append_left hlt
    rw [findIdxs_concat, List.filterMap_append, hfront, List.filter_append]
    congr 1
    cases hp : p a <;> simp [hp]

theorem map_fst_filter_zipIdx (p : α → Bool) (l : List α) :
    (l.zipIdx.filter fun x => p x.1).map (·.1) = l.filter p := by
  conv_rhs => rw [← List.zipIdx_map_fst 0 l]
  rw [List.filter_map]
  rfl

theorem findSome?_congr {f g : α → Option β} {l : List α} (h : ∀ a ∈ l, f a = g a) :
    l.findSome? f = l.findSome? g := by
  rw [← List.head?_filterMap, ← List.head?_filterMap, List.filterMap_congr h]

theorem findSome?_filterMap {γ : Type} (f : α → Option β) (g : β → Option γ) (l : List α) :
    (l.filterMap f).findSome? g = l.findSome? fun a => (f a).bind g := by
  rw [← List.head?_filterMap, ← List.head?_filterMap, List.filterMap_filterMap]

theorem flatMap_filterMap {γ : Type} (f : α → Option β) (g : β → List γ) (l : List α) :
    (l.filterMap f).flatMap g = l.flatMap fun a => (f a).elim [] g := by
  induction l with
  | nil => rfl
  | cons a l ih =>
    rw [List.filterMap_cons, List.flatMap_cons, ← ih]
    cases f a with
    | none => rfl
    | some b => rw [List.flatMap_cons, Option.elim_some]

/-- A search that goes on from what it finds finds it wherever the way on does not end. -/
theorem bind_findSome? {γ : Type} {g : α → Option β} {next : β → Option γ} {l : List α}
    (h : ∀ a ∈ l, ∀ b, g a = some b → (next b).isSome) :
    (l.findSome? g).bind next = l.findSome? fun a => (g a).bind next := by
  induction l with
  | nil => rfl
  | cons a l ih =>
    obtain ⟨ha, hl⟩ := List.forall_mem_cons.1 h
    rw [List.findSome?_cons, List.findSome?_cons]
    cases hg : g a with
    | none => exact ih hl
    | some b =>
      obtain ⟨c, hc⟩ := Option.isSome_iff_exists.1 (ha b hg)
      simp [hc]

theorem mem_findIdxs_iff {p : α → Bool} {l : List α} {n : Nat} :
    n ∈ l.findIdxs p ↔ ∃ a, l[n]? = some a ∧ p a := by
  rw [List.mem_findIdxs_iff_exists_getElem_pos]
  constructor
  · rintro ⟨hlt, hp⟩
    exact ⟨_, List.getElem?_eq_getElem hlt, hp⟩
  · rintro ⟨a, ha, hp⟩
    obtain ⟨hlt, rfl⟩ := List.getElem?_eq_some_iff.1 ha
    exact ⟨hlt, hp⟩

/-- The places of elements with different keys are different. -/
theorem nodup_flatMap_findIdxs {κ : Type} [BEq κ] [LawfulBEq κ] {keys : List κ} (hkeys : keys.Nodup)
    (key : α → Option κ) (l : List α) :
    (keys.flatMap fun k => l.findIdxs fun a => key a == some k).Nodup := by
  rw [List.nodup_flatMap]
  refine ⟨fun k _ => List.nodup_findIdxs, hkeys.imp fun {k k'} hne n hn hn' => hne ?_⟩
  obtain ⟨a, ha, hk⟩ := mem_findIdxs_iff.1 hn
  obtain ⟨a', ha', hk'⟩ := mem_findIdxs_iff.1 hn'
  obtain rfl := Option.some.inj (ha.symm.trans ha')
  exact Option.some.inj ((eq_of_beq hk).symm.trans (eq_of_beq hk'))

variable [BEq α] [LawfulBEq α]

theorem idxOf_eq_of_getElem? {l : List α} (hnodup : l.Nodup) {n : Nat} {a : α}
    (h : l[n]? = some a) :
    l.idxOf a = n := by
  obtain ⟨hlt, rfl⟩ := List.getElem?_eq_some_iff.1 h
  exact hnodup.idxOf_getElem n hlt

end Schemata
