import Schemata.Proofs.Text.EditDistance

/-!
# What is suggested

A suggestion is a candidate other than the name itself that is near enough, and no other candidate
is nearer.
-/

namespace Schemata.Suggestion

variable {name c : String} {candidates : List String} {bound : Nat}

theorem least_eq_none_iff {l : List (String × Nat)} : least l = none ↔ l = [] := by
  cases l with
  | nil => simp [least]
  | cons m rest =>
    rw [least]
    cases least rest with
    | none => simp
    | some b => by_cases hb : b.2 < m.2 <;> simp [hb]

/-- The least of some pairs is one of them, and none is less. -/
theorem of_least_eq_some {l : List (String × Nat)} {m : String × Nat} (h : least l = some m) :
    m ∈ l ∧ ∀ n ∈ l, m.2 ≤ n.2 := by
  induction l generalizing m with
  | nil => cases h
  | cons a rest ih =>
    rw [least] at h
    cases hrest : least rest with
    | none =>
      rw [hrest] at h
      obtain rfl := Option.some.inj h
      obtain rfl := least_eq_none_iff.1 hrest
      simp
    | some b =>
      obtain ⟨hb, hleast⟩ := ih hrest
      simp only [hrest] at h
      split at h
      · next hlt =>
        obtain rfl := Option.some.inj h
        exact ⟨List.mem_cons_of_mem _ hb, List.forall_mem_cons.2 ⟨Nat.le_of_lt hlt, hleast⟩⟩
      · next hge =>
        obtain rfl := Option.some.inj h
        refine ⟨List.mem_cons_self, List.forall_mem_cons.2 ⟨Nat.le_refl _, fun n hn => ?_⟩⟩
        exact Nat.le_trans (Nat.le_of_not_lt hge) (hleast n hn)

/-- The closest candidate is none but a candidate, and no other one that differs from the name is
closer. -/
theorem of_closest?_eq_some (h : closest? name candidates bound = some c) :
    c ∈ candidates ∧ c ≠ name ∧ distance name c ≤ bound ∧
      ∀ other ∈ candidates, other ≠ name → distance name c ≤ distance name other := by
  obtain ⟨m, hm, rfl⟩ := Option.map_eq_some_iff.1 h
  obtain ⟨hmem, hleast⟩ := of_least_eq_some hm
  simp only [List.mem_filter, List.mem_map, Bool.and_eq_true, decide_eq_true_eq, Bool.not_eq_true',
    beq_eq_false_iff_ne] at hmem hleast
  obtain ⟨⟨c, hc, rfl⟩, hnear, hne⟩ := hmem
  refine ⟨hc, hne, hnear, fun other hother hdiffers => ?_⟩
  by_cases hfar : distance name other ≤ bound
  · exact hleast _ ⟨⟨other, hother, rfl⟩, hfar, hdiffers⟩
  · exact Nat.le_trans hnear (Nat.le_of_not_le hfar)

/-- A hint names a candidate, and not the name itself. -/
theorem of_hint?_eq_some {hint : String} (h : hint? name candidates = some hint) :
    ∃ c ∈ candidates, c ≠ name ∧ hint = s!"did you mean `{c}`?" := by
  obtain ⟨c, hc, rfl⟩ := Option.map_eq_some_iff.1 h
  obtain ⟨hmem, hne, -, -⟩ := of_closest?_eq_some hc
  exact ⟨c, hmem, hne, rfl⟩

end Schemata.Suggestion

/-!
## The nearest candidate

What is suggested for a name is found among the candidates by their distances alone, and distances
count edits: it is the first one of those that the fewest edits lead to, as long as a candidate
other than the name is within the bound.
-/

namespace Schemata.Suggestion

variable {name c : String} {candidates : List String} {bound : Nat} {m : String × Nat}
  {l : List (String × Nat)}

/-! ### The first of the least -/

/-- A pair is the least one if those in front of it are greater and none behind it is less. -/
theorem least_append {front back : List (String × Nat)} (hfront : ∀ n ∈ front, m.2 < n.2)
    (hback : ∀ n ∈ back, m.2 ≤ n.2) : least (front ++ m :: back) = some m := by
  induction front with
  | nil =>
    rw [List.nil_append, least]
    cases hleast : least back with
    | none => rfl
    | some b => exact if_neg (Nat.not_lt.2 (hback b (of_least_eq_some hleast).1))
  | cons a front ih =>
    obtain ⟨ha, hfront⟩ := List.forall_mem_cons.1 hfront
    rw [List.cons_append, least, ih hfront]
    exact if_pos ha

/-- The least candidate is below those before it and not above those behind it. -/
theorem exists_split_of_least (h : least l = some m) :
    ∃ front back, l = front ++ m :: back ∧ (∀ n ∈ front, m.2 < n.2) ∧ ∀ n ∈ back, m.2 ≤ n.2 := by
  induction l generalizing m with
  | nil => cases h
  | cons a rest ih =>
    have hall := (of_least_eq_some h).2
    rw [least] at h
    cases hrest : least rest with
    | none =>
      rw [hrest] at h
      obtain rfl := Option.some.inj h
      exact ⟨[], rest, rfl, by simp, fun n hn => hall n (List.mem_cons_of_mem _ hn)⟩
    | some b =>
      simp only [hrest] at h
      split at h
      · next hlt =>
        obtain rfl := Option.some.inj h
        obtain ⟨front, back, rfl, hfront, hback⟩ := ih hrest
        exact ⟨a :: front, back, rfl, List.forall_mem_cons.2 ⟨hlt, hfront⟩, hback⟩
      · obtain rfl := Option.some.inj h
        exact ⟨[], rest, rfl, by simp, fun n hn => hall n (List.mem_cons_of_mem _ hn)⟩

/-! ### The closest candidate -/

/-- Whether a candidate may be suggested. -/
def isEligible (name : String) (bound : Nat) (c : String) : Bool :=
  distance name c ≤ bound && !(c == name)

/-- A candidate is another name within the bound. -/
theorem isEligible_iff : isEligible name bound c = true ↔ distance name c ≤ bound ∧ c ≠ name := by
  simp [isEligible]

/-- Only the candidates that may be suggested are compared. -/
theorem closest?_eq (name : String) (candidates : List String) (bound : Nat) :
    closest? name candidates bound =
      (least ((candidates.filter (isEligible name bound)).map fun c => (c, distance name c))).map
      (·.1) := by
  rw [closest?, List.filter_map]
  rfl

/-- Nothing is suggested exactly when every other name is too far away. -/
theorem closest?_eq_none_iff :
    closest? name candidates bound = none ↔ ∀ c ∈ candidates, c ≠ name →
      bound < distance name c := by
  rw [closest?_eq, Option.map_eq_none_iff, least_eq_none_iff, List.map_eq_nil_iff,
    List.filter_eq_nil_iff]
  refine forall₂_congr fun c _ => ?_
  rw [isEligible_iff, not_and', Nat.not_le]

theorem isSome_closest?_iff :
    (closest? name candidates bound).isSome ↔ ∃ c ∈ candidates, c ≠ name ∧
      distance name c ≤ bound := by
  constructor
  · intro h
    obtain ⟨c, hc⟩ := Option.isSome_iff_exists.1 h
    obtain ⟨hmem, hne, hnear, -⟩ := of_closest?_eq_some hc
    exact ⟨c, hmem, hne, hnear⟩
  · rintro ⟨c, hc, hne, hnear⟩
    rw [Option.isSome_iff_ne_none]
    intro hnone
    exact absurd hnear (Nat.not_le.2 (closest?_eq_none_iff.1 hnone c hc hne))

/-- A candidate is the closest one if it may be suggested, those in front of it are further away,
and none behind it is closer. -/
theorem closest?_append {front back : List String} (hne : c ≠ name)
    (hnear : distance name c ≤ bound)
    (hfront : ∀ d ∈ front, d ≠ name → distance name c < distance name d)
    (hback : ∀ d ∈ back, d ≠ name → distance name c ≤ distance name d) :
    closest? name (front ++ c :: back) bound = some c := by
  have hc : isEligible name bound c = true := isEligible_iff.2 ⟨hnear, hne⟩
  rw [closest?_eq, List.filter_append, List.filter_cons_of_pos hc, List.map_append,
    List.map_cons, least_append]
  · rfl
  · intro n hn
    obtain ⟨d, hd, rfl⟩ := List.mem_map.1 hn
    obtain ⟨hd, heligible⟩ := List.mem_filter.1 hd
    exact hfront d hd (isEligible_iff.1 heligible).2
  · intro n hn
    obtain ⟨d, hd, rfl⟩ := List.mem_map.1 hn
    obtain ⟨hd, heligible⟩ := List.mem_filter.1 hd
    exact hback d hd (isEligible_iff.1 heligible).2

/-- A candidate that may not be suggested, but is not the name itself, is further away than any that
may be. -/
theorem lt_distance_of_not_isEligible {d : String} (hnear : distance name c ≤ bound)
    (h : ¬isEligible name bound d = true) (hne : d ≠ name) : distance name c < distance name d := by
  rw [isEligible_iff, not_and'] at h
  exact Nat.lt_of_le_of_lt hnear (Nat.not_le.1 (h hne))

/-- What is suggested is the first of the nearest candidates. -/
theorem exists_split_of_closest? (h : closest? name candidates bound = some c) :
    ∃ front back, candidates = front ++ c :: back ∧ c ≠ name ∧ distance name c ≤ bound ∧
      (∀ d ∈ front, d ≠ name → distance name c < distance name d) ∧
      ∀ d ∈ back, d ≠ name → distance name c ≤ distance name d := by
  obtain ⟨-, hne, hnear, -⟩ := of_closest?_eq_some h
  rw [closest?_eq] at h
  obtain ⟨m, hm, rfl⟩ := Option.map_eq_some_iff.1 h
  obtain ⟨before, behind, hsplit, hbefore, hbehind⟩ := exists_split_of_least hm
  -- the split of the pairs is one of the candidates that may be suggested, and that one of all
  -- candidates
  obtain ⟨us, vs, hfilter, rfl, hvs⟩ := List.map_eq_append_iff.1 hsplit
  obtain ⟨c, ws, rfl, rfl, rfl⟩ := List.map_eq_cons_iff.1 hvs
  obtain ⟨front, rest, rfl, rfl, hrest⟩ := List.filter_eq_append_iff.1 hfilter
  obtain ⟨skipped, back, rfl, hskipped, -, rfl⟩ := List.filter_eq_cons_iff.1 hrest
  refine ⟨front ++ skipped, back, by rw [List.append_assoc], hne, hnear, ?_, ?_⟩
  · intro d hd hdne
    by_cases hd' : isEligible name bound d = true
    · rcases List.mem_append.1 hd with hd | hd
      · exact hbefore _ (List.mem_map_of_mem (List.mem_filter.2 ⟨hd, hd'⟩))
      · exact absurd hd' (hskipped d hd)
    · exact lt_distance_of_not_isEligible hnear hd' hdne
  · intro d hd hdne
    by_cases hd' : isEligible name bound d = true
    · exact hbehind _ (List.mem_map_of_mem (List.mem_filter.2 ⟨hd, hd'⟩))
    · exact (lt_distance_of_not_isEligible hnear hd' hdne).le

/-! ### Edits and suggestions -/

/-- A measure of texts that counts the fewest edits between them, and so is a metric. -/
structure CountsEdits (d : String → String → Nat) : Prop where
  isLeast : ∀ a b, IsLeast {n | Edits n a.toList b.toList} (d a b)
  comm : ∀ a b, d a b = d b a
  eq_zero_iff : ∀ a b, d a b = 0 ↔ a = b
  triangle : ∀ a b c, d a c ≤ d a b + d b c

/-- The distance of two texts counts the edits between them. -/
theorem countsEdits_distance : CountsEdits distance where
  isLeast a b := isLeast_between a.toList b.toList
  comm a b := between_comm a.toList b.toList
  eq_zero_iff _ _ := between_eq_zero_iff.trans String.toList_inj
  triangle a b c := between_triangle a.toList b.toList c.toList

/-- Distances count edits, also where they are found in two rows, and there is a suggestion just if
a candidate other than the name is within the bound: the first of those that are closest. -/
theorem nearest_by_edits :
    CountsEdits distance ∧ EditRows.distance = distance ∧
      ∀ name candidates bound,
        ((closest? name candidates bound).isSome ↔ ∃ c ∈ candidates, c ≠ name ∧
          distance name c ≤ bound) ∧
        ∀ c, closest? name candidates bound = some c ↔
          ∃ front back, candidates = front ++ c :: back ∧ c ≠ name ∧ distance name c ≤ bound ∧
            (∀ d ∈ front, d ≠ name → distance name c < distance name d) ∧
            ∀ d ∈ back, d ≠ name → distance name c ≤ distance name d := by
  refine ⟨countsEdits_distance, ?_, fun name candidates bound =>
    ⟨isSome_closest?_iff, fun c => ⟨exists_split_of_closest?, ?_⟩⟩⟩
  · funext a b
    exact EditRows.distance_eq a b
  · rintro ⟨front, back, rfl, hne, hnear, hfront, hback⟩
    exact closest?_append hne hnear hfront hback

example : distance "kitten" "sitting" = 3 ∧ closest? "Usr" ["Users", "User", "Us"] 2 =
    some "User" := by
  decide

end Schemata.Suggestion
