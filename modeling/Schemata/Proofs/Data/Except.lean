import Mathlib.Data.List.Forall2

/-!
# Computations that can fail

When a chain of computations succeeds, and when one computation succeeds on every item of a list.
-/

namespace Schemata

variable {ε ε' α β : Type}

/-- A chain of two computations succeeds exactly if both do. -/
theorem bind_eq_ok_iff {x : Except ε α} {f : α → Except ε β} {b : β} :
    x >>= f = .ok b ↔ ∃ a, x = .ok a ∧ f a = .ok b := by
  cases x with
  | error e => simp [bind, Except.bind]
  | ok a => simp [bind, Except.bind]

theorem pure_eq_ok_iff {a b : α} : (pure a : Except ε α) = .ok b ↔ a = b := by
  simp [pure, Except.pure]

/-- Another wording of the error leaves success alone. -/
theorem mapError_eq_ok_iff {f : ε → ε'} {x : Except ε α} {a : α} :
    x.mapError f = .ok a ↔ x = .ok a := by
  cases x with
  | error e => simp [Except.mapError]
  | ok b => simp [Except.mapError]

/-- Computations whose results look the same fail alike, or both succeed. -/
theorem cases_of_map_eq {f : α → β} {x y : Except ε α} (h : x.map f = y.map f) :
    (∃ e, x = .error e ∧ y = .error e) ∨ ∃ a b, x = .ok a ∧ y = .ok b ∧ f a = f b := by
  cases x with
  | error e =>
    cases y with
    | error e' =>
      obtain rfl : e = e' := Except.error.inj h
      exact .inl ⟨e, rfl, rfl⟩
    | ok b => cases h
  | ok a =>
    cases y with
    | error e => cases h
    | ok b => exact .inr ⟨a, b, rfl, rfl, Except.ok.inj h⟩

/-- A computation succeeds on a list exactly if it succeeds on every item, with the results in
order. -/
theorem mapM_eq_ok_iff {f : α → Except ε β} {l : List α} {r : List β} :
    l.mapM f = .ok r ↔ List.Forall₂ (fun a b => f a = .ok b) l r := by
  induction l generalizing r with
  | nil =>
    simp only [List.mapM_nil, pure_eq_ok_iff, List.forall₂_nil_left_iff]
    exact eq_comm
  | cons a l ih =>
    simp only [List.mapM_cons, bind_eq_ok_iff, pure_eq_ok_iff, List.forall₂_cons_left_iff, ih]
    constructor
    · rintro ⟨b, hb, bs, hbs, rfl⟩
      exact ⟨b, bs, hb, hbs, rfl⟩
    · rintro ⟨b, bs, hb, hbs, rfl⟩
      exact ⟨b, hb, bs, hbs, rfl⟩

/-- A computation that succeeds on every item succeeds on the list. -/
theorem exists_mapM_eq_ok {f : α → Except ε β} {l : List α} (h : ∀ a ∈ l, ∃ b, f a = .ok b) :
    ∃ r, l.mapM f = .ok r := by
  induction l with
  | nil => exact ⟨[], rfl⟩
  | cons a l ih =>
    obtain ⟨b, hb⟩ := h a List.mem_cons_self
    obtain ⟨r, hr⟩ := ih fun c hc => h c (List.mem_cons_of_mem a hc)
    exact ⟨b :: r, mapM_eq_ok_iff.2 (.cons hb (mapM_eq_ok_iff.1 hr))⟩

/-- Computations that agree on every item agree on the list. -/
theorem mapM_congr_of_mem {f g : α → Except ε β} {l : List α} (h : ∀ a ∈ l, f a = g a) :
    l.mapM f = l.mapM g := by
  induction l with
  | nil => rfl
  | cons a l ih =>
    obtain ⟨ha, hl⟩ := List.forall_mem_cons.1 h
    rw [List.mapM_cons, List.mapM_cons, ha, ih hl]

/-! ## Item by item -/

/-- Every result comes from an item. -/
theorem exists_mem_of_mem_of_forall₂ {R : α → β → Prop} {l : List α} {r : List β}
    (h : List.Forall₂ R l r) {b : β} (hb : b ∈ r) : ∃ a ∈ l, R a b := by
  induction h with
  | nil => cases hb
  | @cons a b' l r hab _ ih =>
    rcases List.mem_cons.1 hb with rfl | hb
    · exact ⟨a, List.mem_cons_self, hab⟩
    · obtain ⟨a', ha', hr⟩ := ih hb
      exact ⟨a', List.mem_cons_of_mem a ha', hr⟩

/-- Items with the same images, one by one, make lists with the same images. -/
theorem map_eq_of_forall₂ {γ : Type} {f : α → γ} {g : β → γ} {l : List α} {r : List β}
    (h : List.Forall₂ (fun a b => f a = g b) l r) : l.map f = r.map g := by
  rwa [← List.forall₂_eq_eq_eq, List.forall₂_map_left_iff, List.forall₂_map_right_iff]

/-- What comes of pairs, item by item. -/
theorem forall₂_of_zip {γ : Type} {R : α × β → γ → Prop} {l : List α} {m : List β} {r : List γ}
    (hlen : m.length = l.length) (h : List.Forall₂ R (l.zip m) r) :
    List.Forall₂ (fun a c => ∃ b, R (a, b) c) l r := by
  induction l generalizing m r with
  | nil =>
    obtain rfl := List.forall₂_nil_left_iff.1 h
    exact .nil
  | cons a l ih =>
    cases m with
    | nil => simp at hlen
    | cons b m =>
      obtain ⟨c, r, hc, hrest, rfl⟩ := List.forall₂_cons_left_iff.1 h
      exact .cons ⟨b, hc⟩ (ih (by simpa using hlen) hrest)

/-- Pairs agree item by item exactly if their first parts do and their second parts are the same. -/
theorem forall₂_zip_iff {γ : Type} {R : α → β → Prop} {l : List α} {l' : List β} {m m' : List γ}
    (hlen : m.length = l.length) (hlen' : m'.length = l'.length) :
    List.Forall₂ (fun a b => R a.1 b.1 ∧ a.2 = b.2) (l.zip m) (l'.zip m') ↔
      List.Forall₂ R l l' ∧ m = m' := by
  induction l generalizing l' m m' with
  | nil =>
    obtain rfl := List.length_eq_zero_iff.1 hlen
    cases l' with
    | nil =>
      obtain rfl := List.length_eq_zero_iff.1 hlen'
      simp
    | cons b l' =>
      cases m' with
      | nil => simp at hlen'
      | cons c' m' => simp
  | cons a l ih =>
    cases m with
    | nil => simp at hlen
    | cons c m =>
      cases l' with
      | nil => simp
      | cons b l' =>
        cases m' with
        | nil => simp at hlen'
        | cons c' m' =>
          simp only [List.length_cons, Nat.add_right_cancel_iff] at hlen hlen'
          simp only [List.zip_cons_cons, List.forall₂_cons, ih hlen hlen', List.cons.injEq]
          exact and_and_and_comm

end Schemata
