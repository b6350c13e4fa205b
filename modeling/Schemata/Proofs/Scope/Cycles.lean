import Mathlib.Data.List.Chain
import Mathlib.Data.List.Nodup
import Mathlib.Data.List.Perm.Subperm
import Mathlib.Order.WellFounded
import Schemata.Proofs.Scope.Packages
import Schemata.Scope.Link

/-!
# The search for import cycles

The search enters a package, follows its imports one by one, and leaves it. At any time the packages
that have been entered are those that it has left and those on the trail that it came by. A package
that has been left is settled: each of its imports is reported or leads to a package that was
settled before it.

No two different imports are mistaken for one another when only one is reported between two
packages: an import that closes a cycle leads to a package that was entered earlier, so of the
imports in both directions only one can close a cycle.
-/

/-!
## The graph of imports

Packages are connected by the imports of their files. A search goes along one import for each of
these connections.
-/

namespace Schemata

open Relation (ReflTransGen TransGen)

/-- A relation in which nothing leads back to where it started. -/
def Acyclic {α : Type} (r : α → α → Prop) : Prop := ∀ a, ¬TransGen r a a

section Cycles

variable {α : Type} {r s : α → α → Prop} {a : α}

/-- No cycle goes through a well-founded relation. -/
theorem acyclic_of_wellFounded (h : WellFounded fun b a => r a b) : Acyclic r := by
  intro a hcycle
  have hwf : WellFounded (TransGen (Function.swap r)) := h.transGen
  exact hwf.irrefl.irrefl a (Relation.transGen_swap.2 hcycle)

/-- A closed path makes a cycle. -/
theorem transGen_of_isChain {l : List α} (h : List.IsChain r (a :: (l ++ [a]))) :
    TransGen r a a := by
  cases l with
  | nil => exact .single (List.isChain_cons_cons.1 h).1
  | cons b l =>
    obtain ⟨hab, hrest⟩ := List.isChain_cons_cons.1 h
    exact .head' hab (List.relationReflTransGen_of_exists_isChain_cons _ hrest (by simp))

/-- Where there is no cycle without steps of a kind, every closed path has a step of this kind. -/
theorem exists_infix_of_isChain (h : Acyclic fun a b => r a b ∧ ¬s a b) {l : List α}
    (hl : List.IsChain r (a :: (l ++ [a]))) : ∃ b c, s b c ∧ [b, c] <:+: a :: (l ++ [a]) := by
  by_contra hnone
  refine h a (transGen_of_isChain (l := l) ?_)
  rw [List.isChain_iff_forall_rel_of_append_cons_cons] at hl ⊢
  intro b c before rest e
  exact ⟨hl e, fun hs => hnone ⟨b, c, hs, before, rest, by simp [e]⟩⟩

end Cycles

namespace Workspace

variable {w : Workspace} {p q : String}

/-- Whether a file of one package imports another package. -/
def Imports (w : Workspace) (p q : String) : Prop :=
  ∃ f ∈ w.files, f.file.path = p ∧ ∃ i ∈ f.imports, i.path = q

/-- An import that a search goes along is that of a file. -/
theorem mem_files_of_mem_edgesFrom {e : ImportEdge} (h : e ∈ w.edgesFrom p) :
    ∃ f ∈ w.files, f.file = e.file ∧ f.file.path = p ∧ e.via ∈ f.imports := by
  have hall := firsts_subset _ _ (List.mem_mergeSort.1 h)
  obtain ⟨f, hf, he⟩ := List.mem_flatMap.1 hall
  obtain ⟨hf, hp⟩ := List.mem_filter.1 hf
  obtain ⟨i, hi, rfl⟩ := List.mem_map.1 he
  exact ⟨f, hf, rfl, eq_of_beq hp, hi⟩

theorem source_of_mem_edgesFrom {e : ImportEdge} (h : e ∈ w.edgesFrom p) : e.source = p := by
  obtain ⟨f, -, hfile, hp, -⟩ := mem_files_of_mem_edgesFrom h
  rw [ImportEdge.source, ← hfile, hp]

/-- An edge out of a package is an import of that package. -/
theorem imports_of_mem_edgesFrom {e : ImportEdge} (h : e ∈ w.edgesFrom p) :
    w.Imports p e.target := by
  obtain ⟨f, hf, -, hp, hi⟩ := mem_files_of_mem_edgesFrom h
  exact ⟨f, hf, hp, e.via, hi, rfl⟩

/-- A search goes along every connection. -/
theorem exists_edge_of_imports (h : w.Imports p q) : ∃ e ∈ w.edgesFrom p, e.target = q := by
  obtain ⟨f, hf, rfl, i, hi, rfl⟩ := h
  have hfile : f ∈ w.filesOf f.file.path := List.mem_filter.2 ⟨hf, beq_self_eq_true _⟩
  have hall : (⟨f.file, i⟩ : ImportEdge) ∈
      (w.filesOf f.file.path).flatMap fun f => f.imports.map fun i => ⟨f.file, i⟩ :=
    List.mem_flatMap.2 ⟨f, hfile, List.mem_map_of_mem hi⟩
  obtain ⟨e, he, htarget⟩ := exists_mem_firsts ImportEdge.target hall
  exact ⟨e, List.mem_mergeSort.2 he, htarget⟩

end Workspace

end Schemata

/-! ## The search -/

namespace Schemata

open Relation (ReflTransGen TransGen)

/-- In a list without repeats two elements have one order. -/
theorem not_sublist_swap {α : Type} {a b : α} {l : List α} (hl : l.Nodup) (hab : [a, b].Sublist l) :
    ¬[b, a].Sublist l := by
  induction l with
  | nil => cases hab
  | cons c l ih =>
    obtain ⟨hc, hl⟩ := List.nodup_cons.1 hl
    intro hba
    cases hab with
    | cons _ hab =>
      cases hba with
      | cons _ hba => exact ih hl hab hba
      | cons_cons _ hba => exact hc (hab.subset (by simp))
    | cons_cons _ hab =>
      cases hba with
      | cons _ hba => exact hc (hba.subset (by simp))
      | cons_cons _ hba => exact hc (hba.subset (by simp))

namespace ImportCycle

/-- Whether one of some cycles is closed by an import from one package to another. -/
def Closed (found : List ImportCycle) (p q : String) : Prop :=
  ∃ c ∈ found, c.closing.source = p ∧ c.closing.target = q

/-- More found cycles close what fewer close. -/
theorem Closed.mono {found found' : List ImportCycle} (h : found ⊆ found') {p q : String}
    (hpq : Closed found p q) : Closed found' p q := by
  obtain ⟨c, hc, hsource, htarget⟩ := hpq
  exact ⟨c, h hc, hsource, htarget⟩

/-- Whether a cycle is one: from the package that it comes back to, an import in the file `leaving`
leads on to the package where it closes. -/
structure IsCycle (w : Workspace) (c : ImportCycle) : Prop where
  closing : c.closing ∈ w.edgesFrom c.closing.source
  leaving : ∃ t ∈ w.edgesFrom c.closing.target, t.file = c.leaving ∧
    ReflTransGen w.Imports t.target c.closing.source

/-- A found cycle is one of the import relation. -/
theorem IsCycle.transGen {w : Workspace} {c : ImportCycle} (h : c.IsCycle w) :
    TransGen w.Imports c.closing.source c.closing.source := by
  obtain ⟨t, ht, -, hback⟩ := h.leaving
  have hclosing := Workspace.imports_of_mem_edgesFrom h.closing
  have hleaving := Workspace.imports_of_mem_edgesFrom ht
  exact .head' hclosing (.head hleaving hback)

namespace Search

/-- What holds of a search at any time. -/
structure Sound (w : Workspace) (s : Search) : Prop where
  entered : s.entered.Nodup
  cycles : ∀ c ∈ s.found, c.IsCycle w
  /-- What closes a cycle leads back to a package that was entered earlier. -/
  back : ∀ c ∈ s.found, c.closing.source = c.closing.target ∨
    [c.closing.source, c.closing.target].Sublist s.entered
  pairwise : s.found.Pairwise fun c d => c.joins d.closing.source d.closing.target = false

theorem Sound.append {w : Workspace} {s : Search} {c : ImportCycle} (h : s.Sound w)
    (hc : c.IsCycle w) (hback : c.closing.source = c.closing.target ∨
      [c.closing.source, c.closing.target].Sublist s.entered)
    (hnew : ∀ d ∈ s.found, d.joins c.closing.source c.closing.target = false) :
    Sound w { s with found := s.found ++ [c] } where
  entered := h.entered
  cycles := by
    intro d hd
    rcases List.mem_append.1 hd with hd | hd
    · exact h.cycles d hd
    · rwa [List.mem_singleton.1 hd]
  back := by
    intro d hd
    rcases List.mem_append.1 hd with hd | hd
    · exact h.back d hd
    · rwa [List.mem_singleton.1 hd]
  pairwise := by
    refine List.pairwise_append.2 ⟨h.pairwise, List.pairwise_singleton _ _, ?_⟩
    intro d hd c' hc'
    rw [List.mem_singleton.1 hc']
    exact hnew d hd

theorem Sound.enter {w : Workspace} {s : Search} {p : String} (h : s.Sound w) (hp : p ∉ s.entered) :
    Sound w { s with entered := p :: s.entered } where
  entered := List.nodup_cons.2 ⟨hp, h.entered⟩
  cycles := h.cycles
  back := fun c hc => (h.back c hc).imp_right (·.cons p)
  pairwise := h.pairwise

end Search

end ImportCycle

namespace Workspace

open ImportCycle (Closed Search)

variable {w : Workspace}

/-- The imports on the way to a package, the last one first. -/
inductive Leads (w : Workspace) : List ImportEdge → String → Prop where
  | start (p : String) : Leads w [] p
  | step {trail : List ImportEdge} {p : String} {e : ImportEdge} (before : Leads w trail p)
      (edge : e ∈ w.edgesFrom p) : Leads w (e :: trail) e.target

theorem Leads.mem_edgesFrom {trail : List ImportEdge} {p : String} (h : w.Leads trail p)
    {t : ImportEdge} (ht : t ∈ trail) : t ∈ w.edgesFrom t.source := by
  induction h with
  | start p => cases ht
  | step _ edge ih =>
    rcases List.mem_cons.1 ht with rfl | ht
    · rwa [source_of_mem_edgesFrom edge]
    · exact ih ht

/-- From each package on the way the next one is imported, and so on up to the last one. -/
theorem Leads.reaches {trail : List ImportEdge} {p : String} (h : w.Leads trail p)
    {t : ImportEdge} (ht : t ∈ trail) : ReflTransGen w.Imports t.target p := by
  induction h with
  | start p => cases ht
  | step _ edge ih =>
    rcases List.mem_cons.1 ht with rfl | ht
    · exact .refl
    · exact (ih ht).tail (imports_of_mem_edgesFrom edge)

/-- Packages that the search has left, the last one first. -/
inductive Settled (w : Workspace) (found : List ImportCycle) : List String → Prop where
  | nil : Settled w found []
  | cons {p : String} {left : List String} (earlier : Settled w found left)
      (edges : ∀ e ∈ w.edgesFrom p, Closed found p e.target ∨ e.target ∈ left) :
      Settled w found (p :: left)

/-- More found cycles keep settled what was settled. -/
theorem Settled.mono {found found' : List ImportCycle} (h : found ⊆ found') {left : List String}
    (hleft : w.Settled found left) : w.Settled found' left := by
  induction hleft with
  | nil => exact .nil
  | cons _ edges ih => exact .cons ih fun e he => (edges e he).imp_left (·.mono h)

/-- From a settled package nothing but reported imports leads on for ever. -/
theorem Settled.acc {found : List ImportCycle} {left : List String} (h : w.Settled found left)
    {p : String} (hp : p ∈ left) : Acc (fun q p => w.Imports p q ∧ ¬Closed found p q) p := by
  induction h generalizing p with
  | nil => cases hp
  | cons _ edges ih =>
    rcases List.mem_cons.1 hp with rfl | hp
    · refine .intro _ ?_
      rintro q ⟨himports, hopen⟩
      obtain ⟨e, he, rfl⟩ := exists_edge_of_imports himports
      exact ih ((edges e he).resolve_left hopen)
    · exact ih hp

/-- What holds of a search that has come along `way`, the last package first, and has left the
packages `left`. -/
structure Phase (w : Workspace) (way left : List String) (s : Search) : Prop where
  sound : s.Sound w
  settled : w.Settled s.found left
  sublist : way.Sublist s.entered
  /-- A package that has been entered has been left or is on the way. -/
  entered : ∀ p ∈ s.entered, p ∈ left ∨ p ∈ way

/-- A search that goes on, and comes back to the same package. -/
structure Progress (w : Workspace) (way left left' : List String) (s s' : Search) : Prop where
  phase : w.Phase way left' s'
  left : left ⊆ left'
  found : s.found ⊆ s'.found

namespace Progress

variable {way left left' left'' : List String} {s s' s'' : Search}

/-- A search that stands still has made progress. -/
theorem refl (h : w.Phase way left s) : w.Progress way left left s s :=
  ⟨h, List.Subset.refl _, List.Subset.refl _⟩

/-- Progress is put together from steps. -/
theorem trans (h : w.Progress way left left' s s') (h' : w.Progress way left' left'' s' s'') :
    w.Progress way left left'' s s'' :=
  ⟨h'.phase, List.Subset.trans h.left h'.left, List.Subset.trans h.found h'.found⟩

end Progress

/-! ### Entering and leaving a package -/

section Steps

variable {way left left' : List String} {s s' : Search} {p : String}

theorem Phase.enter (h : w.Phase way left s) (hp : p ∉ s.entered) :
    w.Phase (p :: way) left { s with entered := p :: s.entered } where
  sound := h.sound.enter hp
  settled := h.settled
  sublist := h.sublist.cons_cons p
  entered := by
    intro q hq
    rcases List.mem_cons.1 hq with rfl | hq
    · exact .inr List.mem_cons_self
    · exact (h.entered q hq).imp_right (List.mem_cons_of_mem p)

/-- A package may be left when each of its edges is closed or leads to a package that was left. -/
theorem Phase.leave (h : w.Phase (p :: way) left s)
    (edges : ∀ e ∈ w.edgesFrom p, Closed s.found p e.target ∨ e.target ∈ left) :
    w.Phase way (p :: left) s where
  sound := h.sound
  settled := .cons h.settled edges
  sublist := (List.sublist_cons_self p way).trans h.sublist
  entered := by
    intro q hq
    rcases h.entered q hq with hq | hq
    · exact .inl (List.mem_cons_of_mem p hq)
    · rcases List.mem_cons.1 hq with rfl | hq
      · exact .inl List.mem_cons_self
      · exact .inr hq

/-! ### Following an import -/

variable {trail : List ImportEdge} {e t : ImportEdge}

/-- An import back to the way closes a cycle. -/
theorem Leads.isCycle (h : w.Leads trail p) (he : e ∈ w.edgesFrom p) (ht : t ∈ e :: trail)
    (hback : t.source = e.target) : ImportCycle.IsCycle w ⟨e, t.file⟩ where
  closing := by rwa [source_of_mem_edgesFrom he]
  leaving := by
    have hall : w.Leads (e :: trail) e.target := .step h he
    refine ⟨t, hback ▸ hall.mem_edgesFrom ht, rfl, ?_⟩
    rcases List.mem_cons.1 ht with rfl | ht
    · rw [← hback]
    · rw [source_of_mem_edgesFrom he]
      exact h.reaches ht

/-- What leads back to the way leads to the package itself or to one that was entered earlier. -/
theorem Phase.back_of_mem (h : w.Phase (p :: way) left s) {q : String} (hq : q ∈ p :: way) :
    p = q ∨ [p, q].Sublist s.entered := by
  rcases List.mem_cons.1 hq with rfl | hq
  · exact .inl rfl
  · exact .inr (((List.singleton_sublist.2 hq).cons_cons p).trans h.sublist)

/-- The cycle that one between the same two packages keeps from being reported is closed by the
same import. -/
theorem Phase.closed_of_joins (h : w.Phase (p :: way) left s) {q : String} (hq : q ∈ p :: way)
    {d : ImportCycle} (hd : d ∈ s.found) (hjoins : d.joins p q = true) : Closed s.found p q := by
  simp only [ImportCycle.joins, Bool.or_eq_true, Bool.and_eq_true, beq_iff_eq] at hjoins
  rcases hjoins with ⟨hsource, htarget⟩ | ⟨hsource, htarget⟩
  · exact ⟨d, hd, hsource, htarget⟩
  · have hback := h.sound.back d hd
    rw [hsource, htarget] at hback
    rcases h.back_of_mem hq with rfl | hpq
    · exact ⟨d, hd, hsource, htarget⟩
    · rcases hback with rfl | hqp
      · exact ⟨d, hd, hsource, htarget⟩
      · exact absurd hqp (not_sublist_swap h.sound.entered hpq)

/-- An import back to the way is reported. -/
theorem Phase.add (h : w.Phase (p :: way) left s) {c : ImportCycle} (hc : c.IsCycle w)
    (hsource : c.closing.source = p) (htarget : c.closing.target ∈ p :: way) :
    w.Progress (p :: way) left left s (s.add c) ∧ Closed (s.add c).found p c.closing.target := by
  rw [Search.add]
  split
  · next hany =>
    obtain ⟨d, hd, hjoins⟩ := List.any_eq_true.1 hany
    rw [hsource] at hjoins
    exact ⟨.refl h, h.closed_of_joins htarget hd hjoins⟩
  · next hnone =>
    have hsub : s.found ⊆ s.found ++ [c] := List.subset_append_left _ _
    have hmem : c ∈ s.found ++ [c] := by simp
    have hsound : Search.Sound w { s with found := s.found ++ [c] } := by
      refine h.sound.append hc (hsource ▸ h.back_of_mem htarget) fun d hd => ?_
      exact Bool.eq_false_iff.2 fun hjoins => hnone (List.any_eq_true.2 ⟨d, hd, hjoins⟩)
    exact ⟨⟨⟨hsound, h.settled.mono hsub, h.sublist, h.entered⟩, List.Subset.refl _, hsub⟩,
      c, hmem, hsource, rfl⟩

/-- The search with one more import of the package that `trail` leads to followed. -/
def follow (w : Workspace) (steps : Nat) (trail : List ImportEdge) (s : Search)
    (e : ImportEdge) : Search :=
  match (e :: trail).find? fun t => t.source == e.target with
  | some t => s.add ⟨e, t.file⟩
  | none =>
    if s.entered.contains e.target then s
    else w.searchFrom steps (e :: trail) e.target s

theorem searchFrom_succ (w : Workspace) (steps : Nat) (trail : List ImportEdge)
    (p : String) (s : Search) :
    w.searchFrom (steps + 1) trail p s =
      (w.edgesFrom p).foldl (w.follow steps trail) { s with entered := p :: s.entered } := rfl

/-- Whether the packages that files belong to and those that they import are all there. -/
structure IsClosed (w : Workspace) : Prop where
  source : ∀ {p q : String}, w.Imports p q → p ∈ w.packages
  target : ∀ {p q : String}, w.Imports p q → q ∈ w.packages

/-- What a search from a package does if it has steps enough: it enters the package and
leaves it. -/
def Searches (w : Workspace) (steps : Nat) : Prop :=
  ∀ {trail : List ImportEdge} {p : String} {left : List String} {s : Search},
    w.Leads trail p → p ∈ w.packages → p ∉ s.entered → w.Phase (trail.map (·.source)) left s →
    w.packages.length ≤ steps + trail.length →
    ∃ left', w.Progress (trail.map (·.source)) left left' s
      (w.searchFrom steps trail p s) ∧ p ∈ left'

/-- An import that has been followed is reported or leads to a package that the search has left. -/
theorem Phase.follow {steps : Nat} (hsearches : w.Searches steps) (hleads : w.Leads trail p)
    (htarget : e.target ∈ w.packages) (hsteps : w.packages.length ≤ steps + (e :: trail).length)
    (he : e ∈ w.edgesFrom p) (h : w.Phase (p :: trail.map (·.source)) left s) :
    ∃ left', w.Progress (p :: trail.map (·.source)) left left' s (w.follow steps trail s e) ∧
      (Closed (w.follow steps trail s e).found p e.target ∨ e.target ∈ left') := by
  obtain rfl : e.source = p := source_of_mem_edgesFrom he
  rw [Workspace.follow]
  split
  · next t hfind =>
    have ht := List.mem_of_find?_eq_some hfind
    have hback : t.source = e.target := by simpa using List.find?_some hfind
    have hway : e.target ∈ (e :: trail).map (·.source) := hback ▸ List.mem_map_of_mem ht
    obtain ⟨hprogress, hclosed⟩ := h.add (hleads.isCycle he ht hback) rfl hway
    exact ⟨left, hprogress, .inl hclosed⟩
  · next hfind =>
    have hway : e.target ∉ (e :: trail).map (·.source) := by
      intro hmem
      obtain ⟨t, ht, hback⟩ := List.mem_map.1 hmem
      exact List.find?_eq_none.1 hfind t ht (by simpa using hback)
    split
    · next hentered =>
      have hmem : e.target ∈ s.entered := by simpa using hentered
      exact ⟨left, .refl h, .inr ((h.entered _ hmem).resolve_right hway)⟩
    · next hentered =>
      have hnew : e.target ∉ s.entered := by simpa using hentered
      obtain ⟨left', hprogress, hleft⟩ := hsearches (.step hleads he) htarget hnew h hsteps
      exact ⟨left', hprogress, .inr hleft⟩

/-- Once imports of a package have been followed, each of them is reported or leads to a package
that the search has left. -/
theorem Phase.foldl_follow {steps : Nat} (hw : w.IsClosed) (hsearches : w.Searches steps)
    (hleads : w.Leads trail p) (hsteps : w.packages.length ≤ steps + (trail.length + 1))
    {es : List ImportEdge} (hes : es ⊆ w.edgesFrom p)
    (h : w.Phase (p :: trail.map (·.source)) left s) :
    ∃ left', w.Progress (p :: trail.map (·.source)) left left' s
      (es.foldl (w.follow steps trail) s) ∧
      ∀ e ∈ es, Closed (es.foldl (w.follow steps trail) s).found p e.target ∨ e.target ∈ left' := by
  induction es generalizing left s with
  | nil => exact ⟨left, .refl h, by simp⟩
  | cons e es ih =>
    obtain ⟨he, hes⟩ := List.cons_subset.1 hes
    have htarget := hw.target (imports_of_mem_edgesFrom he)
    obtain ⟨left', hfirst, hedge⟩ := h.follow hsearches hleads htarget hsteps he
    obtain ⟨left'', hrest, hedges⟩ := ih hes hfirst.phase
    refine ⟨left'', hfirst.trans hrest, ?_⟩
    intro d hd
    rcases List.mem_cons.1 hd with rfl | hd
    · exact hedge.imp (·.mono hrest.found) (hrest.left ·)
    · exact hedges d hd

/-- A way without repeats is not longer than there are packages. -/
theorem Phase.length_way_le (hw : w.IsClosed) (hleads : w.Leads trail p) (hp : p ∈ w.packages)
    (h : w.Phase (p :: trail.map (·.source)) left s) : trail.length + 1 ≤ w.packages.length := by
  have hnodup := h.sound.entered.sublist h.sublist
  have hsub : p :: trail.map (·.source) ⊆ w.packages := by
    refine List.cons_subset.2 ⟨hp, fun q hq => ?_⟩
    obtain ⟨t, ht, rfl⟩ := List.mem_map.1 hq
    exact hw.source (imports_of_mem_edgesFrom (hleads.mem_edgesFrom ht))
  simpa using (List.subperm_of_subset hnodup hsub).length_le

/-- A search from a package has steps enough, and its imports are followed before it is left. -/
theorem searches (hw : w.IsClosed) (steps : Nat) : w.Searches steps := by
  induction steps with
  | zero =>
    intro trail p left s hleads hp hnew h hsteps
    have := (h.enter hnew).length_way_le hw hleads hp
    omega
  | succ steps ih =>
    intro trail p left s hleads hp hnew h hsteps
    rw [searchFrom_succ]
    obtain ⟨left', hprogress, hedges⟩ := (h.enter hnew).foldl_follow hw ih hleads (by omega)
      (List.Subset.refl _)
    exact ⟨p :: left', ⟨hprogress.phase.leave hedges, List.subset_cons_of_subset p hprogress.left,
      hprogress.found⟩, List.mem_cons_self⟩

/-! ### The whole search -/

/-- The search from all those of some packages that have not been entered. -/
def searchAll (w : Workspace) (order : List String) (s : Search) : Search :=
  order.foldl (fun s p => if s.entered.contains p then s
    else w.searchFrom w.packages.length [] p s) s

/-- The search over all packages leaves every one of them. -/
theorem Phase.searchAll (hw : w.IsClosed) {order : List String} (horder : order ⊆ w.packages)
    (h : w.Phase [] left s) :
    ∃ left', w.Progress [] left left' s (w.searchAll order s) ∧ order ⊆ left' := by
  induction order generalizing left s with
  | nil => exact ⟨left, .refl h, List.nil_subset _⟩
  | cons p order ih =>
    obtain ⟨hp, horder⟩ := List.cons_subset.1 horder
    have hfirst : ∃ left', w.Progress [] left left' s
        (if s.entered.contains p then s else w.searchFrom w.packages.length [] p s) ∧
        p ∈ left' := by
      split
      · next hentered =>
        have hmem : p ∈ s.entered := by simpa using hentered
        exact ⟨left, .refl h, (h.entered p hmem).resolve_right List.not_mem_nil⟩
      · next hentered =>
        have hnew : p ∉ s.entered := by simpa using hentered
        exact searches hw _ (.start p) hp hnew h (Nat.le_refl _)
    obtain ⟨left', hfirst, hleft⟩ := hfirst
    obtain ⟨left'', hrest, hlefts⟩ := ih horder hfirst.phase
    exact ⟨left'', hfirst.trans hrest, List.cons_subset.2 ⟨hrest.left hleft, hlefts⟩⟩

/-- The search comes to an end with all packages left behind. -/
theorem exists_phase_importCycles (hw : w.IsClosed) :
    ∃ s left, w.Phase [] left s ∧ w.packages ⊆ left ∧ s.found = w.importCycles := by
  have hstart : w.Phase [] [] ⟨[], []⟩ :=
    ⟨⟨List.nodup_nil, by simp, by simp, .nil⟩, .nil, List.Sublist.refl _, by simp⟩
  have hsub : w.packages.mergeSort (fun a b => a ≤ b) ⊆ w.packages := fun _ => List.mem_mergeSort.1
  obtain ⟨left, hprogress, hleft⟩ := hstart.searchAll hw hsub
  exact ⟨_, left, hprogress.phase, fun p hp => hleft (List.mem_mergeSort.2 hp), rfl⟩

/-- What the search reports are cycles. -/
theorem isCycle_of_mem_importCycles (hw : w.IsClosed) {c : ImportCycle} (hc : c ∈ w.importCycles) :
    c.IsCycle w := by
  obtain ⟨s, left, h, -, hs⟩ := exists_phase_importCycles hw
  exact h.sound.cycles c (hs ▸ hc)

/-- No two cycles are closed between the same two packages. -/
theorem pairwise_importCycles (hw : w.IsClosed) :
    w.importCycles.Pairwise fun c d => c.joins d.closing.source d.closing.target = false := by
  obtain ⟨s, left, h, -, hs⟩ := exists_phase_importCycles hw
  exact hs ▸ h.sound.pairwise

/-- Without the imports that close the cycles nothing leads on for ever. -/
theorem wellFounded_importCycles (hw : w.IsClosed) :
    WellFounded fun q p => w.Imports p q ∧ ¬Closed w.importCycles p q := by
  obtain ⟨s, left, h, hleft, hs⟩ := exists_phase_importCycles hw
  refine ⟨fun p => .intro p ?_⟩
  rintro q ⟨himports, -⟩
  exact hs ▸ h.settled.acc (hleft (hw.target himports))

/-- Without the imports that close the cycles there is no cycle. -/
theorem acyclic_importCycles (hw : w.IsClosed) :
    Acyclic fun p q => w.Imports p q ∧ ¬Closed w.importCycles p q :=
  acyclic_of_wellFounded (wellFounded_importCycles hw)

/-- The search finds nothing exactly if there is no cycle. -/
theorem importCycles_eq_nil_iff (hw : w.IsClosed) : w.importCycles = [] ↔ Acyclic w.Imports := by
  constructor
  · intro hnone
    simpa [hnone, Closed] using acyclic_importCycles hw
  · intro hacyclic
    by_contra hne
    obtain ⟨c, hc⟩ := List.exists_mem_of_ne_nil _ hne
    exact hacyclic _ (isCycle_of_mem_importCycles hw hc).transGen

/-- Without imports there are no cycles to find. -/
theorem importCycles_eq_nil_of_not_imports (h : ∀ p q, ¬w.Imports p q) : w.importCycles = [] := by
  refine (importCycles_eq_nil_iff ⟨?_, ?_⟩).2 fun p hcycle => ?_
  · exact fun hpq => (h _ _ hpq).elim
  · exact fun hpq => (h _ _ hpq).elim
  · obtain ⟨q, hpq, -⟩ := TransGen.head'_iff.1 hcycle
    exact h p q hpq

end Steps

end Workspace

end Schemata
