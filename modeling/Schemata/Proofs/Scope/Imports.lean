import Mathlib.Data.List.Nodup
import Schemata.Proofs.Scope.Assembly
import Schemata.Scope.Link

/-!
# What becomes of uses

The uses of a file are taken in order. A use is registered as an import, or else it is reported for
the first of four reasons that holds good; which one does is seen from the table of the imports
registered before it. What one step keeps up then holds of all imports of a file: they are of
different packages that are there, none of them its own, and no alias serves two of them.
-/

/-!
## Tables of imports are consistent

As long as packages are imported once, the indexes of a table say what its list of imports says: a
key leads to the imports with this key, in their order, and a package leads to the one import of it.
-/

namespace Schemata.ImportTable

variable {t : ImportTable} {i : Import}

/-- The places of the imports with a key. -/
def placesOf (imports : List Import) (key : String) : List Nat :=
  (imports.zipIdx.filter (·.1.key == key)).map (·.2)

/-- A table of different packages in which the indexes give the places of the imports. -/
structure IsConsistent (t : ImportTable) : Prop where
  nodup_paths : (t.imports.map (·.path)).Nodup
  byKey : ∀ key, (t.byKey.get? key).getD [] = placesOf t.imports key
  byPackage : ∀ package place, t.byPackage.get? package = some place ↔
    ∃ i, t.imports[place]? = some i ∧ i.path = package

namespace IsConsistent

theorem empty : empty.IsConsistent where
  nodup_paths := List.nodup_nil
  byKey := fun _ => rfl
  byPackage := fun _ place => by simp [ImportTable.empty, OrderedMap.empty, OrderedMap.get?]

/-- A key leads to the imports that have it. -/
theorem importsAs_eq (h : t.IsConsistent) (key : String) :
    t.importsAs key = t.imports.filter (·.key == key) := by
  have hplace : ∀ x ∈ t.imports.zipIdx.filter (·.1.key == key),
      ((fun place => t.imports[place]?) ∘ fun x : Import × Nat => x.2) x = some x.1 := fun x hx =>
    List.mem_zipIdx_iff_getElem?.1 (List.mem_of_mem_filter hx)
  rw [importsAs, h.byKey, placesOf, List.filterMap_map, List.filterMap_congr hplace]
  calc
    _ = (t.imports.zipIdx.filter (·.1.key == key)).map (·.1) := by rw [← List.filterMap_eq_map]; rfl
    _ = (t.imports.zipIdx.map (·.1)).filter (·.key == key) := by rw [List.filter_map]; rfl
    _ = _ := by rw [List.zipIdx_map_fst]

/-- A package leads to the import of it. -/
theorem importOf?_eq_some_iff (h : t.IsConsistent) {package : String} :
    t.importOf? package = some i ↔ i ∈ t.imports ∧ i.path = package := by
  rw [importOf?, Option.bind_eq_some_iff]
  constructor
  · rintro ⟨place, hplace, hi⟩
    obtain ⟨j, hj, hpath⟩ := (h.byPackage package place).1 hplace
    obtain rfl : j = i := Option.some.inj (hj.symm.trans hi)
    exact ⟨List.mem_of_getElem? hj, hpath⟩
  · rintro ⟨hi, hpath⟩
    obtain ⟨place, hplace⟩ := List.mem_iff_getElem?.1 hi
    exact ⟨place, (h.byPackage package place).2 ⟨i, hplace, hpath⟩, hplace⟩

/-- A package has no import in the table exactly when none leads to it. -/
theorem importOf?_eq_none_iff (h : t.IsConsistent) {package : String} :
    t.importOf? package = none ↔ ∀ i ∈ t.imports, i.path ≠ package := by
  simp only [Option.eq_none_iff_forall_ne_some, ne_eq, h.importOf?_eq_some_iff, not_and]

/-- Registering an import of a new package keeps a table consistent. -/
theorem register (h : t.IsConsistent) (hnew : ∀ j ∈ t.imports, j.path ≠ i.path) :
    (t.register i).IsConsistent where
  nodup_paths := by
    have hpath : i.path ∉ t.imports.map (·.path) := by
      rw [List.mem_map]
      rintro ⟨j, hj, e⟩
      exact hnew j hj e
    rw [ImportTable.register, List.map_append, List.map_singleton, ← List.concat_eq_append]
    exact (List.nodup_concat _ _).2 ⟨hpath, h.nodup_paths⟩
  byKey := fun key => by
    simp only [ImportTable.register, placesOf, OrderedMap.get?_insert, List.zipIdx_append,
      List.filter_append, List.map_append, Nat.zero_add]
    rw [← placesOf, ← h.byKey]
    by_cases hkey : key = i.key
    · simp [hkey]
    · simp [hkey, Ne.symm hkey]
  byPackage := fun package place => by
    have hold : t.byPackage.get? package = some place → place < t.imports.length := fun hplace => by
      obtain ⟨j, hj, -⟩ := (h.byPackage package place).1 hplace
      exact (List.getElem?_eq_some_iff.1 hj).1
    simp only [ImportTable.register, OrderedMap.get?_insert]
    by_cases hpackage : package = i.path
    · subst hpackage
      simp only [if_true, Option.some.injEq]
      constructor
      · rintro rfl
        exact ⟨i, List.getElem?_concat_length, rfl⟩
      · rintro ⟨j, hj, hpath⟩
        rw [List.getElem?_append] at hj
        split at hj
        · exact absurd hpath (hnew j (List.mem_of_getElem? hj))
        · have hlt := (List.getElem?_eq_some_iff.1 hj).1
          rw [List.length_singleton] at hlt
          omega
    · rw [if_neg hpackage, h.byPackage]
      refine exists_congr fun j => and_congr_left fun hpath => ?_
      rw [List.getElem?_append]
      split
      · rfl
      · next hge =>
        refine iff_of_false (fun hj => hge (List.getElem?_eq_some_iff.1 hj).1) fun hj => hpackage ?_
        rw [← hpath, List.mem_singleton.1 (List.mem_of_getElem? hj)]

end IsConsistent

end Schemata.ImportTable

/-! ## Uses and their outcomes -/

namespace Schemata

/-- The import that a use stands for if nothing is wrong with it. -/
def UseDecl.toImport (u : UseDecl) : Import := ⟨Path.normalize u.path, u.aliasName, u.span⟩

namespace Workspace

variable {w : Workspace}

/-! ### Single uses -/

/-- A use stands for an import if its alias serves no import before it, and it is of another package
that is there and has not been imported before. -/
theorem acceptUse_eq_ok_iff {file : FileRef} {accepted : List Import} {u : UseDecl} {i : Import} :
    w.acceptUse file accepted u = .ok i ↔
      (u.aliasName.isSome → ∀ j ∈ accepted, j.key ≠ u.toImport.key) ∧ u.toImport.path ≠ file.path ∧
        u.toImport.path ∈ w.packages ∧ (∀ j ∈ accepted, j.path ≠ u.toImport.path) ∧
          u.toImport = i := by
  have hholder : (u.aliasName.bind fun a => (accepted.find? (·.key == a.name)).map fun i =>
      (a, i)) = none ↔
      (u.aliasName.isSome → ∀ j ∈ accepted, j.key ≠ u.toImport.key) := by
    cases ha : u.aliasName with
    | none => simp
    | some a => simp [UseDecl.toImport, Import.key, aliasKey, ha]
  have hearlier : accepted.find? (·.path == u.toImport.path) = none ↔
      ∀ j ∈ accepted, j.path ≠ u.toImport.path := by
    simp only [List.find?_eq_none, beq_iff_eq, ne_eq]
  rw [← hholder, ← hearlier]
  unfold acceptUse
  simp only [UseDecl.toImport]
  split
  · next h => simp [h]
  · next h =>
    split
    · next hself => simp [hself]
    · next hself =>
      split
      · next hunknown => simp_all
      · next hknown =>
        split
        · next h' => simp [h']
        · next h' => simp_all

/-- What becomes of a use: an import of a package that is there, or an error of one of
four kinds. -/
theorem acceptUse_cases (w : Workspace) (file : FileRef) (accepted : List Import) (u : UseDecl) :
    (w.acceptUse file accepted u = .ok u.toImport ∧ u.toImport.path ∈ w.packages) ∨
      ∃ d, w.acceptUse file accepted u = .error d ∧ d.isError = true ∧
        d.kind ∈ [.aliasAlreadyDefined, .selfImport, .packageNotFound, .duplicateImport] := by
  unfold acceptUse
  simp only
  split
  · exact .inr ⟨_, rfl, rfl, by simp [Diagnostic.relate, Diagnostic.report]⟩
  · split
    · exact .inr ⟨_, rfl, rfl, by simp [Diagnostic.report]⟩
    · split
      · exact .inr ⟨_, rfl, rfl, by simp [Diagnostic.addHint, Diagnostic.report]⟩
      · next hknown =>
        split
        · exact .inr ⟨_, rfl, rfl, by simp [Diagnostic.relate, Diagnostic.report]⟩
        · exact .inl ⟨rfl, by simpa [UseDecl.toImport] using hknown⟩

/-- An accepted import is the written one, and its package is there. -/
theorem eq_toImport_of_acceptUse {file : FileRef} {accepted : List Import}
    {u : UseDecl} {i : Import}
    (h : w.acceptUse file accepted u = .ok i) : i = u.toImport ∧ i.path ∈ w.packages := by
  obtain ⟨-, -, hknown, -, rfl⟩ := acceptUse_eq_ok_iff.1 h
  exact ⟨rfl, hknown⟩

/-- A refused import is an error of one of four kinds. -/
theorem isError_of_acceptUse {file : FileRef} {accepted : List Import} {u : UseDecl}
    {d : Diagnostic} (h : w.acceptUse file accepted u = .error d) : d.isError = true ∧
      d.kind ∈ [.aliasAlreadyDefined, .selfImport, .packageNotFound, .duplicateImport] := by
  rcases w.acceptUse_cases file accepted u with ⟨hu, -⟩ | ⟨d', hu, hd'⟩
  · rw [hu] at h
    cases h
  · obtain rfl := Except.error.inj (hu.symm.trans h)
    exact hd'

/-- Uses of which none is reported all are imports. -/
theorem acceptUses_of_reports_eq_nil {file : FileRef} {accepted : List Import} {uses : List UseDecl}
    (h : (w.acceptUses file accepted uses).2 = []) :
    (w.acceptUses file accepted uses).1 = accepted ++ uses.map (·.toImport) := by
  induction uses generalizing accepted with
  | nil => simp [acceptUses]
  | cons u rest ih =>
    rw [acceptUses] at h ⊢
    split at h
    · next i hi =>
      obtain ⟨rfl, -⟩ := eq_toImport_of_acceptUse hi
      rw [ih h, List.map_cons, List.append_assoc, List.singleton_append]
    · simp at h

/-- Where no use is reported, every file imports what its uses stand for. -/
theorem resolveImports_of_reports_eq_nil (h : w.resolveImports.2 = []) :
    w.resolveImports.1 = ⟨w.files.map fun f => { f with imports := f.uses.map (·.toImport) }⟩ := by
  rw [resolveImports, List.flatMap_eq_nil_iff] at h
  rw [resolveImports]
  refine congrArg Workspace.mk (List.map_congr_left fun f hf => ?_)
  rw [importsOf, acceptUses_of_reports_eq_nil (h f hf), List.nil_append]

end Workspace

/-! ### Outcomes of uses -/

/-- Whether the alias of a use, if it has one, leads to no import yet. -/
def ImportTable.IsFree (t : ImportTable) (aliasName : Option Ident) : Prop :=
  ∀ a, aliasName = some a → t.importsAs a.name = []

/-- What becomes of a use behind the imports in a table. -/
inductive UseOutcome (w : Workspace) (file : FileRef) (t : ImportTable) (u : UseDecl) :
    Except Diagnostic Import → Prop where
  | aliasTaken {a : Ident} {first : Import} {others : List Import} (name : u.aliasName = some a)
      (taken : t.importsAs a.name = first :: others) :
      UseOutcome w file t u
        (.error ((Diagnostic.report file .aliasAlreadyDefined a.span a.name).relate file
        ((first.aliasName.map (·.span)).getD first.span) "first used here"))
  | selfImport (free : t.IsFree u.aliasName) (own : Path.normalize u.path = file.path) :
      UseOutcome w file t u
      (.error (Diagnostic.report file .selfImport u.span (Path.normalize u.path)))
  | notFound (free : t.IsFree u.aliasName) (foreign : Path.normalize u.path ≠ file.path)
      (unknown : Path.normalize u.path ∉ w.packages) :
      UseOutcome w file t u (.error
        ((Diagnostic.report file .packageNotFound u.span (Path.normalize u.path)).addHint
          (Suggestion.hint? (Path.normalize u.path) (w.importable file.path))))
  | duplicate {earlier : Import} (free : t.IsFree u.aliasName)
      (foreign : Path.normalize u.path ≠ file.path)
      (known : Path.normalize u.path ∈ w.packages)
      (imported : t.importOf? (Path.normalize u.path) = some earlier) :
      UseOutcome w file t u (.error
        ((Diagnostic.report file .duplicateImport u.span (Path.normalize u.path)).relate
          file earlier.span
          "first imported here"))
  | registered (free : t.IsFree u.aliasName) (foreign : Path.normalize u.path ≠ file.path)
      (known : Path.normalize u.path ∈ w.packages)
      (new : t.importOf? (Path.normalize u.path) = none) :
      UseOutcome w file t u (.ok u.toImport)

/-- The run through the uses of a file, from the table before them to the table behind them. -/
inductive UsesRun (w : Workspace) (file : FileRef) :
    ImportTable → List UseDecl → List (Except Diagnostic Import) → ImportTable → Prop where
  | nil {t : ImportTable} : UsesRun w file t [] [] t
  | register {t t' : ImportTable} {u : UseDecl} {i : Import} {rest : List UseDecl}
      {outcomes : List (Except Diagnostic Import)} (step : UseOutcome w file t u (.ok i))
      (run : UsesRun w file (t.register i) rest outcomes t') :
      UsesRun w file t (u :: rest) (.ok i :: outcomes) t'
  | report {t t' : ImportTable} {u : UseDecl} {d : Diagnostic} {rest : List UseDecl}
      {outcomes : List (Except Diagnostic Import)} (step : UseOutcome w file t u (.error d))
      (run : UsesRun w file t rest outcomes t') :
      UsesRun w file t (u :: rest) (.error d :: outcomes) t'

def registered (outcomes : List (Except Diagnostic Import)) : List Import :=
  outcomes.filterMap fun
    | .ok i => some i
    | .error _ => none

def reported (outcomes : List (Except Diagnostic Import)) : List Diagnostic :=
  outcomes.filterMap fun
    | .ok _ => none
    | .error d => some d

/-- Every import is either registered or reported. -/
theorem length_registered_add_length_reported (outcomes : List (Except Diagnostic Import)) :
    (registered outcomes).length + (reported outcomes).length = outcomes.length := by
  induction outcomes with
  | nil => rfl
  | cons o rest ih =>
    cases o with
    | ok i =>
      simp only [registered, reported, List.filterMap_cons, List.length_cons] at ih ⊢
      omega
    | error d =>
      simp only [registered, reported, List.filterMap_cons, List.length_cons] at ih ⊢
      omega

variable {w : Workspace} {file : FileRef} {t t' : ImportTable} {u : UseDecl} {uses : List UseDecl}
  {outcomes : List (Except Diagnostic Import)}

namespace UseOutcome

/-- A use is registered as the import that it stands for. -/
theorem eq_toImport {i : Import} (h : UseOutcome w file t u (.ok i)) : i = u.toImport := by
  cases h
  rfl

/-- A use is reported in its file. -/
theorem file_eq {d : Diagnostic} (h : UseOutcome w file t u (.error d)) : d.file = file := by
  cases h <;> rfl

/-- A use has one outcome. -/
theorem unique {o o' : Except Diagnostic Import} (h : UseOutcome w file t u o)
    (h' : UseOutcome w file t u o') : o = o' := by
  -- what lets one outcome hold keeps all others from it
  cases h <;> cases h' <;> grind [ImportTable.IsFree]

end UseOutcome

/-- A use is taken as the table says that holds the imports before it. -/
theorem Workspace.useOutcome_acceptUse (h : t.IsConsistent) :
    UseOutcome w file t u (w.acceptUse file t.imports u) := by
  have hhead : ∀ key, t.imports.find? (·.key == key) = (t.importsAs key).head? := fun key => by
    rw [h.importsAs_eq, List.head?_filter]
  unfold acceptUse
  simp only
  split
  · next a holder hholder =>
    obtain ⟨a, ha, hholder⟩ := Option.bind_eq_some_iff.1 hholder
    obtain ⟨holder, hfirst, e⟩ := Option.map_eq_some_iff.1 hholder
    cases e
    rw [hhead, List.head?_eq_some_iff] at hfirst
    obtain ⟨others, hothers⟩ := hfirst
    exact .aliasTaken ha hothers
  · next hnone =>
    have hfree : t.IsFree u.aliasName := fun a ha => by
      rw [ha, Option.bind_some, Option.map_eq_none_iff, hhead, List.head?_eq_none_iff] at hnone
      exact hnone
    split
    · next hown => exact .selfImport hfree hown
    · next hforeign =>
      split
      · next hunknown => exact .notFound hfree hforeign (by simpa using hunknown)
      · next hknown =>
        have hknown : Path.normalize u.path ∈ w.packages := by simpa using hknown
        split
        · next earlier hearlier =>
          have himport := h.importOf?_eq_some_iff.2 (key_of_find?_eq_some hearlier)
          exact .duplicate hfree hforeign hknown himport
        · next hnew =>
          refine .registered hfree hforeign hknown (h.importOf?_eq_none_iff.2 fun i hi => ?_)
          simpa using List.find?_eq_none.1 hnew i hi

/-! ### What a step keeps up -/

/-- A table of imports that hold good in a file. -/
structure ImportTable.Holds (w : Workspace) (file : FileRef) (t : ImportTable) : Prop where
  consistent : t.IsConsistent
  known : ∀ i ∈ t.imports, i.path ∈ w.packages
  foreign : ∀ i ∈ t.imports, i.path ≠ file.path
  nodup_aliases : (t.imports.filterMap fun i => i.aliasName.map (·.name)).Nodup

namespace ImportTable.Holds

theorem empty : empty.Holds w file where
  consistent := .empty
  known := by simp [ImportTable.empty]
  foreign := by simp [ImportTable.empty]
  nodup_aliases := List.nodup_nil

/-- A use that is registered leaves a table of imports that hold good. -/
theorem register (h : t.Holds w file) {i : Import} (step : UseOutcome w file t u (.ok i)) :
    (t.register i).Holds w file := by
  cases step with
  | registered hfree hforeign hknown hnew =>
  have hnew := h.consistent.importOf?_eq_none_iff.1 hnew
  refine ⟨h.consistent.register hnew, ?_, ?_, ?_⟩
  · exact List.forall_mem_append.2 ⟨h.known, List.forall_mem_singleton.2 hknown⟩
  · exact List.forall_mem_append.2 ⟨h.foreign, List.forall_mem_singleton.2 hforeign⟩
  · rw [ImportTable.register, List.filterMap_append, List.nodup_append']
    have hone : ([u.toImport].filterMap fun i => i.aliasName.map (·.name)).Nodup := by
      cases ha : u.aliasName with
      | none => simp [UseDecl.toImport, ha]
      | some a => simp [UseDecl.toImport, ha]
    refine ⟨h.nodup_aliases, hone, ?_⟩
    intro name hname hsame
    obtain ⟨j, hj, halias⟩ := List.mem_filterMap.1 hname
    obtain ⟨b, hb, rfl⟩ := Option.map_eq_some_iff.1 halias
    obtain ⟨a, ha, hab⟩ : ∃ a, u.aliasName = some a ∧ a.name = b.name := by
      simpa [UseDecl.toImport] using hsame
    -- the import `j` has the alias of the use, which is free
    have hjkey : j ∈ t.importsAs a.name := by
      rw [h.consistent.importsAs_eq, List.mem_filter]
      exact ⟨hj, by simp [Import.key, aliasKey, hb, hab]⟩
    rw [hfree a ha] at hjkey
    cases hjkey

end ImportTable.Holds

/-! ### Runs -/

namespace UsesRun

theorem length_eq (run : UsesRun w file t uses outcomes t') : outcomes.length = uses.length := by
  induction run with
  | nil => rfl
  | register _ _ ih => rw [List.length_cons, List.length_cons, ih]
  | report _ _ ih => rw [List.length_cons, List.length_cons, ih]

/-- A run adds the imports among its outcomes to the table. -/
theorem imports_eq (run : UsesRun w file t uses outcomes t') :
    t'.imports = t.imports ++ registered outcomes := by
  induction run with
  | nil => simp [registered]
  | @register t t' u i rest outcomes _ _ ih =>
    rw [ih, ImportTable.register, List.append_assoc]
    rfl
  | report _ _ ih => exact ih

/-- The imports among the outcomes are those that uses stand for, in their order. -/
theorem registered_sublist (run : UsesRun w file t uses outcomes t') :
    (registered outcomes).Sublist (uses.map (·.toImport)) := by
  induction run with
  | nil => exact List.Sublist.refl _
  | register step _ ih =>
    obtain rfl := step.eq_toImport
    exact ih.cons_cons _
  | report _ _ ih => exact ih.cons _

/-- Every outcome of the run is the one of some import written in the file. -/
theorem exists_outcome {o : Except Diagnostic Import} (run : UsesRun w file t uses outcomes t')
    (ho : o ∈ outcomes) : ∃ t, ∃ u ∈ uses, UseOutcome w file t u o := by
  induction run with
  | nil => cases ho
  | @register t t' u i rest outcomes step _ ih =>
    rcases List.mem_cons.1 ho with rfl | ho
    · exact ⟨t, u, List.mem_cons_self, step⟩
    · obtain ⟨t, u', hu, houtcome⟩ := ih ho
      exact ⟨t, u', List.mem_cons_of_mem u hu, houtcome⟩
  | @report t t' u d rest outcomes step _ ih =>
    rcases List.mem_cons.1 ho with rfl | ho
    · exact ⟨t, u, List.mem_cons_self, step⟩
    · obtain ⟨t, u', hu, houtcome⟩ := ih ho
      exact ⟨t, u', List.mem_cons_of_mem u hu, houtcome⟩

theorem exists_outcome_of_mem_reported {d : Diagnostic} (run : UsesRun w file t uses outcomes t')
    (hd : d ∈ reported outcomes) : ∃ t, ∃ u ∈ uses, UseOutcome w file t u (.error d) := by
  obtain ⟨o, ho, hod⟩ := List.mem_filterMap.1 hd
  cases o with
  | ok i => cases hod
  | error d' =>
    cases hod
    exact run.exists_outcome ho

/-- Imports that hold good still do behind a run. -/
theorem holds (run : UsesRun w file t uses outcomes t') (h : t.Holds w file) : t'.Holds w file := by
  induction run with
  | nil => exact h
  | register step _ ih => exact ih (h.register step)
  | report _ _ ih => exact ih h

/-- There is one run through some uses. -/
theorem iff_eq {t'' : ImportTable} {outcomes' : List (Except Diagnostic Import)}
    (run : UsesRun w file t uses outcomes t') :
    UsesRun w file t uses outcomes' t'' ↔ outcomes' = outcomes ∧ t'' = t' := by
  refine ⟨fun run' => ?_, ?_⟩
  · induction run generalizing outcomes' with
    | nil =>
      cases run'
      exact ⟨rfl, rfl⟩
    | register step _ ih =>
      cases run' with
      | register step' run' =>
        cases step.unique step'
        obtain ⟨rfl, rfl⟩ := ih run'
        exact ⟨rfl, rfl⟩
      | report step' _ => cases step.unique step'
    | report step _ ih =>
      cases run' with
      | register step' _ => cases step.unique step'
      | report step' run' =>
        cases step.unique step'
        obtain ⟨rfl, rfl⟩ := ih run'
        exact ⟨rfl, rfl⟩
  · rintro ⟨rfl, rfl⟩
    exact run

end UsesRun

namespace Workspace

/-- Taking uses one after the other is a run through them. -/
theorem exists_usesRun (h : t.Holds w file) (uses : List UseDecl) :
    ∃ outcomes t', UsesRun w file t uses outcomes t' ∧
      w.acceptUses file t.imports uses = (t'.imports, reported outcomes) := by
  induction uses generalizing t with
  | nil => exact ⟨[], t, .nil, rfl⟩
  | cons u rest ih =>
    have step : UseOutcome w file t u (w.acceptUse file t.imports u) :=
      useOutcome_acceptUse h.consistent
    rw [acceptUses]
    cases hu : w.acceptUse file t.imports u with
    | ok i =>
      rw [hu] at step
      obtain ⟨outcomes, t', run, haccept⟩ := ih (h.register step)
      exact ⟨.ok i :: outcomes, t', .register step run, haccept⟩
    | error d =>
      rw [hu] at step
      obtain ⟨outcomes, t', run, haccept⟩ := ih h
      refine ⟨.error d :: outcomes, t', .report step run, ?_⟩
      simp only [haccept]
      rfl

end Workspace

/-! ### Resolved imports -/

/-- Imports of a file that are among those its uses stand for and hold good. -/
structure FileScope.ImportsHold (w : Workspace) (f : FileScope) : Prop where
  of_uses : f.imports.Sublist (f.uses.map (·.toImport))
  known : ∀ i ∈ f.imports, i.path ∈ w.packages
  foreign : ∀ i ∈ f.imports, i.path ≠ f.file.path
  nodup_paths : (f.imports.map (·.path)).Nodup
  nodup_aliases : (f.imports.filterMap fun i => i.aliasName.map (·.name)).Nodup

/-- A file whose imports, with the reports on its other uses, are the outcomes of the one run
through its uses. The indexes that the run leaves behind give the imports that the file is asked
for. -/
structure FileScope.Resolved (w : Workspace) (reports : List Diagnostic)
    (f : FileScope) : Prop where
  run : ∃ outcomes t,
    (∀ outcomes' t', UsesRun w f.file .empty f.uses outcomes' t' ↔ outcomes' = outcomes ∧ t' = t) ∧
    f.imports = registered outcomes ∧ reports.filter (·.file == f.file) = reported outcomes ∧
    (∀ key, t.importsAs key = f.importsAs key) ∧ ∀ package, t.importOf? package =
      f.importOf? package
  length : f.imports.length + reports.countP (·.file == f.file) = f.uses.length
  hold : f.ImportsHold w
  importsAs : ∀ key, f.importsAs key = f.imports.filter (·.key == key)
  importOf? : ∀ package i, f.importOf? package = some i ↔ i ∈ f.imports ∧ i.path = package

/-- A workspace that differs from another one only in the imports of its files, which have been
resolved with some reports. -/
structure Workspace.ImportsResolved (w resolved : Workspace)
    (reports : List Diagnostic) : Prop where
  files : (resolved.files.map fun f => { f with imports := [] }) = w.files
  packages : resolved.packages = w.packages
  symbols : resolved.symbols = w.symbols
  symbolsOf : ∀ package, resolved.symbolsOf package = w.symbolsOf package
  located : ∀ d ∈ reports, ∃ f ∈ resolved.files, d.file = f.file
  resolved : ∀ f ∈ resolved.files, f.Resolved w reports

namespace Workspace

variable {sources : List SourceFile} {a : Workspace} {ds : List Diagnostic}

/-- Resolving imports leaves the packages as they are. -/
theorem packages_resolveImports (w : Workspace) : w.resolveImports.1.packages = w.packages :=
  packages_map (g := fun f => { f with imports := (w.importsOf f).1 }) (fun _ => rfl) w

/-- The outcome of a run through the uses of a file. -/
theorem exists_usesRun_importsOf (w : Workspace) (f : FileScope) :
    ∃ outcomes t, UsesRun w f.file .empty f.uses outcomes t ∧ t.Holds w f.file ∧
      t.imports = registered outcomes ∧ w.importsOf f =
        (registered outcomes, reported outcomes) := by
  obtain ⟨outcomes, t, run, haccept⟩ :=
    exists_usesRun (.empty : ImportTable.empty.Holds w f.file) f.uses
  have himports : t.imports = registered outcomes := run.imports_eq
  refine ⟨outcomes, t, run, run.holds .empty, himports, ?_⟩
  rw [importsOf, ← himports, ← haccept]
  rfl

theorem file_of_mem_reports {f : FileScope} {d : Diagnostic} (hd : d ∈ (w.importsOf f).2) :
    d.file = f.file := by
  obtain ⟨outcomes, t, run, -, -, himports⟩ := w.exists_usesRun_importsOf f
  rw [himports] at hd
  obtain ⟨_, u, -, houtcome⟩ := run.exists_outcome_of_mem_reported hd
  exact houtcome.file_eq

/-- The reports on the uses of a file are those in this file. -/
theorem filter_reports_eq (hnodup : (w.files.map (·.file)).Nodup) {f : FileScope}
    (hf : f ∈ w.files) :
    w.resolveImports.2.filter (·.file == f.file) = (w.importsOf f).2 :=
  filter_flatMap_eq_part hnodup (fun _ _ _ hd => file_of_mem_reports hd) hf

/-- The imports that a run leaves behind are those of the file. -/
theorem resolved_of_mem_files (hnodup : (w.files.map (·.file)).Nodup) {f : FileScope}
    (hf : f ∈ w.files) :
    FileScope.Resolved w w.resolveImports.2 { f with imports := (w.importsOf f).1 } := by
  obtain ⟨outcomes, t, run, hholds, himports, himportsOf⟩ := w.exists_usesRun_importsOf f
  have hreports : w.resolveImports.2.filter (·.file == f.file) = reported outcomes := by
    rw [filter_reports_eq hnodup hf, himportsOf]
  have hfind : ∀ package i, (registered outcomes).find? (·.path == package) = some i ↔
      i ∈ registered outcomes ∧ i.path = package := by
    intro package i
    refine ⟨fun h => key_of_find?_eq_some h, ?_⟩
    rintro ⟨hi, rfl⟩
    exact find?_key_eq_self (himports ▸ hholds.consistent.nodup_paths) hi
  rw [himportsOf]
  constructor
  case run =>
    refine ⟨outcomes, t, fun _ _ => run.iff_eq, rfl, hreports, fun key => ?_, fun package => ?_⟩
    · rw [hholds.consistent.importsAs_eq, himports]
      rfl
    · ext i
      rw [hholds.consistent.importOf?_eq_some_iff, himports]
      exact (hfind package i).symm
  case length =>
    rw [List.countP_eq_length_filter, hreports,
      length_registered_add_length_reported, run.length_eq]
  case hold =>
    exact {
      of_uses := run.registered_sublist
      known := himports ▸ hholds.known
      foreign := himports ▸ hholds.foreign
      nodup_paths := himports ▸ hholds.consistent.nodup_paths
      nodup_aliases := himports ▸ hholds.nodup_aliases }
  case importsAs => exact fun key => rfl
  case importOf? => exact hfind

/-- Resolving imports takes every use of every file to one outcome and changes nothing else. -/
theorem importsResolved_of_assemble (h : assemble sources = .ok (a, ds)) :
    a.ImportsResolved a.resolveImports.1 a.resolveImports.2 := by
  have hnodup := nodup_files_of_assemble h
  have hbare : ∀ f ∈ a.files, f.imports = [] := by
    obtain ⟨-, -, rfl, -⟩ := assemble_eq_ok_iff.1 h
    intro f hf
    obtain ⟨s, -, rfl⟩ := List.mem_map.1 hf
    rfl
  constructor
  case files =>
    rw [resolveImports, List.map_map]
    refine (List.map_congr_left fun f hf => ?_).trans (List.map_id _)
    rw [Function.comp_apply, ← hbare f hf]
    rfl
  case packages => exact packages_resolveImports a
  case symbols => simp only [symbols, resolveImports, List.flatMap_map]
  case symbolsOf =>
    intro package
    have hfiles : a.resolveImports.1.filesOf package =
        (a.filesOf package).map fun f => { f with imports := (a.importsOf f).1 } :=
      filesOf_map (g := fun f => { f with imports := (a.importsOf f).1 }) (fun _ => rfl) a package
    rw [symbolsOf, symbolsOf, hfiles, List.flatMap_map]
  case located =>
    intro d hd
    obtain ⟨f, hf, hd⟩ := List.mem_flatMap.1 hd
    exact ⟨_, List.mem_map_of_mem hf, file_of_mem_reports hd⟩
  case resolved =>
    intro g hg
    obtain ⟨f, hf, rfl⟩ := List.mem_map.1 hg
    exact resolved_of_mem_files hnodup hf

end Workspace

/-! ### A file with uses of all outcomes -/

namespace Sample

def useAt (line : UInt32) : Span := ⟨⟨line, 1⟩, ⟨line, 20⟩⟩

def aliasAt (line : UInt32) : Ident := ⟨"l", ⟨⟨line, 15⟩, ⟨line, 16⟩⟩⟩

/-- A file that uses a package under an alias, and then again under the same alias and under none,
its own package, and a package that is not there. -/
def borrower : SourceFile :=
  ⟨⟨"app", "main.nex"⟩, [⟨"lib", aliasAt 1, useAt 1⟩, ⟨"lib/", aliasAt 2, useAt 2⟩,
    ⟨"./app", none, useAt 3⟩, ⟨"lip", none, useAt 4⟩, ⟨"lib", none, useAt 5⟩], []⟩

def library : SourceFile := ⟨⟨"lib", "base.nex"⟩, [], []⟩

def shelfmates : Workspace := ⟨[Workspace.bareScope [] borrower, Workspace.bareScope [] library]⟩

theorem assemble_shelfmates : Workspace.assemble [borrower, library] = .ok (shelfmates, []) := by
  have harrange : Workspace.arrange [borrower, library] = [borrower, library] := by
    refine Workspace.arrange_eq_self ?_ (by decide)
    intro s hs
    rcases List.mem_pair.1 hs with rfl | rfl
    · rfl
    · rfl
  refine Workspace.assemble_eq_ok_iff.2 ⟨by simp, ?_, ?_, ?_⟩
  · rw [harrange]
    decide
  · rw [harrange]
    rfl
  · rw [harrange]
    rfl

/-- The first use is an import, and each of the others is reported for another reason. -/
theorem importsResolved_shelfmates :
    Workspace.assemble [borrower, library] = .ok (shelfmates, []) ∧
      shelfmates.ImportsResolved shelfmates.resolveImports.1 shelfmates.resolveImports.2 ∧
      shelfmates.resolveImports.1.files.map (·.imports) = [[⟨"lib", aliasAt 1, useAt 1⟩], []] ∧
      shelfmates.resolveImports.2.map (·.kind) =
        [.aliasAlreadyDefined, .selfImport, .packageNotFound, .duplicateImport] :=
  ⟨assemble_shelfmates, Workspace.importsResolved_of_assemble assemble_shelfmates, rfl, rfl⟩

end Sample

end Schemata
