import Mathlib.Data.List.Forall2
import Schemata.Proofs.Data.Except
import Schemata.Proofs.Scope.Collisions
import Schemata.Proofs.Scope.Cycles
import Schemata.Proofs.Scope.Imports

/-!
# Linking

A file imports a package once, so the import that closes a cycle is found in the file where the
search came upon it, and every cycle is reported. Where linking reports nothing, no type is left out
and every use is an import: a file of the workspace holds just what its source says.
-/

namespace Schemata

namespace SourceFile

/-- A file of a workspace that holds just what its source says. -/
def scope (s : SourceFile) : FileScope := ⟨s.file, s.uses, s.symbols, s.uses.map (·.toImport)⟩

end SourceFile

namespace Workspace

variable {w a : Workspace} {sources : List SourceFile} {ds : List Diagnostic}

/-! ## The graph of a linked workspace -/

theorem isCanonical_of_assemble (h : assemble sources = .ok (w, ds)) : w.IsCanonical := by
  obtain ⟨-, -, rfl, -⟩ := assemble_eq_ok_iff.1 h
  intro f hf
  obtain ⟨s, hs, rfl⟩ := List.mem_map.1 hf
  exact congrArg (fun s : SourceFile => s.file.path) (canonical_of_mem_arrange hs)

/-- The files with resolved imports belong to packages, and they import packages. -/
theorem isClosed_resolveImports (h : assemble sources = .ok (a, ds)) :
    a.resolveImports.1.IsClosed := by
  constructor
  · rintro p q ⟨f, hf, rfl, -⟩
    obtain ⟨f, hmem, rfl⟩ := List.mem_map.1 hf
    rw [packages_resolveImports]
    have hpath := (isCanonical_of_assemble h).path_mem_packages hmem
    exact hpath
  · rintro p q ⟨f, hf, -, i, hi, rfl⟩
    obtain ⟨f, hmem, rfl⟩ := List.mem_map.1 hf
    rw [packages_resolveImports]
    exact (resolved_of_mem_files (nodup_files_of_assemble h) hmem).hold.known i hi

/-! ## Reports on cycles -/

/-- The report on a cycle at the import that closes it. -/
def cycleReport (c : ImportCycle) : Diagnostic :=
  Diagnostic.report c.closing.file .circularDependency c.closing.via.span
    s!"`{c.closing.file.fullPath}` and `{c.leaving.fullPath}`"

/-- The import that closes a cycle is the one of its package in its file. -/
theorem cycleReport?_eq_some {c : ImportCycle} (hfiles : (w.files.map (·.file)).Nodup)
    (himports : ∀ f ∈ w.files, ∀ i ∈ f.imports, f.importOf? i.path = some i)
    (hclosing : c.closing ∈ w.edgesFrom c.closing.source) :
    w.cycleReport? c = some (cycleReport c) := by
  obtain ⟨f, hf, hfile, -, hi⟩ := mem_files_of_mem_edgesFrom hclosing
  have hfind : w.files.find? (·.file == c.closing.file) = some f :=
    (find?_key_eq_some_iff hfiles).2 ⟨hf, hfile⟩
  have himport : f.importOf? c.closing.target = some c.closing.via := himports f hf _ hi
  rw [cycleReport?, hfind, Option.bind_eq_bind, Option.bind_some, himport, Option.bind_eq_bind,
    Option.bind_some, hfile]
  rfl

/-- Every cycle that the search finds is reported. -/
theorem filterMap_cycleReport? (h : assemble sources = .ok (a, ds)) :
    a.resolveImports.1.importCycles.filterMap a.resolveImports.1.cycleReport? =
      a.resolveImports.1.importCycles.map cycleReport := by
  have hnodup := nodup_files_of_assemble h
  have hfiles : (a.resolveImports.1.files.map (·.file)).Nodup := by
    rw [resolveImports, List.map_map]
    exact hnodup
  have himports : ∀ f ∈ a.resolveImports.1.files, ∀ i ∈ f.imports, f.importOf? i.path = some i := by
    intro f hf i hi
    obtain ⟨f, hmem, rfl⟩ := List.mem_map.1 hf
    exact ((resolved_of_mem_files hnodup hmem).importOf? i.path i).2 ⟨hi, rfl⟩
  refine (List.filterMap_congr fun c hc => ?_).trans (congrFun List.filterMap_eq_map' _)
  exact cycleReport?_eq_some hfiles himports
    (isCycle_of_mem_importCycles (isClosed_resolveImports h) hc).closing

/-! ## What linking gives -/

/-- A linked workspace, and the reports on it: on types left out, on uses, on cycles and on
collisions. -/
theorem link_eq_ok_iff : link sources = .ok (w, ds) ↔
    ∃ a doubles, assemble sources = .ok (a, doubles) ∧ w = a.resolveImports.1 ∧
      ds = doubles ++ a.resolveImports.2 ++ w.importCycles.map cycleReport ++
        w.files.flatMap w.collisions := by
  simp only [link, bind_eq_ok_iff, pure_eq_ok_iff]
  constructor
  · rintro ⟨⟨a, doubles⟩, ha, e⟩
    obtain ⟨rfl, rfl⟩ := Prod.mk.inj e
    exact ⟨a, doubles, ha, rfl, by rw [filterMap_cycleReport? ha]⟩
  · rintro ⟨a, doubles, ha, rfl, rfl⟩
    exact ⟨(a, doubles), ha, by rw [filterMap_cycleReport? ha]⟩

/-- The files of a linked workspace belong to packages, and they import packages. -/
theorem isClosed_of_link (h : link sources = .ok (w, ds)) : w.IsClosed := by
  obtain ⟨a, doubles, ha, rfl, -⟩ := link_eq_ok_iff.1 h
  exact isClosed_resolveImports ha

/-- Linking without reports. -/
theorem link_eq_ok_nil_iff : link sources = .ok (w, []) ↔
      ∃ a, assemble sources = .ok (a, []) ∧ a.resolveImports.2 = [] ∧ w = a.resolveImports.1 ∧
        w.importCycles = [] ∧ ∀ f ∈ w.files, w.collisions f = [] := by
  rw [link_eq_ok_iff]
  constructor
  · rintro ⟨a, doubles, ha, rfl, hnil⟩
    simp only [List.nil_eq, List.append_eq_nil_iff, List.map_eq_nil_iff,
      List.flatMap_eq_nil_iff] at hnil
    obtain ⟨⟨⟨rfl, huses⟩, hcycles⟩, hcollisions⟩ := hnil
    exact ⟨a, ha, huses, rfl, hcycles, hcollisions⟩
  · rintro ⟨a, ha, huses, rfl, hcycles, hcollisions⟩
    refine ⟨a, [], ha, rfl, ?_⟩
    rw [huses, hcycles, List.flatMap_eq_nil_iff.2 hcollisions]
    rfl

/-! ## Workspaces as their sources say -/

/-- A workspace that holds just what its sources say: each file once, and each type of a package
once. -/
structure Mirrors (w : Workspace) (sources : List SourceFile) : Prop where
  files : w.files = (arrange sources).map (·.scope)
  nodup_files : ((arrange sources).map (·.file)).Nodup
  nodup_keys : (((arrange sources).flatMap (·.symbols)).map symbolKey).Nodup

/-- Linking without reports. -/
theorem mirrors_of_link (h : link sources = .ok (w, [])) :
    w.Mirrors sources := by
  obtain ⟨a, ha, huses, hw, -⟩ := link_eq_ok_nil_iff.1 h
  obtain ⟨-, hrepeated, hfiles, hdoubles⟩ := assemble_eq_ok_iff.1 ha
  have hrepeats := List.map_eq_nil_iff.1 hdoubles.symm
  have hnodup := SourceFile.nodup_of_repeated?_eq_none (pairwise_arrange sources) hrepeated
  refine ⟨?_, hnodup, repeats_eq_nil_iff.1 hrepeats⟩
  rw [firsts_eq_self (repeats_eq_nil_iff.1 hrepeats)] at hfiles
  rw [hw, resolveImports_of_reports_eq_nil huses, hfiles, List.map_map]
  refine List.map_congr_left fun s hs => ?_
  have hsymbols : ((arrange sources).flatMap (·.symbols)).filter (·.file == s.file) = s.symbols :=
    filter_flatMap_eq_part hnodup (fun s' _ b hb => by
      obtain ⟨d, -, rfl⟩ := List.mem_map.1 hb
      rfl) hs
  rw [Function.comp_apply, bareScope, hsymbols, SourceFile.scope]

end Workspace

/-!
## Reports on import cycles

Of all reports of linking, those on circular dependencies are those of the search through the graph
of imports. They stand at imports that close cycles, no two of them between the same two packages,
and every cycle in the graph goes along an import with a report.
-/

open Relation (ReflTransGen)

namespace Workspace

variable {w : Workspace} {sources : List SourceFile} {ds : List Diagnostic}

/-! ### The reports of linking that are on cycles -/

/-- No cycle is reported while the imports are read. -/
theorem kind_ne_of_mem_acceptUses {file : FileRef} {accepted : List Import} {uses : List UseDecl}
    {d : Diagnostic} (h : d ∈ (w.acceptUses file accepted uses).2) :
    d.kind ≠ .circularDependency := by
  induction uses generalizing accepted with
  | nil => cases h
  | cons u rest ih =>
    rw [acceptUses] at h
    split at h
    · exact ih h
    · next hu =>
      rcases List.mem_cons.1 h with rfl | h
      · have hkind := (isError_of_acceptUse hu).2
        intro e
        simp [e] at hkind
      · exact ih h

/-- The reports on circular dependencies are those of the search. -/
theorem filter_circularDependency_of_link (h : link sources = .ok (w, ds)) :
    ds.filter (fun d => d.kind = .circularDependency) = w.importCycles.map cycleReport := by
  obtain ⟨a, doubles, ha, -, rfl⟩ := link_eq_ok_iff.1 h
  have hdoubles : doubles.filter (fun d => d.kind = .circularDependency) = [] := by
    obtain ⟨-, -, -, rfl⟩ := assemble_eq_ok_iff.1 ha
    rw [List.filter_eq_nil_iff]
    intro d hd
    obtain ⟨s, -, rfl⟩ := List.mem_map.1 hd
    simp [alreadyDeclared, Diagnostic.relate, Diagnostic.report]
  have huses : a.resolveImports.2.filter (fun d => d.kind = .circularDependency) = [] := by
    rw [List.filter_eq_nil_iff]
    intro d hd
    obtain ⟨f, -, hd⟩ := List.mem_flatMap.1 hd
    simpa using kind_ne_of_mem_acceptUses hd
  have hcycles : (w.importCycles.map cycleReport).filter (fun d => d.kind = .circularDependency) =
      w.importCycles.map cycleReport := by
    rw [List.filter_eq_self]
    intro d hd
    obtain ⟨c, -, rfl⟩ := List.mem_map.1 hd
    simp [cycleReport, Diagnostic.report]
  have hcollisions :
      (w.files.flatMap w.collisions).filter (fun d => d.kind = .circularDependency) = [] := by
    rw [List.filter_eq_nil_iff]
    intro d hd
    obtain ⟨f, -, hd⟩ := List.mem_flatMap.1 hd
    simp [(of_mem_collisionsAfter hd).2.1]
  simp only [List.filter_append, hdoubles, huses, hcycles, hcollisions, List.nil_append,
    List.append_nil]

/-- Whether a report is one on a cycle that an import from one package to another closes: it stands
at the import, and it names a file of the imported package with an import that leads back. -/
def ReportsCycle (w : Workspace) (p q : String) (d : Diagnostic) : Prop :=
  ∃ f ∈ w.files, f.file.path = p ∧ ∃ i ∈ f.imports, i.path = q ∧
    ∃ g ∈ w.files, g.file.path = q ∧ ∃ j ∈ g.imports, ReflTransGen w.Imports j.path p ∧
      d = Diagnostic.report f.file .circularDependency i.span
        s!"`{f.file.fullPath}` and `{g.file.fullPath}`"

/-- The report on a found cycle names a file of each of its two packages. -/
theorem reportsCycle_cycleReport {c : ImportCycle} (h : c.IsCycle w) :
    w.ReportsCycle c.closing.source c.closing.target (cycleReport c) := by
  obtain ⟨f, hf, hfile, hsource, hi⟩ := mem_files_of_mem_edgesFrom h.closing
  obtain ⟨t, ht, hleaving, hback⟩ := h.leaving
  obtain ⟨g, hg, hgfile, htarget, hj⟩ := mem_files_of_mem_edgesFrom ht
  refine ⟨f, hf, hsource, c.closing.via, hi, rfl, g, hg, htarget, t.via, hj, hback, ?_⟩
  rw [cycleReport, hfile, hgfile, hleaving]

/-- The cycles are joined by different packages if no two of them are closed between the
same two. -/
theorem pairwise_of_joins {cs : List ImportCycle}
    (h : cs.Pairwise fun c d => c.joins d.closing.source d.closing.target = false) :
    (cs.map fun c => (c.closing.source, c.closing.target)).Pairwise fun e e' => e' ≠ e ∧
      e' ≠ e.swap := by
  refine List.pairwise_map.2 (h.imp fun {c d} hcd => ?_)
  rw [ImportCycle.joins, Bool.or_eq_false_iff] at hcd
  constructor
  · intro e
    obtain ⟨hsource, htarget⟩ := Prod.mk.inj e
    simp [hsource, htarget] at hcd
  · intro e
    obtain ⟨hsource, htarget⟩ := Prod.mk.inj e
    simp [hsource, htarget] at hcd

/-- The reports on circular dependencies are on cycles in the graph of imports, each of them closed
by an import between two packages that no other report is on. Every cycle goes along one of these
imports, so nothing is reported exactly if there is no cycle, and without these imports there is
none. -/
theorem circularDependency_reports {sources : List SourceFile} {w : Workspace}
    {ds : List Diagnostic} (h : link sources = .ok (w, ds)) :
    ∃ closed : List (String × String),
      List.Forall₂ (fun e d => w.ReportsCycle e.1 e.2 d) closed
        (ds.filter fun d => d.kind = .circularDependency) ∧
      closed.Pairwise (fun e e' => e' ≠ e ∧ e' ≠ e.swap) ∧
      (∀ p l, List.IsChain w.Imports (p :: (l ++ [p])) →
        ∃ e ∈ closed, [e.1, e.2] <:+: p :: (l ++ [p])) ∧
      Acyclic (fun p q => w.Imports p q ∧ (p, q) ∉ closed) ∧
      (ds.filter (fun d => d.kind = .circularDependency) = [] ↔ Acyclic w.Imports) := by
  have hw := isClosed_of_link h
  rw [filter_circularDependency_of_link h]
  let closed := w.importCycles.map fun c => (c.closing.source, c.closing.target)
  have hclosed : ∀ {p q}, ImportCycle.Closed w.importCycles p q ↔ (p, q) ∈ closed := by
    intro p q
    simp [closed, ImportCycle.Closed]
  have hacyclic : Acyclic fun p q => w.Imports p q ∧ (p, q) ∉ closed := by
    simpa only [hclosed] using acyclic_importCycles hw
  refine ⟨closed, ?_, pairwise_of_joins (pairwise_importCycles hw), ?_, hacyclic, ?_⟩
  · rw [List.forall₂_map_left_iff, List.forall₂_map_right_iff, List.forall₂_same]
    exact fun c hc => reportsCycle_cycleReport (isCycle_of_mem_importCycles hw hc)
  · intro p l hchain
    obtain ⟨b, c, hbc, hinfix⟩ := exists_infix_of_isChain hacyclic hchain
    exact ⟨(b, c), hbc, hinfix⟩
  · rw [List.map_eq_nil_iff]
    exact importCycles_eq_nil_iff hw

end Workspace

/-! ### Two packages that import each other -/

namespace Sample

def importer (package imported : String) : SourceFile :=
  ⟨⟨package, "main.nex"⟩, [⟨imported, none, ⟨⟨1, 1⟩, ⟨1, 6⟩⟩⟩], []⟩

def pair : Workspace :=
  ⟨[Workspace.bareScope [] (importer "a" "b"), Workspace.bareScope [] (importer "b" "a")]⟩

theorem assemble_pair :
    Workspace.assemble [importer "a" "b", importer "b" "a"] = .ok (pair, []) := by
  have harrange : Workspace.arrange [importer "a" "b", importer "b" "a"] =
      [importer "a" "b", importer "b" "a"] := by
    refine Workspace.arrange_eq_self ?_ (by decide)
    intro s hs
    rcases List.mem_pair.1 hs with rfl | rfl
    · rfl
    · rfl
  refine Workspace.assemble_eq_ok_iff.2 ⟨by simp, ?_, ?_, ?_⟩
  · rw [harrange]
    decide
  · rw [harrange]
    rfl
  · rw [harrange]
    rfl

/-- The two files with their imports. -/
def twoWay : Workspace := ⟨[(importer "a" "b").scope, (importer "b" "a").scope]⟩

theorem edgesFrom_twoWay (p : String) : twoWay.edgesFrom p =
    if p = "a" then [⟨⟨"a", "main.nex"⟩, ⟨"b", none, ⟨⟨1, 1⟩, ⟨1, 6⟩⟩⟩⟩]
    else if p = "b" then [⟨⟨"b", "main.nex"⟩, ⟨"a", none, ⟨⟨1, 1⟩, ⟨1, 6⟩⟩⟩⟩] else [] := by
  have ha : Path.normalize "a" = "a" := rfl
  have hb : Path.normalize "b" = "b" := rfl
  by_cases hpa : p = "a"
  · simp [hpa, Workspace.edgesFrom, Workspace.filesOf, twoWay, SourceFile.scope, importer,
      UseDecl.toImport, hb, firsts, Repeats.firstsAfter]
  · by_cases hpb : p = "b"
    · simp [hpb, Workspace.edgesFrom, Workspace.filesOf, twoWay, SourceFile.scope, importer,
        UseDecl.toImport, ha, firsts, Repeats.firstsAfter]
    · simp [hpa, hpb, Ne.symm hpa, Ne.symm hpb, Workspace.edgesFrom, Workspace.filesOf, twoWay,
        SourceFile.scope, importer, firsts, Repeats.firstsAfter]

theorem importCycles_twoWay : twoWay.importCycles =
    [⟨⟨⟨"b", "main.nex"⟩, ⟨"a", none, ⟨⟨1, 1⟩, ⟨1, 6⟩⟩⟩⟩, ⟨"a", "main.nex"⟩⟩] := by
  have hpackages : twoWay.packages = ["", "a", "b"] := by cbv
  have hsort : ["", "a", "b"].mergeSort (fun a b => a ≤ b) = ["", "a", "b"] :=
    List.mergeSort_of_pairwise (by decide)
  simp [Workspace.importCycles, hsort, hpackages, Workspace.searchFrom, edgesFrom_twoWay,
    ImportEdge.target, ImportEdge.source, ImportCycle.Search.add]

def twoWayReport : Diagnostic :=
  Diagnostic.report ⟨"b", "main.nex"⟩ .circularDependency ⟨⟨1, 1⟩, ⟨1, 6⟩⟩
    (some "`b/main.nex` and `a/main.nex`")

theorem link_twoWay :
    Workspace.link [importer "a" "b", importer "b" "a"] = .ok (twoWay, [twoWayReport]) := by
  have huses : pair.resolveImports.2 = [] := rfl
  have hcollisions : twoWay.files.flatMap twoWay.collisions = [] := rfl
  refine Workspace.link_eq_ok_iff.2 ⟨pair, [], assemble_pair, ?_, ?_⟩
  · rw [Workspace.resolveImports_of_reports_eq_nil huses]
    rfl
  · rw [huses, importCycles_twoWay, hcollisions]
    decide

/-- Two packages that import each other get one report. -/
theorem circularDependency_reports_twoWay :
    Workspace.link [importer "a" "b", importer "b" "a"] = .ok (twoWay, [twoWayReport]) ∧
    ∃ closed : List (String × String),
      List.Forall₂ (fun e d => twoWay.ReportsCycle e.1 e.2 d) closed
        ([twoWayReport].filter fun d => d.kind = .circularDependency) ∧
      closed.Pairwise (fun e e' => e' ≠ e ∧ e' ≠ e.swap) ∧
      (∀ p l, List.IsChain twoWay.Imports (p :: (l ++ [p])) →
        ∃ e ∈ closed, [e.1, e.2] <:+: p :: (l ++ [p])) ∧
      Acyclic (fun p q => twoWay.Imports p q ∧ (p, q) ∉ closed) ∧
      ([twoWayReport].filter (fun d => d.kind = .circularDependency) = [] ↔
        Acyclic twoWay.Imports) :=
  ⟨link_twoWay, Workspace.circularDependency_reports link_twoWay⟩

end Sample

end Schemata
