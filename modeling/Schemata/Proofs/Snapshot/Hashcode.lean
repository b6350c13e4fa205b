import Schemata.Proofs.Fingerprint.Records
import Schemata.Proofs.Scope.Packages
import Schemata.Proofs.Snapshot.Build

/-!
# The hashcode of a snapshot

Two snapshots have the same hashcode exactly if they hold the same files, as long as no two of their
streams collide.
-/

namespace Schemata

namespace Stream

/-- Ids of files are known from their stream up to their order. -/
theorem framed_fileIds : Framed Lengths.texts List.Perm fileIds := by
  refine ((framed_const (text "snapshot")).append (framed_texts.of fun ids : List String =>
    ids.mergeSort fun a b => a ≤ b)).imp ?_ ?_
  · intro ids h
    simpa [Lengths.texts, Lengths.list] using h
  · rintro ids ids' ⟨-, e⟩
    exact mergeSort_texts_eq_iff.1 e

/-- The stream of the file ids does not tell their order. -/
theorem fileIds_eq_of_perm {ids ids' : List String} (h : ids.Perm ids') :
    fileIds ids = fileIds ids' := by
  rw [fileIds, fileIds, mergeSort_texts_eq_iff.2 h]

end Stream

namespace Snapshot

open Schemata.Stream (Fits)

/-- Every length that is written when a snapshot is fingerprinted. -/
def lengths (s : Snapshot) : List Nat :=
  Lengths.texts (s.files.map (·.id)) ++ s.files.flatMap Lengths.compiledFile

/-- The streams behind the fingerprints in a snapshot: its own and those of its files. -/
def streams (s : Snapshot) : List (List UInt8) :=
  Stream.fileIds (s.files.map (·.id)) :: s.files.map Stream.compiledFile

variable {s t : Snapshot}

theorem compiledFile_mem_streams {f : CompiledFile} (hf : f ∈ s.files) :
    Stream.compiledFile f ∈ s.streams := List.mem_cons_of_mem _ (List.mem_map_of_mem hf)

/-- Files whose ids are those that their contents call for are the same if their ids are. -/
theorem eq_of_id_eq (hs : Fits s.lengths) (ht : Fits t.lengths)
    (hfree : CollisionFree (s.streams ++ t.streams)) {f g : CompiledFile} (hf : f ∈ s.files)
    (hg : g ∈ t.files) (hfid : f.id = f.contentId) (hgid : g.id = g.contentId) (e : f.id = g.id) :
    f = g := by
  have hstream : Stream.compiledFile f = Stream.compiledFile g := by
    refine hfree.eq_of_fingerprint_eq (List.mem_append_left _ (compiledFile_mem_streams hf))
      (List.mem_append_right _ (compiledFile_mem_streams hg)) ?_
    rw [← CompiledFile.contentId, ← CompiledFile.contentId, ← hfid, ← hgid, e]
  simp only [lengths, Stream.fits_append, Stream.fits_flatMap] at hs ht
  have hsame : f = { g with id := f.id } :=
    Stream.framed_compiledFile.same_of_eq (hs.2 f hf) (ht.2 g hg) hstream
  rw [hsame, e]

end Snapshot

namespace Workspace

open Schemata.Stream (Fits)

variable {w w' : Workspace} {v v' : UInt32} {s t : Snapshot}

/-- The hashcode is the fingerprint of the file ids and of nothing else. -/
theorem hashcode_of_snapshot (h : w.snapshot v = .ok s) :
    s.hashcode = fingerprint (Stream.fileIds (s.files.map (·.id))) := by
  obtain ⟨_, _, _, hhash, _⟩ := snapshot_eq_ok_iff.1 h
  exact hhash

/-- The version is in a snapshot as it is given, and nothing else depends on it. -/
theorem snapshot_version (h : w.snapshot v = .ok s) (u : UInt32) :
    w.snapshot u = .ok { s with version := u } := by
  obtain ⟨files, hfiles, hsort, hhash, -⟩ := snapshot_eq_ok_iff.1 h
  exact snapshot_eq_ok_iff.2 ⟨files, hfiles, hsort, hhash, rfl⟩

/-- Snapshots have one hashcode exactly if they hold the same files, in whatever order. No other
version changes more than the version. -/
theorem hashcode_eq_iff_files_perm (hs : w.snapshot v = .ok s) (ht : w'.snapshot v' = .ok t)
    (hsfits : Fits s.lengths) (htfits : Fits t.lengths)
    (hfree : CollisionFree (s.streams ++ t.streams)) :
    (s.hashcode = t.hashcode ↔ s.files.Perm t.files) ∧
      ∀ u, w.snapshot u = .ok { s with version := u } := by
  refine ⟨?_, snapshot_version hs⟩
  rw [hashcode_of_snapshot hs, hashcode_of_snapshot ht]
  constructor
  · intro e
    have hstream : Stream.fileIds (s.files.map (·.id)) = Stream.fileIds (t.files.map (·.id)) :=
      hfree.eq_of_fingerprint_eq (List.mem_append_left _ List.mem_cons_self)
        (List.mem_append_right _ List.mem_cons_self) e
    have hids : (s.files.map (·.id)).Perm (t.files.map (·.id)) :=
      Stream.framed_fileIds.same_of_eq (Stream.fits_append.1 hsfits).1
      (Stream.fits_append.1 htfits).1
        hstream
    refine perm_of_map_perm (fun f hf g hg => ?_) hids
    exact Snapshot.eq_of_id_eq hsfits htfits hfree hf hg (id_eq_contentId_of_mem hs hf)
      (id_eq_contentId_of_mem ht hg)
  · intro h
    rw [Stream.fileIds_eq_of_perm (h.map (·.id))]

/-! ## Workspaces with one file -/

/-- The snapshot of a workspace with one file. -/
theorem snapshot_singleton {f : FileScope} {c : CompiledFile}
    (hcanonical : Path.normalize f.file.path = f.file.path)
    (h : (⟨[f]⟩ : Workspace).compileFile f = .ok c) (v : UInt32) :
    (⟨[f]⟩ : Workspace).snapshot v = .ok ⟨v, Snapshot.hashcodeOf [c.id], [c]⟩ := by
  have hfiles : (⟨[f]⟩ : Workspace).filesByPackage = [f] :=
    List.perm_singleton.1 (filesByPackage_perm (List.forall_mem_singleton.2 hcanonical))
  refine snapshot_eq_ok_iff.2 ⟨[c], ?_, (List.mergeSort_singleton _).symm, rfl, rfl⟩
  rw [hfiles]
  exact .cons h .nil

/-! ## Two defaults of a field -/

def switchPlace : Span := ⟨⟨1, 1⟩, ⟨1, 2⟩⟩

/-- A type with a field that is on at first, or off. -/
def switch (on : Bool) : TypeDecl where
  name := ⟨"T", switchPlace⟩
  modifier := .base
  base := none
  fields := [⟨⟨"x", switchPlace⟩, none,
    some (.mk ⟨"bool", none, switchPlace⟩ false [] switchPlace), [], [], switchPlace⟩]
  defaults := [⟨⟨"x", switchPlace⟩, .bool on, switchPlace⟩]
  documentation := []
  annotations := []
  span := switchPlace

def switchScope (on : Bool) : FileScope :=
  ⟨⟨"p", "t.nex"⟩, [], [⟨⟨"p", "t.nex"⟩, switch on⟩], []⟩

def switches (on : Bool) : Workspace := ⟨[switchScope on]⟩

def switchDigest : Bool → List UInt8
  | true => [189, 161, 206, 76, 122, 209, 141, 85, 253, 150, 96, 173, 110, 51, 182, 98, 84, 48, 180,
      149, 102, 124, 21, 193, 196, 44, 174, 109, 128, 156, 236, 157]
  | false =>
    [67, 74, 4, 144, 18, 194, 33, 64, 34, 100, 129, 224, 114, 109, 230, 35, 79, 207, 68, 145,
      38, 147, 195, 211, 193, 35, 204, 83, 22, 47, 190, 63]

def switchFileDigest : Bool → List UInt8
  | true =>
    [160, 198, 62, 251, 120, 154, 185, 96, 219, 131, 132, 208, 31, 9, 73, 68, 230, 121, 36, 15,
      202, 236, 95, 46, 176, 223, 86, 128, 146, 251, 210, 158]
  | false =>
    [96, 135, 173, 136, 239, 144, 107, 88, 230, 172, 11, 53, 36, 156, 83, 126, 198, 114, 186,
      221, 140, 251, 36, 40, 128, 254, 203, 120, 162, 24, 65, 66]

def switchHashDigest : Bool → List UInt8
  | true =>
    [233, 126, 14, 25, 207, 131, 22, 232, 34, 228, 35, 38, 214, 120, 22, 47, 88, 229, 171, 97,
      25, 251, 121, 172, 128, 252, 128, 203, 168, 188, 116, 119]
  | false =>
    [189, 119, 53, 58, 99, 185, 110, 130, 46, 200, 212, 78, 154, 219, 250, 210, 66, 55, 201,
      164, 224, 251, 129, 4, 216, 162, 83, 242, 99, 34, 193, 81]

def switchDef (on : Bool) : TypeDef where
  id := Hex.ofBytes (switchDigest on)
  name := "T"
  modifier := .base
  documentation := []
  annotations := .empty
  defaults := .ofLasts [("x", .bool on)]
  baseId := none
  fields := [⟨0, "x", [], .empty, some (.bool on), some (.primitive .bool false [])⟩]

def switchFile (on : Bool) : CompiledFile :=
  ⟨Hex.ofBytes (switchFileDigest on), "p", "p/t.nex", [switchDef on]⟩

theorem id_switch (on : Bool) : (switch on).id "p" = (switchDef on).id := by
  have hdigest : Blake3.digest (Stream.typeDecl "p" (switch on)) = switchDigest on := by
    cases on <;> decide +kernel
  rw [TypeDecl.id, fingerprint, hdigest]
  rfl

theorem digest_compiledFile_switch (on : Bool) :
    Blake3.digest (Stream.compiledFile (switchFile on)) = switchFileDigest on := by
  cases on <;> decide +kernel

theorem digest_fileIds_switch (on : Bool) :
    Blake3.digest (Stream.fileIds [(switchFile on).id]) = switchHashDigest on := by
  cases on <;> decide +kernel

theorem snapshot_switches (on : Bool) (v : UInt32) : (switches on).snapshot v =
    .ok ⟨v, Snapshot.hashcodeOf [(switchFile on).id], [switchFile on]⟩ := by
  have hpath : Path.normalize "p" = "p" := by decide
  have htype : switchDef on = { switchDef on with id := (switch on).id "p" } := by rw [id_switch]
  have hfile : (switches on).compileFile (switchScope on) = .ok (switchFile on) := by
    refine compileFile_eq_ok_iff.2 ⟨.cons ?_ .nil, ?_, ?_, ?_⟩
    · exact resolveSymbol_eq_ok_iff.2 ⟨none, _, rfl, .cons rfl .nil, htype⟩
    · show "p" = Path.name "p"
      decide
    · show "p/t.nex" = FileRef.fullPath ⟨"p", "t.nex"⟩
      decide
    · rw [CompiledFile.contentId, fingerprint, digest_compiledFile_switch]
      rfl
  exact snapshot_singleton (f := switchScope on) hpath hfile v

/-- A field that is on at first and one that is off make snapshots with different hashcodes. -/
theorem exists_hashcode_ne : ∃ s t, (switches true).snapshot 1 = .ok s ∧
    (switches false).snapshot 2 = .ok t ∧ s.hashcode ≠ t.hashcode := by
  have hstreams : ∀ on v hash, (Snapshot.streams ⟨v, hash, [switchFile on]⟩).map Blake3.digest =
      [switchHashDigest on, switchFileDigest on] := by
    intro on v hash
    rw [Snapshot.streams, List.map_cons, List.map_map, List.map_singleton, List.map_singleton,
      digest_fileIds_switch, Function.comp_apply, digest_compiledFile_switch]
  refine ⟨_, _, snapshot_switches true 1, snapshot_switches false 2, fun e => ?_⟩
  have hperm := (hashcode_eq_iff_files_perm (snapshot_switches true 1) (snapshot_switches false 2)
    (by decide +kernel) (by decide +kernel) (.of_nodup ?_)).1.1 e
  rotate_left
  · rw [List.map_append, hstreams, hstreams]
    decide
  have hdigest : switchFileDigest true = switchFileDigest false := by
    have hfile : switchFile true = switchFile false := List.singleton_perm_singleton.1 hperm
    exact Hex.ofBytes_inj (congrArg CompiledFile.id hfile)
  revert hdigest
  decide

end Workspace

end Schemata
