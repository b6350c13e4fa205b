import Mathlib.Data.List.Nodup
import Schemata.Text.Path

/-!
# Segments of package paths

A path in canonical spelling and the list of its segments determine one another, and the parent of a
path has all of its segments but the last one.
-/

namespace Schemata.Path

/-- Pieces that hold no separator come apart again where they were put together. -/
theorem splitOnP_intercalate {p : Char → Bool} {sep : Char} (hsep : p sep = true)
    {pieces : List Segment} (hp : ∀ s ∈ pieces, ∀ c ∈ s, p c = false) (hne : pieces ≠ []) :
    ([sep].intercalate pieces).splitOnP p = pieces := by
  induction pieces with
  | nil => exact absurd rfl hne
  | cons s rest ih =>
    have hs := hp s List.mem_cons_self
    have hrest := fun t ht => hp t (List.mem_cons_of_mem s ht)
    cases rest with
    | nil => simpa using List.splitOnP_eq_singleton hs
    | cons t rest =>
      rw [List.intercalate_cons_cons, List.append_assoc, List.singleton_append,
        List.splitOnP_append_cons_of_forall_mem hs sep hsep, ih hrest (by simp)]

/-- Segments that a path can go through: proper ones without separators. -/
def IsClean (segs : List Segment) : Prop :=
  ∀ s ∈ segs, isProper s = true ∧ ∀ c ∈ s, isSeparator c = false

theorem IsClean.of_subset {segs segs' : List Segment} (h : IsClean segs) (hsub : segs' ⊆ segs) :
    IsClean segs' := fun s hs => h s (hsub hs)

theorem isClean_take {segs : List Segment} (h : IsClean segs) (k : Nat) : IsClean (segs.take k) :=
  h.of_subset (List.take_subset k segs)

/-- What stands between the separators of a text holds none of them. -/
theorem separator_notMem_of_mem_splitOnP {p : Char → Bool} {cs piece : List Char}
    (h : piece ∈ cs.splitOnP p) : ∀ c ∈ piece, p c = false := by
  induction cs generalizing piece with
  | nil => simp_all
  | cons c cs ih =>
    rw [List.splitOnP_cons_eq_if_modifyHead] at h
    split at h
    · rcases List.mem_cons.1 h with rfl | h
      · simp
      · exact ih h
    · obtain ⟨hd, tl, e⟩ := List.exists_cons_of_ne_nil (List.splitOnP_ne_nil p cs)
      rw [e, List.modifyHead_cons] at h
      rw [e] at ih
      rcases List.mem_cons.1 h with rfl | h
      · intro d hd'
        rcases List.mem_cons.1 hd' with rfl | hd'
        · simp_all
        · exact ih List.mem_cons_self d hd'
      · exact ih (List.mem_cons_of_mem hd h)

/-- No segment of a path is empty, a single dot or holds a separator. -/
theorem isClean_segments (path : String) : IsClean (segments path) := by
  intro s hs
  obtain ⟨hs, hproper⟩ := List.mem_filter.1 hs
  exact ⟨hproper, separator_notMem_of_mem_splitOnP hs⟩

theorem join_nil : join [] = "" := rfl

/-- The segments of joined segments are those segments. -/
theorem segments_join {segs : List Segment} (h : IsClean segs) : segments (join segs) = segs := by
  by_cases hne : segs = []
  · subst hne
    rfl
  · have hsplit : (join segs).toList.splitOnP isSeparator = segs := by
      rw [join, String.toList_ofList]
      exact splitOnP_intercalate rfl (fun s hs => (h s hs).2) hne
    rw [segments, hsplit, List.filter_eq_self]
    exact fun s hs => (h s hs).1

/-- Clean segments are known by what they join to. -/
theorem join_injective {segs segs' : List Segment} (h : IsClean segs) (h' : IsClean segs')
    (e : join segs = join segs') : segs = segs' := by
  rw [← segments_join h, ← segments_join h', e]

theorem join_eq_empty_iff {segs : List Segment} (h : IsClean segs) :
    join segs = "" ↔ segs = [] := by
  constructor
  · intro e
    exact join_injective h (by simp [IsClean]) (e.trans join_nil.symm)
  · rintro rfl
    rfl

/-- Normalizing keeps the segments. -/
theorem segments_normalize (path : String) : segments (normalize path) = segments path :=
  segments_join (isClean_segments path)

/-- A canonical spelling is its own canonical spelling. -/
theorem normalize_normalize (path : String) : normalize (normalize path) = normalize path := by
  rw [normalize, segments_normalize, ← normalize]

/-- Joined segments are in normal form. -/
theorem normalize_join {segs : List Segment} (h : IsClean segs) :
    normalize (join segs) = join segs := by
  rw [normalize, segments_join h]

/-- Joined segments come apart at the slashes. -/
theorem pieces_join {segs : List Segment} (h : IsClean segs) (hne : segs ≠ []) :
    pieces (join segs) = segs := by
  rw [pieces, join, String.toList_ofList]
  refine splitOnP_intercalate rfl (fun s hs c hc => ?_) hne
  have := (h s hs).2 c hc
  simp only [isSeparator, Bool.or_eq_false_iff] at this
  exact this.1

/-- The parent of joined segments lacks the last one. -/
theorem parent?_join {segs : List Segment} (h : IsClean segs) (hne : segs ≠ []) :
    parent? (join segs) = some (join segs.dropLast) := by
  rw [parent?, if_neg (mt (join_eq_empty_iff h).1 hne), pieces_join h hne]

/-- The name of a package is the last segment of its path. -/
theorem name_normalize (path : String) :
    name (normalize path) = String.ofList ((segments path).getLastD []) := by
  by_cases hne : segments path = []
  · rw [normalize, hne]
    rfl
  · rw [normalize, name, pieces_join (isClean_segments path) hne]

/-- One package is the parent of another exactly if its segments are those of the other but the last
one. -/
theorem parent?_eq_some_iff {p q : String} (hp : normalize p = p) (hq : normalize q = q) :
    parent? q = some p ↔ segments q ≠ [] ∧ segments p = (segments q).dropLast := by
  have hclean := isClean_segments q
  by_cases hne : segments q = []
  · have hroot : q = "" := by rw [← hq, normalize, hne, join_nil]
    constructor
    · intro h
      simp [hroot, parent?] at h
    · rintro ⟨h, -⟩
      exact absurd hne h
  · have hjoin : parent? q = some (join (segments q).dropLast) := by
      have h := parent?_join hclean hne
      rwa [← normalize, hq] at h
    have hdrop : IsClean (segments q).dropLast := hclean.of_subset (List.dropLast_subset _)
    rw [hjoin, Option.some.injEq]
    constructor
    · intro e
      exact ⟨hne, by rw [← e, segments_join hdrop]⟩
    · rintro ⟨-, e⟩
      rw [← e, ← normalize, hp]

/-- What stands behind the last slash is a file name, and the directory is what stands before it. -/
theorem append_slash_inj {dir dir' file file' : List Char} (h : '/' ∉ file) (h' : '/' ∉ file')
    (e : dir ++ '/' :: file = dir' ++ '/' :: file') : dir = dir' ∧ file = file' := by
  rcases List.append_eq_append_iff.1 e with ⟨between, rfl, hrest⟩ | ⟨between, rfl, hrest⟩
  · cases between with
    | nil => simpa using hrest
    | cons c between =>
      obtain ⟨-, rfl⟩ := List.cons.inj hrest
      simp at h
  · cases between with
    | nil => simpa [eq_comm] using hrest
    | cons c between =>
      obtain ⟨-, rfl⟩ := List.cons.inj hrest
      simp at h'

/-- A path with a file name at its end belongs to one directory. -/
theorem full_inj {dir dir' file file' : String} (h : '/' ∉ file.toList) (h' : '/' ∉ file'.toList)
    (e : full dir file = full dir' file') : dir = dir' ∧ file = file' := by
  have hslash : "/".toList = ['/'] := rfl
  rw [full, full] at e
  split at e
  · next hdir =>
    split at e
    · next hdir' => exact ⟨hdir.trans hdir'.symm, e⟩
    · simp [e, hslash] at h
  · split at e
    · simp [← e, hslash] at h'
    · have e := congrArg String.toList e
      simp only [String.toList_append, hslash, List.append_assoc, List.singleton_append] at e
      obtain ⟨hdir, hfile⟩ := append_slash_inj h h' e
      exact ⟨String.toList_injective hdir, String.toList_injective hfile⟩

/-- The packages on the way to a path are those of the initial parts of its segments. -/
theorem mem_ancestors_iff {path q : String} :
    q ∈ ancestors path ↔ ∃ segs, segs <+: segments path ∧ q = join segs := by
  simp only [ancestors, List.mem_map, List.mem_range]
  constructor
  · rintro ⟨k, -, rfl⟩
    exact ⟨_, List.take_prefix k _, rfl⟩
  · rintro ⟨segs, hpre, rfl⟩
    have hlen := hpre.length_le
    exact ⟨segs.length, by omega, by rw [← List.prefix_iff_eq_take.1 hpre]⟩

/-- What holds of a path if it holds of its parent holds of all paths. -/
theorem parent?_induction {motive : String → Prop} (root : ∀ p, parent? p = none → motive p)
    (below : ∀ p q, parent? p = some q → motive q → motive p) (p : String) : motive p :=
  match h : parent? p with
  | none => root p h
  | some q => below p q h (parent?_induction root below q)
termination_by p.length
decreasing_by exact length_lt_of_parent? h

/-- Only the root has no parent. -/
theorem eq_empty_of_parent?_eq_none {p : String} (h : parent? p = none) : p = "" := by
  rw [parent?] at h
  split at h
  · next hempty => exact hempty
  · cases h

/-- The way to a package goes on from that to its parent. -/
theorem ancestors_eq_concat {p q : String} (hp : normalize p = p) (hq : parent? p = some q) :
    normalize q = q ∧ ancestors p = ancestors q ++ [p] := by
  have hne : segments p ≠ [] := by
    intro e
    rw [← hp, normalize, e, join_nil] at hq
    cases hq
  have hparent : parent? p = some (join (segments p).dropLast) := by
    have h := parent?_join (isClean_segments p) hne
    rwa [← normalize, hp] at h
  obtain rfl := Option.some.inj (hparent.symm.trans hq)
  have hclean : IsClean (segments p).dropLast :=
    (isClean_segments p).of_subset (List.dropLast_subset _)
  have hpos := List.length_pos_iff.2 hne
  have hlength : (segments p).dropLast.length + 1 = (segments p).length := by
    rw [List.length_dropLast]
    omega
  refine ⟨normalize_join hclean, ?_⟩
  rw [ancestors, ancestors, segments_join hclean, hlength, List.range_succ, List.map_append,
    List.map_singleton, List.take_length, ← normalize, hp]
  congr 1
  refine List.map_congr_left fun k hk => ?_
  have hk := List.mem_range.1 hk
  rw [List.dropLast_eq_take, List.take_take, Nat.min_eq_left (by omega)]

/-- The way to a package starts at the root. -/
theorem ancestors_eq_cons (p : String) : ∃ below, ancestors p = "" :: below := by
  rw [ancestors, List.range_succ_eq_map, List.map_cons]
  exact ⟨_, rfl⟩

/-- No ancestor is listed twice. -/
theorem nodup_ancestors (p : String) : (ancestors p).Nodup := by
  refine List.Nodup.map_on (fun i hi j hj e => ?_) List.nodup_range
  have hi := List.mem_range.1 hi
  have hj := List.mem_range.1 hj
  have hlength := congrArg List.length
    (join_injective (isClean_take (isClean_segments p) i) (isClean_take (isClean_segments p) j) e)
  rw [List.length_take, List.length_take] at hlength
  omega

/-!
## Canonical spellings

A path is in its canonical spelling exactly if it is empty or every piece between its slashes is a
segment that leads somewhere. Paths put behind one another go through the segments of both,
whichever slash is between them, and a path other than the root's is made of its parent and its
name.
-/

variable {path p q : String} {segs : List Segment} {s : Segment} {sep : Char}

/-- A spelling that is empty or has slashes only between segments that are not empty, are not the
directory itself, and hold no backslash. -/
def IsCanonical (path : String) : Prop :=
  path = "" ∨ ∀ s ∈ pieces path, s ≠ [] ∧ s ≠ ['.'] ∧ '\\' ∉ s

instance : DecidablePred IsCanonical := fun path =>
  inferInstanceAs (Decidable (path = "" ∨ ∀ s ∈ pieces path, s ≠ [] ∧ s ≠ ['.'] ∧ '\\' ∉ s))

/-! ### Pieces -/

theorem isProper_iff : isProper s = true ↔ s ≠ [] ∧ s ≠ ['.'] := by
  simp [isProper]

/-- No piece holds a slash. -/
theorem slash_notMem_of_mem_pieces (h : s ∈ pieces path) : '/' ∉ s := by
  intro hslash
  have := separator_notMem_of_mem_splitOnP h '/' hslash
  contradiction

/-- The pieces of a path hold no slash, so of the separators only the backslash has to be kept out
of them. -/
theorem isClean_pieces_iff : IsClean (pieces path) ↔ ∀ s ∈ pieces path, s ≠ [] ∧
    s ≠ ['.'] ∧ '\\' ∉ s := by
  refine forall₂_congr fun s hs => ?_
  rw [isProper_iff, and_assoc]
  refine and_congr_right fun _ => and_congr_right fun _ => ?_
  have hslash := slash_notMem_of_mem_pieces hs
  constructor
  · intro h hback
    have := h '\\' hback
    contradiction
  · intro hback c hc
    rw [isSeparator, Bool.or_eq_false_iff, beq_eq_false_iff_ne, beq_eq_false_iff_ne]
    exact ⟨fun e => hslash (e ▸ hc), fun e => hback (e ▸ hc)⟩

/-- The pieces of a path with slashes between them are the path. -/
theorem join_pieces (path : String) : join (pieces path) = path := by
  rw [join, pieces, ← List.splitOn_eq_splitOnP, List.intercalate_splitOn, String.ofList_toList]

/-! ### Canonical spellings -/

/-- Canonical are just those spellings that are their own canonical spelling. -/
theorem normalize_eq_self_iff : normalize path = path ↔ IsCanonical path := by
  constructor
  · intro h
    by_cases hroot : segments path = []
    · apply Or.inl
      rw [← h, normalize, hroot, join_nil]
    · apply Or.inr
      rw [← isClean_pieces_iff, ← h, normalize, pieces_join (isClean_segments path) hroot]
      exact isClean_segments path
  · rintro (rfl | h)
    · rfl
    · have hclean := isClean_pieces_iff.2 h
      rw [← join_pieces path, normalize_join hclean]

/-- Canonical are just those spellings that paths are brought into. -/
theorem exists_normalize_eq_iff : (∃ p, normalize p = path) ↔ IsCanonical path := by
  rw [← normalize_eq_self_iff]
  constructor
  · rintro ⟨p, rfl⟩
    exact normalize_normalize p
  · intro h
    exact ⟨path, h⟩

example : IsCanonical "common/entity" ∧ ¬IsCanonical "./common" ∧
    ¬IsCanonical "common\\entity" := by
  decide

/-! ### Paths behind one another -/

/-- A separator between two paths puts their segments behind one another. -/
theorem segments_push_append (hsep : isSeparator sep = true) (p q : String) :
    segments (p.push sep ++ q) = segments p ++ segments q := by
  have hlist : (p.push sep ++ q).toList = p.toList ++ sep :: q.toList := by simp
  rw [segments, hlist, List.splitOnP_append_cons _ _ hsep, List.filter_append]
  rfl

theorem isSeparator_of_mem (h : sep ∈ ['/', '\\']) : isSeparator sep = true := by
  rcases List.mem_cons.1 h with rfl | h
  · rfl
  · obtain rfl := List.mem_singleton.1 h
    rfl

/-- Paths may be brought into canonical spelling before they are put behind one another, with any
separator. -/
theorem normalize_push_append {sep' : Char} (hsep : isSeparator sep = true)
    (hsep' : isSeparator sep' = true) (p q : String) :
    normalize (p.push sep ++ q) = normalize ((normalize p).push sep' ++ normalize q) := by
  rw [normalize, normalize, segments_push_append hsep, segments_push_append hsep',
    segments_normalize, segments_normalize]

/-! ### Parents and names -/

theorem intercalate_concat {α : Type} {sep last : List α} {pieces : List (List α)}
    (hne : pieces ≠ []) :
    sep.intercalate (pieces ++ [last]) = sep.intercalate pieces ++ (sep ++ last) := by
  induction pieces with
  | nil => exact absurd rfl hne
  | cons s pieces ih =>
    cases pieces with
    | nil => simp
    | cons t pieces =>
      rw [List.cons_append, List.cons_append, List.intercalate_cons_cons,
        ← List.cons_append, ih (by simp), List.intercalate_cons_cons]
      simp only [List.append_assoc]

/-- One more segment stands behind a slash, unless it is the only one. -/
theorem join_concat (h : IsClean segs) (s : Segment) :
    join (segs ++ [s]) =
      if join segs = "" then String.ofList s else join segs ++ "/" ++ String.ofList s := by
  by_cases hnil : segs = []
  · subst hnil
    simp [join]
  · rw [if_neg (mt (join_eq_empty_iff h).1 hnil), join, join, intercalate_concat hnil,
      String.ofList_append, String.ofList_append, ← String.append_assoc]

/-- A path in canonical spelling is its name behind its parent, which is in canonical spelling as
well. -/
theorem exists_parent_of_canonical (hp : normalize p = p) (hne : p ≠ "") :
    ∃ d, parent? p = some d ∧ normalize d = d ∧ d.length < p.length ∧
      p = if d = "" then name p else d ++ "/" ++ name p := by
  have hclean := isClean_segments p
  have hsegs : segments p ≠ [] := by
    intro h
    apply hne
    rw [← hp, normalize, h, join_nil]
  have hfront : IsClean (segments p).dropLast := hclean.of_subset (List.dropLast_subset _)
  have hparent : parent? p = some (join (segments p).dropLast) := by
    have h := parent?_join hclean hsegs
    rwa [← normalize, hp] at h
  have hname : name p = String.ofList ((segments p).getLast hsegs) := by
    have h := name_normalize p
    rwa [hp, List.getLastD_eq_getLast?, List.getLast?_eq_some_getLast hsegs, Option.getD_some] at h
  have hsplit : p = if join (segments p).dropLast = "" then name p
      else join (segments p).dropLast ++ "/" ++ name p := by
    have h := join_concat hfront ((segments p).getLast hsegs)
    rwa [List.dropLast_concat_getLast hsegs, ← normalize, hp, ← hname] at h
  refine ⟨_, hparent, normalize_join hfront, ?_, hsplit⟩
  by_cases hroot : join (segments p).dropLast = ""
  · rw [hroot, String.length_empty]
    exact Nat.pos_of_ne_zero (mt String.length_eq_zero_iff.1 hne)
  · rw [if_neg hroot] at hsplit
    have hlength := congrArg String.length hsplit
    simp only [String.length_append] at hlength
    have hslash : "/".length = 1 := rfl
    omega

/-- Canonical spellings: they are what paths are brought into, once and for all, they may be put
behind one another in place of the paths, and each but the root's is its name behind a shorter one,
its parent. -/
theorem canonical_spellings (p q : String) :
    normalize (normalize p) = normalize p ∧
      ((∃ r, normalize r = p) ↔ IsCanonical p) ∧
      (∀ sep ∈ ['/', '\\'], ∀ sep' ∈ ['/', '\\'],
        normalize (p.push sep ++ q) = normalize ((normalize p).push sep' ++ normalize q)) ∧
      (p ≠ "" → normalize p = p → ∃ d, parent? p = some d ∧ normalize d = d ∧ d.length < p.length ∧
        p = if d = "" then name p else d ++ "/" ++ name p) := by
  refine ⟨normalize_normalize p, exists_normalize_eq_iff, ?_, fun hne hp =>
    exists_parent_of_canonical hp hne⟩
  intro sep hsep sep' hsep'
  exact normalize_push_append (isSeparator_of_mem hsep) (isSeparator_of_mem hsep') p q

end Schemata.Path

namespace Schemata.Sample

/-- A path of two segments is in canonical spelling and made of its parent and its name, and another
path may be put behind it with either slash. -/
theorem canonical_spellings_entity : Path.IsCanonical "common/entity" ∧
    Path.normalize ("common/entity".push '\\' ++ "./x") =
      Path.normalize ((Path.normalize "common/entity").push '/' ++ Path.normalize "./x") ∧
    "common/entity" ≠ "" ∧ Path.normalize "common/entity" = "common/entity" ∧
    ∃ d, Path.parent? "common/entity" = some d ∧ Path.normalize d = d ∧
      d.length < "common/entity".length ∧
      "common/entity" = if d = "" then Path.name "common/entity"
        else d ++ "/" ++ Path.name "common/entity" := by
  obtain ⟨-, hcanonical, hjoined, hparent⟩ := Path.canonical_spellings "common/entity" "./x"
  have hself : Path.normalize "common/entity" = "common/entity" := by decide
  exact ⟨hcanonical.1 ⟨_, hself⟩, hjoined '\\' (by decide) '/' (by decide),
    by decide, hself, hparent (by decide) hself⟩

end Schemata.Sample
