import Schemata.Proofs.Data.Lists
import Schemata.Proofs.Data.OrderedMap
import Schemata.Scope.Link

/-!
# Names that collide and names that do not

No name collides in a file exactly if the types that are brought in have different names, none of
which the file itself declares. A name that does collide is reported once, however often it is
brought in.
-/

namespace Schemata

namespace Diagnostic

/-- The messages of a kind are as different as their details. -/
theorem Kind.message_inj {kind : Kind} {a b : String} :
    kind.message (some a) = kind.message (some b) ↔ a = b := by
  refine ⟨fun h => ?_, fun h => by rw [h]⟩
  have htexts := congrArg String.toList h
  simpa [Kind.message, String.toList_inj] using htexts

/-- Whether a diagnostic is of a kind and about a name. -/
def isAbout (kind : Kind) (name : String) (d : Diagnostic) : Bool :=
  d.kind == kind && d.message == kind.message (some name)

end Diagnostic

namespace Workspace

variable {w : Workspace} {f : FileScope} {b : Import × Symbol}
  {seen rest : List (Import × Symbol)} {name : String}

def nameBroughtIn (b : Import × Symbol) : String := b.2.name

/-! ## No reports -/

/-- Whether some types that are brought in have different names, none of which the file itself
declares. -/
structure Clear (f : FileScope) (l : List (Import × Symbol)) : Prop where
  nodup : (l.map nameBroughtIn).Nodup
  foreign : ∀ b ∈ l, f.symbol? (nameBroughtIn b) = none

theorem clear_nil : Clear f [] := ⟨List.nodup_nil, by simp⟩

/-- What is clear with more names behind it is clear without them. -/
theorem Clear.of_append (h : Clear f (seen ++ rest)) : Clear f seen where
  nodup := h.nodup.sublist ((List.sublist_append_left seen rest).map _)
  foreign := fun b hb => h.foreign b (List.mem_append_left rest hb)

/-- One more name is clear when nothing before it and nothing of the file bears it. -/
theorem Clear.concat_iff (h : Clear f seen) :
    Clear f (seen ++ [b]) ↔
      seen.filter (nameBroughtIn · == nameBroughtIn b) = [] ∧
        f.symbol? (nameBroughtIn b) = none := by
  have hnodup : ((seen ++ [b]).map nameBroughtIn).Nodup ↔
      (seen.filter (nameBroughtIn · == nameBroughtIn b)) = [] := by
    rw [List.map_append, List.map_singleton, ← List.concat_eq_append, List.nodup_concat,
      and_iff_left h.nodup]
    simp only [List.mem_map, not_exists, not_and, List.filter_eq_nil_iff, beq_iff_eq]
  constructor
  · rintro ⟨hkeys, hforeign⟩
    exact ⟨hnodup.1 hkeys, hforeign b (by simp)⟩
  · rintro ⟨hnew, hb⟩
    refine ⟨hnodup.2 hnew, fun a ha => ?_⟩
    rcases List.mem_append.1 ha with ha | ha
    · exact h.foreign a ha
    · rwa [List.mem_singleton.1 ha]

/-- Behind names that do not collide, nothing is reported exactly if none collides with
them either. -/
theorem collisionsAfter_eq_nil_iff (hseen : Clear f seen) :
    collisionsAfter f seen rest = [] ↔ Clear f (seen ++ rest) := by
  induction rest generalizing seen with
  | nil => simpa [collisionsAfter] using hseen
  | cons b rest ih =>
    have hassoc : seen ++ b :: rest = (seen ++ [b]) ++ rest := by simp
    rw [collisionsAfter, List.append_eq_nil_iff, hassoc]
    by_cases hb : Clear f (seen ++ [b])
    · obtain ⟨hnew, hforeign⟩ := hseen.concat_iff.1 hb
      simp only [nameBroughtIn] at hnew hforeign
      rw [hnew, hforeign, ih hb]
      exact and_iff_right rfl
    · refine iff_of_false (fun hnil => ?_) fun h => hb h.of_append
      have hreport := hnil.1
      rw [hseen.concat_iff, not_and'] at hb
      cases hown : f.symbol? b.2.name with
      | some own =>
        -- no type before `b` has its name, as the file declares none of their names
        have hfirst : seen.filter (·.2.name == b.2.name) = [] := by
          refine List.filter_eq_nil_iff.2 fun a ha hname => ?_
          have hforeign := hseen.foreign a ha
          rw [nameBroughtIn, eq_of_beq hname, hown] at hforeign
          cases hforeign
        simp [hown, hfirst] at hreport
      | none =>
        obtain ⟨a, ha⟩ := List.exists_mem_of_ne_nil _ (hb hown)
        obtain ⟨ha, hname⟩ := List.mem_filter.1 ha
        have honly := filter_key_eq_singleton hseen.nodup ha
        rw [eq_of_beq hname] at honly
        simp only [nameBroughtIn] at honly
        simp [hown, honly] at hreport

/-- No collision is reported exactly when all that is brought in is clear. -/
theorem collisions_eq_nil_iff : w.collisions f = [] ↔ Clear f (w.broughtIn f) :=
  collisionsAfter_eq_nil_iff clear_nil

/-! ## Reports on a name -/

def bearing (name : String) (l : List (Import × Symbol)) : List (Import × Symbol) :=
  l.filter (nameBroughtIn · == name)

theorem bearing_append : bearing name (seen ++ rest) = bearing name seen ++ bearing name rest :=
  List.filter_append _ _

theorem bearing_singleton : bearing name [b] = if nameBroughtIn b = name then [b] else [] := by
  by_cases h : nameBroughtIn b = name
  · simp [bearing, h]
  · simp [bearing, h]

/-- How often a name is brought in when it collides: once if the file itself declares it, or else
twice. -/
def collidesAt (f : FileScope) (name : String) : Nat := if (f.symbol? name).isSome then 1 else 2

/-- A name of the file itself collides with the first import that brings it. -/
theorem collidesAt_of_eq_some {own : Symbol} (h : f.symbol? name = some own) :
    collidesAt f name = 1 := by
  rw [collidesAt, h]
  rfl

/-- Any other name collides with the second one. -/
theorem collidesAt_of_eq_none (h : f.symbol? name = none) : collidesAt f name = 2 := by
  rw [collidesAt, h]
  rfl

theorem collidesAt_pos : 0 < collidesAt f name := by
  rw [collidesAt]
  split <;> simp

theorem collidesAt_le_two : collidesAt f name ≤ 2 := by
  rw [collidesAt]
  split <;> simp

def collisionOn (f : FileScope) (seen : List (Import × Symbol)) (b : Import × Symbol) :
    List Diagnostic :=
  match f.symbol? (nameBroughtIn b), bearing (nameBroughtIn b) seen with
  | some own, [] => [ownCollision f own b.1]
  | none, [(first, _)] => [importCollision f (nameBroughtIn b) first b.1]
  | _, _ => []

theorem collisionsAfter_cons :
    collisionsAfter f seen (b :: rest) =
      collisionOn f seen b ++ collisionsAfter f (seen ++ [b]) rest := rfl

/-- A type that is brought in is reported if its name collides with it, and not if the name has
collided before or does not collide yet. -/
theorem collisionOn_cases (f : FileScope) (seen : List (Import × Symbol)) (b : Import × Symbol) :
    ((bearing (nameBroughtIn b) seen).length + 1 = collidesAt f (nameBroughtIn b) ∧
      ∃ d, collisionOn f seen b = [d] ∧ d.file = f.file ∧ d.kind = .alreadyDefined ∧
        d.message = Diagnostic.Kind.message .alreadyDefined (nameBroughtIn b)) ∨
    ((bearing (nameBroughtIn b) seen).length + 1 ≠ collidesAt f (nameBroughtIn b) ∧
      collisionOn f seen b = []) := by
  rw [collisionOn]
  generalize bearing (nameBroughtIn b) seen = earlier
  cases hown : f.symbol? (nameBroughtIn b) with
  | some own =>
    rw [collidesAt_of_eq_some hown]
    cases earlier with
    | nil =>
      refine .inl ⟨rfl, _, rfl, rfl, rfl, ?_⟩
      rw [← (key_of_find?_eq_some hown).2]
      rfl
    | cons first others => exact .inr ⟨by simp, rfl⟩
  | none =>
    rw [collidesAt_of_eq_none hown]
    rcases earlier with _ | ⟨first, _ | ⟨second, others⟩⟩
    · exact .inr ⟨by simp, rfl⟩
    · exact .inl ⟨rfl, _, rfl, rfl, rfl, rfl⟩
    · exact .inr ⟨by simp, rfl⟩

/-- The report on a collision is in the file, and on a name. -/
theorem of_mem_collisionsAfter {d : Diagnostic} (hd : d ∈ collisionsAfter f seen rest) :
    d.file = f.file ∧ d.kind = .alreadyDefined ∧
      ∃ name, d.message = Diagnostic.Kind.message .alreadyDefined (some name) := by
  induction rest generalizing seen with
  | nil => cases hd
  | cons b rest ih =>
    rw [collisionsAfter_cons] at hd
    rcases List.mem_append.1 hd with hd | hd
    · rcases collisionOn_cases f seen b with ⟨-, d', e, hfile, hkind, hmessage⟩ | ⟨-, e⟩
      · rw [e, List.mem_singleton] at hd
        subst hd
        exact ⟨hfile, hkind, nameBroughtIn b, hmessage⟩
      · rw [e] at hd
        cases hd
    · exact ih hd

/-- A name is reported the one time at which it collides. -/
theorem countP_collisionOn :
    (collisionOn f seen b).countP (Diagnostic.isAbout .alreadyDefined name) =
    if nameBroughtIn b = name ∧ (bearing name seen).length + 1 = collidesAt f name
      then 1 else 0 := by
  rcases collisionOn_cases f seen b with ⟨htimes, d, e, -, hkind, hmessage⟩ | ⟨htimes, e⟩
  · rw [e, List.countP_singleton, Diagnostic.isAbout, hkind, hmessage]
    by_cases hname : nameBroughtIn b = name
    · subst hname
      simp [htimes]
    · simp [hname, Diagnostic.Kind.message_inj]
  · rw [e]
    by_cases hname : nameBroughtIn b = name
    · subst hname
      simp [htimes]
    · simp [hname]

/-- A name is reported once if it collides with one of some types that are brought in
behind others. -/
theorem countP_collisionsAfter :
    (collisionsAfter f seen rest).countP (Diagnostic.isAbout .alreadyDefined name) =
      if (bearing name seen).length < collidesAt f name ∧
        collidesAt f name ≤ (bearing name (seen ++ rest)).length then 1 else 0 := by
  induction rest generalizing seen with
  | nil =>
    rw [List.append_nil, if_neg (by omega)]
    rfl
  | cons b rest ih =>
    have hseen : bearing name (seen ++ [b]) =
        bearing name seen ++ if nameBroughtIn b = name then [b] else [] := by
      rw [bearing_append, bearing_singleton]
    have htotal : bearing name (seen ++ b :: rest) =
        bearing name (seen ++ [b]) ++ bearing name rest := by
      rw [List.append_cons, bearing_append]
    rw [collisionsAfter_cons, List.countP_append, countP_collisionOn, ih,
      ← List.append_cons, htotal, hseen]
    by_cases hname : nameBroughtIn b = name
    · simp only [hname, true_and, if_true, List.length_append, List.length_singleton]
      split <;> split <;> split <;> omega
    · simp only [hname, false_and, if_false, List.append_nil, Nat.zero_add]

end Workspace

end Schemata

/-!
## Logs know all that counts

Where no import brings in a name twice, the pass with a log makes the reports that looking back
makes.
-/

namespace Schemata.CollisionLog

open Workspace

variable {f : FileScope} {log : CollisionLog} {b : Import × Symbol}
  {seen rest : List (Import × Symbol)}

/-- Whether a log knows what there is to know of the types brought in so far. -/
structure Tracks (f : FileScope) (seen : List (Import × Symbol)) (log : CollisionLog) : Prop where
  reported : ∀ name, name ∈ log.reported ↔ collidesAt f name ≤ (bearing name seen).length
  first : ∀ name, f.symbol? name = none → log.first.get? name = (bearing name seen).head?.map (·.1)

theorem Tracks.empty : Tracks f [] empty where
  reported := fun _ => iff_of_false List.not_mem_nil (Nat.not_le.2 collidesAt_pos)
  first := fun _ _ => rfl

/-- A type that is brought in leaves what is known of other names as it was. -/
theorem Tracks.of_eq (h : Tracks f seen log) (b : Import × Symbol) (log' : CollisionLog)
    (hreported : ∀ name, name ≠ nameBroughtIn b → (name ∈ log'.reported ↔ name ∈ log.reported))
    (hfirst : ∀ name, name ≠ nameBroughtIn b → log'.first.get? name = log.first.get? name)
    (hreported_self : nameBroughtIn b ∈ log'.reported ↔
      collidesAt f (nameBroughtIn b) ≤ (bearing (nameBroughtIn b) seen).length + 1)
    (hfirst_self : f.symbol? (nameBroughtIn b) = none → log'.first.get? (nameBroughtIn b) =
      (bearing (nameBroughtIn b) seen ++ [b]).head?.map (·.1)) :
    Tracks f (seen ++ [b]) log' where
  reported := fun name => by
    rw [bearing_append, bearing_singleton]
    split
    · next e => rw [← e, hreported_self, List.length_append, List.length_singleton]
    · next e => rw [List.append_nil, hreported name (Ne.symm e), h.reported]
  first := fun name hforeign => by
    rw [bearing_append, bearing_singleton]
    split
    · next e =>
      subst e
      exact hfirst_self hforeign
    · next e => rw [List.append_nil, hfirst name (Ne.symm e), h.first name hforeign]

/-- A name that was reported is not looked at again. -/
theorem enter_of_mem_reported (h : nameBroughtIn b ∈ log.reported) : log.enter f b = (log, []) := by
  rw [enter]
  exact if_pos (List.contains_iff_mem.2 h)

theorem enter_of_notMem_reported (h : nameBroughtIn b ∉ log.reported) : log.enter f b =
    match f.symbol? (nameBroughtIn b), log.first.get? (nameBroughtIn b) with
    | some own, _ => (log.report (nameBroughtIn b), [ownCollision f own b.1])
    | none, some first =>
      if first.path ≠ b.1.path then
        (log.report (nameBroughtIn b), [importCollision f (nameBroughtIn b) first b.1])
      else (log, [])
    | none, none => ({ log with first := log.first.insert (nameBroughtIn b) b.1 }, []) := by
  have hnew : ¬log.reported.contains b.2.name := fun e => h (List.contains_iff_mem.1 e)
  rw [enter]
  simp only [nameBroughtIn, if_neg hnew]
  cases f.symbol? b.2.name with
  | some own => rfl
  | none => cases log.first.get? b.2.name <;> rfl

/-- The reports on one more type are those that looking back makes, and the log knows of the type
behind it. -/
theorem Tracks.enter (h : Tracks f seen log)
    (hother : ∀ a ∈ bearing (nameBroughtIn b) seen, a.1.path ≠ b.1.path) :
    Tracks f (seen ++ [b]) (log.enter f b).1 ∧ (log.enter f b).2 = collisionOn f seen b := by
  have hreported := h.reported (nameBroughtIn b)
  have hfirst := h.first (nameBroughtIn b)
  have hkeep := h.of_eq b log (fun _ _ => Iff.rfl) fun _ _ => rfl
  have hreport :=
    h.of_eq b (log.report (nameBroughtIn b)) (fun name hne => by simp [report, hne]) fun _ _ => rfl
  have hinsert :=
    h.of_eq b { log with first := log.first.insert (nameBroughtIn b) b.1 } (fun _ _ => Iff.rfl)
    fun name hne => by rw [OrderedMap.get?_insert, if_neg hne]
  rw [collisionOn]
  generalize bearing (nameBroughtIn b) seen = earlier at *
  cases hown : f.symbol? (nameBroughtIn b) with
  | some own =>
    rw [collidesAt_of_eq_some hown] at hreported hreport hkeep
    rcases earlier with _ | ⟨a, others⟩
    · have hnew : nameBroughtIn b ∉ log.reported := by simp [hreported]
      rw [enter_of_notMem_reported hnew, hown]
      exact ⟨hreport (by simp [report]) (by simp [hown]), rfl⟩
    · have hold : nameBroughtIn b ∈ log.reported := by simp [hreported]
      rw [enter_of_mem_reported hold]
      exact ⟨hkeep (by simp [hold]) (by simp [hown]), rfl⟩
  | none =>
    have hfirst := hfirst hown
    rw [collidesAt_of_eq_none hown] at hreported hreport hkeep hinsert
    rcases earlier with _ | ⟨a, _ | ⟨a', others⟩⟩
    · have hnew : nameBroughtIn b ∉ log.reported := by simp [hreported]
      rw [enter_of_notMem_reported hnew, hown, hfirst]
      refine ⟨hinsert (by simp [hnew]) fun _ => ?_, rfl⟩
      rw [OrderedMap.get?_insert, if_pos rfl]
      rfl
    · have hnew : nameBroughtIn b ∉ log.reported := by simp [hreported]
      have hpath : a.1.path ≠ b.1.path := hother a (by simp)
      rw [enter_of_notMem_reported hnew, hown, hfirst, List.head?_cons, Option.map_some]
      simp only [if_pos hpath]
      exact ⟨hreport (by simp [report]) fun _ => hfirst, trivial⟩
    · have hold : nameBroughtIn b ∈ log.reported := by simp [hreported]
      rw [enter_of_mem_reported hold]
      exact ⟨hkeep (by simp [hold]) fun _ => hfirst, rfl⟩

/-- The pass with a log makes the reports that looking back makes. -/
theorem Tracks.reportsAfter_eq (h : Tracks f seen log) (hother : (seen ++ rest).Pairwise fun a b =>
    nameBroughtIn a = nameBroughtIn b → a.1.path ≠ b.1.path) :
    log.reportsAfter f rest = collisionsAfter f seen rest := by
  induction rest generalizing seen log with
  | nil => rfl
  | cons b rest ih =>
    have hb : ∀ a ∈ bearing (nameBroughtIn b) seen, a.1.path ≠ b.1.path := by
      intro a ha
      obtain ⟨ha, hname⟩ := List.mem_filter.1 ha
      exact (List.pairwise_append.1 hother).2.2 a ha b List.mem_cons_self (eq_of_beq hname)
    obtain ⟨hbehind, hreports⟩ := h.enter hb
    rw [List.append_cons] at hother
    rw [reportsAfter, collisionsAfter_cons, ← hreports, ← ih hbehind hother]

end Schemata.CollisionLog
