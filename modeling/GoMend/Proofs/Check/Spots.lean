import GoMend.Proofs.Check.Apart
import Mathlib.Data.List.Nodup

/-!
# Spots

A spot is the place where an event may declare a variable, or where a `:=` ends.  No two events of
the check of a sound tree have the same spot, although some nodes are visited twice.
-/

namespace GoMend

open PlanStep

/-! ### Spots of sound trees -/

/-- The spots of some events in their order. -/
def spots (events : List Event) : List Pos :=
  events.filterMap Event.spot?

@[simp]
theorem spots_append (first second : List Event) :
    spots (first ++ second) = spots first ++ spots second :=
  List.filterMap_append

theorem spots_flatMap {α : Type} (parts : List α) (eventsOf : α → List Event) :
    spots (parts.flatMap eventsOf) = parts.flatMap fun part => spots (eventsOf part) := by
  induction parts with
  | nil => rfl
  | cons part parts ih => rw [List.flatMap_cons, List.flatMap_cons, spots_append, ih]

namespace Node

variable {role : Role} {mode : Mode} {node : Node} {pos : Pos}

/-- A spot of a sound node is one of its places. -/
theorem mem_places_of_mem_spots (sound : Sound role node) (allowed : role.allows mode)
    (mem : pos ∈ spots (node.events mode)) : pos ∈ node.places := by
  obtain ⟨happens, isEvent, isSpot⟩ := List.mem_filterMap.mp mem
  obtain ⟨address, trail⟩ := (events_fit sound allowed happens isEvent).onTrail pos isSpot
  exact trail.mem_places

/-! ### Distinct spots -/

section Placed

variable (stands : node.Stands role) (parts : ∀ part ∈ node.parts role, Sound part.1 part.2)

include stands parts

/-- The token of a sound node is no place of a child. -/
theorem not_mem_places_of_token {count : Nat} {child : Node}
    (token : node.token? = some (count, pos)) (mem : child ∈ node.children) :
    pos ∉ child.places := by
  intro isPlace
  have positioned := isPositioned_of_pos stands.positive
  have noChild := find?_of_token (.placed stands parts) positioned token
  obtain ⟨index, isChild⟩ := List.getElem?_of_mem mem
  obtain ⟨found, -⟩ := find?_of_child (.placed stands parts) positioned isChild isPlace
  simp [noChild] at found

/-- Two children of a sound node have no common place. -/
theorem eq_of_mem_places {index index' : Nat} {first second : Node}
    (isFirst : node.children[index]? = some first) (isSecond : node.children[index']? = some second)
    (inFirst : pos ∈ first.places) (inSecond : pos ∈ second.places) : index = index' := by
  have positioned := isPositioned_of_pos stands.positive
  obtain ⟨-, firstIndex⟩ := find?_of_child (.placed stands parts) positioned isFirst inFirst
  obtain ⟨-, secondIndex⟩ := find?_of_child (.placed stands parts) positioned isSecond inSecond
  exact firstIndex.symm.trans secondIndex

omit stands in
theorem mem_spots_step {planned : PlanStep} (suits : planned.Suits role node)
    (mem : pos ∈ spots (planned.events Node.events node.children)) :
    match planned with
    | .event happens => happens.spot? = some pos ∧ ∃ count, node.token? = some (count, pos)
    | .visit visited index => ∃ child part, node.children[index]? = some child ∧
        (node.parts role)[index]? = some (part, child) ∧ part.allows visited ∧
        pos ∈ spots (child.events visited) ∧ pos ∈ child.places := by
  cases planned with
  | event happens =>
      have isSpot : happens.spot? = some pos := by simpa [spots] using mem
      exact ⟨isSpot, suits.atToken pos isSpot⟩
  | visit visited index =>
      rw [events_visit] at mem
      cases isChild : node.children[index]? with
      | none => simp [isChild, spots] at mem
      | some child =>
          simp only [isChild, Option.elim_some] at mem
          obtain ⟨part, isPart, allowed⟩ := exists_part suits isChild
          exact ⟨child, part, isChild, isPart, allowed, mem,
            mem_places_of_mem_spots (parts _ (List.mem_of_getElem? isPart)) allowed mem⟩

/-- Steps that lie apart have no common spot, given that ways of visiting a child one beside the
other have none. -/
theorem disjoint_of_apart {first second : PlanStep} (firstSuits : first.Suits role node)
    (secondSuits : second.Suits role node) (apart : Apart first second)
    (beside : ∀ part ∈ node.parts role, ∀ mode other : Mode, mode.isBeside other →
      part.1.allows mode → part.1.allows other →
      (spots (part.2.events mode)).Disjoint (spots (part.2.events other))) :
    (spots (first.events Node.events node.children)).Disjoint
      (spots (second.events Node.events node.children)) := by
  intro pos inFirst inSecond
  have firstMem := mem_spots_step parts firstSuits inFirst
  have secondMem := mem_spots_step parts secondSuits inSecond
  cases first with
  | event happens =>
      cases second with
      | event other =>
          obtain none | none := apart
          · exact absurd (none.symm.trans (Event.anchor?_of_spot? firstMem.1)) (Option.some_ne_none _).symm
          · exact absurd (none.symm.trans (Event.anchor?_of_spot? secondMem.1)) (Option.some_ne_none _).symm
      | visit visited index =>
          obtain ⟨-, count, token⟩ := firstMem
          obtain ⟨child, part, isChild, -, -, -, isPlace⟩ := secondMem
          exact not_mem_places_of_token stands parts token (List.mem_of_getElem? isChild) isPlace
  | visit visited index =>
      obtain ⟨child, part, isChild, isPart, allowed, isSpot, isPlace⟩ := firstMem
      cases second with
      | event other =>
          obtain ⟨-, count, token⟩ := secondMem
          exact not_mem_places_of_token stands parts token (List.mem_of_getElem? isChild) isPlace
      | visit visited' index' =>
          obtain ⟨child', part', isChild', isPart', allowed', isSpot', isPlace'⟩ := secondMem
          obtain rfl := eq_of_mem_places stands parts isChild isChild' isPlace isPlace'
          obtain ⟨rfl, rfl⟩ := Prod.mk.inj (Option.some.inj (isPart.symm.trans isPart'))
          exact beside _ (List.mem_of_getElem? isPart) visited visited' (apart rfl) allowed allowed'
            isSpot isSpot'

end Placed

/-- A node that was not read has no spots. -/
theorem spots_eq_nil_of_not_isPositioned (sound : Sound role node) (allowed : role.allows mode)
    (notPositioned : node.isPositioned = false) : spots (node.events mode) = [] := by
  refine List.eq_nil_iff_forall_not_mem.mpr fun pos mem => ?_
  have isPlace := mem_places_of_mem_spots sound allowed mem
  simp [places_eq_nil notPositioned] at isPlace

/-- Ways of visiting a sound node one beside the other have no common spot. -/
theorem disjoint_of_isBeside {other : Mode} (sound : Sound role node)
    (beside : mode.isBeside other) (allowed : role.allows mode) (allowed' : role.allows other) :
    (spots (node.events mode)).Disjoint (spots (node.events other)) := by
  induction sound generalizing mode other with
  | placed stands parts ih =>
      have firstSuits := plan_suits stands parts allowed
      have secondSuits := plan_suits stands parts allowed'
      rw [events_eq, events_eq, spots_flatMap, spots_flatMap]
      intro pos inFirst inSecond
      obtain ⟨first, isFirst, inFirst⟩ := List.mem_flatMap.mp inFirst
      obtain ⟨second, isSecond, inSecond⟩ := List.mem_flatMap.mp inSecond
      refine disjoint_of_apart stands parts (firstSuits first isFirst) (secondSuits second isSecond)
        (apart_of_isBeside beside _ first isFirst second isSecond) ?_ inFirst inSecond
      exact fun part mem mode other beside => ih part mem beside
  | read name isWord =>
      rw [spots_eq_nil_of_not_isPositioned (.read name isWord) allowed rfl]
      exact List.disjoint_nil_left _
  | blank =>
      rw [spots_eq_nil_of_not_isPositioned .blank allowed rfl]
      exact List.disjoint_nil_left _

/-- No two events of a sound node have the same spot. -/
theorem nodup_spots (sound : Sound role node) (allowed : role.allows mode) :
    (spots (node.events mode)).Nodup := by
  induction sound generalizing mode with
  | @placed role node stands parts ih =>
      have suits := plan_suits stands parts allowed
      rw [events_eq, spots_flatMap, List.nodup_flatMap]
      refine ⟨fun planned isPlanned => ?_, ?_⟩
      · cases planned with
        | event happens => cases isSpot : happens.spot? <;> simp [spots, isSpot]
        | visit visited index =>
            rw [events_visit]
            cases isChild : node.children[index]? with
            | none => exact List.nodup_nil
            | some child =>
                obtain ⟨part, isPart, partAllows⟩ := exists_part (suits _ isPlanned) isChild
                exact ih (part, child) (List.mem_of_getElem? isPart) partAllows
      · refine (pairwise_apart_plan mode node).imp_of_mem ?_
        intro first second isFirst isSecond apart
        refine disjoint_of_apart stands parts (suits first isFirst) (suits second isSecond) apart ?_
        exact fun part mem mode other beside allowed allowed' =>
          disjoint_of_isBeside (parts part mem) beside allowed allowed'
  | read name isWord =>
      rw [spots_eq_nil_of_not_isPositioned (.read name isWord) allowed rfl]
      exact List.nodup_nil
  | blank =>
      rw [spots_eq_nil_of_not_isPositioned .blank allowed rfl]
      exact List.nodup_nil

end Node

/-! ### Packages -/

/-- Sound files of one package, one after the other. -/
structure SoundPackage (files : List File) : Prop where
  sound : ∀ file ∈ files, Sound .plain (.file file)
  apart : files.Pairwise fun first second => first.span.stop ≤ second.span.start

namespace SoundPackage

variable {files : List File}

theorem not_mem_places {first second : File} {pos : Pos} (firstSound : Sound .plain (.file first))
    (secondSound : Sound .plain (.file second)) (before : first.span.stop ≤ second.span.start)
    (inFirst : pos ∈ (Node.file first).places) : pos ∉ (Node.file second).places := by
  intro inSecond
  have firstHolds := (firstSound.holds inFirst).2.2
  have secondHolds := (secondSound.holds inSecond).2.1
  exact absurd (Int.lt_of_lt_of_le firstHolds (Int.le_trans before secondHolds)) (Int.lt_irrefl _)

/-- Two files of a package have no common place. -/
theorem unit_unique (package : SoundPackage files) {unit unit' : Nat} {first second : File}
    {pos : Pos} (isFirst : files[unit]? = some first) (isSecond : files[unit']? = some second)
    (inFirst : pos ∈ (Node.file first).places) (inSecond : pos ∈ (Node.file second).places) :
    unit = unit' := by
  have firstSound := package.sound first (List.mem_of_getElem? isFirst)
  have secondSound := package.sound second (List.mem_of_getElem? isSecond)
  obtain ⟨firstInside, rfl⟩ := List.getElem?_eq_some_iff.mp isFirst
  obtain ⟨secondInside, rfl⟩ := List.getElem?_eq_some_iff.mp isSecond
  have apart := List.pairwise_iff_getElem.mp package.apart
  obtain before | same | after := Nat.lt_trichotomy unit unit'
  · exact absurd inSecond
      (not_mem_places firstSound secondSound (apart _ _ firstInside secondInside before) inFirst)
  · exact same
  · exact absurd inFirst
      (not_mem_places secondSound firstSound (apart _ _ secondInside firstInside after) inSecond)

/-- The events of a sound package suit one of its files. -/
theorem events_fit (package : SoundPackage files) :
    ∀ happens ∈ packageEvents files, ∃ file ∈ files, happens.Fits (.file file) := by
  intro happens mem
  rw [packageEvents, List.mem_append, List.mem_flatMap, List.mem_flatMap] at mem
  obtain ⟨file, isFile, mem⟩ | ⟨file, isFile, mem⟩ := mem <;>
    exact ⟨file, isFile, Node.events_fit (package.sound file isFile) rfl happens mem⟩

theorem nodup_spots_flatMap (package : SoundPackage files) (mode : Mode)
    (allowed : Role.plain.allows mode) :
    (spots (files.flatMap fun file => (Node.file file).events mode)).Nodup := by
  rw [spots_flatMap, List.nodup_flatMap]
  refine ⟨fun file isFile => Node.nodup_spots (package.sound file isFile) allowed, ?_⟩
  refine package.apart.imp_of_mem fun {first second} isFirst isSecond before pos inFirst inSecond => ?_
  have firstSound := package.sound first isFirst
  have secondSound := package.sound second isSecond
  exact not_mem_places firstSound secondSound before
    (Node.mem_places_of_mem_spots firstSound allowed inFirst)
    (Node.mem_places_of_mem_spots secondSound allowed inSecond)

/-- No two events of a sound package have the same spot. -/
theorem nodup_spots (package : SoundPackage files) : (spots (packageEvents files)).Nodup := by
  rw [packageEvents, spots_append, List.nodup_append]
  refine ⟨package.nodup_spots_flatMap .package rfl, package.nodup_spots_flatMap .file rfl, ?_⟩
  rintro pos inPackage _ inFile rfl
  rw [spots_flatMap, List.mem_flatMap] at inPackage inFile
  obtain ⟨first, isFirst, inPackage⟩ := inPackage
  obtain ⟨second, isSecond, inFile⟩ := inFile
  have firstPlace := Node.mem_places_of_mem_spots (package.sound first isFirst) rfl inPackage
  have secondPlace := Node.mem_places_of_mem_spots (package.sound second isSecond) rfl inFile
  obtain ⟨unit, isFirst⟩ := List.getElem?_of_mem isFirst
  obtain ⟨unit', isSecond⟩ := List.getElem?_of_mem isSecond
  obtain rfl := package.unit_unique isFirst isSecond firstPlace secondPlace
  obtain rfl := Option.some.inj (isFirst.symm.trans isSecond)
  have beside : Mode.file.isBeside .package := rfl
  exact Node.disjoint_of_isBeside (package.sound first (List.mem_of_getElem? isFirst)) beside rfl rfl
    inFile inPackage

/-- The check of a sound package comes to its end. -/
theorem exists_run (package : SoundPackage files) (packageName : String → String)
    (point : CheckPoint) : ∃ after, Event.run packageName (packageEvents files) point = .ok after := by
  refine Event.exists_run packageName (fun happens mem => ?_) point
  obtain ⟨file, -, fits⟩ := package.events_fit happens mem
  exact fits.succeeds

end SoundPackage

end GoMend
