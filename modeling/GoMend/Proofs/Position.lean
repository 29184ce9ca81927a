import GoMend.Proofs.Fix.Relocate
import GoMend.Proofs.Fix.Session

/-!
# Places in sets of files

A set of files shows the positions of a file as the file itself does, and goes on to show them in the
same way when more files are added.  Where a file begins does not show.  So one set can be found again
inside another one that holds other files too.
-/

namespace GoMend

/-! ### One file -/

namespace SourceFile

theorem contains_iff {file : SourceFile} {pos : Pos} :
    file.contains pos ↔ (file.base : Int) ≤ pos ∧ pos ≤ (file.stop : Int) := by
  rw [contains, Bool.and_eq_true, decide_eq_true_eq, decide_eq_true_eq]

/-- Where a file begins does not show. -/
theorem position_ofText (name text : String) (base other : Nat) (pos : Pos) :
    (ofText name other text).position (pos + (other - base)) = (ofText name base text).position pos := by
  have offsetEq : pos + ((other : Int) - base) - other = pos - base := by lia
  simp only [position, startsUpTo, ofText, offsetEq]
  rfl

end SourceFile

namespace FileSet

variable {set : FileSet} {pos : Pos}

/-! ### Files that are added -/

/-- All files of a set stand before the next one. -/
def IsTidy (set : FileSet) : Prop :=
  ∀ file ∈ set.files, file.stop < set.nextBase

theorem isTidy_empty : IsTidy .empty :=
  List.forall_mem_nil _

theorem IsTidy.add (tidy : set.IsTidy) (name text : String) : (set.add name text).1.IsTidy := by
  have nextEq := set.nextBase_add name text
  refine List.forall_mem_append.mpr ⟨fun file isFile => ?_, List.forall_mem_singleton.mpr ?_⟩
  · have before := tidy file isFile
    lia
  · simp only [SourceFile.stop, SourceFile.ofText, nextEq]
    lia

theorem file?_add (set : FileSet) (name text : String) (pos : Pos) :
    (set.add name text).1.file? pos = (set.file? pos).or
      (if pos ≠ noPos ∧ (SourceFile.ofText name set.nextBase text).contains pos then
        some (.ofText name set.nextBase text) else none) := by
  unfold file?
  by_cases absent : pos = noPos
  · simp [absent]
  · simp only [absent, if_false, add, List.find?_append, List.find?_singleton, ne_eq, not_false_eq_true,
      true_and]

/-- The positions before a new file are shown as before. -/
theorem position_add_of_lt (name text : String) (before : pos < set.nextBase) :
    (set.add name text).1.position pos = set.position pos := by
  have notNew : (SourceFile.ofText name set.nextBase text).contains pos = false :=
    Bool.eq_false_iff.mpr fun isNew => Int.not_le.mpr before (SourceFile.contains_iff.mp isNew).1
  rw [position, file?_add, notNew]
  simp only [Bool.false_eq_true, and_false, if_false, Option.or_none]
  rfl

/-- A new file owns its positions. -/
theorem file?_add_of_mem (tidy : set.IsTidy) (name text : String) (starts : set.nextBase ≤ pos)
    (stops : pos ≤ set.nextBase + text.length) :
    (set.add name text).1.file? pos = some (.ofText name set.nextBase text) := by
  have positive := set.nextBase_pos
  have present : pos ≠ noPos := by
    rw [noPos]
    lia
  have notOld : set.file? pos = none := by
    rw [file?, if_neg present]
    refine List.find?_eq_none.mpr fun file isFile => ?_
    have before := tidy file isFile
    rw [SourceFile.contains_iff]
    lia
  have isNew : (SourceFile.ofText name set.nextBase text).contains pos :=
    SourceFile.contains_iff.mpr ⟨starts, by
      simp only [SourceFile.stop, SourceFile.ofText]
      push_cast
      exact stops⟩
  rw [file?_add, notOld, if_pos ⟨present, isNew⟩]
  rfl

/-- The positions of a new file are shown as the file shows them. -/
theorem position_add_of_mem (tidy : set.IsTidy) (name text : String) (starts : set.nextBase ≤ pos)
    (stops : pos ≤ set.nextBase + text.length) :
    (set.add name text).1.position pos = (SourceFile.ofText name set.nextBase text).position pos := by
  rw [position, file?_add_of_mem tidy name text starts stops]

/-- A file keeps its positions when others are added. -/
theorem file?_add_of_some {file : SourceFile} (name text : String) (owns : set.file? pos = some file) :
    (set.add name text).1.file? pos = some file := by
  rw [file?_add, owns]
  rfl

/-! ### One set inside another -/

/-- The positions of a small set stand in a large one, in the same order and at the same places.  Every
file is moved as a whole, and the next one begins so much further on. -/
structure Embeds (place : Pos → Pos) (small large : FileSet) : Prop where
  order : KeepsOrder place
  shifts : ∀ file ∈ small.files, ∃ distance, Shifts place file.base file.stop distance
  places : ∀ pos : Pos, pos < small.nextBase → large.position (place pos) = small.position pos
  beyond : ∀ pos : Pos, small.nextBase ≤ pos → place pos = pos + (large.nextBase - small.nextBase)
  smallTidy : small.IsTidy
  largeTidy : large.IsTidy

namespace Embeds

variable {place : Pos → Pos} {small large : FileSet} (embeds : Embeds place small large)

theorem empty : Embeds id .empty .empty where
  order := ⟨rfl, strictMono_id⟩
  shifts := List.forall_mem_nil _
  places _ _ := rfl
  beyond pos _ := by simp
  smallTidy := isTidy_empty
  largeTidy := isTidy_empty

include embeds

theorem place_nextBase : place small.nextBase = large.nextBase := by
  rw [embeds.beyond _ (Int.le_refl _)]
  lia

theorem place_lt (before : pos < small.nextBase) : place pos < large.nextBase :=
  embeds.place_nextBase ▸ embeds.order.strict before

/-- A file that is added to both sets stands in both at the same places. -/
theorem addBoth (name text : String) : Embeds place (small.add name text).1 (large.add name text).1 where
  order := embeds.order
  shifts := List.forall_mem_append.mpr ⟨embeds.shifts, List.forall_mem_singleton.mpr
    ⟨large.nextBase - small.nextBase, fun pos starts _ => embeds.beyond pos starts⟩⟩
  places pos before := by
    rw [nextBase_add] at before
    by_cases old : pos < small.nextBase
    · rw [position_add_of_lt name text old, position_add_of_lt name text (embeds.place_lt old),
        embeds.places pos old]
    · have placeEq := embeds.beyond pos (Int.not_lt.mp old)
      rw [position_add_of_mem embeds.smallTidy name text (Int.not_lt.mp old) (by lia),
        position_add_of_mem embeds.largeTidy name text (by lia) (by lia), placeEq,
        SourceFile.position_ofText]
  beyond pos after := by
    rw [nextBase_add] at after
    rw [nextBase_add, nextBase_add, embeds.beyond pos (by lia)]
    lia
  smallTidy := embeds.smallTidy.add name text
  largeTidy := embeds.largeTidy.add name text

/-- A file that is added to the large set alone moves the next file of the small one, and nothing
else. -/
theorem addLarge (name text : String) :
    ∃ place', Embeds place' small (large.add name text).1 ∧
      ∀ pos : Pos, pos < small.nextBase → place' pos = place pos := by
  have positive := small.nextBase_pos
  have nextEq := large.nextBase_add name text
  let place' := fun pos : Pos => if pos < small.nextBase then place pos
    else pos + ((large.add name text).1.nextBase - small.nextBase)
  have old (pos : Pos) (before : pos < small.nextBase) : place' pos = place pos := if_pos before
  have new (pos : Pos) (after : small.nextBase ≤ pos) :
      place' pos = pos + ((large.add name text).1.nextBase - small.nextBase) :=
    if_neg (Int.not_lt.mpr after)
  refine ⟨place', ⟨⟨?_, fun first second less => ?_⟩, fun file isFile => ?_, fun pos before => ?_, new,
    embeds.smallTidy, embeds.largeTidy.add name text⟩, old⟩
  · rw [old noPos (by rw [noPos]; lia), embeds.order.absent]
  · by_cases firstOld : first < small.nextBase
    · by_cases secondOld : second < small.nextBase
      · rw [old _ firstOld, old _ secondOld]
        exact embeds.order.strict less
      · have firstLt := embeds.place_lt firstOld
        rw [old _ firstOld, new _ (Int.not_lt.mp secondOld)]
        lia
    · rw [new _ (Int.not_lt.mp firstOld), new _ (by lia)]
      lia
  · obtain ⟨distance, shifts⟩ := embeds.shifts file isFile
    have before := embeds.smallTidy file isFile
    refine ⟨distance, fun pos starts stops => ?_⟩
    rw [old pos (by lia), shifts pos starts stops]
  · rw [old _ before, position_add_of_lt name text (embeds.place_lt before), embeds.places pos before]

end Embeds

end FileSet

end GoMend
