import GoMend.Diagnostic
import Mathlib.Data.List.Basic

/-!
# The order of diagnostics

Sorting diagnostics by position keeps those of one position in their order, so a list that is
sorted is known from its parts of one position each.  It follows that a diagnostic can be taken away
before or after sorting.
-/

namespace GoMend

namespace Diagnostic

/-- The diagnostics at a position. -/
def standingAt (pos : Pos) (diagnostics : List Diagnostic) : List Diagnostic :=
  diagnostics.filter (·.pos = pos)

theorem pos_le_trans (first second third : Diagnostic)
    (firstLe : decide (first.pos ≤ second.pos) = true)
    (secondLe : decide (second.pos ≤ third.pos) = true) :
    decide (first.pos ≤ third.pos) = true := by
  simp only [decide_eq_true_eq] at firstLe secondLe ⊢
  exact Int.le_trans firstLe secondLe

theorem pos_le_total (first second : Diagnostic) :
    (decide (first.pos ≤ second.pos) || decide (second.pos ≤ first.pos)) = true := by
  simpa using Int.le_total first.pos second.pos

/-- Every diagnostic stands at the position of the first one or behind it. -/
def IsSorted (diagnostics : List Diagnostic) : Prop :=
  diagnostics.Pairwise fun first second => first.pos ≤ second.pos

theorem isSorted_sorted (diagnostics : List Diagnostic) : IsSorted (sorted diagnostics) := by
  have pairwise := List.pairwise_mergeSort pos_le_trans pos_le_total diagnostics
  simpa [IsSorted, sorted] using pairwise

/-- Sorting keeps the order of the diagnostics at one position. -/
theorem standingAt_sorted (pos : Pos) (diagnostics : List Diagnostic) :
    standingAt pos (sorted diagnostics) = standingAt pos diagnostics := by
  have inside : (standingAt pos diagnostics).Sublist (sorted diagnostics) := by
    refine List.sublist_mergeSort pos_le_trans pos_le_total ?_ List.filter_sublist
    refine List.pairwise_of_forall_mem_list ?_
    intro first isFirst second isSecond
    simp only [standingAt, List.mem_filter, decide_eq_true_eq] at isFirst isSecond
    simp [isFirst.2, isSecond.2]
  have kept : (standingAt pos diagnostics).Sublist (standingAt pos (sorted diagnostics)) := by
    simpa [standingAt] using inside.filter (·.pos = pos)
  refine (kept.eq_of_length ?_).symm
  exact ((List.mergeSort_perm diagnostics _).filter _).length_eq.symm

theorem IsSorted.eq_of_standingAt {first second : List Diagnostic} (firstSorted : IsSorted first)
    (secondSorted : IsSorted second) (same : ∀ pos, standingAt pos first = standingAt pos second) :
    first = second := by
  induction first generalizing second with
  | nil =>
      cases second with
      | nil => rfl
      | cons other second => simpa [standingAt] using same other.pos
  | cons diagnostic first ih =>
      obtain ⟨least, restSorted⟩ := List.pairwise_cons.mp firstSorted
      cases second with
      | nil => simpa [standingAt] using same diagnostic.pos
      | cons other second =>
          obtain ⟨otherLeast, othersSorted⟩ := List.pairwise_cons.mp secondSorted
          -- Each of the two first diagnostics stands in the other list too.
          have inSecond : diagnostic ∈ other :: second := by
            have mem : diagnostic ∈ standingAt diagnostic.pos (other :: second) := by
              rw [← same]
              simp [standingAt]
            exact List.mem_of_mem_filter mem
          have inFirst : other ∈ diagnostic :: first := by
            have mem : other ∈ standingAt other.pos (diagnostic :: first) := by
              rw [same]
              simp [standingAt]
            exact List.mem_of_mem_filter mem
          have posEq : diagnostic.pos = other.pos := by
            obtain rfl | inSecond := List.mem_cons.mp inSecond
            · rfl
            obtain rfl | inFirst := List.mem_cons.mp inFirst
            · rfl
            exact Int.le_antisymm (least other inFirst) (otherLeast diagnostic inSecond)
          have heads := same diagnostic.pos
          simp only [standingAt, List.filter_cons, posEq, decide_true, if_true, List.cons.injEq] at heads
          obtain ⟨rfl, -⟩ := heads
          congr 1
          refine ih restSorted othersSorted fun pos => ?_
          have parts := same pos
          simp only [standingAt, List.filter_cons] at parts ⊢
          split at parts
          · exact (List.cons.inj parts).2
          · exact parts

/-- A diagnostic is taken away before or after sorting. -/
theorem sorted_erase (diagnostic : Diagnostic) (diagnostics : List Diagnostic) :
    sorted (diagnostics.erase diagnostic) = (sorted diagnostics).erase diagnostic := by
  refine (isSorted_sorted _).eq_of_standingAt ((isSorted_sorted diagnostics).sublist List.erase_sublist) ?_
  intro pos
  calc standingAt pos (sorted (diagnostics.erase diagnostic))
      = standingAt pos (diagnostics.erase diagnostic) := standingAt_sorted pos _
    _ = (standingAt pos diagnostics).erase diagnostic := (List.erase_filter ..).symm
    _ = (standingAt pos (sorted diagnostics)).erase diagnostic := by rw [standingAt_sorted]
    _ = standingAt pos ((sorted diagnostics).erase diagnostic) := List.erase_filter ..

/-- Diagnostics are picked out before or after sorting. -/
theorem filter_sorted (keep : Diagnostic → Bool) (diagnostics : List Diagnostic) :
    (sorted diagnostics).filter keep = sorted (diagnostics.filter keep) := by
  have filteredSorted : IsSorted ((sorted diagnostics).filter keep) :=
    (isSorted_sorted diagnostics).sublist List.filter_sublist
  refine filteredSorted.eq_of_standingAt (isSorted_sorted _) fun pos => ?_
  have commute (list : List Diagnostic) :
      standingAt pos (list.filter keep) = (standingAt pos list).filter keep := by
    simp only [standingAt, List.filter_filter, Bool.and_comm]
  rw [standingAt_sorted, commute, commute, standingAt_sorted]

/-- Diagnostics that keep their order are changed before or after sorting. -/
theorem sorted_map (change : Diagnostic → Diagnostic) {diagnostics : List Diagnostic}
    (keeps : ∀ first ∈ diagnostics, ∀ second ∈ diagnostics,
      (change first).pos ≤ (change second).pos ↔ first.pos ≤ second.pos) :
    sorted (diagnostics.map change) = (sorted diagnostics).map change :=
  (List.map_mergeSort fun first isFirst second isSecond => by
    simp [keeps first isFirst second isSecond]).symm

theorem mem_sorted {diagnostic : Diagnostic} {diagnostics : List Diagnostic} :
    diagnostic ∈ sorted diagnostics ↔ diagnostic ∈ diagnostics :=
  List.mem_mergeSort

end Diagnostic

end GoMend
