import GoMend.Layout.Columns
import Mathlib.Data.List.Forall2

/-!
# Columns stand below each other

The rows that are set together have columns in common.  A cell begins where its column begins, with
nothing but blanks between it and the cell before it, and a column is no wider than the widest of its
cells that another cell follows.
-/

namespace GoMend

namespace Text

/-- A text that does not end with a blank has none to take away. -/
theorem trimEnd_append (text : String) {ending : String} (notEmpty : ending ≠ "")
    (notBlank : ∀ char ∈ ending.toList.getLast?, isBlank char = false) :
    trimEnd (text ++ ending) = text ++ ending := by
  obtain ⟨last, others, endingEq⟩ : ∃ last others, ending.toList.reverse = last :: others :=
    List.exists_cons_of_ne_nil (by simpa using notEmpty)
  have isLast : last ∈ ending.toList.getLast? := by
    rw [← List.head?_reverse, endingEq]
    rfl
  rw [trimEnd, String.toList_append, List.reverse_append, endingEq, List.cons_append,
    List.dropWhile_cons_of_neg (by simp [notBlank last isLast]), ← List.cons_append, ← endingEq,
    ← List.reverse_append, List.reverse_reverse, ← String.toList_append, String.ofList_toList]

end Text

namespace Layout

/-! ### Widths -/

section

variable {first second : List Nat} {column width : Nat}

/-- The width of a column is that which one of two rows asks for. -/
theorem getElem?_of_maxWidths (isWidth : (maxWidths first second)[column]? = some width) :
    first[column]? = some width ∨ second[column]? = some width := by
  fun_induction maxWidths first second generalizing column with
  | case1 => exact .inr isWidth
  | case2 => exact .inl isWidth
  | case3 number firsts other seconds ih =>
      cases column with
      | zero =>
          obtain rfl : max number other = width := by simpa using isWidth
          rcases Nat.le_total number other with less | more
          · exact .inr (by simp [less])
          · exact .inl (by simp [more])
      | succ column => exact ih isWidth

/-- No row asks for more than the width of a column. -/
theorem exists_maxWidths (isWidth : first[column]? = some width ∨ second[column]? = some width) :
    ∃ wider, (maxWidths first second)[column]? = some wider ∧ width ≤ wider := by
  fun_induction maxWidths first second generalizing column with
  | case1 => exact ⟨width, by simpa using isWidth, Nat.le_refl _⟩
  | case2 => exact ⟨width, by simpa using isWidth, Nat.le_refl _⟩
  | case3 number firsts other seconds ih =>
      cases column with
      | zero =>
          refine ⟨max number other, rfl, ?_⟩
          simp only [List.getElem?_cons_zero, Option.some.injEq] at isWidth
          omega
      | succ column => exact ih isWidth

end

section

variable {rows : List (List String)} {widths : List Nat} {column width : Nat}

theorem getElem?_of_foldl_maxWidths
    (isWidth : (rows.foldl (fun widths row => maxWidths widths (rowWidths row)) widths)[column]? =
      some width) :
    widths[column]? = some width ∨ ∃ row ∈ rows, (rowWidths row)[column]? = some width := by
  induction rows generalizing widths with
  | nil => exact .inl isWidth
  | cons row rows ih =>
      rcases ih isWidth with isBefore | ⟨other, isOther, isWidth⟩
      · exact (getElem?_of_maxWidths isBefore).imp_right fun isOwn =>
          ⟨row, List.mem_cons_self, isOwn⟩
      · exact .inr ⟨other, List.mem_cons_of_mem _ isOther, isWidth⟩

theorem exists_foldl_maxWidths
    (isWidth : widths[column]? = some width ∨ ∃ row ∈ rows, (rowWidths row)[column]? = some width) :
    ∃ wider, (rows.foldl (fun widths row => maxWidths widths (rowWidths row)) widths)[column]? =
      some wider ∧ width ≤ wider := by
  induction rows generalizing widths width with
  | nil => exact ⟨width, by simpa using isWidth, Nat.le_refl _⟩
  | cons row rows ih =>
      rw [List.exists_mem_cons_iff, ← or_assoc] at isWidth
      rcases isWidth with isFirst | isLater
      · obtain ⟨wider, isWider, le⟩ := exists_maxWidths isFirst
        obtain ⟨widest, isWidest, le'⟩ := ih (.inl isWider)
        exact ⟨widest, isWidest, Nat.le_trans le le'⟩
      · exact ih (.inr isLater)

/-- A row asks for the widths of those of its cells that another cell follows. -/
theorem getElem?_rowWidths {row : List String} :
    (rowWidths row)[column]? = some width ↔
      column + 1 < row.length ∧ ∃ cell, row[column]? = some cell ∧ cell.length = width := by
  rw [rowWidths, List.getElem?_map, Option.map_eq_some_iff, List.getElem?_dropLast]
  split
  · next inRow => simp [show column + 1 < row.length by omega]
  · next notInRow => simp [show ¬column + 1 < row.length by omega]

end

/-! ### Lines -/

/-- The place at which a column begins. -/
def columnStart (widths : List Nat) : Nat → Nat
  | 0 => 0
  | column + 1 => columnStart widths column + widths.getD column 0 + 1

/-- A number of blanks. -/
def blanks (count : Nat) : String :=
  String.ofList (List.replicate count ' ')

/-- A line in which each of the cells stands at the beginning of its column, with one or more blanks
before the next cell and nothing else.  The first of the cells belongs to the given column, and the
line begins where this column does. -/
inductive LaidOut (start : Nat → Nat) : Nat → List String → String → Prop where
  | last (column : Nat) (cell : String) : LaidOut start column [cell] cell
  | cons {column gap : Nat} {cell line : String} {cells : List String} (someBlank : 0 < gap)
      (begins : start (column + 1) = start column + cell.length + gap)
      (others : LaidOut start (column + 1) cells line) :
      LaidOut start column (cell :: cells) (cell ++ blanks gap ++ line)

namespace LaidOut

variable {start : Nat → Nat} {column : Nat} {cells : List String} {line : String}

theorem start_mono (laidOut : LaidOut start column cells line) {number : Nat}
    (inRow : number < cells.length) : start column ≤ start (column + number) := by
  induction laidOut generalizing number with
  | last => simp_all
  | @cons column gap cell line cells someBlank begins others ih =>
      cases number with
      | zero => exact Nat.le_refl _
      | succ number =>
          have later := ih (Nat.lt_of_succ_lt_succ inRow)
          rw [show column + (number + 1) = column + 1 + number by omega]
          omega

/-- A cell is found in its line at the beginning of its column. -/
theorem cell_eq (laidOut : LaidOut start column cells line) {number : Nat} {cell : String}
    (isCell : cells[number]? = some cell) :
    (line.toList.drop (start (column + number) - start column)).take cell.length = cell.toList := by
  induction laidOut generalizing number with
  | last column only =>
      cases number with
      | zero =>
          obtain rfl := Option.some.inj isCell
          simp [← String.length_toList]
      | succ number => simp at isCell
  | @cons column gap first line cells someBlank begins others ih =>
      cases number with
      | zero =>
          obtain rfl := Option.some.inj isCell
          simp [← String.length_toList, List.append_assoc]
      | succ number =>
          have inRow := (List.getElem?_eq_some_iff.mp isCell).1
          have later := others.start_mono (Nat.lt_of_succ_lt_succ inRow)
          have passed : start (column + (number + 1)) - start column =
              (first ++ blanks gap).toList.length + (start (column + 1 + number) - start (column + 1)) := by
            rw [show column + (number + 1) = column + 1 + number by omega, String.toList_append,
              List.length_append, blanks, String.toList_ofList, List.length_replicate,
              String.length_toList]
            omega
          have whole : (first ++ blanks gap ++ line).toList =
              (first ++ blanks gap).toList ++ line.toList := String.toList_append
          rw [passed, whole, List.drop_length_add_append]
          exact ih isCell

/-- A line that ends with a full cell has no blanks at its end. -/
theorem trimEnd_eq (laidOut : LaidOut start column cells line) {last : String}
    (isLast : cells.getLast? = some last) (notEmpty : last ≠ "")
    (notBlank : ∀ char ∈ last.toList.getLast?, Text.isBlank char = false) :
    Text.trimEnd line = line := by
  obtain ⟨lead, rfl⟩ : ∃ lead, line = lead ++ last := by
    induction laidOut with
    | last column cell =>
        obtain rfl := Option.some.inj isLast
        exact ⟨"", (String.empty_append).symm⟩
    | @cons column gap cell line cells someBlank begins others ih =>
        have notNil : cells ≠ [] := by
          rintro rfl
          cases others
        obtain ⟨lead, rfl⟩ := ih (by rwa [List.getLast?_cons_of_ne_nil notNil] at isLast)
        exact ⟨cell ++ blanks gap ++ lead, (String.append_assoc ..).symm⟩
  exact Text.trimEnd_append lead notEmpty notBlank

end LaidOut

/-- A padded cell and the blank after it. -/
theorem padded_append_blank (width : Nat) (cell : String) :
    padded width cell ++ " " = cell ++ blanks (width - cell.length + 1) := by
  refine String.toList_inj.mp ?_
  simp [padded, blanks, List.replicate_succ', List.append_assoc]

/-- A row is laid out in columns that are wide enough for it. -/
theorem laidOut_padRow {widths : List Nat} {row : List String} (notEmpty : row ≠ []) (column : Nat)
    (fits : ∀ number width, (rowWidths row)[number]? = some width →
      ∃ wider, widths[column + number]? = some wider ∧ width ≤ wider) :
    LaidOut (columnStart widths) column row (joined (padRow (widths.drop column) row)) := by
  induction row generalizing column with
  | nil => exact absurd rfl notEmpty
  | cons cell cells ih =>
      cases cells with
      | nil =>
          have only : padRow (widths.drop column) [cell] = [cell] := by
            cases widths.drop column <;> rfl
          rw [only]
          exact .last column cell
      | cons second cells =>
          obtain ⟨wider, isWider, le⟩ := fits 0 cell.length rfl
          rw [Nat.add_zero] at isWider
          obtain ⟨inRange, rfl⟩ := List.getElem?_eq_some_iff.mp isWider
          have dropEq : widths.drop column = widths[column] :: widths.drop (column + 1) :=
            List.drop_eq_getElem_cons inRange
          have others := ih (List.cons_ne_nil _ _) (column + 1) fun number width isWidth => by
            rw [show column + 1 + number = column + (number + 1) by omega]
            exact fits (number + 1) width isWidth
          have lineEq : joined (padRow (widths.drop column) (cell :: second :: cells)) =
              cell ++ blanks (widths[column] - cell.length + 1) ++
                joined (padRow (widths.drop (column + 1)) (second :: cells)) := by
            obtain ⟨next, rest, isNext⟩ : ∃ next rest,
                padRow (widths.drop (column + 1)) (second :: cells) = next :: rest := by
              cases widths.drop (column + 1) <;> cases cells <;> exact ⟨_, _, rfl⟩
            rw [dropEq, padRow, isNext, joined, String.intercalate_cons_cons, padded_append_blank,
              joined]
          rw [lineEq]
          refine .cons (Nat.succ_pos _) ?_ others
          have widthEq : widths.getD column 0 = widths[column] := by
            rw [List.getD_eq_getElem?_getD, isWider, Option.getD_some]
          rw [columnStart, widthEq]
          omega

/-- A row that ends with a full cell, and of whose cells none ends with a blank. -/
structure IsFullRow (row : List String) : Prop where
  endsFull : ∃ cell, row.getLast? = some cell ∧ cell ≠ ""
  trimmed : ∀ cell ∈ row, ∀ char ∈ cell.toList.getLast?, Text.isBlank char = false

theorem IsFullRow.ne_nil {row : List String} (full : IsFullRow row) : row ≠ [] := by
  rintro rfl
  obtain ⟨cell, isLast, -⟩ := full.endsFull
  cases isLast

/-- The line of a row among others. -/
theorem laidOut_of_mem {rows : List (List String)} {row : List String} (isRow : row ∈ rows)
    (full : IsFullRow row) :
    LaidOut (columnStart (columnWidths rows)) 0 row
      (Text.trimEnd (joined (padRow (columnWidths rows) row))) := by
  have laidOut := @laidOut_padRow (columnWidths rows) row full.ne_nil 0 fun number width isWidth => by
    rw [Nat.zero_add]
    exact exists_foldl_maxWidths (.inr ⟨row, isRow, isWidth⟩)
  rw [List.drop_zero] at laidOut
  obtain ⟨last, isLast, notEmpty⟩ := full.endsFull
  rw [laidOut.trimEnd_eq isLast notEmpty (full.trimmed last (List.mem_of_getLast? isLast))]
  exact laidOut

/-- Rows are set in columns line by line.  Every column begins at one place in all lines, as close to
the column before it as the widest cell there allows that another cell follows, and a line holds its
cells with nothing but blanks between them. -/
theorem align_exact {rows : List (List String)} (full : ∀ row ∈ rows, IsFullRow row) :
    ∃ start : Nat → Nat, start 0 = 0 ∧
      List.Forall₂ (LaidOut start 0) rows (align rows) ∧
      (∀ (index : Nat) (row : List String) (line : String), rows[index]? = some row → (align rows)[index]? = some line →
        ∀ (column : Nat) (cell : String), row[column]? = some cell →
          (line.toList.drop (start column)).take cell.length = cell.toList) ∧
      ∀ column, (∃ row ∈ rows, column + 1 < row.length) →
        ∃ row ∈ rows, column + 1 < row.length ∧
          ∃ cell : String, row[column]? = some cell ∧ start (column + 1) = start column + cell.length + 1 := by
  have laidOut : List.Forall₂ (LaidOut (columnStart (columnWidths rows)) 0) rows (align rows) := by
    rw [align, List.forall₂_map_right_iff, List.forall₂_same]
    exact fun row isRow => laidOut_of_mem isRow (full row isRow)
  refine ⟨columnStart (columnWidths rows), rfl, laidOut, ?_, ?_⟩
  · intro index row line isRow isLine column cell isCell
    have found := (List.forall₂_iff_get.mp laidOut).2 index
      (List.getElem?_eq_some_iff.mp isRow).1 (List.getElem?_eq_some_iff.mp isLine).1
    rw [List.get_eq_getElem, List.get_eq_getElem, (List.getElem?_eq_some_iff.mp isRow).2,
      (List.getElem?_eq_some_iff.mp isLine).2] at found
    simpa [columnStart] using found.cell_eq isCell
  · rintro column ⟨row, isRow, inRow⟩
    have asked : (rowWidths row)[column]? = some row[column].length :=
      getElem?_rowWidths.mpr ⟨inRow, _, List.getElem?_eq_getElem _, rfl⟩
    obtain ⟨width, isWidth, -⟩ :=
      @exists_foldl_maxWidths rows [] column _ (.inr ⟨row, isRow, asked⟩)
    rcases getElem?_of_foldl_maxWidths isWidth with absent | ⟨widest, isWidest, isOwn⟩
    · cases absent
    · obtain ⟨follows, cell, isCell, rfl⟩ := getElem?_rowWidths.mp isOwn
      refine ⟨widest, isWidest, follows, cell, isCell, ?_⟩
      rw [columnStart, List.getD_eq_getElem?_getD, columnWidths, isWidth, Option.getD_some]

theorem align_exact_keyed :
    (∀ row ∈ [["a:", "1"], ["bcd:", "2"], ["e"]], IsFullRow row) ∧
      align [["a:", "1"], ["bcd:", "2"], ["e"]] = ["a:   1", "bcd: 2", "e"] ∧
      ∃ start : Nat → Nat, start 0 = 0 ∧
        List.Forall₂ (LaidOut start 0) [["a:", "1"], ["bcd:", "2"], ["e"]]
          (align [["a:", "1"], ["bcd:", "2"], ["e"]]) := by
  have full : ∀ row ∈ [["a:", "1"], ["bcd:", "2"], ["e"]], IsFullRow row := by
    simp only [List.forall_mem_cons, List.not_mem_nil, false_implies, implies_true, and_true]
    refine ⟨⟨⟨"1", rfl, by decide⟩, ?_⟩, ⟨⟨"2", rfl, by decide⟩, ?_⟩, ⟨⟨"e", rfl, by decide⟩, ?_⟩⟩ <;>
      simp [Text.isBlank] <;> decide
  obtain ⟨start, begins, laidOut, -⟩ := align_exact full
  exact ⟨full, by cbv, start, begins, laidOut⟩

end Layout

end GoMend
