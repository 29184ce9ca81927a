import GoMend.Proofs.Position

/-!
# Positions that are given to files

The files of a set have ranges of positions that do not meet and leave no gap.  A position of a file is
shown with the line and the column that its offset has in the text, so no two of them look alike.
-/

namespace GoMend

/-! ### Lines of a text -/

theorem lineStartsFrom_append (offset : Nat) (chars : List Char) (char : Char) :
    lineStartsFrom offset (chars ++ [char]) = lineStartsFrom offset chars ++
      if char = '\n' then [offset + chars.length + 1] else [] := by
  induction chars generalizing offset with
  | nil => simp [lineStartsFrom]
  | cons first chars ih =>
      have shifted : offset + 1 + chars.length = offset + (chars.length + 1) := by omega
      simp only [List.cons_append, lineStartsFrom, ih, List.length_cons, shifted]
      split <;> rfl

theorem lt_of_mem_lineStartsFrom {offset start : Nat} {chars : List Char}
    (isStart : start ∈ lineStartsFrom offset chars) : offset < start := by
  induction chars generalizing offset with
  | nil => simp [lineStartsFrom] at isStart
  | cons char chars ih =>
      simp only [lineStartsFrom] at isStart
      split at isStart
      · rcases List.mem_cons.mp isStart with rfl | isLater
        · exact Nat.lt_succ_self offset
        · exact Nat.lt_of_succ_lt (ih isLater)
      · exact Nat.lt_of_succ_lt (ih isStart)

theorem length_lineStartsFrom (offset : Nat) (chars : List Char) :
    (lineStartsFrom offset chars).length = chars.count '\n' := by
  induction chars generalizing offset with
  | nil => rfl
  | cons char chars ih =>
      simp only [lineStartsFrom, List.count_cons, beq_iff_eq]
      split <;> simp [ih]

/-- The lines that begin up to an offset are those of the characters before it. -/
theorem takeWhile_lineStartsFrom (offset count : Nat) (chars : List Char) :
    (lineStartsFrom offset chars).takeWhile (fun start => start ≤ offset + count) =
      lineStartsFrom offset (chars.take count) := by
  induction chars generalizing offset count with
  | nil => rw [List.take_nil]; rfl
  | cons char chars ih =>
      cases count with
      | zero =>
          have later (start : Nat) (isStart : start ∈ lineStartsFrom offset (char :: chars)) :
              ¬ start ≤ offset :=
            Nat.not_le.mpr (lt_of_mem_lineStartsFrom isStart)
          cases starts : lineStartsFrom offset (char :: chars) with
          | nil => rfl
          | cons start starts' =>
              have notYet := later start (starts ▸ List.mem_cons_self)
              simp [notYet, lineStartsFrom]
      | succ count =>
          have next := ih (offset + 1) count
          rw [show offset + 1 + count = offset + (count + 1) by omega] at next
          simp only [lineStartsFrom, List.take_succ_cons]
          split
          · simp [next]
          · exact next

/-- The last line that has begun does so at the beginning or after a line feed, and goes on to the
end. -/
theorem exists_lineStart (chars : List Char) : ∃ start ≤ chars.length,
    (0 :: lineStartsFrom 0 chars).getLast? = some start ∧
      (start = 0 ∨ chars[start - 1]? = some '\n') ∧ '\n' ∉ chars.drop start := by
  induction chars using List.reverseRecOn with
  | nil => exact ⟨0, Nat.le_refl 0, rfl, .inl rfl, by simp⟩
  | append_singleton chars char ih =>
      rw [lineStartsFrom_append]
      by_cases isFeed : char = '\n'
      · refine ⟨chars.length + 1, by simp, ?_, .inr (by simp [isFeed]), by simp⟩
        rw [if_pos isFeed, Nat.zero_add, ← List.cons_append, List.getLast?_concat]
      · obtain ⟨start, le, isLast, begins, plain⟩ := ih
        refine ⟨start, by simp; omega, ?_, ?_, ?_⟩
        · rw [if_neg isFeed, List.append_nil, isLast]
        · refine begins.imp_right fun isFeed => ?_
          rw [List.getElem?_append_left (by simpa using (List.getElem?_eq_some_iff.mp isFeed).1), isFeed]
        · rw [List.drop_append_of_le_length le, List.mem_append, List.mem_singleton]
          rintro (isFeed' | rfl)
          · exact plain isFeed'
          · exact isFeed rfl

/-! ### Where an offset is shown -/

/-- An offset of a text is shown with the number of line feeds before it and its distance from the last
one, both counted from one. -/
structure Position.Shows (position : Position) (name text : String) (offset : Nat) : Prop where
  file_eq : position.file = name
  line_eq : position.line = 1 + (text.toList.take offset).count '\n'
  column_eq : ∃ start ≤ offset, (start = 0 ∨ text.toList[start - 1]? = some '\n') ∧
    '\n' ∉ (text.toList.take offset).drop start ∧ position.column = 1 + (offset - start)

theorem SourceFile.position_shows (name : String) (base : Nat) (text : String) (offset : Nat) :
    ((ofText name base text).position (base + offset : Nat)).Shows name text offset := by
  have offsetEq : ((base + offset : Nat) : Int) - base = offset := by lia
  have starts : (ofText name base text).startsUpTo offset =
      0 :: lineStartsFrom 0 (text.toList.take offset) := by
    have taken := takeWhile_lineStartsFrom 0 offset text.toList
    rw [Nat.zero_add] at taken
    simp [startsUpTo, ofText, taken]
  obtain ⟨start, le, isLast, begins, plain⟩ := exists_lineStart (text.toList.take offset)
  have start_le : start ≤ offset := le.trans (List.length_take_le _ _)
  have shown : (ofText name base text).position (base + offset : Nat) =
      { file := name, line := 1 + (text.toList.take offset).count '\n', column := 1 + (offset - start) } := by
    simp only [position, ofText, offsetEq] at starts ⊢
    rw [starts]
    simp only [isLast, List.length_cons, length_lineStartsFrom]
    congr 1 <;> lia
  rw [shown]
  refine ⟨rfl, rfl, start, start_le, begins.imp_right fun isFeed => ?_, plain, rfl⟩
  obtain ⟨inTake, isFeed⟩ := List.getElem?_eq_some_iff.mp isFeed
  rw [List.getElem_take] at isFeed
  exact List.getElem?_eq_some_iff.mpr ⟨_, isFeed⟩

/-- Between two offsets that are shown on one line there is no line feed, so their columns differ. -/
theorem Position.Shows.column_ne {first second : Position} {name text : String} {offset other : Nat}
    (firstShows : first.Shows name text offset) (secondShows : second.Shows name text other)
    (less : offset < other) (line_eq : first.line = second.line) :
    first.column ≠ second.column := by
  intro column_eq
  obtain ⟨start, start_le, begins, plain, firstEq⟩ := firstShows.column_eq
  obtain ⟨start', start_le', begins', plain', secondEq⟩ := secondShows.column_eq
  have starts : start < start' := by omega
  have isFeed : text.toList[start' - 1]? = some '\n' :=
    begins'.resolve_left (by omega)
  by_cases before : start' - 1 < offset
  · refine plain (List.mem_of_getElem? (i := start' - 1 - start) ?_)
    rw [List.getElem?_drop, show start + (start' - 1 - start) = start' - 1 by omega,
      List.getElem?_take_of_lt before, isFeed]
  · have feeds : (text.toList.take other).count '\n' = (text.toList.take offset).count '\n' := by
      have lines := firstShows.line_eq.symm.trans (line_eq.trans secondShows.line_eq)
      omega
    rw [← List.take_append_drop offset (text.toList.take other), List.count_append, List.take_take,
      Nat.min_eq_left less.le, Nat.add_eq_left, List.count_eq_zero] at feeds
    refine feeds (List.mem_of_getElem? (i := start' - 1 - offset) ?_)
    rw [List.getElem?_drop, show offset + (start' - 1 - offset) = start' - 1 by omega,
      List.getElem?_take_of_lt (by omega), isFeed]

/-- Places in one text that look alike are the same place. -/
theorem Position.Shows.offset_eq {first second : Position} {name text : String} {offset other : Nat}
    (firstShows : first.Shows name text offset) (secondShows : second.Shows name text other)
    (line_eq : first.line = second.line) (column_eq : first.column = second.column) :
    offset = other := by
  rcases Nat.lt_trichotomy offset other with less | same | less
  · exact absurd column_eq (firstShows.column_ne secondShows less line_eq)
  · exact same
  · exact absurd column_eq.symm (secondShows.column_ne firstShows less line_eq.symm)

/-! ### Sets of files -/

namespace FileSet

/-- The set of the files of named texts, added one after another. -/
def ofTexts (texts : List (String × String)) : FileSet :=
  texts.foldl (fun set source => (set.add source.1 source.2).1) .empty

theorem ofTexts_append (texts : List (String × String)) (name text : String) :
    ofTexts (texts ++ [(name, text)]) = ((ofTexts texts).add name text).1 := by
  rw [ofTexts, List.foldl_append]
  rfl

/-- A file is that of a named text, and the set shows its positions as they are in the text. -/
structure Records (set : FileSet) (source : String × String) (file : SourceFile) : Prop where
  name_eq : file.name = source.1
  size_eq : file.size = source.2.length
  before : file.stop < set.nextBase
  shows : ∀ offset ≤ source.2.length,
    (set.position (file.base + offset : Nat)).Shows source.1 source.2 offset

/-- Positions are given to the files of named texts without overlap and without gap, and belong to
those files only. -/
structure Allocates (set : FileSet) (texts : List (String × String)) : Prop where
  records : List.Forall₂ set.Records texts set.files
  apart : set.files.Pairwise fun file other => ∀ pos, file.contains pos → ¬other.contains pos
  covers : ∀ pos, (∃ file ∈ set.files, file.contains pos) ↔ 1 ≤ pos ∧ pos < set.nextBase
  owner : ∀ pos file, set.file? pos = some file ↔ file ∈ set.files ∧ file.contains pos

variable {set : FileSet} {texts : List (String × String)}

theorem contains_ofText {name text : String} {base : Nat} {pos : Pos} :
    (SourceFile.ofText name base text).contains pos ↔ base ≤ pos ∧ pos ≤ base + text.length := by
  rw [SourceFile.contains_iff]
  simp [SourceFile.ofText, SourceFile.stop]

theorem Allocates.empty : Allocates .empty [] where
  records := .nil
  apart := .nil
  covers pos := by
    simp only [FileSet.empty, nextBase, List.not_mem_nil, false_and, exists_false, List.getLast?_nil,
      false_iff]
    lia
  owner pos file := by simp [FileSet.empty, file?]

/-- A file keeps what is known of it when another one is added. -/
theorem Records.add {source : String × String} {file : SourceFile} (records : set.Records source file)
    (name text : String) : (set.add name text).1.Records source file where
  name_eq := records.name_eq
  size_eq := records.size_eq
  before := by
    have before := records.before
    rw [nextBase_add]
    lia
  shows offset le := by
    have sizeEq := records.size_eq
    have before := records.before
    have within : ((file.base + offset : Nat) : Pos) < set.nextBase := by
      rw [SourceFile.stop] at before
      lia
    rw [position_add_of_lt name text within]
    exact records.shows offset le

/-- A new file is given the positions that come next. -/
theorem Allocates.add (allocates : set.Allocates texts) (tidy : set.IsTidy) (name text : String) :
    (set.add name text).1.Allocates (texts ++ [(name, text)]) where
  records := by
    have before : set.nextBase + text.length < (set.add name text).1.nextBase := by
      rw [nextBase_add]
      exact Nat.lt_succ_self _
    refine List.rel_append (allocates.records.imp fun _ _ records => records.add name text)
      (.cons ⟨rfl, rfl, before, fun offset le => ?_⟩ .nil)
    have shown := @position_add_of_mem _ (set.nextBase + offset : Nat) tidy name text (by lia)
      (by lia)
    exact shown ▸ SourceFile.position_shows name set.nextBase text offset
  apart := by
    refine List.pairwise_append.mpr ⟨allocates.apart, List.pairwise_singleton .., ?_⟩
    intro file isFile other isOther pos owns
    obtain rfl := List.mem_singleton.mp isOther
    have before := ((allocates.covers pos).mp ⟨file, isFile, owns⟩).2
    rw [contains_ofText]
    lia
  covers pos := by
    have positive := set.nextBase_pos
    rw [nextBase_add]
    simp only [FileSet.add, List.mem_append, List.mem_singleton, or_and_right, exists_or,
      exists_eq_left, allocates.covers, contains_ofText]
    lia
  owner pos file := by
    have positive := set.nextBase_pos
    by_cases isNew : (SourceFile.ofText name set.nextBase text).contains pos
    · have bounds := contains_ofText.mp isNew
      have notOld (isFile : file ∈ set.files) : ¬file.contains pos := by
        intro owns
        have before := ((allocates.covers pos).mp ⟨file, isFile, owns⟩).2
        lia
      rw [file?_add_of_mem tidy name text bounds.1 bounds.2]
      simp only [Option.some.injEq, FileSet.add, List.mem_append, List.mem_singleton]
      constructor
      · rintro rfl
        exact ⟨.inr rfl, isNew⟩
      · rintro ⟨isFile | rfl, owns⟩
        · exact absurd owns (notOld isFile)
        · rfl
    · rw [file?_add, if_neg (fun both => isNew both.2), Option.or_none, allocates.owner]
      simp only [FileSet.add, List.mem_append, List.mem_singleton]
      constructor
      · rintro ⟨isFile, owns⟩
        exact ⟨.inl isFile, owns⟩
      · rintro ⟨isFile | rfl, owns⟩
        · exact ⟨isFile, owns⟩
        · exact absurd owns isNew

theorem Allocates.exists_records (allocates : set.Allocates texts) {file : SourceFile}
    (isFile : file ∈ set.files) : ∃ source, set.Records source file := by
  obtain ⟨index, inside, rfl⟩ := List.mem_iff_getElem.mp isFile
  have lengthEq := allocates.records.length_eq
  exact ⟨texts[index], allocates.records.get (by omega) inside⟩

theorem isTidy_ofTexts (texts : List (String × String)) : (ofTexts texts).IsTidy := by
  induction texts using List.reverseRecOn with
  | nil => exact isTidy_empty
  | append_singleton texts source ih => exact ofTexts_append texts source.1 source.2 ▸ ih.add _ _

/-- The files of a set have all positions before the next one, each position belongs to one file at
most, and it is shown with the line and the column that it has in the text of that file.  So two
positions of one file do not look alike. -/
theorem ofTexts_allocates (texts : List (String × String)) :
    (ofTexts texts).Allocates texts ∧
      (∀ pos, (ofTexts texts).file? pos = none ↔ ¬(1 ≤ pos ∧ pos < (ofTexts texts).nextBase)) ∧
      ∀ file ∈ (ofTexts texts).files, ∀ offset ≤ file.size, ∀ other ≤ file.size,
        ((ofTexts texts).position (file.base + offset : Nat)).line =
            ((ofTexts texts).position (file.base + other : Nat)).line →
          ((ofTexts texts).position (file.base + offset : Nat)).column =
            ((ofTexts texts).position (file.base + other : Nat)).column → offset = other := by
  have allocates : (ofTexts texts).Allocates texts := by
    induction texts using List.reverseRecOn with
    | nil => exact .empty
    | append_singleton texts source ih =>
        exact ofTexts_append texts source.1 source.2 ▸ ih.add (isTidy_ofTexts texts) _ _
  refine ⟨allocates, fun pos => ?_, fun file isFile offset le other le' sameLine sameColumn => ?_⟩
  · rw [← allocates.covers, Option.eq_none_iff_forall_ne_some]
    simp only [ne_eq, allocates.owner, not_exists]
  · obtain ⟨source, records⟩ := allocates.exists_records isFile
    rw [records.size_eq] at le le'
    exact (records.shows offset le).offset_eq (records.shows other le') sameLine sameColumn

end FileSet

end GoMend
