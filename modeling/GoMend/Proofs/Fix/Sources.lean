import GoMend.Proofs.Check.Own
import GoMend.Proofs.Fix.Session

/-!
# Sources of a package

The files of a package are read into a set one after the other, and files of other packages may be
read between them.  Where a file begins depends on all that was read before it, and nothing else of
the file does: its tree is the one that is read anywhere else, at other positions.
-/

namespace GoMend

/-! ### Reading a file elsewhere -/

/-- The positions of a range so much further on, and all others where they are. -/
def slide (low high : Pos) (distance : Int) (pos : Pos) : Pos :=
  if low ≤ pos ∧ pos ≤ high then pos + distance else pos

theorem shifts_slide (low high : Pos) (distance : Int) :
    Shifts (slide low high distance) low high distance :=
  fun _ lowLe leHigh => if_pos ⟨lowLe, leHigh⟩

theorem slide_noPos {low : Pos} (positive : 0 < low) (high : Pos) (distance : Int) :
    slide low high distance noPos = noPos := by
  refine if_neg fun inside => ?_
  have lowLe : low ≤ 0 := inside.1
  lia

theorem keepsAbsence_slide {low : Pos} (positive : 0 < low) (high : Pos) {distance : Int}
    (stays : 0 < low + distance) : Parse.KeepsAbsence (slide low high distance) where
  absent := slide_noPos positive high distance
  of_absent pos isAbsent := by
    unfold slide at isAbsent
    split at isAbsent
    · next inside =>
        have lowLe := inside.1
        rw [noPos] at isAbsent
        lia
    · exact isAbsent

namespace File

variable {first second : FileSet} {name text : String} {file : File}

theorem span_of_parse (parsed : (parse first name text).2 = .ok file) :
    file.span = ⟨first.nextBase, first.nextBase + text.length + 1⟩ := by
  have outcome : ofText (.ofText name first.nextBase text) text = .ok file := parsed
  obtain ⟨-, spanEq, -⟩ := @ofText_sound (.ofText name first.nextBase text) _ _ first.nextBase_pos rfl
    outcome
  simpa [SourceFile.ofText, SourceFile.stop] using spanEq

theorem isSettled_of_parse (parsed : (parse first name text).2 = .ok file) : file.IsSettled :=
  @isSettled_of_ofText (.ofText name first.nextBase text) _ _ first.nextBase_pos rfl parsed

/-- The file that is read from a text into another set. -/
theorem parse_elsewhere (second : FileSet) (parsed : (parse first name text).2 = .ok file) :
    (parse second name text).2 = .ok (file.relocated
      (slide file.span.start (file.span.stop - 1) (second.nextBase - first.nextBase))) := by
  have spanEq := span_of_parse parsed
  have positive := first.nextBase_pos
  have positive' := second.nextBase_pos
  have shifts := shifts_slide file.span.start (file.span.stop - 1)
    (second.nextBase - first.nextBase)
  have keeps : Parse.KeepsAbsence (slide file.span.start (file.span.stop - 1)
      (second.nextBase - first.nextBase)) :=
    keepsAbsence_slide (by rw [spanEq]; lia) _ (by rw [spanEq]; lia)
  refine @ofText_relocated _ (.ofText name first.nextBase text) (.ofText name second.nextBase text)
    _ _ keeps rfl rfl rfl (shifts.mono ?_ ?_) parsed
  · rw [spanEq]
    exact Int.le_refl _
  · rw [spanEq]
    simp only [SourceFile.ofText, SourceFile.stop]
    push_cast
    lia

end File

/-! ### Sources -/

/-- A text that is read into a set of files. -/
structure Source where
  name : String
  text : String
  /-- Whether the file belongs to the package at hand.  The others only take room in the set. -/
  isMember : Bool := true

/-- The file of a source of the package at hand.  The sources of other packages give none. -/
def Source.read (set : FileSet) (source : Source) : Except ParseError (Option File) :=
  if source.isMember then
    (File.parse set source.name source.text).2.map some
  else
    .ok none

/-- Read sources into a set one after the other. -/
def readSources (set : FileSet) : List Source → Except ParseError (FileSet × List (Option File))
  | [] => .ok (set, [])
  | source :: rest => do
      let entry ← source.read set
      let (final, entries) ← readSources (set.add source.name source.text).1 rest
      return (final, entry :: entries)

section

variable {set final : FileSet} {source : Source} {sources before rest : List Source}
  {entries : List (Option File)} {files : List File}

theorem Source.read_eq_some {file : File} :
    source.read set = .ok (some file) ↔
      source.isMember ∧ (File.parse set source.name source.text).2 = .ok file := by
  unfold read
  cases source.isMember <;> cases (File.parse set source.name source.text).2 <;> simp [Except.map]

theorem Source.read_eq_none : source.read set = .ok none ↔ source.isMember = false := by
  unfold read
  cases source.isMember <;> cases (File.parse set source.name source.text).2 <;> simp [Except.map]

theorem readSources_cons_eq_ok :
    readSources set (source :: rest) = .ok (final, entries) ↔
      ∃ entry others, source.read set = .ok entry ∧
        readSources (set.add source.name source.text).1 rest = .ok (final, others) ∧
        entries = entry :: others := by
  rw [readSources]
  cases source.read set with
  | error error => simp [bind, Except.bind]
  | ok entry =>
      cases readSources (set.add source.name source.text).1 rest with
      | error error => simp [bind, Except.bind]
      | ok result =>
          constructor
          · intro same
            obtain ⟨rfl, rfl⟩ := Prod.mk.inj (Except.ok.inj same)
            exact ⟨entry, result.2, rfl, rfl, rfl⟩
          · rintro ⟨_, others, same, sameRest, rfl⟩
            obtain rfl := Except.ok.inj same
            obtain rfl := Except.ok.inj sameRest
            rfl

/-- Sources are read one part after the other. -/
theorem readSources_append_eq_ok :
    readSources set (before ++ rest) = .ok (final, entries) ↔
      ∃ middle first others, readSources set before = .ok (middle, first) ∧
        readSources middle rest = .ok (final, others) ∧ entries = first ++ others := by
  induction before generalizing set entries with
  | nil =>
      constructor
      · exact fun outcome => ⟨set, [], entries, rfl, outcome, rfl⟩
      · rintro ⟨middle, first, others, same, outcome, rfl⟩
        obtain ⟨rfl, rfl⟩ := Prod.mk.inj (Except.ok.inj same)
        exact outcome
  | cons source before ih =>
      rw [List.cons_append, readSources_cons_eq_ok]
      constructor
      · rintro ⟨entry, _, gives, outcome, rfl⟩
        obtain ⟨middle, first, others, isFirst, isRest, rfl⟩ := ih.mp outcome
        exact ⟨middle, entry :: first, others,
          readSources_cons_eq_ok.mpr ⟨entry, first, gives, isFirst, rfl⟩, isRest, rfl⟩
      · rintro ⟨middle, _, others, isFirst, isRest, rfl⟩
        obtain ⟨entry, first, gives, isNext, rfl⟩ := readSources_cons_eq_ok.mp isFirst
        exact ⟨entry, first ++ others, gives, ih.mpr ⟨middle, first, others, isNext, isRest, rfl⟩, rfl⟩

theorem length_of_readSources (outcome : readSources set sources = .ok (final, entries)) :
    entries.length = sources.length := by
  induction sources generalizing set entries with
  | nil =>
      obtain ⟨rfl, rfl⟩ := Prod.mk.inj (Except.ok.inj outcome)
      rfl
  | cons source sources ih =>
      obtain ⟨entry, others, -, rest, rfl⟩ := readSources_cons_eq_ok.mp outcome
      rw [List.length_cons, List.length_cons, ih rest]

/-- The files of sources are read into the set one after the other. -/
theorem ReadInto.of_readSources (before : ReadInto set files)
    (outcome : readSources set sources = .ok (final, entries)) :
    ReadInto final (files ++ entries.reduceOption) := by
  induction sources generalizing set files entries with
  | nil =>
      obtain ⟨rfl, rfl⟩ := Prod.mk.inj (Except.ok.inj outcome)
      simpa [List.reduceOption] using before
  | cons source sources ih =>
      obtain ⟨entry, others, isRead, rest, rfl⟩ := readSources_cons_eq_ok.mp outcome
      cases entry with
      | none =>
          have read := ih (.other source.name source.text before) rest
          simpa [List.reduceOption_cons_of_none] using read
      | some file =>
          have read := ih (.file before (Source.read_eq_some.mp isRead).2) rest
          simpa [List.reduceOption_cons_of_some] using read

end

/-- Files that were read are settled. -/
theorem ReadInto.settledFiles {set : FileSet} {files : List File} (isRead : ReadInto set files) :
    SettledFiles files where
  settled := by
    induction isRead with
    | nothing => simp
    | file before outcome ih =>
        exact List.forall_mem_append.mpr ⟨ih, by simpa using File.isSettled_of_parse outcome⟩
    | other name text before ih => exact ih
  apart := isRead.soundPackage.1.apart.imp fun {first second} before pos owns => by
    simp only [File.owns, Bool.and_eq_true, decide_eq_true_eq, Bool.and_eq_false_iff,
      decide_eq_false_iff_not] at owns ⊢
    lia

end GoMend
