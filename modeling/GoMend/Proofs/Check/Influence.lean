import GoMend.Proofs.Fix.Sources

/-!
# What files of a package know of each other

The files of a package know of each other which names they declare in the package, and nothing else.
So a file of a package can be replaced by any other one that declares the same names there: what is
reported about the other files stays the same, at the positions to which they are moved.
-/

namespace GoMend

/-- A diagnostic so much further on. -/
def Diagnostic.moved (distance : Int) (diagnostic : Diagnostic) : Diagnostic :=
  { diagnostic with pos := diagnostic.pos + distance }

namespace File

variable {packageName : String → String} {names taken other : List String} {file : File}
  {part : FileFindings} {place : Pos → Pos} {distance : Int}

/-- What is found in a file depends on which of its own names are declared before it. -/
theorem shareOf_congr (part : FileFindings)
    (same : ∀ name ∈ file.packageNames, name ∈ taken ↔ name ∈ other) :
    file.shareOf taken part = file.shareOf other part := by
  rw [shareOf, shareOf, redeclared_congr same]

/-- The positions of a file that is moved as a whole. -/
theorem owns_relocated (hasRoom : file.span.start ≤ file.span.stop - 1)
    (shifts : Shifts place file.span.start (file.span.stop - 1) distance) (pos : Pos) :
    (file.relocated place).owns (pos + distance) = file.owns pos := by
  have startEq := shifts file.span.start (Int.le_refl _) hasRoom
  have stopEq := shifts (file.span.stop - 1) hasRoom (Int.le_refl _)
  have startIff : file.span.start + distance ≤ pos + distance ↔ file.span.start ≤ pos := by lia
  have stopIff : pos + distance < file.span.stop - 1 + distance + 1 ↔ pos < file.span.stop := by lia
  simp only [owns, relocated, startEq, stopEq, startIff, stopIff]

/-- What is reported about a file that is moved as a whole. -/
theorem ownDiagnostics_relocated (settled : file.IsSettled) (absent : place noPos = noPos)
    (shifts : Shifts place file.span.start (file.span.stop - 1) distance)
    (begins : 0 < file.span.start + distance)
    (found : file.findings packageName names = .ok part) :
    (file.relocated place).ownDiagnostics taken (part.relocated place) =
      (file.ownDiagnostics taken part).map (Diagnostic.moved distance) := by
  have hasRoom := settled.hasRoom
  have positive := settled.begins
  have startEq := shifts file.span.start (Int.le_refl _) (by lia)
  have placeEq {finding : Finding × Pos} (isFound : finding ∈ file.shareOf taken part)
      (owns : file.owns finding.2) : place finding.2 = finding.2 + distance := by
    obtain ⟨startLe, ltStop⟩ := owns_iff.mp owns
    exact shifts finding.2 startLe (by lia)
  have ownsEq : ∀ finding ∈ file.shareOf taken part,
      (file.relocated place).owns (place finding.2) = file.owns finding.2 := by
    intro finding isFound
    rcases settled.owns_of_mem found isFound with isAbsent | owns
    · have begins' : 0 < (file.relocated place).span.start := by
        show 0 < place file.span.start
        rw [startEq]
        exact begins
      rw [isAbsent, absent, owns_noPos positive, owns_noPos begins']
    · rw [placeEq isFound owns]
      exact owns_relocated (by lia) shifts finding.2
  have filterEq : (relocatedFindings place (file.shareOf taken part)).filter
        (fun finding => (file.relocated place).owns finding.2) =
      ((file.shareOf taken part).filter fun finding => file.owns finding.2).map
        fun finding => (finding.1, finding.2 + distance) := by
    rw [relocatedFindings, List.filter_map]
    have keepEq := List.filter_congr ownsEq
    simp only [Function.comp_def, keepEq]
    refine List.map_congr_left fun finding isKept => ?_
    obtain ⟨isFound, owns⟩ := List.mem_filter.mp isKept
    rw [placeEq isFound owns]
  rw [ownDiagnostics, ownDiagnostics, shareOf_relocated, filterEq, List.map_map,
    ← Diagnostic.sorted_map, List.map_map]
  · rfl
  · intro first _ second _
    simp only [Diagnostic.moved]
    lia

end File

/-! ### Two packages with the same names -/

/-- What a file of two packages that declare the same names is reported to have in each of them, when
it is moved as a whole. -/
theorem SettledFiles.filter_diagnostics_elsewhere {packageName : String → String}
    {before after before' after' : List File} {file : File} {place : Pos → Pos} {distance : Int}
    (package : SettledFiles (before ++ file :: after))
    (package' : SettledFiles (before' ++ file.relocated place :: after'))
    (absent : place noPos = noPos)
    (shifts : Shifts place file.span.start (file.span.stop - 1) distance)
    (sameBefore : ∀ name, name ∈ before.flatMap File.packageNames ↔
      name ∈ before'.flatMap File.packageNames)
    (sameAfter : ∀ name, name ∈ after.flatMap File.packageNames ↔
      name ∈ after'.flatMap File.packageNames)
    {diagnostics diagnostics' : List Diagnostic}
    (checked : checkPackage packageName (before ++ file :: after) = .ok diagnostics)
    (checked' : checkPackage packageName (before' ++ file.relocated place :: after') =
      .ok diagnostics') :
    diagnostics'.filter (fun diagnostic => (file.relocated place).owns diagnostic.pos) =
      (diagnostics.filter fun diagnostic => file.owns diagnostic.pos).map
        (Diagnostic.moved distance) := by
  have settled := package.settled file (by simp)
  have settled' := package'.settled (file.relocated place) (by simp)
  have begins : 0 < file.span.start + distance := by
    have hasRoom := settled.hasRoom
    rw [← shifts file.span.start (Int.le_refl _) (by lia)]
    exact settled'.begins
  obtain ⟨part, found, filterEq⟩ := package.filter_diagnostics checked
  obtain ⟨part', found', filterEq'⟩ := package'.filter_diagnostics checked'
  have same : ∀ name, name ∈ (before ++ file :: after).flatMap File.packageNames ↔
      name ∈ (before' ++ file.relocated place :: after').flatMap File.packageNames := by
    intro name
    simp only [List.flatMap_append, List.flatMap_cons, List.mem_append, sameBefore, sameAfter,
      File.packageNames_relocated]
  obtain rfl : part.relocated place = part' := by
    rw [File.findings_relocated absent, File.findings_congr same found] at found'
    exact Except.ok.inj found'
  have takenEq : (file.relocated place).ownDiagnostics (before'.flatMap File.packageNames)
      (part.relocated place) = (file.relocated place).ownDiagnostics
        (before.flatMap File.packageNames) (part.relocated place) := by
    rw [File.ownDiagnostics, File.ownDiagnostics,
      File.shareOf_congr _ fun name _ => (sameBefore name).symm]
  rw [filterEq, filterEq', takenEq, File.ownDiagnostics_relocated settled absent shifts begins found]

/-! ### Sources with the same names -/

/-- The names that an entry of a package declares. -/
def entryNames (entry : Option File) : List String :=
  entry.toList.flatMap File.packageNames

/-- Two entries that declare the same names. -/
def SameNames (entry other : Option File) : Prop :=
  ∀ name, name ∈ entryNames entry ↔ name ∈ entryNames other

theorem mem_flatMap_reduceOption {name : String} {entries others : List (Option File)}
    (same : List.Forall₂ SameNames entries others) :
    name ∈ entries.reduceOption.flatMap File.packageNames ↔
      name ∈ others.reduceOption.flatMap File.packageNames := by
  have memIff (entries : List (Option File)) :
      name ∈ entries.reduceOption.flatMap File.packageNames ↔
        ∃ entry ∈ entries, name ∈ entryNames entry := by
    induction entries with
    | nil => simp [List.reduceOption]
    | cons entry entries ih =>
        cases entry <;>
          simp [List.reduceOption_cons_of_none, List.reduceOption_cons_of_some, entryNames, ih]
  rw [memIff, memIff]
  induction same with
  | nil => rfl
  | cons first others ih => simp only [List.mem_cons, exists_eq_or_imp, ih, first name]

/-- An entry of a package and the same one with all of its positions so much further on. -/
def EntryMoved (distance : Int) : Option File → Option File → Prop
  | none, none => True
  | some file, some other =>
      other = file.relocated (slide file.span.start (file.span.stop - 1) distance)
  | _, _ => False

theorem EntryMoved.refl (entry : Option File) : EntryMoved 0 entry entry := by
  cases entry with
  | none => trivial
  | some file =>
      have stays : slide file.span.start (file.span.stop - 1) 0 = id := by
        funext pos
        simp [slide]
      rw [EntryMoved, stays, File.relocated_id]

theorem EntryMoved.sameNames {distance : Int} {entry other : Option File}
    (moved : EntryMoved distance entry other) : SameNames entry other := by
  cases entry <;> cases other <;> simp_all [EntryMoved, SameNames, entryNames]

/-- Sources are read into another set with their positions so much further on as the set begins. -/
theorem readSources_elsewhere {first final : FileSet} {sources : List Source}
    {entries : List (Option File)} (outcome : readSources first sources = .ok (final, entries))
    (second : FileSet) :
    ∃ final' entries', readSources second sources = .ok (final', entries') ∧
      List.Forall₂ (EntryMoved (second.nextBase - first.nextBase)) entries entries' := by
  induction sources generalizing first second entries with
  | nil =>
      obtain ⟨rfl, rfl⟩ := Prod.mk.inj (Except.ok.inj outcome)
      exact ⟨second, [], rfl, .nil⟩
  | cons source sources ih =>
      obtain ⟨entry, others, isRead, rest, rfl⟩ := readSources_cons_eq_ok.mp outcome
      obtain ⟨final', others', rest', moved⟩ := ih rest (second.add source.name source.text).1
      rw [FileSet.nextBase_add, FileSet.nextBase_add] at moved
      have distanceEq : ((second.nextBase + source.text.length + 1 : Nat) : Int) -
          (first.nextBase + source.text.length + 1 : Nat) = second.nextBase - first.nextBase := by
        lia
      rw [distanceEq] at moved
      cases entry with
      | none =>
          have isRead' : source.read second = .ok none :=
            Source.read_eq_none.mpr (Source.read_eq_none.mp isRead)
          exact ⟨final', none :: others',
            readSources_cons_eq_ok.mpr ⟨none, others', isRead', rest', rfl⟩, .cons trivial moved⟩
      | some file =>
          obtain ⟨isMember, parsed⟩ := Source.read_eq_some.mp isRead
          have isRead' := Source.read_eq_some.mpr ⟨isMember, File.parse_elsewhere second parsed⟩
          exact ⟨final', _ :: others',
            readSources_cons_eq_ok.mpr ⟨_, others', isRead', rest', rfl⟩, .cons rfl moved⟩

/-- Files that were read one after the other, with one of them singled out. -/
theorem reduceOption_eq_append {entries : List (Option File)} {index : Nat} {file : File}
    (isFile : entries[index]? = some (some file)) :
    entries.reduceOption =
      (entries.take index).reduceOption ++ file :: (entries.drop (index + 1)).reduceOption := by
  obtain ⟨inside, isFile⟩ := List.getElem?_eq_some_iff.mp isFile
  conv_lhs => rw [← List.take_append_drop index entries, List.drop_eq_getElem_cons inside, isFile]
  rw [List.reduceOption_append, List.reduceOption_cons_of_some]

/-- The entries of a package after one of its sources was replaced. -/
structure EntriesReplaced (replaced : Nat) (entries entries' : List (Option File)) : Prop where
  names : List.Forall₂ SameNames entries entries'
  moved : ∀ index entry, index ≠ replaced → entries[index]? = some entry →
    ∃ distance other, entries'[index]? = some other ∧ EntryMoved distance entry other

/-- A source that can be read may take the place of another one that declares the same names. -/
theorem exists_entriesReplaced {sources : List Source} {set : FileSet}
    {entries : List (Option File)} {replaced : Nat} {new : Source} {old fresh : File}
    (read : readSources .empty sources = .ok (set, entries))
    (isOld : entries[replaced]? = some (some old)) (isMember : new.isMember)
    (parsed : (File.parse .empty new.name new.text).2 = .ok fresh)
    (sameNames : ∀ name, name ∈ fresh.packageNames ↔ name ∈ old.packageNames) :
    ∃ set' entries', readSources .empty (sources.set replaced new) = .ok (set', entries') ∧
      EntriesReplaced replaced entries entries' := by
  have inside : replaced < sources.length := by
    rw [← length_of_readSources read]
    exact (List.getElem?_eq_some_iff.mp isOld).1
  have split := List.take_append_drop replaced sources
  rw [List.drop_eq_getElem_cons inside] at split
  rw [← split] at read
  obtain ⟨middle, first, others, isFirst, isOthers, rfl⟩ := readSources_append_eq_ok.mp read
  obtain ⟨entry, rest, -, isRest, rfl⟩ := readSources_cons_eq_ok.mp isOthers
  have lengthEq : first.length = replaced := by
    rw [length_of_readSources isFirst, List.length_take, Nat.min_eq_left (Nat.le_of_lt inside)]
  obtain rfl : entry = some old := by
    simpa [← lengthEq] using isOld
  -- The new source is read where the old one was, and all that follow it are moved.
  obtain ⟨file, isNew, fileNames⟩ : ∃ file, new.read middle = .ok (some file) ∧
      file.packageNames = fresh.packageNames :=
    ⟨_, Source.read_eq_some.mpr ⟨isMember, File.parse_elsewhere middle parsed⟩,
      File.packageNames_relocated _ _⟩
  obtain ⟨set', rest', isRest', moved⟩ :=
    readSources_elsewhere isRest (middle.add new.name new.text).1
  have restNames := moved.imp fun _ _ entryMoved => entryMoved.sameNames
  have names : SameNames (some old) (some file) := fun name => by
    simp [entryNames, fileNames, sameNames]
  refine ⟨set', first ++ some file :: rest', ?_,
    List.rel_append (List.forall₂_same.mpr fun entry _ name => Iff.rfl) (.cons names restNames), ?_⟩
  · rw [List.set_eq_take_append_cons_drop, if_pos inside]
    exact readSources_append_eq_ok.mpr ⟨middle, first, _, isFirst,
      readSources_cons_eq_ok.mpr ⟨_, rest', isNew, isRest', rfl⟩, rfl⟩
  · intro index entry notReplaced isEntry
    rcases Nat.lt_or_ge index first.length with isBefore | isAfter
    · rw [List.getElem?_append_left isBefore] at isEntry ⊢
      exact ⟨0, entry, isEntry, .refl entry⟩
    · obtain ⟨offset, rfl⟩ : ∃ offset, index = first.length + (offset + 1) :=
        ⟨index - first.length - 1, by omega⟩
      rw [List.getElem?_append_right (by omega), Nat.add_sub_cancel_left,
        List.getElem?_cons_succ] at isEntry ⊢
      obtain ⟨isInside, rfl⟩ := List.getElem?_eq_some_iff.mp isEntry
      have isInside' := moved.length_eq ▸ isInside
      exact ⟨_, _, List.getElem?_eq_getElem isInside', moved.get isInside isInside'⟩

/-- A source of a package is replaced by another one that can be read and that declares the same
names in the package.  Then the check reports the same about every other file, at the positions to
which the file is moved. -/
theorem readSources_replaced {packageName : String → String} {sources : List Source}
    {set : FileSet} {entries : List (Option File)} {replaced : Nat} {new : Source}
    {old fresh : File} (read : readSources .empty sources = .ok (set, entries))
    (isOld : entries[replaced]? = some (some old)) (isMember : new.isMember)
    (parsed : (File.parse .empty new.name new.text).2 = .ok fresh)
    (sameNames : ∀ name, name ∈ fresh.packageNames ↔ name ∈ old.packageNames) :
    ∃ set' entries' diagnostics diagnostics',
      readSources .empty (sources.set replaced new) = .ok (set', entries') ∧
      entries'.length = entries.length ∧
      checkPackage packageName entries.reduceOption = .ok diagnostics ∧
      checkPackage packageName entries'.reduceOption = .ok diagnostics' ∧
      ∀ index file, index ≠ replaced → entries[index]? = some (some file) →
        ∃ file' distance, entries'[index]? = some (some file') ∧
          file'.span.start = file.span.start + distance ∧
          diagnostics'.filter (fun diagnostic => file'.owns diagnostic.pos) =
            (diagnostics.filter fun diagnostic => file.owns diagnostic.pos).map
              (Diagnostic.moved distance) := by
  obtain ⟨set', entries', read', alike⟩ :=
    exists_entriesReplaced read isOld isMember parsed sameNames
  have isRead := ReadInto.nothing.of_readSources read
  have isRead' := ReadInto.nothing.of_readSources read'
  obtain ⟨diagnostics, checked⟩ := (Reachable.read isRead).exists_diagnostics packageName
  obtain ⟨diagnostics', checked'⟩ := (Reachable.read isRead').exists_diagnostics packageName
  refine ⟨set', entries', diagnostics, diagnostics', read', alike.names.length_eq.symm, checked,
    checked', fun index file notReplaced isFile => ?_⟩
  obtain ⟨distance, other, isOther, moved⟩ := alike.moved index _ notReplaced isFile
  cases other with
  | none => exact absurd moved id
  | some file' =>
      obtain rfl : file' = _ := moved
      have package := isRead.settledFiles
      have package' := isRead'.settledFiles
      rw [List.nil_append] at package package' checked checked'
      rw [reduceOption_eq_append isFile] at package checked
      rw [reduceOption_eq_append isOther] at package' checked'
      have settled := package.settled file (by simp)
      have hasRoom := settled.hasRoom
      have shifts := shifts_slide file.span.start (file.span.stop - 1) distance
      refine ⟨_, distance, isOther, shifts _ (Int.le_refl _) (by lia), ?_⟩
      exact package.filter_diagnostics_elsewhere package' (slide_noPos settled.begins _ _) shifts
        (fun name => mem_flatMap_reduceOption (List.forall₂_take index alike.names))
        (fun name => mem_flatMap_reduceOption (List.forall₂_drop (index + 1) alike.names)) checked
        checked'

/-- A file that declares the same name as the sample. -/
def shortText : String :=
  "package p\nfunc f()\n"

/-- What is read from it. -/
def shortFile : File where
  span := ⟨1, 21⟩
  name := "a.go"
  package := ⟨⟨9, 10⟩, "p"⟩
  decls := [.func {
    span := ⟨11, 19⟩
    recv := none
    name := ⟨⟨16, 17⟩, "f"⟩
    type := ⟨⟨11, 19⟩, ⟨⟨17, 19⟩, []⟩, none⟩
    body := none }]
  comments := []

/-- The lexemes of this file. -/
def shortLexemes : List Lexeme := [
  ⟨.kwPackage, "package", 1⟩, ⟨.ident, "p", 9⟩, ⟨.semicolon, "\n", 10⟩, ⟨.kwFunc, "func", 11⟩,
  ⟨.ident, "f", 16⟩, ⟨.leftParen, "(", 17⟩, ⟨.rightParen, ")", 18⟩, ⟨.semicolon, "\n", 19⟩,
  ⟨.endOfFile, "", 20⟩]

theorem scan_shortText : Scan.ofTextIn 1 shortText = .ok ⟨shortLexemes, []⟩ := by
  decide +kernel

theorem parse_shortText : (File.parse .empty "a.go" shortText).2 = .ok shortFile :=
  File.parse_of_scan scan_shortText rfl

/-- The first of two samples is replaced. -/
theorem readSources_replaced_sample :
    ∃ set other entries,
      readSources .empty [⟨"a.go", sampleText, true⟩, ⟨"a.go", sampleText, true⟩] =
        .ok (set, entries) ∧
      entries = [some sampleFile, some other] ∧
      (File.parse .empty "a.go" shortText).2 = .ok shortFile ∧
      (∀ name, name ∈ shortFile.packageNames ↔ name ∈ sampleFile.packageNames) ∧
      ∃ set' entries' diagnostics diagnostics' file' distance,
        readSources .empty [⟨"a.go", shortText, true⟩, ⟨"a.go", sampleText, true⟩] =
          .ok (set', entries') ∧
        checkPackage id entries.reduceOption = .ok diagnostics ∧
        checkPackage id entries'.reduceOption = .ok diagnostics' ∧
        entries'[1]? = some (some file') ∧ file'.span.start = other.span.start + distance ∧
        diagnostics'.filter (fun diagnostic => file'.owns diagnostic.pos) =
          (diagnostics.filter fun diagnostic => other.owns diagnostic.pos).map
            (Diagnostic.moved distance) := by
  let second := ((FileSet.empty).add "a.go" sampleText).1
  have parsedSecond := File.parse_elsewhere second parse_sampleText
  have read : readSources .empty [⟨"a.go", sampleText, true⟩, ⟨"a.go", sampleText, true⟩] =
      .ok ((second.add "a.go" sampleText).1, [some sampleFile, some _]) :=
    readSources_cons_eq_ok.mpr ⟨_, _, Source.read_eq_some.mpr ⟨rfl, parse_sampleText⟩,
      readSources_cons_eq_ok.mpr ⟨_, _, Source.read_eq_some.mpr ⟨rfl, parsedSecond⟩, rfl, rfl⟩, rfl⟩
  have sameNames : ∀ name, name ∈ shortFile.packageNames ↔ name ∈ sampleFile.packageNames :=
    fun _ => Iff.rfl
  obtain ⟨set', entries', diagnostics, diagnostics', read', -, checked, checked', each⟩ :=
    @readSources_replaced id _ _ _ 0 ⟨"a.go", shortText, true⟩ _ _ read rfl rfl parse_shortText
      sameNames
  obtain ⟨file', distance, isFile, startEq, same⟩ := each 1 _ (by decide) rfl
  exact ⟨_, _, _, read, rfl, parse_shortText, sameNames, set', entries', diagnostics, diagnostics', file',
    distance, read', checked, checked', isFile, startEq, same⟩

end GoMend
