import GoMend.Proofs.CommandLine.Loading
import GoMend.Proofs.Fix.Embedded

/-!
# Packages of their own

The files of several packages are loaded into one set, and every package is mended or reverted by
itself.  Loaded alone, its files would stand at other positions and at the same places.  So nothing
that is seen of a package depends on the files that were loaded with it.
-/

namespace GoMend

/-! ### Files that are read into both sets -/

section

variable {place place' : Pos → Pos} {small large : FileSet} {name text : String} {file : File}

/-- What is read from a text into the large set is read from it into the small one, and moved.  The
positions may be moved in any way that agrees with that of the sets as far as the text goes. -/
theorem FileSet.Embeds.exists_parse (embeds : Embeds place small large) (keeps : KeepsOrder place')
    (agrees : ∀ pos : Pos, pos < (small.add name text).1.nextBase → place' pos = place pos)
    (parsed : (File.parse large name text).2 = .ok file) :
    ∃ own, (File.parse small name text).2 = .ok own ∧ file = own.relocated place' := by
  have alone := File.parse_elsewhere small parsed
  have keepsAbsence : Parse.KeepsAbsence place' :=
    ⟨keeps.absent, fun pos => (keeps.eq_noPos_iff pos).mp⟩
  have shifts : Shifts place' (small.nextBase : Pos) (small.nextBase + text.length : Nat)
      (large.nextBase - small.nextBase) := by
    intro pos starts stops
    have before : pos < (small.add name text).1.nextBase := by
      rw [FileSet.nextBase_add]
      push_cast at stops ⊢
      lia
    rw [agrees pos before, embeds.beyond pos starts]
  have moved := @File.ofText_relocated place' (.ofText name small.nextBase text)
    (.ofText name large.nextBase text) text _ keepsAbsence rfl rfl rfl shifts alone
  exact ⟨_, alone, Except.ok.inj (parsed.symm.trans moved)⟩

end

namespace CommandLine

/-- The source of a file. -/
def LoadedFile.origin (item : LoadedFile) : Source :=
  ⟨item.path.render, item.source, true⟩

section

variable {place : Pos → Pos} {small large final : FileSet} {items : List LoadedFile}

/-- The files of a package that are read into the large set one after the other, between files of
other packages, are read into the small one, and moved. -/
theorem exists_alone (package : String) (embeds : FileSet.Embeds place small large)
    (loaded : readSources large (items.map LoadedFile.origin) =
      .ok (final, items.map fun item => some item.file)) :
    ∃ (place' : Pos → Pos) (alone : FileSet) (own : List File),
      readSources small ((items.filter (·.package = package)).map LoadedFile.origin) =
        .ok (alone, own.map some) ∧
      FileSet.Embeds place' alone final ∧
      packageFiles package items = own.map (File.relocated place') ∧
      ∀ pos : Pos, pos < small.nextBase → place' pos = place pos := by
  induction items generalizing place small large with
  | nil =>
      obtain ⟨rfl, -⟩ := Prod.mk.inj (Except.ok.inj loaded)
      exact ⟨place, small, [], rfl, embeds, rfl, fun _ _ => rfl⟩
  | cons item items ih =>
      obtain ⟨entry, others, isRead, rest, same⟩ := readSources_cons_eq_ok.mp loaded
      obtain ⟨rfl, rfl⟩ := List.cons.inj same
      have parsed := (Source.read_eq_some.mp isRead).2
      by_cases isOwn : item.package = package
      · obtain ⟨place', alone, own, ownRead, embeds', filesEq, agrees⟩ :=
          ih (embeds.addBoth item.origin.name item.origin.text) rest
        obtain ⟨first, firstParsed, fileEq⟩ := embeds.exists_parse embeds'.order agrees parsed
        refine ⟨place', alone, first :: own, ?_, embeds', ?_, fun pos before => agrees pos ?_⟩
        · rw [List.filter_cons_of_pos (by simpa using isOwn), List.map_cons, List.map_cons]
          exact readSources_cons_eq_ok.mpr
            ⟨some first, _, Source.read_eq_some.mpr ⟨rfl, firstParsed⟩, ownRead, rfl⟩
        · rw [packageFiles] at filesEq ⊢
          rw [List.filter_cons_of_pos (by simpa using isOwn), List.map_cons, List.map_cons, fileEq,
            filesEq]
        · rw [FileSet.nextBase_add]
          lia
      · obtain ⟨place₁, embeds₁, agrees₁⟩ :=
          embeds.addLarge item.origin.name item.origin.text
        obtain ⟨place', alone, own, ownRead, embeds', filesEq, agrees⟩ := ih embeds₁ rest
        refine ⟨place', alone, own, ?_, embeds', ?_, fun pos before => ?_⟩
        · rwa [List.filter_cons_of_neg (by simpa using isOwn)]
        · rw [packageFiles] at filesEq ⊢
          rwa [List.filter_cons_of_neg (by simpa using isOwn)]
        · rw [agrees pos before, agrees₁ pos before]

end

/-- Files of several packages are loaded into one set.  What is seen of a run over the files of one
package, or of its fixes being taken back, is what is seen when these files alone are loaded, in the
same order. -/
theorem packageFiles_isolated {set : FileSet} {items : List LoadedFile}
    (loaded : readSources .empty (items.map LoadedFile.origin) =
      .ok (set, items.map fun item => some item.file)) (package : String) :
    ∃ (alone : FileSet) (own : List File),
      readSources .empty ((items.filter (·.package = package)).map LoadedFile.origin) =
        .ok (alone, own.map some) ∧
      (∀ importNames tries,
        (quickFix (.scopeCheck importNames) .standard set tries (packageFiles package items)).map
            (Run.shown set) =
          (quickFix (.scopeCheck importNames) .standard alone tries own).map (Run.shown alone)) ∧
      ∀ keep, (revertFixes keep (packageFiles package items)).shown set =
        (revertFixes keep own).shown alone := by
  obtain ⟨place, alone, own, ownRead, embeds, filesEq, -⟩ :=
    exists_alone package FileSet.Embeds.empty loaded
  have isRead : ReadInto alone own := by
    simpa [List.reduceOption] using ReadInto.of_readSources .nothing ownRead
  refine ⟨alone, own, ownRead, fun importNames tries => ?_, fun keep => ?_⟩
  · rw [filesEq]
    exact embeds.quickFix_shown importNames tries (.read isRead) isRead.isPlaced
  · rw [filesEq]
    exact embeds.revertFixes_shown keep isRead.isPlaced

/-- A file of another package than that of the sample. -/
def strangerText : String :=
  "package q\n"

/-- What is read from it. -/
def strangerFile : File where
  span := ⟨1, 12⟩
  name := "q.go"
  package := ⟨⟨9, 10⟩, "q"⟩
  decls := []
  comments := []

theorem scan_strangerText : Scan.ofTextIn 1 strangerText =
    .ok ⟨[⟨.kwPackage, "package", 1⟩, ⟨.ident, "q", 9⟩, ⟨.semicolon, "\n", 10⟩, ⟨.endOfFile, "", 11⟩],
      []⟩ := by
  decide +kernel

theorem parse_strangerText : (File.parse .empty "q.go" strangerText).2 = .ok strangerFile :=
  File.parse_of_scan scan_strangerText rfl

/-- The sample behind a file of another package. -/
theorem packageFiles_isolated_sample :
    let moved := sampleFile.relocated (slide 1 40 11)
    let items := [⟨.ofText "q.go", strangerText, strangerFile⟩, ⟨.ofText "a.go", sampleText, moved⟩]
    ∃ set, readSources .empty (items.map LoadedFile.origin) =
        .ok (set, items.map fun item => some item.file) ∧
      packageFiles "p" items = [moved] ∧
      ∃ (alone : FileSet) (own : List File),
        readSources .empty [⟨"a.go", sampleText, true⟩] = .ok (alone, own.map some) ∧
        (∀ importNames tries,
          (quickFix (.scopeCheck importNames) .standard set tries [moved]).map (Run.shown set) =
            (quickFix (.scopeCheck importNames) .standard alone tries own).map (Run.shown alone)) ∧
        ∀ keep, (revertFixes keep [moved]).shown set = (revertFixes keep own).shown alone := by
  intro moved items
  let first := ((FileSet.empty).add "q.go" strangerText).1
  have parsed : (File.parse first "a.go" sampleText).2 = .ok moved :=
    File.parse_elsewhere first parse_sampleText
  have loaded : readSources .empty (items.map LoadedFile.origin) =
      .ok ((first.add "a.go" sampleText).1, items.map fun item => some item.file) :=
    readSources_cons_eq_ok.mpr ⟨_, _, Source.read_eq_some.mpr ⟨rfl, parse_strangerText⟩,
      readSources_cons_eq_ok.mpr ⟨_, _, Source.read_eq_some.mpr ⟨rfl, parsed⟩, rfl, rfl⟩, rfl⟩
  exact ⟨_, loaded, rfl, packageFiles_isolated loaded "p"⟩

end CommandLine

end GoMend
