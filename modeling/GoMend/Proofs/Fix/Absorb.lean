import GoMend.Proofs.Fix.Local
import GoMend.Proofs.Fix.Session

/-!
# Taking fixes back absorbs them

Fixes are known by their form alone when they are taken back.  So a discard read that was added
leaves no trace, wherever it was added: it is removed, and nothing takes its lines over, as it has
none.  The same holds of a blank name that was given to an import without a name, unless its path
is to be kept.
-/

namespace GoMend

/-! ### One more discard read -/

/-- A discard read without a position at the end of a list changes nothing of what remains. -/
theorem withoutReads_append (comments : List Comment) {read : Stmt} (isRead : read.isDiscardRead)
    (unplaced : read.span.isPositioned = false) (opening : Pos) (kept stmts : List Stmt) :
    withoutReads comments opening kept (stmts ++ [read]) =
      withoutReads comments opening kept stmts := by
  induction stmts generalizing opening kept with
  | nil => simp [withoutReads, isRead, unplaced]
  | cons step rest ih => simp only [List.cons_append, withoutReads, ih]

namespace Node

theorem sort_withoutReads (comments : List Comment) (node : Node) :
    (node.withoutReads comments).sort = node.sort := by
  unfold withoutReads
  split <;> rfl

/-- What remains of a list of statements does not change when a read is added to the list. -/
theorem withoutReads_of_append (comments : List Comment) {name : String} {step changed : Stmt}
    (isOwner : (Node.stmt step).ownStmts?.isSome)
    (appends : step.append? (.discardRead name) = some changed) :
    (Node.stmt changed).withoutReads comments = (Node.stmt step).withoutReads comments := by
  have absorbs (opening : Pos) (stmts : List Stmt) :
      GoMend.withoutReads comments opening [] (stmts ++ [Stmt.discardRead name]) =
        GoMend.withoutReads comments opening [] stmts :=
    withoutReads_append comments rfl rfl opening [] stmts
  cases step with
  | block body =>
      obtain rfl := Option.some.inj appends
      simp only [withoutReads, Block.append, absorbs]
  | caseClause span exprs stmts colon | commClause span comm stmts colon =>
      obtain rfl := Option.some.inj appends
      simp only [withoutReads, absorbs]
  | _ => cases isOwner

end Node

/-! ### Reads -/

namespace File

open Node

variable {file edited : File} {edit : Edit} {keep : List String}

/-- Without its discard reads, a file has other declarations and nothing else. -/
theorem changeAll_withoutReads (comments : List Comment) (file : File) :
    (Node.file file).changeAll (Node.withoutReads comments) =
      .file { file with
        decls := file.decls.map (Slot.decl.changeAll (Node.withoutReads comments)) } := by
  rw [changeAll_file (sort_withoutReads comments), Slot.ident.changeAll_eq (changeAll_ident ..)]
  rfl

theorem reverted_eq (keep : List String) (file : File) :
    file.reverted keep =
      { file with
        decls := (file.decls.map (Slot.decl.changeAll (Node.withoutReads file.comments))).map
          (Decl.restored keep) } := by
  rw [reverted, File.changeAll, changeAll_withoutReads]
  rfl

/-- Files that are the same without their discard reads are the same when fixes are taken back. -/
theorem reverted_congr
    (same : (Node.file edited).changeAll (Node.withoutReads file.comments) =
      (Node.file file).changeAll (Node.withoutReads file.comments)) :
    edited.reverted keep = file.reverted keep := by
  rw [changeAll_withoutReads, changeAll_withoutReads] at same
  obtain ⟨spanEq, nameEq, packageEq, declsEq, commentsEq⟩ := File.mk.inj (Node.file.inj same)
  rw [reverted_eq, reverted_eq, commentsEq, declsEq, spanEq, nameEq, packageEq]

/-- A read that was added leaves no trace when fixes are taken back. -/
theorem addRead_absorbed {name : String} {chain : List Address} (whole : Whole (.file file))
    (outcome : file.addRead name chain = .ok (edit, edited)) :
    edited.reverted keep = file.reverted keep := by
  have keepsSort := sort_withoutReads file.comments
  have keepsRead := changeAll_discardRead (fun _ => rfl : ∀ name, (ident name).withoutReads
    file.comments = ident name) name
  refine reverted_congr ((Congruence.changeAll keepsSort).addRead ?_ whole outcome).2
  intro step changed isOwner appends
  exact ⟨(children_append isOwner appends).1, changeAll_append keepsSort keepsRead
    (fun _ _ => withoutReads_of_append file.comments) isOwner appends⟩

end File

/-! ### Blank names -/

/-- The first element that can be changed is changed, and nothing before it can be. -/
theorem exists_of_changeFirst? {α : Type} {change : α → Option α} {items changed : List α}
    (outcome : changeFirst? change items = some changed) :
    ∃ before item after new, items = before ++ item :: after ∧ changed = before ++ new :: after ∧
      change item = some new ∧ ∀ earlier ∈ before, change earlier = none := by
  induction items generalizing changed with
  | nil => cases outcome
  | cons first rest ih =>
      unfold changeFirst? at outcome
      split at outcome
      · next new isNew =>
          obtain rfl := Option.some.inj outcome
          exact ⟨[], first, rest, new, rfl, rfl, isNew, by simp⟩
      · next unchanged =>
          obtain ⟨others, isOthers, rfl⟩ := Option.map_eq_some_iff.mp outcome
          obtain ⟨before, item, after, new, rfl, rfl, isNew, earlier⟩ := ih isOthers
          exact ⟨first :: before, item, after, new, rfl, rfl, isNew,
            List.forall_mem_cons.mpr ⟨unchanged, earlier⟩⟩

theorem changeFirst?_eq_none {α : Type} {change : α → Option α} {items : List α}
    (outcome : changeFirst? change items = none) : ∀ item ∈ items, change item = none := by
  induction items with
  | nil => simp
  | cons first rest ih =>
      unfold changeFirst? at outcome
      split at outcome
      · cases outcome
      · next unchanged =>
          exact List.forall_mem_cons.mpr ⟨unchanged, ih (Option.map_eq_none_iff.mp outcome)⟩

/-- Whether an import has a path and is not bound to the blank name. -/
def ImportSpec.opens (path : String) (spec : ImportSpec) : Bool :=
  spec.path.value = path && !spec.isBlank

/-- The first import of a path that is not bound to the blank name. -/
def File.firstImport? (path : String) (file : File) : Option ImportSpec :=
  file.imports.find? (·.opens path)

section Blanked

open Node

variable {path : String} {keep : List String} {comments : List Comment}

theorem ImportSpec.blanked?_eq (spec : ImportSpec) :
    spec.blanked? path =
      if spec.opens path then some { spec with name := some { name := "_" } } else none :=
  rfl

theorem Spec.opens_eq_false {item : Spec} (unchanged : item.blanked? path = none) :
    ∀ spec ∈ item.import?, spec.opens path = false := by
  cases item with
  | importSpec spec =>
      rw [Spec.blanked?, Option.map_eq_none_iff, ImportSpec.blanked?_eq] at unchanged
      simpa [Spec.import?] using unchanged
  | _ => simp [Spec.import?]

theorem Decl.opens_eq_false {item : Decl} (unchanged : item.blanked? path = none) :
    ∀ spec ∈ item.imports, spec.opens path = false := by
  cases item with
  | func decl => simp [Decl.imports]
  | gen decl =>
      intro spec mem
      obtain ⟨inner, isInner, isSpec⟩ := List.mem_filterMap.mp mem
      exact Spec.opens_eq_false
        (changeFirst?_eq_none (Option.map_eq_none_iff.mp unchanged) inner isInner) spec isSpec

/-- A place for an import between other items of a declaration of a file. -/
structure ImportPlace where
  before : List Decl
  span : Span
  tok : Token
  grouped : Bool
  specsBefore : List Spec
  specsAfter : List Spec
  after : List Decl

/-- The declarations around a place with an import in it. -/
def ImportPlace.decls (place : ImportPlace) (spec : ImportSpec) : List Decl :=
  let specs := place.specsBefore ++ .importSpec spec :: place.specsAfter
  place.before ++ .gen ⟨place.span, place.tok, specs, place.grouped⟩ :: place.after

/-- The import that is blanked is the first one of its path that is not blank. -/
theorem File.exists_of_blankImport {file edited : File} {edit : Edit} {chain : List Address}
    (outcome : file.blankImport path chain = .ok (edit, edited)) :
    ∃ (place : ImportPlace) (spec : ImportSpec), file.decls = place.decls spec ∧
      edited = { file with decls := place.decls { spec with name := some { name := "_" } } } ∧
      file.firstImport? path = some spec := by
  unfold blankImport at outcome
  split at outcome
  · split at outcome
    · cases outcome
    · next changed changes =>
        obtain ⟨-, rfl⟩ := Prod.mk.inj (Except.ok.inj outcome)
        obtain ⟨decls, item, decls', new, declsEq, rfl, isNew, earlier⟩ :=
          exists_of_changeFirst? changes
        cases item with
        | func decl => cases isNew
        | gen decl =>
            obtain ⟨span, tok, items, grouped⟩ := decl
            obtain ⟨changed, specChanges, rfl⟩ := Option.map_eq_some_iff.mp isNew
            obtain ⟨specs, item, specs', new, specsEq, rfl, isNew, earlierSpecs⟩ :=
              exists_of_changeFirst? specChanges
            cases item with
            | importSpec spec =>
                obtain ⟨changed, isChanged, rfl⟩ := Option.map_eq_some_iff.mp isNew
                rw [ImportSpec.blanked?_eq] at isChanged
                split at isChanged
                · next opens =>
                    obtain rfl := Option.some.inj isChanged
                    obtain rfl : items = specs ++ .importSpec spec :: specs' := specsEq
                    refine ⟨⟨decls, span, tok, grouped, specs, specs', decls'⟩, spec, declsEq, rfl, ?_⟩
                    have importsEq : file.imports =
                        (decls.flatMap Decl.imports ++ specs.filterMap Spec.import?) ++
                          spec :: (specs'.filterMap Spec.import? ++
                            decls'.flatMap Decl.imports) := by
                      simp [imports, declsEq, Decl.imports, Spec.import?]
                    rw [firstImport?, importsEq, List.find?_append, List.find?_eq_none.mpr,
                      Option.none_or, List.find?_cons_of_pos opens]
                    simp only [List.mem_append, List.mem_flatMap, List.mem_filterMap,
                      Bool.not_eq_true]
                    rintro other (⟨item, isItem, mem⟩ | ⟨item, isItem, isOther⟩)
                    · exact Decl.opens_eq_false (earlier item isItem) other mem
                    · exact Spec.opens_eq_false (earlierSpecs item isItem) other isOther
                · cases isChanged
            | _ => cases isNew
  · cases outcome

/-! ### Restoring a blanked import -/

/-- The place among declarations without the discard reads in them. -/
def ImportPlace.cleared (comments : List Comment) (place : ImportPlace) : ImportPlace where
  before := place.before.map (Slot.decl.changeAll (Node.withoutReads comments))
  span := place.span
  tok := place.tok
  grouped := place.grouped
  specsBefore := place.specsBefore.map (Slot.spec.changeAll (Node.withoutReads comments))
  specsAfter := place.specsAfter.map (Slot.spec.changeAll (Node.withoutReads comments))
  after := place.after.map (Slot.decl.changeAll (Node.withoutReads comments))

/-- There is no discard read in an import. -/
theorem ImportPlace.map_decls (place : ImportPlace) (comments : List Comment) (spec : ImportSpec) :
    (place.decls spec).map (Slot.decl.changeAll (Node.withoutReads comments)) =
      (place.cleared comments).decls spec := by
  have keepsSort := sort_withoutReads comments
  have specEq : Slot.spec.changeAll (Node.withoutReads comments) (.importSpec spec) =
      .importSpec spec := by
    refine Slot.spec.changeAll_eq ?_
    have keepsName : (Slot.ident.changeAll (Node.withoutReads comments)) = id :=
      funext fun name => Slot.ident.changeAll_eq (changeAll_ident ..)
    rw [changeAll_importSpec keepsSort, Slot.lit.changeAll_eq (changeAll_lit ..), keepsName,
      Option.map_id]
    rfl
  have declEq : Slot.decl.changeAll (Node.withoutReads comments)
      (.gen ⟨place.span, place.tok, place.specsBefore ++ .importSpec spec :: place.specsAfter,
        place.grouped⟩) = _ :=
    Slot.decl.changeAll_eq (changeAll_genDecl keepsSort ..)
  simp only [decls, cleared, List.map_append, List.map_cons, declEq, specEq]

/-- A blank name is taken from an import again, unless the path is to be kept. -/
theorem ImportSpec.restored_blank {spec : ImportSpec} (unnamed : spec.name = none)
    (notKept : spec.plainPath ∉ keep) :
    ({ spec with name := some { name := "_" } } : ImportSpec).restored keep =
      spec.restored keep := by
  obtain ⟨span, name, path⟩ := spec
  obtain rfl : name = none := unnamed
  have isRestored :
      (⟨span, some { name := "_" }, path⟩ : ImportSpec).isRestored keep = true := by
    have notContained : keep.contains (ImportSpec.plainPath ⟨span, none, path⟩) = false := by
      simpa using notKept
    rw [ImportSpec.isRestored, Bool.and_eq_true, Bool.not_eq_true']
    exact ⟨rfl, notContained⟩
  rw [ImportSpec.restored, if_pos isRestored]
  rfl

namespace File

variable {file edited : File} {edit : Edit} {chain : List Address}

/-- A blank name that was given to an import without a name leaves no trace, unless its path is to
be kept. -/
theorem blankImport_absorbed {spec : ImportSpec} (isFirst : file.firstImport? path = some spec)
    (unnamed : spec.name = none) (notKept : spec.plainPath ∉ keep)
    (outcome : file.blankImport path chain = .ok (edit, edited)) :
    edited.reverted keep = file.reverted keep := by
  obtain ⟨place, other, declsEq, rfl, isOther⟩ := exists_of_blankImport outcome
  obtain rfl := Option.some.inj (isFirst.symm.trans isOther)
  rw [reverted_eq, reverted_eq, declsEq, place.map_decls, place.map_decls]
  simp only [ImportPlace.decls, List.map_append, List.map_cons, Decl.restored, Spec.restored,
    ImportSpec.restored_blank unnamed notKept]

end File

end Blanked

/-! ### Sequences of fixes -/

/-- A fix of a file that leaves no trace when fixes are taken back: an added read, or a blank name
that is given to an import without a name whose path is not to be kept. -/
inductive AbsorbedFix (keep : List String) (file edited : File) : Prop
  | read {name : String} {chain : List Node.Address} {edit : Edit}
      (outcome : file.addRead name chain = .ok (edit, edited)) : AbsorbedFix keep file edited
  | blank {path : String} {chain : List Node.Address} {edit : Edit} {spec : ImportSpec}
      (isFirst : file.firstImport? path = some spec) (unnamed : spec.name = none)
      (notKept : spec.plainPath ∉ keep)
      (outcome : file.blankImport path chain = .ok (edit, edited)) : AbsorbedFix keep file edited

/-- Files after fixes of some of them, one after the other. -/
inductive AbsorbedFixes (keep : List String) (files : List File) : List File → Prop
  | nothing : AbsorbedFixes keep files files
  | fix {middle : List File} {unit : Nat} {file edited : File}
      (before : AbsorbedFixes keep files middle) (isFile : middle[unit]? = some file)
      (fixed : AbsorbedFix keep file edited) : AbsorbedFixes keep files (middle.set unit edited)

open Node in
theorem AbsorbedFix.absorbed {keep : List String} {file edited : File} (whole : Whole (.file file))
    (fixed : AbsorbedFix keep file edited) :
    Whole (.file edited) ∧ edited.reverted keep = file.reverted keep := by
  cases fixed with
  | @read name chain edit outcome =>
      exact ⟨(FixCongruence.whole.addRead (FixCongruence.whole.atOwner name) whole outcome).2 whole,
        file.addRead_absorbed whole outcome⟩
  | blank isFirst unnamed notKept outcome =>
      exact ⟨(FixCongruence.whole.blankImport (fun spec => FixCongruence.whole.atImport spec _) outcome).2 whole,
        file.blankImport_absorbed isFirst unnamed notKept outcome⟩

/-- Taking fixes back after any of them gives the files that taking fixes back gives before them. -/
theorem ReadInto.revertFixes_absorbs {set : FileSet} {files fixed : List File} {keep : List String}
    (isRead : ReadInto set files) (fixes : AbsorbedFixes keep files fixed) :
    (revertFixes keep fixed).files = (revertFixes keep files).files := by
  suffices (∀ file ∈ fixed, Node.Whole (.file file)) ∧
      fixed.map (File.reverted keep) = files.map (File.reverted keep) from this.2
  induction fixes with
  | nothing => exact ⟨fun file isFile => .of_sound (isRead.soundPackage.1.sound file isFile), rfl⟩
  | @fix middle unit file edited before isFile fixed ih =>
      obtain ⟨whole, same⟩ := ih
      obtain ⟨editedWhole, absorbed⟩ := fixed.absorbed (whole file (List.mem_of_getElem? isFile))
      refine ⟨fun other isOther => ?_, ?_⟩
      · obtain isOther | rfl := List.mem_or_eq_of_mem_set isOther
        · exact whole other isOther
        · exact editedWhole
      · obtain ⟨inside, rfl⟩ := List.getElem?_eq_some_iff.mp isFile
        rw [List.map_set, absorbed, ← same, ← List.map_set, List.set_getElem_self]

/-- An import and a variable that nothing uses. -/
def unusedText : String :=
  "package p\nimport \"q\"\nfunc f() \x7b\n\tx := 1\n\x7d\n"

/-- A file with the given name for its import and statements for its function. -/
def unusedFile (name : Option Ident) (added : List Stmt) : File where
  span := ⟨1, 44⟩
  name := "a.go"
  package := ⟨⟨9, 10⟩, "p"⟩
  decls := [
    .gen ⟨⟨11, 21⟩, .kwImport, [.importSpec ⟨⟨18, 21⟩, name, ⟨⟨18, 21⟩, .string, "\"q\""⟩⟩],
      false⟩,
    .func {
      span := ⟨22, 42⟩
      recv := none
      name := ⟨⟨27, 28⟩, "f"⟩
      type := ⟨⟨22, 30⟩, ⟨⟨28, 30⟩, []⟩, none⟩
      body := some ⟨⟨31, 42⟩, [
        .assign ⟨34, 40⟩ [.ident ⟨⟨34, 35⟩, "x"⟩] .define [.lit ⟨⟨39, 40⟩, .int, "1"⟩] 36] ++
          added⟩ }]
  comments := []

/-- The lexemes of the file. -/
def unusedLexemes : List Lexeme := [
  ⟨.kwPackage, "package", 1⟩, ⟨.ident, "p", 9⟩, ⟨.semicolon, "\n", 10⟩, ⟨.kwImport, "import", 11⟩,
  ⟨.string, "\"q\"", 18⟩, ⟨.semicolon, "\n", 21⟩, ⟨.kwFunc, "func", 22⟩, ⟨.ident, "f", 27⟩,
  ⟨.leftParen, "(", 28⟩, ⟨.rightParen, ")", 29⟩, ⟨.leftBrace, "\x7b", 31⟩, ⟨.ident, "x", 34⟩,
  ⟨.define, ":=", 36⟩, ⟨.int, "1", 39⟩, ⟨.semicolon, "\n", 40⟩, ⟨.rightBrace, "\x7d", 41⟩,
  ⟨.semicolon, "\n", 42⟩, ⟨.endOfFile, "", 43⟩]

theorem scan_unusedText : Scan.ofTextIn 1 unusedText = .ok ⟨unusedLexemes, []⟩ := by
  decide +kernel

theorem parse_unusedText : (File.parse .empty "a.go" unusedText).2 = .ok (unusedFile none []) :=
  File.parse_of_scan scan_unusedText rfl

theorem ReadInto.revertFixes_absorbs_sample :
    let set := (File.parse .empty "a.go" unusedText).1
    let edited := unusedFile (some { name := "_" }) [.discardRead "x"]
    ReadInto set [unusedFile none []] ∧ AbsorbedFixes ["embed"] [unusedFile none []] [edited] ∧
      (revertFixes ["embed"] [edited]).files =
        (revertFixes ["embed"] [unusedFile none []]).files := by
  have isRead : ReadInto (File.parse .empty "a.go" unusedText).1 [unusedFile none []] :=
    .file .nothing parse_unusedText
  have blanked : (unusedFile none []).blankImport "\"q\"" [[]] =
      .ok (.importBlanked "\"q\"", unusedFile (some { name := "_" }) []) := rfl
  have read : (unusedFile (some { name := "_" }) []).addRead "x" [[2, 2]] =
      .ok (.readAdded "x" "BlockStmt", unusedFile (some { name := "_" }) [.discardRead "x"]) := rfl
  have fixes : AbsorbedFixes ["embed"] [unusedFile none []]
      ([unusedFile (some { name := "_" }) []].set 0
        (unusedFile (some { name := "_" }) [.discardRead "x"])) :=
    .fix (.fix .nothing (rfl : [unusedFile none []][0]? = some _)
      (.blank rfl rfl (by decide) blanked)) rfl (.read read)
  exact ⟨isRead, fixes, isRead.revertFixes_absorbs fixes⟩

end GoMend
