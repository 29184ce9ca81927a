import GoMend.Proofs.Fix.Session
import GoMend.Proofs.Fix.Straight
import GoMend.Proofs.Layout.Comments
import GoMend.Proofs.Lexeme.Spelling

/-!
# Comments are conserved

Whatever is done to the files of a session, each comment of a file is printed once, and in the order
in which the comments stand in the source.  To tell the comments from the rest of the text, every
comment gets a text of its own, a single character that is found nowhere else in the file.
-/

namespace GoMend

open Layout

/-! ### Marked files -/

/-- Characters that mark the comments of a file: one for each comment, all different, and none that
the file has elsewhere or that printing adds. -/
structure File.Marks (file : File) (marks : List Char) : Prop where
  length_eq : marks.length = file.comments.length
  nodup : marks.Nodup
  notBlank : ∀ mark ∈ marks, Text.isBlank mark = false
  notInWord : ∀ mark ∈ marks, ∀ word ∈ (Node.file file).words, mark ∉ word.toList
  notInToken : ∀ mark ∈ marks, ∀ token : Token, token.isWritten → mark ∉ token.text.toList

/-- A comment whose text is a mark. -/
def Comment.marked (comment : Comment) (mark : Char) : Comment :=
  { comment with text := String.singleton mark }

/-- The file with a mark for the text of each comment. -/
def File.marked (file : File) (marks : List Char) : File :=
  { file with comments := file.comments.zipWith Comment.marked marks }

/-- The marks in the order of the comments' positions. -/
def File.marksByPosition (file : File) (marks : List Char) : List Char :=
  ((file.comments.zip marks).mergeSort fun first second =>
    first.1.span.start ≤ second.1.span.start).map Prod.snd

/-- The watch for the marks of a file. -/
def markWatch (marks : List Char) (set : Option FileSet) : Watch where
  isMark := marks.contains
  set
  asked _ := True

namespace File.Marks

variable {file : File} {marks : List Char}

theorem foreign (isMarked : file.Marks marks) (set : Option FileSet) :
    (markWatch marks set).Foreign where
  blank char isBlank := by
    refine Bool.eq_false_iff.mpr fun isMark => ?_
    exact Bool.eq_false_iff.mp (isMarked.notBlank char (List.contains_iff_mem.mp isMark)) isBlank
  token token isWritten char isThere := by
    refine Bool.eq_false_iff.mpr fun isMark => ?_
    exact isMarked.notInToken char (List.contains_iff_mem.mp isMark) token isWritten isThere

theorem allows (isMarked : file.Marks marks) (set : Option FileSet) :
    Allows (markWatch marks set) (.file file) where
  asked _ _ := trivial
  plain word isWord := by
    refine List.filter_eq_nil_iff.mpr fun char isThere isMark => ?_
    exact isMarked.notInWord char (List.contains_iff_mem.mp isMark) word isWord isThere

/-- The marks by position are the marks in another order. -/
theorem perm_marksByPosition (isMarked : file.Marks marks) :
    (file.marksByPosition marks).Perm marks := by
  have sorted := (List.mergeSort_perm (file.comments.zip marks) fun first second =>
    first.1.span.start ≤ second.1.span.start).map Prod.snd
  rwa [List.map_snd_zip (Nat.le_of_eq isMarked.length_eq)] at sorted

end File.Marks

/-- The marks of marked comments in order are the marks. -/
theorem commentMarks_marked {marks : List Char} (set : Option FileSet)
    {pairs : List (Comment × Char)} (areMarks : ∀ pair ∈ pairs, pair.2 ∈ marks) :
    (markWatch marks set).commentMarks (pairs.map fun pair => pair.1.marked pair.2) =
      pairs.map Prod.snd := by
  induction pairs with
  | nil => rfl
  | cons pair pairs ih =>
      obtain ⟨isMark, areMarks⟩ := List.forall_mem_cons.mp areMarks
      have own : (markWatch marks set).marks (pair.1.marked pair.2).text = [pair.2] := by
        simp [Watch.marks, markWatch, Comment.marked, isMark]
      rw [List.map_cons, Watch.commentMarks_cons, own, ih areMarks]
      rfl

/-- Comments by position. -/
abbrev byPosition (first second : Comment) : Bool :=
  first.span.start ≤ second.span.start

theorem inOrder_mergeSort (comments : List Comment) : InOrder (comments.mergeSort byPosition) := by
  have sorted := @List.pairwise_mergeSort _ byPosition
    (fun first second third => by simpa [byPosition] using Int.le_trans)
    (fun first second => by simpa [byPosition] using Int.le_total _ _) comments
  exact sorted.imp fun before => by simpa [byPosition] using before

/-- A sound and straight file writes the marks of its comments in the order of their positions,
whatever the comments are. -/
theorem File.print_marks {file : File} (sound : Sound .plain (.file file))
    (straight : (Node.file file).Straight) {watch : Watch} (foreign : watch.Foreign)
    (allows : Allows watch (.file file)) (comments : List Comment) :
    ∃ text, ({ file with comments }).print watch.set = .ok text ∧
      watch.marks text = watch.commentMarks (comments.mergeSort byPosition) := by
  have prints : Succeeds (fileLines file) := sound_prints sound
  have keeps : KeepsFile watch file := sound_keeps sound foreign straight allows
  obtain ⟨⟨_, page⟩, linesOk⟩ := prints watch.set { comments := comments.mergeSort byPosition }
  refine ⟨"\n".intercalate page.lines.reverse ++ "\n", ?_, ?_⟩
  · have lines : linesOf watch.set (comments.mergeSort byPosition) (fileLines file) =
        .ok page.lines.reverse := by
      simp only [linesOf, ReaderT.run, StateT.run, linesOk]
      rfl
    exact congrArg (· >>= fun lines => pure ("\n".intercalate lines ++ "\n")) lines
  · have kept := keeps _ _ (inOrder_mergeSort comments) linesOk
    rw [Watch.marks_append, watch.allMarks_intercalate (foreign.plain "\n" rfl), foreign.plain "\n" rfl,
      List.append_nil]
    exact kept

/-- Any file of a session whose comments are marked is printed with each mark once, and with the
marks in the order of the comments' positions. -/
theorem Reachable.print_marked {set : FileSet} {files : List File} (reachable : Reachable set files)
    {file : File} (isFile : file ∈ files) {marks : List Char} (isMarked : file.Marks marks)
    (shown : Option FileSet) :
    ∃ text, (file.marked marks).print shown = .ok text ∧
      text.toList.filter marks.contains = file.marksByPosition marks ∧
      ∀ mark ∈ marks, text.toList.count mark = 1 := by
  obtain ⟨text, printed, marksEq⟩ := File.print_marks (reachable.soundPackage.sound file isFile)
    (reachable.straight file isFile) (isMarked.foreign shown) (isMarked.allows shown)
    (file.comments.zipWith Comment.marked marks)
  have inOrder : text.toList.filter marks.contains = file.marksByPosition marks := by
    have sorted : (file.comments.zipWith Comment.marked marks).mergeSort byPosition =
        ((file.comments.zip marks).mergeSort fun first second =>
          first.1.span.start ≤ second.1.span.start).map fun pair => pair.1.marked pair.2 := by
      rw [← List.map_uncurry_zip_eq_zipWith]
      exact (List.map_mergeSort (f := Function.uncurry Comment.marked) fun _ _ _ _ => rfl).symm
    refine marksEq.trans ?_
    rw [sorted]
    refine commentMarks_marked shown fun pair isPair => ?_
    exact (List.of_mem_zip (List.mem_mergeSort.mp isPair)).2
  refine ⟨text, printed, inOrder, fun mark isMark => ?_⟩
  calc text.toList.count mark
      = (text.toList.filter marks.contains).count mark :=
        (List.count_filter (List.contains_iff_mem.mpr isMark)).symm
    _ = marks.count mark := by rw [inOrder, isMarked.perm_marksByPosition.count_eq]
    _ = 1 := List.count_eq_one_of_mem isMarked.nodup isMark

/-- A file with two comments. -/
def commentedText : String :=
  "package p // a\nvar x = 1 /* b */\n"

/-- What is read from it. -/
def commentedFile : File where
  span := ⟨1, 35⟩
  name := "a.go"
  package := ⟨⟨9, 10⟩, "p"⟩
  decls := [.gen {
    span := ⟨16, 25⟩
    tok := .kwVar
    specs := [.valueSpec ⟨20, 25⟩ [⟨⟨20, 21⟩, "x"⟩] none [.lit ⟨⟨24, 25⟩, .int, "1"⟩]]
    grouped := false }]
  comments := [⟨"// a", ⟨11, 15⟩⟩, ⟨"/* b */", ⟨26, 33⟩⟩]

/-- The lexemes of the file. -/
def commentedLexemes : List Lexeme := [
  ⟨.kwPackage, "package", 1⟩, ⟨.ident, "p", 9⟩, ⟨.semicolon, "\n", 15⟩, ⟨.kwVar, "var", 16⟩,
  ⟨.ident, "x", 20⟩, ⟨.assign, "=", 22⟩, ⟨.int, "1", 24⟩, ⟨.semicolon, "\n", 33⟩,
  ⟨.endOfFile, "", 34⟩]

theorem scan_commentedText : Scan.ofTextIn 1 commentedText = .ok ⟨commentedLexemes, commentedFile.comments⟩ := by
  decide +kernel

theorem parse_commentedText : (File.parse .empty "a.go" commentedText).2 = .ok commentedFile :=
  File.parse_of_scan scan_commentedText rfl

theorem words_commentedFile : (Node.file commentedFile).words = ["p", "var", "x", "1"] := by
  simp [Node.words_eq, Node.ownWords, Node.children, Node.exprChildren, Node.specChildren,
    Node.declChildren, Node.ident, commentedFile, Token.text]

theorem marks_commentedFile : commentedFile.Marks ['@', '#'] where
  length_eq := rfl
  nodup := by decide
  notBlank := by
    rw [List.forall_mem_cons, List.forall_mem_singleton]
    decide
  notInWord := by
    rw [List.forall_mem_cons, List.forall_mem_singleton, words_commentedFile]
    decide
  notInToken mark isMark token isWritten isThere := by
    have each : ∀ token ∈ Token.all, token.isWritten →
        token.text.toList.all fun char => char ∉ ['@', '#'] := by
      decide
    exact of_decide_eq_true
      (List.all_eq_true.mp (each token token.mem_all isWritten) mark isThere) isMark

theorem Reachable.print_marked_sample :
    Reachable (File.parse .empty "a.go" commentedText).1 [commentedFile] ∧
      commentedFile.Marks ['@', '#'] ∧
      ∃ text, (commentedFile.marked ['@', '#']).print (some (File.parse .empty "a.go" commentedText).1) =
          .ok text ∧
        text.toList.filter ['@', '#'].contains = ['@', '#'] ∧
        ∀ mark ∈ ['@', '#'], text.toList.count mark = 1 := by
  have reachable : Reachable (File.parse .empty "a.go" commentedText).1 [commentedFile] :=
    .read (.file .nothing parse_commentedText)
  obtain ⟨text, printed, inOrder, once⟩ :=
    reachable.print_marked List.mem_cons_self marks_commentedFile _
  refine ⟨reachable, marks_commentedFile, text, printed, inOrder.trans ?_, once⟩
  exact congrArg (List.map Prod.snd) (List.mergeSort_of_pairwise (by decide))

end GoMend
