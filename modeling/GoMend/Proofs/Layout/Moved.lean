import GoMend.Proofs.Grammar.Moved
import GoMend.Proofs.Layout.Alike

/-!
# Printing a file that was moved

Where a file begins in a set of files does not show when it is printed.  If the whole range of a file
is moved, and another set of files shows it on the same lines, then the file is printed there as it is
here.
-/

namespace GoMend

/-! ### Ranges that are moved as a whole -/

/-- A range of positions that is moved as a whole, from one set of files to another one that shows it
on the same lines. -/
structure SameLines (low high : Pos) (distance : Int) (set set' : FileSet) : Prop where
  begins : 0 < low
  stays : 0 < low + distance
  line_eq : ∀ pos, low ≤ pos → pos ≤ high →
    (set'.position (pos + distance)).line = (set.position pos).line

/-- A position before all files, or one of a range that is moved. -/
def MovedPos (low high : Pos) (distance : Int) (pos pos' : Pos) : Prop :=
  pos ≤ noPos ∧ pos' = pos ∨ low ≤ pos ∧ pos ≤ high ∧ pos' = pos + distance

theorem MovedPos.before {low high pos pos' : Pos} {distance : Int}
    (moved : MovedPos (low + 1) high distance pos pos') :
    MovedPos low high distance (pos - 1) (pos' - 1) := by
  obtain ⟨le, rfl⟩ | ⟨lowLe, leHigh, rfl⟩ := moved
  · exact .inl ⟨by lia, rfl⟩
  · exact .inr ⟨by lia, by lia, by lia⟩

theorem MovedPos.mono {low high pos pos' : Pos} {distance : Int}
    (moved : MovedPos (low + 1) high distance pos pos') : MovedPos low high distance pos pos' :=
  moved.imp id fun inside => ⟨by lia, inside.2⟩

/-- A position that is kept in a range and then moved. -/
theorem movedPos_clamp {low high : Pos} {distance : Int} {place : Pos → Pos}
    (absent : place noPos = noPos) (shifts : Shifts place low high distance) (hasRoom : low ≤ high)
    (pos : Pos) : MovedPos low high distance (clamp low high pos) (place (clamp low high pos)) := by
  unfold clamp
  split
  · exact .inl ⟨Int.le_refl _, absent⟩
  · exact .inr ⟨by lia, by lia, shifts _ (by lia) (by lia)⟩

/-- There is no line of a position before all files. -/
theorem lineIn_of_le_noPos (set : FileSet) {pos : Pos} (before : pos ≤ noPos) :
    Layout.lineIn (some set) pos = 0 := by
  unfold Layout.lineIn
  dsimp only
  split
  · rfl
  · next present =>
      have notFound : set.files.find? (·.contains pos) = none := by
        refine List.find?_eq_none.mpr fun file _ => ?_
        simp only [noPos, SourceFile.contains, Bool.and_eq_true, decide_eq_true_eq] at before present ⊢
        lia
      rw [FileSet.position, FileSet.file?, notFound, ite_self]

namespace SameLines

variable {low high pos pos' other other' : Pos} {distance : Int} {set set' : FileSet}
  (same : SameLines low high distance set set') (moved : MovedPos low high distance pos pos')

include same moved

theorem eq_noPos_iff : pos' = noPos ↔ pos = noPos := by
  have begins := same.begins
  have stays := same.stays
  unfold MovedPos at moved
  simp only [noPos] at moved ⊢
  lia

theorem le_noPos_iff : pos' ≤ noPos ↔ pos ≤ noPos := by
  have begins := same.begins
  have stays := same.stays
  unfold MovedPos at moved
  simp only [noPos] at moved ⊢
  lia

theorem lt_iff (otherMoved : MovedPos low high distance other other') :
    pos' < other' ↔ pos < other := by
  have begins := same.begins
  have stays := same.stays
  unfold MovedPos at moved otherMoved
  simp only [noPos] at moved otherMoved
  lia

theorem lineIn_eq : Layout.lineIn (some set') pos' = Layout.lineIn (some set) pos := by
  have begins := same.begins
  have stays := same.stays
  obtain ⟨le, rfl⟩ | ⟨lowLe, leHigh, rfl⟩ := moved
  · rw [lineIn_of_le_noPos set le, lineIn_of_le_noPos set' le]
  · have present : pos ≠ noPos := by rw [noPos]; lia
    have present' : pos + distance ≠ noPos := by rw [noPos]; lia
    rw [Layout.lineIn, Layout.lineIn, if_neg present, if_neg present']
    exact same.line_eq pos lowLe leHigh

end SameLines

namespace Layout

/-! ### Two views of a moved file -/

/-- A comment before and after it was moved. -/
structure MovedComment (low high : Pos) (distance : Int) (comment comment' : Comment) : Prop where
  text : comment'.text = comment.text
  start : MovedPos low high distance comment.span.start comment'.span.start
  stop : MovedPos low high distance comment.span.stop comment'.span.stop

/-- Comments before and after they were moved. -/
abbrev MovedComments (low high : Pos) (distance : Int) : List Comment → List Comment → Prop :=
  List.Forall₂ (MovedComment low high distance)

/-- A file before and after it was moved.  A node stands behind the first position of its file, so
that the position before the node belongs to the file too. -/
def Views.moved (low high : Pos) (distance : Int) (place : Pos → Pos) (set set' : FileSet) : Views where
  place := clamp (low + 1) high
  place' := place ∘ clamp (low + 1) high
  set := some set
  set' := some set'
  comments := MovedComments low high distance

section

variable {low high pos pos' : Pos} {distance : Int} {place : Pos → Pos} {set set' : FileSet}

/-- The comments before a position and those behind it. -/
theorem movedComments_split (same : SameLines low high distance set set')
    {comments comments' : List Comment} (moved : MovedPos low high distance pos pos')
    (movedComments : MovedComments low high distance comments comments') :
    MovedComments low high distance (comments.takeWhile (·.span.start < pos))
        (comments'.takeWhile (·.span.start < pos')) ∧
      MovedComments low high distance (comments.dropWhile (·.span.start < pos))
        (comments'.dropWhile (·.span.start < pos')) := by
  induction movedComments with
  | nil => exact ⟨.nil, .nil⟩
  | @cons comment comment' _ _ first others ih =>
      have sameSide := same.lt_iff first.start moved
      simp only [List.takeWhile_cons, List.dropWhile_cons, sameSide]
      by_cases before : comment.span.start < pos
      · simp only [before, decide_true, if_true]
        exact ⟨.cons first ih.1, ih.2⟩
      · simp only [before, decide_false, Bool.false_eq_true, if_false]
        exact ⟨.nil, .cons first others⟩

theorem forM_comments_alike {action : Comment → Print PUnit} {comments comments' : List Comment}
    (each : ∀ comment comment', MovedComment low high distance comment comment' →
      (Views.moved low high distance place set set').Alike (action comment) (action comment'))
    (moved : MovedComments low high distance comments comments') :
    (Views.moved low high distance place set set').Alike (comments.forM action)
      (comments'.forM action) := by
  induction moved with
  | nil => exact .pure _
  | cons first others ih => exact .bind (each _ _ first) fun _ => ih

variable (same : SameLines low high distance set set')

include same

theorem bind_takeComments {α : Type} {next next' : List Comment → Print α}
    (moved : MovedPos low high distance pos pos')
    (nextAlike : ∀ pending pending', MovedComments low high distance pending pending' →
      (Views.moved low high distance place set set').Alike (next pending) (next' pending')) :
    (Views.moved low high distance place set set').Alike (takeComments pos >>= next)
      (takeComments pos' >>= next') := by
  intro page page' pages
  obtain ⟨taken, dropped⟩ := movedComments_split same moved pages.comments
  exact nextAlike _ _ taken _ _ ⟨pages.lines, pages.indent, dropped, pages.lastLine⟩

theorem leadingComment_alike {comment comment' : Comment}
    (moved : MovedComment low high distance comment comment') :
    (Views.moved low high distance place set set').Alike (leadingComment comment)
      (leadingComment comment') := by
  refine .bind (lineOf_alike (same.lineIn_eq moved.start)) fun line =>
    .bind_get fun page page' pages => .bind hasOpenLine_alike fun isOpen => ?_
  rw [pages.lastLine, moved.text]
  exact .ite Iff.rfl
    (fun _ => .bind (appendToLine_alike _) fun _ => finish_alike (same.lineIn_eq moved.stop))
    fun _ => .bind (blankLineBefore_alike line) fun _ => .bind (emit_alike _) fun _ =>
      finish_alike (same.lineIn_eq moved.stop)

theorem trailingComment_alike {comment comment' : Comment}
    (moved : MovedComment low high distance comment comment') :
    (Views.moved low high distance place set set').Alike (trailingComment comment)
      (trailingComment comment') := by
  have ending : (Views.moved low high distance place set set').Alike
      (do
        let stopLine ← lineOf comment.span.stop
        modify fun page => { page with lastLine := stopLine })
      (do
        let stopLine ← lineOf comment'.span.stop
        modify fun page => { page with lastLine := stopLine }) :=
    .bind (lineOf_alike (same.lineIn_eq moved.stop)) fun stopLine => .modify fun page page' pages =>
      ⟨pages.lines, pages.indent, pages.comments, rfl⟩
  refine .bind (lineOf_alike (same.lineIn_eq moved.start)) fun line =>
    .bind_get fun page page' pages => .bind hasOpenLine_alike fun isOpen => ?_
  rw [pages.lastLine, moved.text]
  refine .ite Iff.rfl (fun _ => .bind (appendToLine_alike _) fun _ => ending) fun _ => ?_
  exact .ite Iff.rfl (fun _ => .bind blankLine_alike fun _ => .bind (emit_alike _) fun _ => ending)
    fun _ => .bind (emit_alike _) fun _ => ending

theorem addComment_alike {comment comment' : Comment}
    (moved : MovedComment low high distance comment comment') (rows : Rows) :
    (Views.moved low high distance place set set').Alike (rows.addComment comment)
      (rows.addComment comment') := by
  refine .bind (lineOf_alike (same.lineIn_eq moved.start)) fun line =>
    .bind (lineOf_alike (same.lineIn_eq moved.stop)) fun stopLine => ?_
  rw [moved.text, Row.ofComment, Row.ofComment, moved.text]
  cases rows.rows with
  | nil => exact .pure _
  | cons last others => exact .ite Iff.rfl (fun _ => .pure _) fun _ => .pure _

theorem advance_alike (moved : MovedPos low high distance pos pos') (separate : Bool) :
    (Views.moved low high distance place set set').Alike (advance pos separate)
      (advance pos' separate) := by
  refine .ite (same.eq_noPos_iff moved).symm (fun _ => .pure _) fun _ =>
    bind_takeComments same moved fun pending pending' movedPending => ?_
  have rest : (Views.moved low high distance place set set').Alike
      (do
        pending.forM leadingComment
        if !pending.isEmpty then blankLineBefore (← lineOf pos))
      (do
        pending'.forM leadingComment
        if !pending'.isEmpty then blankLineBefore (← lineOf pos')) := by
    have sameEmpty : pending'.isEmpty = pending.isEmpty := by
      cases movedPending <;> rfl
    refine .bind (forM_comments_alike (fun _ _ => leadingComment_alike same) movedPending) fun _ => ?_
    rw [sameEmpty]
    refine .ite Iff.rfl (fun _ => ?_) fun _ => .pure _
    exact .bind (lineOf_alike (same.lineIn_eq moved)) fun line => blankLineBefore_alike line
  refine .ite Iff.rfl (fun _ => .bind blankLine_alike fun _ => rest) fun _ =>
    .bind (lineOf_alike ?_) fun line => .bind (blankLineBefore_alike line) fun _ => rest
  cases movedPending with
  | nil => exact same.lineIn_eq moved
  | cons first others => exact same.lineIn_eq first.start

theorem addComments_alike (moved : MovedPos low high distance pos pos') (rows : Rows) :
    (Views.moved low high distance place set set').Alike (rows.addComments pos)
      (rows.addComments pos') := by
  refine .ite (same.le_noPos_iff moved).symm (fun _ => .pure _) fun _ =>
    bind_takeComments same moved fun pending pending' movedPending => ?_
  induction movedPending generalizing rows with
  | nil => exact .pure _
  | cons first others ih => exact .bind (addComment_alike same first rows) fun rows => ih rows

theorem staysOnOneLine_alike {span span' : Span}
    (start : MovedPos low high distance span.start span'.start)
    (stop : MovedPos (low + 1) high distance span.stop span'.stop) :
    (Views.moved low high distance place set set').Alike (staysOnOneLine span)
      (staysOnOneLine span') := by
  have samePositioned : span'.isPositioned = span.isPositioned := by
    rw [Bool.eq_iff_iff]
    simp [Span.isPositioned, same.eq_noPos_iff start]
  refine .ite (by rw [samePositioned]) (fun _ => .pure _) fun _ =>
    .bind_get fun page page' pages => .ite ?_ (fun _ => .pure _) fun _ =>
      .bind (lineOf_alike (same.lineIn_eq start)) fun first =>
        .bind (lineOf_alike (same.lineIn_eq stop.before)) fun last => .pure _
  have comments : MovedComments low high distance page.comments page'.comments := pages.comments
  generalize page.comments = comments, page'.comments = comments' at comments ⊢
  cases comments with
  | nil => rfl
  | cons first others => simp [same.lt_iff first.start stop.mono]

/-- What is seen of a moved file is the same before and after the move. -/
theorem Views.moved_agree (absent : place noPos = noPos)
    (shifts : Shifts place low high distance) (hasRoom : low + 1 ≤ high) :
    (Views.moved low high distance place set set').Agree := by
  have node (pos : Pos) : MovedPos (low + 1) high distance (clamp (low + 1) high pos)
      (place (clamp (low + 1) high pos)) :=
    movedPos_clamp absent (shifts.mono (by lia) (Int.le_refl _)) hasRoom pos
  have isColon (colon : Pos) : place (clamp (low + 1) high colon) = noPos ↔
      clamp (low + 1) high colon = noPos := same.eq_noPos_iff (node colon).mono
  refine ⟨fun pos => same.lineIn_eq (node pos).mono, fun pos => same.lineIn_eq (node pos).before,
    fun start colon => ?_, fun pos => advance_alike same (node pos).mono false, fun span => ?_,
    fun rows pos => addComments_alike same (node pos).mono rows,
    fun rows pos => addComments_alike same (node pos).before rows,
    fun span => staysOnOneLine_alike same (node _).mono (node _)⟩
  · have chosen : MovedPos low high distance
        (if clamp (low + 1) high colon = noPos then clamp (low + 1) high start
        else clamp (low + 1) high colon)
        (if place (clamp (low + 1) high colon) = noPos then place (clamp (low + 1) high start)
        else place (clamp (low + 1) high colon)) := by
      simp only [isColon]
      split
      · exact (node start).mono
      · exact (node colon).mono
    exact same.lineIn_eq chosen
  · have samePositioned : (span.relocated (place ∘ clamp (low + 1) high)).isPositioned =
        (span.relocated (clamp (low + 1) high)).isPositioned := by
      rw [Bool.eq_iff_iff]
      simp [Span.isPositioned, isColon]
    exact .ite (iff_of_eq (congrArg (· = true) samePositioned.symm))
      (fun _ => advance_alike same (node span.stop).before false) fun _ => .pure _

/-! ### Declarations and files -/

theorem declList_alike (absent : place noPos = noPos) (shifts : Shifts place low high distance)
    (hasRoom : low + 1 ≤ high) (prev : Option Token) (items : List Decl) :
    (Views.moved low high distance place set set').Alike
      (declList prev (items.map (Decl.relocated (clamp (low + 1) high))))
      (declList prev (items.map (Decl.relocated (place ∘ clamp (low + 1) high)))) := by
  have agree := @Views.moved_agree low high distance place set set' same absent shifts hasRoom
  have node (pos : Pos) : MovedPos low high distance (clamp (low + 1) high pos)
      (place (clamp (low + 1) high pos)) :=
    (movedPos_clamp absent (shifts.mono (by lia) (Int.le_refl _)) hasRoom pos).mono
  induction items generalizing prev with
  | nil => exact .pure _
  | cons item items ih =>
      have samePositioned :
          (item.span.relocated (place ∘ clamp (low + 1) high)).isPositioned =
            (item.span.relocated (clamp (low + 1) high)).isPositioned := by
        rw [Bool.eq_iff_iff]
        simp [Span.isPositioned, same.eq_noPos_iff (node _)]
      have rest : (Views.moved low high distance place set set').Alike
          (do
            declLines (item.relocated (clamp (low + 1) high))
            finish (clamp (low + 1) high item.span.stop)
            declList (some (declKeyword item)) (items.map (Decl.relocated (clamp (low + 1) high))))
          (do
            declLines (item.relocated (place ∘ clamp (low + 1) high))
            finish (place (clamp (low + 1) high item.span.stop))
            declList (some (declKeyword item))
              (items.map (Decl.relocated (place ∘ clamp (low + 1) high)))) :=
        .bind (declLines_alike agree item) fun _ =>
          .bind (finish_alike (same.lineIn_eq (node _))) fun _ => ih _
      simp only [List.map_cons, declList, declKeyword_relocated, Decl.span_relocated, samePositioned]
      exact .ite Iff.rfl (fun _ => .bind (advance_alike same (node _) _) fun _ => rest) fun _ =>
        .bind blankLine_alike fun _ => rest

end

/-- The comments of a settled file are moved with it. -/
theorem movedComment_of_settled {file : File} (settled : file.IsSettled) {place : Pos → Pos}
    {distance : Int} (absent : place noPos = noPos)
    (shifts : Shifts place file.span.start (file.span.stop - 1) distance) {comment : Comment}
    (isComment : comment ∈ file.comments) :
    MovedComment file.span.start (file.span.stop - 1) distance comment (comment.relocated place) := by
  have hasRoom := settled.hasRoom
  have kept := List.map_inj_left.mp (settled.comments.trans (List.map_id _).symm) comment isComment
  have moved (pos : Pos) (posKept : clamp file.span.start (file.span.stop - 1) pos = pos) :
      MovedPos file.span.start (file.span.stop - 1) distance pos (place pos) := by
    have inRange := movedPos_clamp absent shifts (by lia) pos
    rwa [posKept] at inRange
  exact ⟨rfl, moved _ (congrArg (·.span.start) kept), moved _ (congrArg (·.span.stop) kept)⟩

theorem fileLines_alike {file : File} (settled : file.IsSettled) {place : Pos → Pos}
    {distance : Int} {set set' : FileSet} (absent : place noPos = noPos)
    (shifts : Shifts place file.span.start (file.span.stop - 1) distance)
    (same : SameLines file.span.start (file.span.stop - 1) distance set set') :
    (Views.moved file.span.start (file.span.stop - 1) distance place set set').Alike
      (fileLines file) (fileLines (file.relocated place)) := by
  let keep := clamp (file.span.start + 1) (file.span.stop - 1)
  have hasRoom := settled.hasRoom
  have node (pos : Pos) (kept : keep pos = pos) :
      MovedPos file.span.start (file.span.stop - 1) distance pos (place pos) := by
    have inRange := (movedPos_clamp absent (shifts.mono (by lia) (Int.le_refl _)) hasRoom pos).mono
    rwa [show clamp (file.span.start + 1) (file.span.stop - 1) pos = pos from kept] at inRange
  have startMoved := node file.package.span.start (congrArg (·.span.start) settled.package)
  have stopMoved := node file.package.span.stop (congrArg (·.span.stop) settled.package)
  have declsEq : file.decls.map (Decl.relocated place) =
      file.decls.map (Decl.relocated (place ∘ keep)) := by
    conv_lhs => rw [← settled.decls, List.map_map]
    exact List.map_congr_left fun item _ => item.relocated_relocated keep place
  have decls := @declList_alike _ _ _ place _ _ same absent shifts hasRoom none file.decls
  rw [settled.decls, ← declsEq] at decls
  refine .bind (advance_alike same startMoved false) fun _ => .bind (emit_alike _) fun _ =>
    .bind (finish_alike (same.lineIn_eq stopMoved)) fun _ => .bind decls fun _ =>
      .bind_get fun page page' pages => .bind (.modify fun page page' pages => ?_) fun _ =>
        forM_comments_alike (fun _ _ => trailingComment_alike same) pages.comments
  exact ⟨pages.lines, pages.indent, .nil, pages.lastLine⟩

theorem linesOf_alike {views : Views} {comments comments' : List Comment}
    {printed printed' : Print Unit} (alike : views.Alike printed printed')
    (same : views.comments comments comments') :
    linesOf views.set' comments' printed' = linesOf views.set comments printed := by
  have outcomes := alike { comments } { comments := comments' } ⟨rfl, rfl, same, rfl⟩
  show (printed' views.set' { comments := comments' } >>= fun result =>
      pure result.2.lines.reverse) =
    (printed views.set { comments } >>= fun result => pure result.2.lines.reverse)
  revert outcomes
  generalize printed views.set { comments } = outcome,
    printed' views.set' { comments := comments' } = outcome'
  rintro (pages | error)
  · exact congrArg (fun lines : List String => Except.ok lines.reverse) pages.lines
  · rfl

end Layout

/-- A file that is moved as a whole is printed as before by a set of files that shows it on the same
lines. -/
theorem File.print_moved {file : File} (settled : file.IsSettled) {place : Pos → Pos}
    {distance : Int} {set set' : FileSet} (absent : place noPos = noPos)
    (shifts : Shifts place file.span.start (file.span.stop - 1) distance)
    (same : SameLines file.span.start (file.span.stop - 1) distance set set') :
    (file.relocated place).print (some set') = file.print (some set) := by
  have comments : ∀ comment ∈ file.comments, Layout.MovedComment file.span.start
      (file.span.stop - 1) distance comment (comment.relocated place) :=
    fun comment => Layout.movedComment_of_settled settled absent shifts
  have sorted : (file.comments.map (Comment.relocated place)).mergeSort
        (fun first second => first.span.start ≤ second.span.start) =
      (file.comments.mergeSort fun first second => first.span.start ≤ second.span.start).map
        (Comment.relocated place) := by
    refine (List.map_mergeSort fun first isFirst second isSecond => ?_).symm
    have ltIff := same.lt_iff (comments second isSecond).start (comments first isFirst).start
    rw [decide_eq_decide, ← Int.not_lt, ← Int.not_lt]
    exact not_congr ltIff.symm
  let byStart := fun first second : Comment => decide (first.span.start ≤ second.span.start)
  have sortedMoved : Layout.MovedComments file.span.start (file.span.stop - 1) distance
      (file.comments.mergeSort byStart)
      ((file.comments.mergeSort byStart).map (Comment.relocated place)) :=
    List.forall₂_map_right_iff.mpr (List.forall₂_same.mpr fun comment isComment =>
      comments comment (List.mem_mergeSort.mp isComment))
  have lines := Layout.linesOf_alike (Layout.fileLines_alike settled absent shifts same) sortedMoved
  rw [print, print]
  simp only [relocated] at lines ⊢
  rw [sorted]
  exact congrArg (fun lines : Except PrintError (List String) => do
    let lines ← lines
    return "\n".intercalate lines ++ "\n") lines

end GoMend
