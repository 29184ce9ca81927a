import GoMend.Proofs.Allocation
import GoMend.Proofs.Grammar.StatementProductions
import GoMend.Proofs.Lexeme.Lined

/-!
# Texts that cannot be read

Every text is read or has a fault.  The productions are unrolled often enough for the lexemes of the
text, so that the fault is one of the text, and it lies in one of its lines.
-/

namespace GoMend

open Cursor
open Token (Any)

/-! ### Lines of a text -/

/-- The lines of a text, without the line feeds between them. -/
def linesOfText (text : String) : List (List Char) :=
  text.toList.splitOn '\n'

/-- Characters without a line feed begin the first line. -/
theorem exists_first_line {part : List Char} (plain : '\n' ∉ part) (after : List Char) :
    ∃ line : List Char, ((part ++ after).splitOn '\n')[0]? = some line ∧ part.length ≤ line.length := by
  induction part with
  | nil =>
      obtain ⟨line, others, linesEq⟩ := List.exists_cons_of_ne_nil (List.splitOn_ne_nil '\n' after)
      exact ⟨line, by rw [List.nil_append, linesEq]; rfl, Nat.zero_le _⟩
  | cons char part ih =>
      rw [List.mem_cons, not_or] at plain
      obtain ⟨line, isFirst, le⟩ := ih plain.2
      have notFeed : ¬(char == '\n') = true := by simpa using Ne.symm plain.1
      rw [List.cons_append, List.splitOn_cons_eq_if_modifyHead, if_neg notFeed,
        List.getElem?_modifyHead, if_pos rfl, isFirst]
      exact ⟨char :: line, rfl, Nat.succ_le_succ le⟩

/-- A line feed ends one line more than there are line feeds before it. -/
theorem getElem?_splitOn_after (before after : List Char) :
    ((before ++ '\n' :: after).splitOn '\n')[before.count '\n' + 1]? =
      (after.splitOn '\n')[0]? := by
  induction before with
  | nil => simp [List.splitOn_cons_eq_if_modifyHead]
  | cons char before ih =>
      rw [List.cons_append, List.splitOn_cons_eq_if_modifyHead, List.count_cons]
      split
      · exact ih
      · rw [List.getElem?_modifyHead, if_neg (Nat.succ_ne_zero _)]
        exact ih

/-- Characters without a line feed that follow the beginning of a line belong to that line. -/
theorem exists_line {before part after : List Char}
    (begins : before = [] ∨ ∃ init, before = init ++ ['\n']) (plain : '\n' ∉ part) :
    ∃ line, ((before ++ (part ++ after)).splitOn '\n')[(before ++ part).count '\n']? = some line ∧
      part.length ≤ line.length := by
  obtain ⟨line, isFirst, le⟩ := exists_first_line plain after
  refine ⟨line, ?_, le⟩
  rw [List.count_append, List.count_eq_zero.mpr plain, Nat.add_zero, ← isFirst]
  rcases begins with rfl | ⟨init, rfl⟩
  · rfl
  · rw [List.append_assoc, List.count_append, List.singleton_append]
    exact getElem?_splitOn_after init _

/-- A place that is shown lies in one of the lines, or just after it. -/
theorem Position.Shows.exists_line {position : Position} {name text : String} {offset : Nat}
    (shows : position.Shows name text offset) (inside : offset ≤ text.length) :
    ∃ line, (linesOfText text)[position.line - 1]? = some line ∧
      1 ≤ position.line ∧ 1 ≤ position.column ∧ position.column ≤ line.length + 1 := by
  obtain ⟨start, le, begins, plain, columnEq⟩ := shows.column_eq
  have lineEq := shows.line_eq
  have partLength : ((text.toList.take offset).drop start).length = offset - start := by
    rw [List.length_drop, List.length_take, String.length_toList, Nat.min_eq_left inside]
  have takeEq : text.toList.take start ++ (text.toList.take offset).drop start =
      text.toList.take offset := by
    have split := List.take_append_drop start (text.toList.take offset)
    rwa [List.take_take, Nat.min_eq_left le] at split
  have begins : text.toList.take start = [] ∨ ∃ init, text.toList.take start = init ++ ['\n'] := by
    cases start with
    | zero => exact .inl rfl
    | succ start =>
        have isFeed : text.toList[start]? = some '\n' := begins.resolve_left (Nat.succ_ne_zero start)
        exact .inr ⟨text.toList.take start, by rw [List.take_add_one, isFeed]; rfl⟩
  obtain ⟨line, isLine, lineLe⟩ := @GoMend.exists_line _ _ (text.toList.drop offset) begins plain
  rw [← List.append_assoc, takeEq, List.take_append_drop] at isLine
  refine ⟨line, ?_, by omega, by omega, by omega⟩
  rw [lineEq, Nat.add_sub_cancel_left]
  exact isLine

/-! ### Faults of scanning -/

namespace Piece

theorem read_cause_ne {first : Char} {rest : List Char} {cause : FaultCause}
    (outcome : read first rest = .error cause) : cause ≠ .nestedTooDeeply := by
  unfold read quotedLiteral at outcome
  rintro rfl
  split_ifs at outcome <;> try split at outcome
  all_goals simp_all

theorem ofChars_fails {pos : Pos} {chars : List Char} {fault : Fault}
    (outcome : ofChars pos chars = .error fault) :
    fault.IsFair (fun place => pos ≤ place ∧ place ≤ pos + chars.length) := by
  fun_induction ofChars pos chars generalizing fault with
  | case1 => cases outcome
  | case2 pos first rest cause readOutcome =>
      obtain rfl := Except.error.inj outcome
      exact ⟨read_cause_ne readOutcome, Int.le_refl _, by simp only [List.length_cons]; lia⟩
  | case3 pos first rest piece readOutcome length later laterOutcome =>
      rename_i ih
      obtain rfl := Except.error.inj outcome
      obtain ⟨cause_ne, low, high⟩ := ih laterOutcome
      obtain ⟨solid, begins⟩ := read_solid readOutcome
      have lengthLe := begins.length_le
      rw [List.length_drop] at high
      rw [List.length_cons] at lengthLe
      refine ⟨cause_ne, by lia, ?_⟩
      simp only [List.length_cons]
      lia
  | case4 => cases outcome

end Piece

/-! ### Lexemes of a text -/

namespace Scan

/-- Lexemes of a text from a position on: they stand in the text, and the end of the file, which is
the last one, stands where the text ends. -/
structure Closes (stop pos : Pos) (lexemes : List Lexeme) : Prop where
  last : lexemes.getLast? = some ⟨.endOfFile, "", stop⟩
  within : ∀ lexeme ∈ lexemes, pos ≤ lexeme.pos ∧ lexeme.pos ≤ stop

theorem Closes.cons {stop pos next : Pos} {lexeme : Lexeme} {lexemes : List Lexeme}
    (closes : Closes stop next lexemes) (start : lexeme.pos = pos) (le : pos ≤ next)
    (le_stop : next ≤ stop) : Closes stop pos (lexeme :: lexemes) where
  last := by rw [List.getLast?_cons, closes.last]; rfl
  within := List.forall_mem_cons.mpr ⟨⟨Int.le_of_eq start.symm, by lia⟩, fun other isOther =>
    have bounds := closes.within other isOther
    ⟨le.trans bounds.1, bounds.2⟩⟩

theorem Closes.mono {stop pos next : Pos} {lexemes : List Lexeme}
    (closes : Closes stop next lexemes) (le : pos ≤ next) : Closes stop pos lexemes :=
  ⟨closes.last, fun lexeme isLexeme =>
    have bounds := closes.within lexeme isLexeme
    ⟨le.trans bounds.1, bounds.2⟩⟩

theorem Closes.semicolonAfter {stop pos next : Pos} {lexemes : List Lexeme}
    (closes : Closes stop next lexemes) (last : Option Token) (le : pos ≤ next)
    (le_stop : next ≤ stop) : Closes stop pos (semicolonAfter last pos ++ lexemes) := by
  unfold Scan.semicolonAfter
  split
  · exact closes.cons rfl le le_stop
  · exact closes.mono le

theorem ofPieces_closes {stop pos : Pos} {last : Option Token} {pieces : List (Pos × Piece)}
    (tiles : Piece.Tiles stop pos pieces) : Closes stop pos (ofPieces stop last pieces).lexemes := by
  induction pieces generalizing pos last with
  | nil =>
      obtain rfl : pos = stop := tiles
      have atEnd : Closes pos pos [⟨.endOfFile, "", pos⟩] := ⟨rfl, by simp⟩
      exact atEnd.semicolonAfter last (Int.le_refl pos) (Int.le_refl pos)
  | cons entry pieces ih =>
      obtain ⟨start, piece⟩ := entry
      obtain ⟨rfl, solid, rest⟩ := tiles
      have le : start ≤ start + piece.chars.length := by lia
      cases piece with
      | blank char => exact (ih rest).mono le
      | lineEnd => exact (ih rest).semicolonAfter last le rest.le
      | comment chars =>
          simp only [ofPieces]
          split
          · exact (ih rest).semicolonAfter last le rest.le
          · exact (ih rest).mono le
      | lexeme token chars => exact (ih rest).cons rfl le rest.le

/-- The positions of a text of which the first character has the position `base`. -/
def InText (base : Nat) (text : String) (pos : Pos) : Prop :=
  base ≤ pos ∧ pos ≤ base + text.length

theorem ofText_fails {base : Nat} {text : String} {fault : Fault}
    (outcome : ofText base text = .error fault) : fault.IsFair (InText base text) := by
  unfold ofText at outcome
  split at outcome
  · next failed =>
    obtain rfl := Except.error.inj outcome
    obtain ⟨cause_ne, low, high⟩ := Piece.ofChars_fails failed
    rw [String.length_toList] at high
    exact ⟨cause_ne, low, high⟩
  · cases outcome

/-- The lexemes of a text are closed and stand in the text. -/
theorem ofText_stands {base : Nat} {text : String} {scan : Scan}
    (outcome : ofText base text = .ok scan) : ∃ first rest, scan.lexemes = first :: rest ∧
      ∀ prevStop level, Cursor.Stands (InText base text) ⟨first, rest, prevStop, level⟩ := by
  unfold ofText at outcome
  split at outcome
  · cases outcome
  · next pieces piecesOutcome =>
    obtain rfl := Except.ok.inj outcome
    have tiles := Piece.ofChars_tiles piecesOutcome
    rw [String.length_toList] at tiles
    have closes : Closes (base + text.length : Nat) base
        (ofPieces (base + text.length : Nat) none pieces).lexemes := by
      refine ofPieces_closes ?_
      push_cast
      exact tiles
    generalize (ofPieces (base + text.length : Nat) none pieces).lexemes = lexemes at closes
    cases lexemes with
    | nil => cases closes.last
    | cons first rest =>
        refine ⟨first, rest, rfl, fun prevStop level => ⟨?_, fun lexeme isLexeme => ?_⟩⟩
        · have isLast := closes.last
          rw [List.getLast?_eq_some_getLast (List.cons_ne_nil first rest)] at isLast
          exact congrArg Lexeme.token (Option.some.inj isLast)
        · have bounds := closes.within lexeme isLexeme
          refine ⟨bounds.1, ?_⟩
          have high := bounds.2
          push_cast at high
          exact high

end Scan

/-! ### Reading a file -/

/-- A `switch` over types has a guard. -/
theorem Parse.isTypeGuard_of_switchStmt {rules : Rules} {cursor after : Cursor} {span : Span}
    {init : Option Stmt} {guard : Stmt} {body : Block}
    (outcome : switchStmt rules cursor = .ok (.typeSwitch span init guard body, after)) :
    guard.isTypeGuard := by
  simp only [switchStmt, bind_eq_ok] at outcome
  obtain ⟨_, _, -, ⟨_, tag⟩, _, -, _, _, -, _, _, -, _, _, -, outcome⟩ := outcome
  cases tag with
  | none => cases (pure_eq_ok.mp outcome).1
  | some tag =>
      rcases ite_eq_ok.mp outcome with ⟨isGuard, outcome⟩ | ⟨-, outcome⟩
      · cases (pure_eq_ok.mp outcome).1
        exact isGuard
      · cases tag with
        | expr => cases (pure_eq_ok.mp outcome).1
        | _ => exact absurd outcome failAt_ne_ok

/-- The cursors at which productions can arrive: they go to the next lexeme and change the nesting, and
do nothing else to a cursor. -/
inductive Cursor.Reached (first : Cursor) : Cursor → Prop where
  | here : Reached first first
  | next {cursor : Cursor} (before : Reached first cursor) : Reached first cursor.next
  | level {cursor : Cursor} (before : Reached first cursor) (level : Int) :
      Reached first { cursor with level }

/-- On closed lexemes there is always a lexeme to go to. -/
theorem Cursor.Reached.stands {valid : Pos → Prop} {first cursor : Cursor}
    (reached : first.Reached cursor) (stands : first.Stands valid) : cursor.Stands valid := by
  induction reached with
  | here => exact stands
  | next _ ih => exact ih.next
  | level _ level ih => exact ih.withLevel level

theorem Cursor.IsClosed.ahead_ne_nil {cursor : Cursor} (closed : cursor.IsClosed)
    (notEnd : cursor.current.token ≠ .endOfFile) : cursor.ahead ≠ [] := by
  obtain ⟨current, ahead, prevStop, level⟩ := cursor
  rintro rfl
  exact notEnd closed

/-- The error of a file lies in one of its lines, or just after it, and is no matter of unrolling. -/
structure ParseError.LiesIn (error : ParseError) (name text : String) : Prop where
  file_eq : error.file = name
  cause_ne : error.cause ≠ .nestedTooDeeply
  one_le_line : 1 ≤ error.line
  one_le_column : 1 ≤ error.column
  column_le : ∃ line, (linesOfText text)[error.line - 1]? = some line ∧ error.column ≤ line.length + 1

theorem ParseError.ofFault_liesIn {fault : Fault} {base : Nat} {text : String}
    (fair : fault.IsFair (Scan.InText base text)) (name : String) :
    (ofFault (.ofText name base text) fault).LiesIn name text := by
  obtain ⟨cause_ne, low, high⟩ := fair
  obtain ⟨offset, posEq⟩ : ∃ offset : Nat, fault.pos = (base + offset : Nat) :=
    ⟨(fault.pos - base).toNat, by lia⟩
  have inside : offset ≤ text.length := by lia
  have shows := SourceFile.position_shows name base text offset
  obtain ⟨line, isLine, one_le_line, one_le_column, column_le⟩ := shows.exists_line inside
  rw [← posEq] at isLine one_le_line one_le_column column_le
  exact ⟨rfl, cause_ne, one_le_line, one_le_column, line, isLine, column_le⟩

/-- The productions are unrolled often enough for the lexemes of a text. -/
theorem File.ofScan_fails {base : Nat} {name text : String} {scan : Scan} {fault : Fault}
    (scanned : Scan.ofText base text = .ok scan)
    (outcome : ofScan (.ofText name base text) scan = .error fault) :
    fault.IsFair (Scan.InText base text) := by
  obtain ⟨first, rest, lexemesEq, stands⟩ := Scan.ofText_stands scanned
  unfold ofScan at outcome
  simp only [lexemesEq] at outcome
  split at outcome
  · next failed =>
    obtain rfl := Except.error.inj outcome
    have behave : (Rules.ofDepth (unrollDepth (first :: rest).length)).Behave
        (Scan.InText base text) rest.length := by
      refine (Rules.ofDepth_behaves _).narrow ?_ ?_ ?_ <;>
        simp only [unrollDepth, List.length_cons] <;> omega
    exact (Parse.fileContent_behaves behave).fails (stands _ _) trivial (Nat.lt_succ_self _) failed
  · cases outcome

/-- Reading a file ends with a tree or with an error that lies in the text.  Productions never go past
the last lexeme, and a `switch` is only read as one over types when there is a guard. -/
theorem File.parse_ends (set : FileSet) (name text : String) :
    (∀ error, (parse set name text).2 = .error error → error.LiesIn name text) ∧
      (∀ scan, Scan.ofText set.nextBase text = .ok scan → ∃ first rest, scan.lexemes = first :: rest ∧
        ∀ cursor, Cursor.Reached ⟨first, rest, set.nextBase, 0⟩ cursor →
          cursor.current.token ≠ .endOfFile → cursor.ahead ≠ []) ∧
      ∀ depth cursor span init guard body after, Parse.switchStmt (Rules.ofDepth depth) cursor =
        .ok (.typeSwitch span init guard body, after) → guard.isTypeGuard := by
  refine ⟨fun error outcome => ?_, fun scan scanned => ?_, ?_⟩
  · have failed : ofText (.ofText name set.nextBase text) text = .error error := outcome
    unfold ofText at failed
    split at failed
    · next fault scanFailed =>
      obtain rfl := Except.error.inj failed
      exact ParseError.ofFault_liesIn (Scan.ofText_fails scanFailed) name
    · next scan scanned =>
      cases parsed : ofScan (.ofText name set.nextBase text) scan with
      | ok file =>
          rw [parsed] at failed
          cases failed
      | error fault =>
          rw [parsed] at failed
          obtain rfl := Except.error.inj failed
          exact ParseError.ofFault_liesIn (ofScan_fails scanned parsed) name
  · obtain ⟨first, rest, lexemesEq, stands⟩ := Scan.ofText_stands scanned
    exact ⟨first, rest, lexemesEq, fun cursor reached notEnd =>
      (reached.stands (stands _ _)).closed.ahead_ne_nil notEnd⟩
  · exact fun _ _ _ _ _ _ _ outcome => Parse.isTypeGuard_of_switchStmt outcome

end GoMend
