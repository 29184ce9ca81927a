import Mathlib.Data.List.Chain
import GoMend.Proofs.Grammar.Moved
import GoMend.Proofs.Lexeme.Evaluation

/-!
# Nothing is lost in scanning

Every lexeme and every comment is a slice of the text at its position.  The slices follow each other, and
there is only white space between them.  The lexemes that have no slice are the end of the file and the
semicolons for line ends, each of which follows a lexeme that can end a statement.
-/

namespace GoMend

/-- A semicolon that stands for a line end. -/
def Lexeme.isInserted (lexeme : Lexeme) : Bool :=
  lexeme.token = .semicolon && lexeme.text = "\n"

/-- A lexeme that is written in the text. -/
def Lexeme.isWritten (lexeme : Lexeme) : Bool :=
  lexeme.token ≠ .endOfFile && !lexeme.isInserted

/-- The characters of a text between two positions, where the first one has the position `base`. -/
def between (base : Nat) (text : String) (start stop : Pos) : List Char :=
  (text.toList.drop (start - base).toNat).take (stop - start).toNat

/-! ### Pieces -/

namespace Piece

/-- A blank is a separator, and a lexeme is not the end of the file. -/
structure Plain (piece : Piece) : Prop where
  blank : ∀ char, piece = .blank char → isSeparator char
  notEnd : ∀ token chars, piece = .lexeme token chars → token ≠ .endOfFile

theorem Plain.lexeme {token : Token} {chars : List Char} (notEnd : token ≠ .endOfFile) :
    Plain (.lexeme token chars) := by
  refine ⟨by simp, fun other others same => ?_⟩
  rwa [← (Piece.lexeme.inj same).1]

theorem quotedLiteral_plain {quote : Char} {token : Token} {kind : String} {rest : List Char}
    {piece : Piece} (notEnd : token ≠ .endOfFile)
    (outcome : quotedLiteral quote token kind rest = .ok piece) : piece.Plain := by
  unfold quotedLiteral at outcome
  split at outcome
  · cases outcome
  · obtain rfl := Except.ok.inj outcome
    exact .lexeme notEnd

theorem numberToken_ne_end (text : List Char) : Literal.numberToken text ≠ .endOfFile := by
  unfold Literal.numberToken
  repeat' split
  all_goals simp

theorem word_plain (chars : List Char) : (word chars).Plain := by
  unfold word
  cases found : Token.keyword? (String.ofList chars) with
  | none => exact .lexeme (by decide)
  | some token =>
      refine .lexeme ?_
      rintro rfl
      have isKeyword := List.find?_some found
      simp [Token.isKeyword] at isKeyword

theorem leadingOperator?_plain {chars text : List Char} {token : Token}
    (found : Token.leadingOperator? chars = some (text, token)) : (Piece.lexeme token text).Plain := by
  have isOperator : (text, token) ∈ (Token.all.filter Token.isOperator).map
      fun token => (token.text.toList, token) :=
    (List.mergeSort_perm _ _).mem_iff.mp (List.mem_of_find?_eq_some found)
  obtain ⟨_, isToken, entryEq⟩ := List.mem_map.mp isOperator
  obtain ⟨rfl, rfl⟩ := Prod.mk.inj entryEq
  refine .lexeme ?_
  rintro rfl
  exact absurd (List.mem_filter.mp isToken).2 (by decide)

theorem read_plain {first : Char} {rest : List Char} {piece : Piece}
    (outcome : read first rest = .ok piece) : piece.Plain := by
  have comment (chars : List Char) : (Piece.comment chars).Plain := ⟨by simp, by simp⟩
  unfold read at outcome
  split at outcome
  · obtain rfl := Except.ok.inj outcome
    exact ⟨by simp, by simp⟩
  split at outcome
  · next separates =>
    obtain rfl := Except.ok.inj outcome
    exact ⟨fun char same => Piece.blank.inj same ▸ separates, by simp⟩
  split at outcome
  · obtain rfl := Except.ok.inj outcome
    exact comment _
  split at outcome
  · split at outcome
    · cases outcome
    · obtain rfl := Except.ok.inj outcome
      exact comment _
  split at outcome
  · obtain rfl := Except.ok.inj outcome
    exact word_plain _
  split at outcome
  · split at outcome
    · cases outcome
    · obtain rfl := Except.ok.inj outcome
      exact .lexeme (numberToken_ne_end _)
  split at outcome
  · exact quotedLiteral_plain (by decide) outcome
  split at outcome
  · split at outcome
    · cases outcome
    · obtain rfl := Except.ok.inj outcome
      exact .lexeme (by decide)
  split at outcome
  · exact quotedLiteral_plain (by decide) outcome
  split at outcome
  · cases outcome
  · next text token found =>
    obtain rfl := Except.ok.inj outcome
    exact leadingOperator?_plain found

theorem ofChars_plain {pos : Pos} {chars : List Char} {pieces : List (Pos × Piece)}
    (outcome : ofChars pos chars = .ok pieces) : ∀ entry ∈ pieces, entry.2.Plain := by
  fun_induction ofChars pos chars generalizing pieces with
  | case1 =>
      obtain rfl := Except.ok.inj outcome
      simp
  | case2 => cases outcome
  | case3 => cases outcome
  | case4 pos first rest piece readOutcome length later laterOutcome =>
      rename_i ih
      obtain rfl := Except.ok.inj outcome
      exact List.forall_mem_cons.mpr ⟨read_plain readOutcome, ih laterOutcome⟩

end Piece

/-! ### Pieces of a text -/

/-- Pieces that make up a text from a position on. -/
structure Rest (base : Nat) (text : String) (pos : Pos) (pieces : List (Pos × Piece)) : Prop where
  base_le : base ≤ pos
  tiles : Piece.Tiles (base + text.length : Nat) pos pieces
  chars_eq : text.toList.drop (pos - base).toNat = Piece.allChars pieces
  plain : ∀ entry ∈ pieces, entry.2.Plain

variable {base : Nat} {text : String} {pos start : Pos} {piece : Piece} {pieces : List (Pos × Piece)}

theorem Scan.exists_rest {scan : Scan} (outcome : ofText base text = .ok scan) :
    ∃ pieces, Rest base text base pieces ∧ scan = ofPieces (base + text.length : Nat) none pieces := by
  obtain ⟨pieces, piecesOutcome, tiles, scanEq⟩ := exists_pieces outcome
  refine ⟨pieces, ⟨Int.le_refl _, tiles, ?_, Piece.ofChars_plain piecesOutcome⟩, scanEq⟩
  rw [Int.sub_self, Int.toNat_zero, List.drop_zero, Piece.allChars_ofChars piecesOutcome]

namespace Rest

variable (rest : Rest base text pos ((start, piece) :: pieces))

include rest

theorem start_eq : start = pos :=
  rest.tiles.1

theorem isPlain : piece.Plain :=
  rest.plain _ List.mem_cons_self

/-- The first piece is a slice of the text, and the other ones make up what comes after it. -/
theorem between_eq : between base text pos (pos + piece.chars.length) = piece.chars := by
  have charsEq := rest.chars_eq
  rw [Piece.allChars, List.flatMap_cons] at charsEq
  rw [between, charsEq, show (pos + piece.chars.length - pos).toNat = piece.chars.length by lia,
    List.take_left]

theorem tail : Rest base text (pos + piece.chars.length) pieces where
  base_le := by
    have low := rest.base_le
    lia
  tiles := rest.tiles.2.2
  chars_eq := by
    have low := rest.base_le
    have charsEq := rest.chars_eq
    rw [Piece.allChars, List.flatMap_cons] at charsEq
    rw [show (pos + piece.chars.length - base).toNat = (pos - base).toNat + piece.chars.length by lia,
      ← List.drop_drop, charsEq, List.drop_left]
    rfl
  plain entry isEntry := rest.plain entry (List.mem_cons_of_mem _ isEntry)

end Rest

theorem between_append {middle stop : Pos} (low : pos ≤ middle) (high : middle ≤ stop)
    (base_le : base ≤ pos) :
    between base text pos stop = between base text pos middle ++ between base text middle stop := by
  have dropEq : text.toList.drop (middle - base).toNat =
      (text.toList.drop (pos - base).toNat).drop (middle - pos).toNat := by
    rw [List.drop_drop]
    congr 1
    lia
  rw [between, between, between, dropEq,
    show (stop - pos).toNat = (middle - pos).toNat + (stop - middle).toNat by lia, List.take_add]

/-- The position just after a piece. -/
def pieceStop (entry : Pos × Piece) : Pos :=
  entry.1 + entry.2.chars.length

/-- What is known of a piece of a text. -/
structure Slice (base : Nat) (text : String) (pos : Pos) (entry : Pos × Piece) : Prop where
  le_start : pos ≤ entry.1
  slice_eq : between base text entry.1 (pieceStop entry) = entry.2.chars
  solid : entry.2.Solid
  isPlain : entry.2.Plain

theorem Rest.slices (rest : Rest base text pos pieces) :
    ∀ entry ∈ pieces, Slice base text pos entry := by
  induction pieces generalizing pos with
  | nil => simp
  | cons entry pieces ih =>
      obtain ⟨start, piece⟩ := entry
      obtain rfl := rest.start_eq
      refine List.forall_mem_cons.mpr ⟨⟨Int.le_refl _, rest.between_eq, rest.tiles.2.1, rest.isPlain⟩,
        fun entry isEntry => ?_⟩
      have slice := ih rest.tail entry isEntry
      exact { slice with le_start := by have low := slice.le_start; lia }

/-- The pieces follow each other. -/
theorem Rest.inOrder (rest : Rest base text pos pieces) :
    pieces.Pairwise fun entry later => pieceStop entry ≤ later.1 := by
  induction pieces generalizing pos with
  | nil => exact .nil
  | cons entry pieces ih =>
      obtain ⟨start, piece⟩ := entry
      obtain rfl := rest.start_eq
      exact .cons (fun later isLater => (rest.tail.slices later isLater).le_start) (ih rest.tail)

/-- Every place of the text lies in a piece. -/
theorem Rest.covers (rest : Rest base text pos pieces) {place : Pos} (low : pos ≤ place)
    (high : place < base + text.length) :
    ∃ entry ∈ pieces, entry.1 ≤ place ∧ place < pieceStop entry := by
  induction pieces generalizing pos with
  | nil =>
      have stopEq : pos = (base + text.length : Nat) := rest.tiles
      lia
  | cons entry pieces ih =>
      obtain ⟨start, piece⟩ := entry
      obtain rfl := rest.start_eq
      by_cases here : place < pieceStop (start, piece)
      · exact ⟨_, List.mem_cons_self, low, here⟩
      · obtain ⟨entry, isEntry, inside⟩ := ih rest.tail (Int.not_lt.mp here)
        exact ⟨entry, List.mem_cons_of_mem _ isEntry, inside⟩

/-! ### Lexemes and comments of pieces -/

/-- The lexeme that is written as a piece. -/
def lexeme? : Pos × Piece → Option Lexeme
  | (pos, .lexeme token chars) => some ⟨token, String.ofList chars, pos⟩
  | _ => none

/-- The comment that is a piece. -/
def comment? : Pos × Piece → Option Comment
  | (pos, .comment chars) => some ⟨String.ofList chars, ⟨pos, pos + chars.length⟩⟩
  | _ => none

theorem Slice.isWritten {entry : Pos × Piece} (slice : Slice base text pos entry) {lexeme : Lexeme}
    (isLexeme : lexeme? entry = some lexeme) : lexeme.isWritten := by
  obtain ⟨start, piece⟩ := entry
  cases piece with
  | lexeme token chars =>
      obtain rfl := Option.some.inj isLexeme
      have notEnd := slice.isPlain.notEnd token chars rfl
      have notInserted : token ≠ .semicolon ∨ String.ofList chars ≠ "\n" := by
        rw [← not_and_or]
        rintro ⟨rfl, isFeed⟩
        have written := slice.solid.operator .semicolon chars rfl (by decide)
        rw [isFeed] at written
        exact absurd written (by decide)
      simpa [Lexeme.isWritten, Lexeme.isInserted, notEnd] using notInserted
  | _ => cases isLexeme

theorem filter_semicolonAfter (last : Option Token) (pos : Pos) :
    (Scan.semicolonAfter last pos).filter Lexeme.isWritten = [] := by
  unfold Scan.semicolonAfter
  split <;> simp [Lexeme.isWritten, Lexeme.isInserted]

/-- The lexemes that are written are those of the pieces. -/
theorem filter_lexemes {stop : Pos} {last : Option Token}
    (slices : ∀ entry ∈ pieces, Slice base text pos entry) :
    (Scan.ofPieces stop last pieces).lexemes.filter Lexeme.isWritten = pieces.filterMap lexeme? := by
  induction pieces generalizing last with
  | nil =>
      simp only [Scan.ofPieces, List.filter_append, filter_semicolonAfter]
      rfl
  | cons entry pieces ih =>
      obtain ⟨slice, others⟩ := List.forall_mem_cons.mp slices
      obtain ⟨start, piece⟩ := entry
      cases piece with
      | blank char => exact ih others
      | lineEnd =>
          simp only [Scan.ofPieces, List.filter_append, filter_semicolonAfter, List.nil_append]
          exact ih others
      | comment chars =>
          simp only [Scan.ofPieces]
          split
          · simp only [List.filter_append, filter_semicolonAfter, List.nil_append]
            exact ih others
          · exact ih others
      | lexeme token chars =>
          have isWritten := slice.isWritten rfl
          simp only [Scan.ofPieces, List.filter_cons, isWritten, if_true, lexeme?, List.filterMap_cons]
          rw [ih others]

/-- The comments are those of the pieces. -/
theorem comments_eq (stop : Pos) (last : Option Token) (pieces : List (Pos × Piece)) :
    (Scan.ofPieces stop last pieces).comments = pieces.filterMap comment? := by
  induction pieces generalizing last with
  | nil => rfl
  | cons entry pieces ih =>
      obtain ⟨start, piece⟩ := entry
      cases piece with
      | blank char => exact ih last
      | lineEnd => exact ih _
      | comment chars =>
          simp only [Scan.ofPieces, comment?, List.filterMap_cons]
          split <;> simp only [ih]
      | lexeme token chars => exact ih _

/-! ### Semicolons -/

/-- The next lexeme that stands for no line end. -/
def nextLexeme (lexemes : List Lexeme) : Option Lexeme :=
  lexemes.find? fun lexeme => !lexeme.isInserted

/-- Lexemes begin with a semicolon for a line end exactly if one belongs after the last token, which is
followed by a line feed or by the end of the file. -/
structure Separated (base : Nat) (text : String) (pos : Pos) (last : Option Token)
    (lexemes : List Lexeme) : Prop where
  begins : ∃ next, nextLexeme lexemes = some next ∧ pos ≤ next.pos ∧
    (lexemes.head?.any Lexeme.isInserted ↔ last.any Token.endsStatement ∧
      (next.token = .endOfFile ∨ '\n' ∈ between base text pos next.pos))
  goesOn : ∀ before lexeme rest, lexemes = before ++ lexeme :: rest → lexeme.isWritten →
    ∃ next, nextLexeme rest = some next ∧ lexeme.stop ≤ next.pos ∧
      (rest.head?.any Lexeme.isInserted ↔ lexeme.token.endsStatement ∧
        (next.token = .endOfFile ∨ '\n' ∈ between base text lexeme.stop next.pos))
  alone : lexemes.IsChain fun first second => ¬(first.isInserted ∧ second.isInserted)

theorem isInserted_semicolon (pos : Pos) : Lexeme.isInserted ⟨.semicolon, "\n", pos⟩ := rfl

namespace Separated

variable {last : Option Token} {lexemes : List Lexeme} {next : Pos}

/-- Nothing follows a line end that has become a semicolon. -/
theorem head_not_inserted (separated : Separated base text pos last lexemes)
    (notEnds : last.any Token.endsStatement = false) :
    lexemes.head?.any Lexeme.isInserted = false := by
  obtain ⟨_, -, -, begins⟩ := separated.begins
  rw [notEnds] at begins
  exact Bool.eq_false_iff.mpr fun isInserted => Bool.false_ne_true (begins.mp isInserted).1

/-- What is skipped holds no line feed. -/
theorem skip (later : Separated base text next last lexemes) (base_le : base ≤ pos) (le : pos ≤ next)
    (plain : '\n' ∉ between base text pos next) : Separated base text pos last lexemes where
  begins := by
    obtain ⟨found, isNext, next_le, begins⟩ := later.begins
    refine ⟨found, isNext, Int.le_trans le next_le, begins.trans (and_congr_right fun _ => or_congr_right ?_)⟩
    rw [between_append le next_le base_le, List.mem_append, or_iff_right plain]
  goesOn := later.goesOn
  alone := later.alone

theorem lastAfterLine_not_ends (last : Option Token) :
    (Scan.lastAfterLine last).any Token.endsStatement = false := by
  unfold Scan.lastAfterLine
  split
  · rfl
  · next notEnds => exact Bool.eq_false_iff.mpr notEnds

/-- A line end, or the end of the file, becomes a semicolon if the last token calls for it. -/
theorem semicolon (later : Separated base text next (Scan.lastAfterLine last) lexemes)
    (le : pos ≤ next) (calls : ∀ found, nextLexeme lexemes = some found → next ≤ found.pos →
      found.token = .endOfFile ∨ '\n' ∈ between base text pos found.pos) :
    Separated base text pos last (Scan.semicolonAfter last pos ++ lexemes) := by
  obtain ⟨found, isNext, next_le, -⟩ := later.begins
  have calls := calls found isNext next_le
  have notInserted := later.head_not_inserted (lastAfterLine_not_ends last)
  unfold Scan.semicolonAfter
  by_cases ends : last.any Token.endsStatement
  · rw [if_pos ends, List.singleton_append]
    refine ⟨⟨found, by simpa [nextLexeme, Lexeme.isInserted] using isNext, Int.le_trans le next_le, ?_⟩,
      ?_, ?_⟩
    · simp [isInserted_semicolon, ends, calls]
    · intro before lexeme rest lexemesEq isWritten
      cases before with
      | nil =>
          obtain ⟨rfl, -⟩ := List.cons.inj lexemesEq
          simp [Lexeme.isWritten, Lexeme.isInserted] at isWritten
      | cons first before =>
          exact later.goesOn before lexeme rest (List.cons.inj lexemesEq).2 isWritten
    · refine List.isChain_cons.mpr ⟨fun second isHead both => ?_, later.alone⟩
      rw [isHead, Option.any_some, both.2] at notInserted
      cases notInserted
  · rw [if_neg ends]
    refine ⟨⟨found, isNext, Int.le_trans le next_le, ?_⟩, later.goesOn, later.alone⟩
    simp [notInserted, ends]

/-- A line end is one wherever the line feed is. -/
theorem lineEnd (later : Separated base text next (Scan.lastAfterLine last) lexemes)
    (base_le : base ≤ pos) (le : pos ≤ next) (feeds : '\n' ∈ between base text pos next) :
    Separated base text pos last (Scan.semicolonAfter last pos ++ lexemes) := by
  refine later.semicolon le fun found _ next_le => .inr ?_
  rw [between_append le next_le base_le]
  exact List.mem_append_left _ feeds

/-- A lexeme that is written is followed by what its token calls for. -/
theorem lexeme {lexeme : Lexeme} (isWritten : lexeme.isWritten)
    (later : Separated base text lexeme.stop (some lexeme.token) lexemes) :
    Separated base text lexeme.pos last (lexeme :: lexemes) := by
  have written : lexeme.token ≠ .endOfFile ∧ lexeme.isInserted = false := by
    simpa [Lexeme.isWritten] using isWritten
  refine ⟨⟨lexeme, by simp [nextLexeme, written.2], Int.le_refl _, ?_⟩, ?_, ?_⟩
  · have nothing : between base text lexeme.pos lexeme.pos = [] := by simp [between]
    simp [nothing, written.1, written.2]
  · intro before other rest lexemesEq otherWritten
    cases before with
    | nil =>
        obtain ⟨rfl, rfl⟩ := List.cons.inj lexemesEq
        obtain ⟨found, isNext, next_le, begins⟩ := later.begins
        exact ⟨found, isNext, next_le, begins⟩
    | cons first before =>
        exact later.goesOn before other rest (List.cons.inj lexemesEq).2 otherWritten
  · refine List.isChain_cons.mpr ⟨fun second _ both => ?_, later.alone⟩
    rw [written.2] at both
    exact Bool.false_ne_true both.1

/-- The end of the file is a line end too. -/
theorem atEnd (last : Option Token) (stop : Pos) :
    Separated base text stop last (Scan.semicolonAfter last stop ++ [⟨.endOfFile, "", stop⟩]) := by
  have atEnd : Separated base text stop (Scan.lastAfterLine last) [⟨.endOfFile, "", stop⟩] := by
    refine ⟨⟨_, rfl, Int.le_refl _, ?_⟩, fun before lexeme rest lexemesEq isWritten => ?_, .singleton _⟩
    · rw [lastAfterLine_not_ends]
      simp [Lexeme.isInserted]
    · have isEnd : lexeme ∈ [(⟨.endOfFile, "", stop⟩ : Lexeme)] :=
        lexemesEq ▸ List.mem_append_right before List.mem_cons_self
      rw [List.mem_singleton.mp isEnd] at isWritten
      exact absurd isWritten (by simp [Lexeme.isWritten])
  refine atEnd.semicolon (Int.le_refl _) fun found isNext _ => .inl ?_
  obtain rfl := Option.some.inj isNext
  rfl

end Separated

theorem Rest.separated (rest : Rest base text pos pieces) (last : Option Token) :
    Separated base text pos last (Scan.ofPieces (base + text.length : Nat) last pieces).lexemes := by
  induction pieces generalizing pos last with
  | nil =>
      obtain rfl : pos = (base + text.length : Nat) := rest.tiles
      exact .atEnd last _
  | cons entry pieces ih =>
      obtain ⟨start, piece⟩ := entry
      obtain rfl := rest.start_eq
      have later := ih rest.tail
      have le : start ≤ start + piece.chars.length := by lia
      have sliceEq := rest.between_eq
      cases piece with
      | blank char =>
          refine (later last).skip rest.base_le le ?_
          rw [sliceEq, Piece.chars, List.mem_singleton]
          rintro rfl
          exact absurd (rest.isPlain.blank _ rfl) (by decide)
      | lineEnd =>
          refine (later _).lineEnd rest.base_le le ?_
          rw [sliceEq]
          exact List.mem_singleton.mpr rfl
      | comment chars =>
          simp only [Scan.ofPieces]
          split
          · next feeds =>
            refine (later _).lineEnd rest.base_le le ?_
            rw [sliceEq]
            exact List.contains_iff_mem.mp feeds
          · next plain =>
            refine (later last).skip rest.base_le le ?_
            rw [sliceEq]
            exact fun feeds => plain (List.contains_iff_mem.mpr feeds)
      | lexeme token chars =>
          have isWritten := @Slice.isWritten _ _ _ _ (rest.slices _ List.mem_cons_self) _ rfl
          refine Separated.lexeme isWritten ?_
          have stopEq : (⟨token, String.ofList chars, start⟩ : Lexeme).stop = start + chars.length := by
            rw [Lexeme.stop, String.length_ofList]
          exact stopEq ▸ later (some token)

/-! ### The whole text -/

/-- A place that is white space. -/
def IsWhite (char : Char) : Prop :=
  char = ' ' ∨ char = '\t' ∨ char = '\r' ∨ char = '\n'

/-- What scanning gives for a text. -/
structure Scan.IsLossless (scan : Scan) (base : Nat) (text : String) : Prop where
  /-- A lexeme that is written is a slice of the text. -/
  lexeme_eq : ∀ lexeme ∈ scan.lexemes, lexeme.isWritten → lexeme.text ≠ "" ∧ base ≤ lexeme.pos ∧
    lexeme.text.toList = between base text lexeme.pos lexeme.stop
  /-- So is a comment. -/
  comment_eq : ∀ comment ∈ scan.comments, base ≤ comment.span.start ∧
    comment.span.start < comment.span.stop ∧
    comment.text.toList = between base text comment.span.start comment.span.stop
  lexemes_inOrder : (scan.lexemes.filter Lexeme.isWritten).Pairwise fun lexeme later =>
    lexeme.stop ≤ later.pos
  comments_inOrder : scan.comments.Pairwise fun comment later => comment.span.stop ≤ later.span.start
  apart : ∀ lexeme ∈ scan.lexemes, lexeme.isWritten → ∀ comment ∈ scan.comments,
    lexeme.stop ≤ comment.span.start ∨ comment.span.stop ≤ lexeme.pos
  /-- What is neither in a lexeme nor in a comment is white space. -/
  white : ∀ (offset : Nat) (char : Char), text.toList[offset]? = some char →
    (∃ lexeme ∈ scan.lexemes, lexeme.isWritten ∧ lexeme.pos ≤ base + offset ∧
      base + offset < lexeme.stop) ∨
    (∃ comment ∈ scan.comments, comment.span.start ≤ base + offset ∧
      base + offset < comment.span.stop) ∨ IsWhite char
  /-- The end of the file is the last lexeme, and no other lexeme is. -/
  end_eq : ∃ before, scan.lexemes = before ++ [⟨.endOfFile, "", (base + text.length : Nat)⟩] ∧
    ∀ lexeme ∈ before, lexeme.token ≠ .endOfFile
  /-- A semicolon follows a lexeme for a line end or the end of the file. -/
  semicolons : ∀ before lexeme rest, scan.lexemes = before ++ lexeme :: rest → lexeme.isWritten →
    ∃ next, nextLexeme rest = some next ∧ (rest.head?.any Lexeme.isInserted ↔
      lexeme.token.endsStatement ∧
        (next.token = .endOfFile ∨ '\n' ∈ between base text lexeme.stop next.pos))
  /-- Such a semicolon follows nothing else, so none follows another one. -/
  not_first : scan.lexemes.head?.any Lexeme.isInserted = false
  alone : scan.lexemes.IsChain fun first second => ¬(first.isInserted ∧ second.isInserted)

/-- Of two different pieces, one stands before the other one. -/
theorem Rest.before_or_after (rest : Rest base text pos pieces) {entry other : Pos × Piece}
    (isEntry : entry ∈ pieces) (isOther : other ∈ pieces) (ne : entry ≠ other) :
    pieceStop entry ≤ other.1 ∨ pieceStop other ≤ entry.1 := by
  have symmetric : pieces.Pairwise fun entry other => pieceStop entry ≤ other.1 ∨ pieceStop other ≤ entry.1 :=
    rest.inOrder.imp fun before => .inl before
  have : Std.Symm fun entry other : Pos × Piece =>
      pieceStop entry ≤ other.1 ∨ pieceStop other ≤ entry.1 := ⟨fun _ _ => Or.symm⟩
  exact symmetric.forall isEntry isOther ne

theorem exists_piece_of_lexeme? {entry : Pos × Piece} {lexeme : Lexeme}
    (isLexeme : lexeme? entry = some lexeme) :
    lexeme.pos = entry.1 ∧ lexeme.stop = pieceStop entry ∧ lexeme.text.toList = entry.2.chars ∧
      comment? entry = none := by
  obtain ⟨start, piece⟩ := entry
  cases piece with
  | lexeme token chars =>
      obtain rfl := Option.some.inj isLexeme
      refine ⟨rfl, ?_, String.toList_ofList, rfl⟩
      rw [Lexeme.stop, String.length_ofList]
      rfl
  | _ => cases isLexeme

theorem exists_piece_of_comment? {entry : Pos × Piece} {comment : Comment}
    (isComment : comment? entry = some comment) :
    comment.span.start = entry.1 ∧ comment.span.stop = pieceStop entry ∧
      comment.text.toList = entry.2.chars := by
  obtain ⟨start, piece⟩ := entry
  cases piece with
  | comment chars =>
      obtain rfl := Option.some.inj isComment
      exact ⟨rfl, rfl, String.toList_ofList⟩
  | _ => cases isComment

theorem Rest.ends_once (rest : Rest base text pos pieces) (last : Option Token) :
    ∃ before, (Scan.ofPieces (base + text.length : Nat) last pieces).lexemes =
        before ++ [⟨Token.endOfFile, "", (base + text.length : Nat)⟩] ∧
      ∀ lexeme ∈ before, lexeme.token ≠ .endOfFile := by
  have semicolons (last : Option Token) (pos : Pos) :
      ∀ lexeme ∈ Scan.semicolonAfter last pos, lexeme.token ≠ .endOfFile := by
    unfold Scan.semicolonAfter
    split <;> simp
  have after (last : Option Token) {pos : Pos} {lexemes : List Lexeme} {final : Lexeme}
      (later : ∃ before, lexemes = before ++ [final] ∧ ∀ lexeme ∈ before, lexeme.token ≠ .endOfFile) :
      ∃ before, Scan.semicolonAfter last pos ++ lexemes = before ++ [final] ∧
        ∀ lexeme ∈ before, lexeme.token ≠ .endOfFile := by
    obtain ⟨before, rfl, notEnd⟩ := later
    exact ⟨Scan.semicolonAfter last pos ++ before, (List.append_assoc ..).symm,
      List.forall_mem_append.mpr ⟨semicolons last pos, notEnd⟩⟩
  induction pieces generalizing pos last with
  | nil => exact ⟨_, rfl, semicolons last _⟩
  | cons entry pieces ih =>
      obtain ⟨start, piece⟩ := entry
      have later := ih rest.tail
      cases piece with
      | blank char => exact later last
      | lineEnd => exact after last (later _)
      | comment chars =>
          simp only [Scan.ofPieces]
          split
          · exact after last (later _)
          · exact later last
      | lexeme token chars =>
          obtain ⟨before, lexemesEq, notEnd⟩ := later (some token)
          refine ⟨_ :: before, by rw [Scan.ofPieces, lexemesEq, List.cons_append],
            List.forall_mem_cons.mpr ⟨rest.isPlain.notEnd token chars rfl, notEnd⟩⟩

/-- A piece of one character is that character of the text. -/
theorem Slice.getElem?_eq {char : Char} {offset : Nat}
    (slice : Slice base text base (start, piece)) (charsEq : piece.chars = [char])
    (low : start ≤ base + offset) (high : base + offset < pieceStop (start, piece)) :
    text.toList[offset]? = some char := by
  have sliceEq := slice.slice_eq
  have base_le := slice.le_start
  simp only [pieceStop, charsEq, List.length_singleton] at sliceEq high base_le
  have offsetEq : (start - base).toNat = offset := by lia
  rw [between, offsetEq] at sliceEq
  have first := congrArg (·[0]?) sliceEq
  simp only [List.getElem?_cons_zero] at first
  rwa [List.getElem?_take_of_lt (by lia), List.getElem?_drop, Nat.add_zero] at first

/-- A place that is in no lexeme and in no comment is white space. -/
theorem Rest.lexeme_or_comment_or_white (rest : Rest base text base pieces) {offset : Nat} {char : Char}
    (isChar : text.toList[offset]? = some char) :
    (∃ lexeme ∈ pieces.filterMap lexeme?, lexeme.pos ≤ base + offset ∧ base + offset < lexeme.stop) ∨
      (∃ comment ∈ pieces.filterMap comment?, comment.span.start ≤ base + offset ∧
        base + offset < comment.span.stop) ∨ IsWhite char := by
  have inside := (List.getElem?_eq_some_iff.mp isChar).1
  rw [String.length_toList] at inside
  obtain ⟨⟨start, piece⟩, isEntry, low, high⟩ := @Rest.covers _ _ _ _ rest (base + offset) (by lia) (by lia)
  have slice := rest.slices _ isEntry
  cases piece with
  | lexeme token chars =>
      refine .inl ⟨⟨token, String.ofList chars, start⟩, List.mem_filterMap.mpr ⟨_, isEntry, rfl⟩, low, ?_⟩
      rwa [Lexeme.stop, String.length_ofList]
  | comment chars =>
      exact .inr (.inl ⟨⟨String.ofList chars, ⟨start, start + chars.length⟩⟩,
        List.mem_filterMap.mpr ⟨_, isEntry, rfl⟩, low, high⟩)
  | blank other =>
      obtain rfl := Option.some.inj (isChar.symm.trans (slice.getElem?_eq rfl low high))
      have separates := slice.isPlain.blank char rfl
      simp only [Piece.isSeparator, Bool.or_eq_true, decide_eq_true_eq] at separates
      refine .inr (.inr ?_)
      rcases separates with (isBlank | isTab) | isReturn
      · exact .inl isBlank
      · exact .inr (.inl isTab)
      · exact .inr (.inr (.inl isReturn))
  | lineEnd =>
      obtain rfl := Option.some.inj (isChar.symm.trans (slice.getElem?_eq rfl low high))
      exact .inr (.inr (.inr (.inr (.inr rfl))))

/-- Scanning loses nothing of a text. -/
theorem Scan.ofText_isLossless {scan : Scan} (outcome : ofText base text = .ok scan) :
    scan.IsLossless base text := by
  obtain ⟨pieces, rest, rfl⟩ := exists_rest outcome
  have written := @filter_lexemes base text _ pieces (base + text.length : Nat) none rest.slices
  have comments := comments_eq (base + text.length : Nat) none pieces
  have separated := rest.separated none
  have ofLexeme (lexeme : Lexeme)
      (isLexeme : lexeme ∈ (ofPieces (base + text.length : Nat) none pieces).lexemes)
      (isWritten : lexeme.isWritten) : ∃ entry ∈ pieces, lexeme? entry = some lexeme := by
    rw [← List.mem_filterMap, ← written]
    exact List.mem_filter.mpr ⟨isLexeme, isWritten⟩
  have ofComment (comment : Comment)
      (isComment : comment ∈ (ofPieces (base + text.length : Nat) none pieces).comments) :
      ∃ entry ∈ pieces, comment? entry = some comment := by
    rwa [← List.mem_filterMap, ← comments]
  refine ⟨?_, ?_, ?_, ?_, ?_, ?_, ?_, ?_, ?_, separated.alone⟩
  · intro lexeme isLexeme isWritten
    obtain ⟨entry, isEntry, lexemeEq⟩ := ofLexeme lexeme isLexeme isWritten
    obtain ⟨posEq, stopEq, textEq, -⟩ := exists_piece_of_lexeme? lexemeEq
    have slice := rest.slices entry isEntry
    refine ⟨?_, posEq ▸ slice.le_start, by rw [textEq, posEq, stopEq, slice.slice_eq]⟩
    rintro empty
    have positive := slice.solid.positive
    rw [← textEq, empty] at positive
    exact absurd positive (by decide)
  · intro comment isComment
    obtain ⟨entry, isEntry, commentEq⟩ := ofComment comment isComment
    obtain ⟨startEq, stopEq, textEq⟩ := exists_piece_of_comment? commentEq
    have slice := rest.slices entry isEntry
    have positive := slice.solid.positive
    rw [startEq, stopEq, textEq]
    exact ⟨slice.le_start, by rw [pieceStop]; lia, slice.slice_eq.symm⟩
  · rw [written]
    refine rest.inOrder.filterMap _ fun entry later before lexeme isLexeme next isNext => ?_
    obtain ⟨-, stopEq, -⟩ := exists_piece_of_lexeme? isLexeme
    obtain ⟨posEq, -⟩ := exists_piece_of_lexeme? isNext
    rwa [stopEq, posEq]
  · rw [comments]
    refine rest.inOrder.filterMap _ fun entry later before comment isComment next isNext => ?_
    obtain ⟨-, stopEq, -⟩ := exists_piece_of_comment? isComment
    obtain ⟨startEq, -⟩ := exists_piece_of_comment? isNext
    rwa [stopEq, startEq]
  · intro lexeme isLexeme isWritten comment isComment
    obtain ⟨entry, isEntry, lexemeEq⟩ := ofLexeme lexeme isLexeme isWritten
    obtain ⟨posEq, stopEq, -, notComment⟩ := exists_piece_of_lexeme? lexemeEq
    obtain ⟨other, isOther, commentEq⟩ := ofComment comment isComment
    obtain ⟨startEq', stopEq', -⟩ := exists_piece_of_comment? commentEq
    rw [posEq, stopEq, startEq', stopEq']
    refine rest.before_or_after isEntry isOther ?_
    rintro rfl
    rw [notComment] at commentEq
    cases commentEq
  · intro offset char isChar
    rcases rest.lexeme_or_comment_or_white isChar with ⟨lexeme, isLexeme, inside⟩ | other
    · rw [← written] at isLexeme
      obtain ⟨isLexeme, isWritten⟩ := List.mem_filter.mp isLexeme
      exact .inl ⟨lexeme, isLexeme, isWritten, inside⟩
    · rw [comments]
      exact .inr other
  · exact rest.ends_once none
  · intro before lexeme others lexemesEq isWritten
    obtain ⟨next, isNext, -, begins⟩ := separated.goesOn before lexeme others lexemesEq isWritten
    exact ⟨next, isNext, begins⟩
  · exact separated.head_not_inserted rfl

/-- A name, a comment and the semicolon for the line end after them. -/
def commentedScan : Scan where
  lexemes := [⟨.ident, "a", 1⟩, ⟨.semicolon, "\n", 7⟩, ⟨.endOfFile, "", 8⟩]
  comments := [⟨"// b", ⟨3, 7⟩⟩]

theorem Scan.ofText_isLossless_commented : ofText 1 "a // b\n" = .ok commentedScan ∧
    commentedScan.IsLossless 1 "a // b\n" := by
  have outcome : ofText 1 "a // b\n" = .ok commentedScan := by
    rw [← Scan.ofTextIn_eq]
    rfl
  exact ⟨outcome, ofText_isLossless outcome⟩

end GoMend
