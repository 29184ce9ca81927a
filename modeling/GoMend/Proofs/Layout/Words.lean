import GoMend.Proofs.Grammar.SourceFile
import GoMend.Proofs.Layout.Tidy
import GoMend.Proofs.Lexeme.Lossless
import GoMend.Proofs.Lexeme.Spelling
import GoMend.Proofs.Tree.Preorder

/-!
# Words are lines

Something can be seen of every comment and of every lexeme that stands in a text, and only literals in
quotes and general comments can hold line ends.  So the names and the literals of a file that was
read are lines, as long as those in quotes hold no line ends.
-/

namespace GoMend

/-! ### Visible characters -/

/-- The characters of which a number is made lie in a run of visible ones. -/
structure IsGraphic (char : Char) : Prop where
  low : 33 ≤ char.toNat
  high : char.toNat < 127

namespace IsGraphic

variable {char : Char}

theorem of_isDigit (isDigit : char.isDigit) : IsGraphic char := by
  simp only [Char.isDigit, Bool.and_eq_true, decide_eq_true_eq, ge_iff_le,
    UInt32.le_iff_toNat_le] at isDigit
  obtain ⟨ge, le⟩ := isDigit
  change 48 ≤ char.toNat at ge
  change char.toNat ≤ 57 at le
  exact ⟨by lia, by lia⟩

theorem of_isAlpha (isAlpha : char.isAlpha) : IsGraphic char := by
  simp only [Char.isAlpha, Char.isUpper, Char.isLower, Bool.or_eq_true, Bool.and_eq_true,
    decide_eq_true_eq, ge_iff_le, UInt32.le_iff_toNat_le] at isAlpha
  obtain ⟨ge, le⟩ | ⟨ge, le⟩ := isAlpha
  · change 65 ≤ char.toNat at ge
    change char.toNat ≤ 90 at le
    exact ⟨by lia, by lia⟩
  · change 97 ≤ char.toNat at ge
    change char.toNat ≤ 122 at le
    exact ⟨by lia, by lia⟩

/-- A character between two others of the run. -/
theorem of_le {first last : Char} (isFirst : IsGraphic first) (isLast : IsGraphic last)
    (ge : first ≤ char) (le : char ≤ last) : IsGraphic char := by
  rw [Char.le_def, UInt32.le_iff_toNat_le] at ge le
  exact ⟨Nat.le_trans isFirst.low ge, Nat.lt_of_le_of_lt le isLast.high⟩

theorem ne_lineFeed (isGraphic : IsGraphic char) : char ≠ '\n' := by
  rintro rfl
  exact absurd isGraphic.low (by decide)

theorem notBlank (isGraphic : IsGraphic char) : Text.isBlank char = false := by
  have checked : ∀ code < 127, 33 ≤ code → Text.blankSet.contains code = false := by decide +kernel
  exact checked _ isGraphic.high isGraphic.low

end IsGraphic

namespace Text

theorem letterSet_areApart_blank : CodeSet.areApart 2000 letterSet.changes blankSet.changes := by
  decide +kernel

/-- A letter can be seen. -/
theorem isBlank_of_isLetter {char : Char} (letter : isLetter char) : isBlank char = false := by
  unfold isLetter at letter
  split at letter
  · exact (IsGraphic.of_isAlpha letter).notBlank
  · by_contra isBlank
    rw [Bool.not_eq_false] at isBlank
    exact CodeSet.not_contains_of_areApart letterSet_areApart_blank letter isBlank

end Text

/-! ### Numbers -/

namespace Literal

/-- Visible characters only. -/
def Graphic (chars : List Char) : Prop :=
  ∀ char ∈ chars, IsGraphic char

section Graphic

variable {chars first second : List Char} {char : Char} {isPart : Char → Bool}

theorem graphic_nil : Graphic [] := by
  simp [Graphic]

theorem Graphic.cons (isGraphic : IsGraphic char) (graphic : Graphic chars) : Graphic (char :: chars) :=
  List.forall_mem_cons.mpr ⟨isGraphic, graphic⟩

theorem Graphic.append (graphic : Graphic first) (graphic' : Graphic second) : Graphic (first ++ second) :=
  List.forall_mem_append.mpr ⟨graphic, graphic'⟩

theorem isGraphic_of_isDecimalPart (char : Char) (isPart : isDecimalPart char) : IsGraphic char := by
  simp only [isDecimalPart, Bool.or_eq_true, decide_eq_true_eq] at isPart
  obtain isDigit | rfl := isPart
  · exact .of_isDigit isDigit
  · exact ⟨by decide, by decide⟩

theorem isGraphic_of_isHexPart (char : Char) (isPart : isHexPart char) : IsGraphic char := by
  simp only [isHexPart, Bool.or_eq_true, Bool.and_eq_true, decide_eq_true_eq] at isPart
  obtain ((isDigit | rfl) | ⟨ge, le⟩) | ⟨ge, le⟩ := isPart
  · exact .of_isDigit isDigit
  · exact ⟨by decide, by decide⟩
  · exact .of_le ⟨by decide, by decide⟩ ⟨by decide, by decide⟩ ge le
  · exact .of_le ⟨by decide, by decide⟩ ⟨by decide, by decide⟩ ge le

theorem isGraphic_of_isBinaryPart (char : Char) (isPart : isBinaryPart char) : IsGraphic char := by
  simp only [isBinaryPart, Bool.or_eq_true, decide_eq_true_eq] at isPart
  obtain (rfl | rfl) | rfl := isPart <;> exact ⟨by decide, by decide⟩

theorem isGraphic_of_isOctalPart (char : Char) (isPart : isOctalPart char) : IsGraphic char := by
  simp only [isOctalPart, Bool.or_eq_true, Bool.and_eq_true, decide_eq_true_eq] at isPart
  obtain ⟨ge, le⟩ | rfl := isPart
  · exact .of_le ⟨by decide, by decide⟩ ⟨by decide, by decide⟩ ge le
  · exact ⟨by decide, by decide⟩

theorem graphic_takeWhile (parts : ∀ char, isPart char → IsGraphic char) (chars : List Char) :
    Graphic (chars.takeWhile isPart) :=
  fun char isChar => parts char (List.mem_takeWhile_imp isChar)

theorem graphic_fraction (parts : ∀ char, isPart char → IsGraphic char) (chars : List Char) :
    Graphic (fraction isPart chars) := by
  unfold fraction
  split
  · exact .cons ⟨by decide, by decide⟩ (graphic_takeWhile parts _)
  · exact graphic_nil

theorem graphic_sign (chars : List Char) : Graphic (sign chars) := by
  unfold sign
  split
  · exact .cons ⟨by decide, by decide⟩ graphic_nil
  · exact .cons ⟨by decide, by decide⟩ graphic_nil
  · exact graphic_nil

theorem graphic_exponent {lower upper : Char} (isLower : IsGraphic lower) (isUpper : IsGraphic upper)
    (chars : List Char) : Graphic (exponent lower upper chars) := by
  cases chars with
  | nil => exact graphic_nil
  | cons mark rest =>
      simp only [exponent]
      split
      · next isExponent =>
        have isMark : mark = lower ∨ mark = upper := by
          simpa using (Bool.and_eq_true_iff.mp isExponent).1
        refine .cons ?_ ((graphic_sign rest).append (graphic_takeWhile isGraphic_of_isDecimalPart _))
        obtain rfl | rfl := isMark
        · exact isLower
        · exact isUpper
      · exact graphic_nil

theorem graphic_readParts {readers : List (List Char → List Char)}
    (each : ∀ reader ∈ readers, ∀ chars, Graphic (reader chars)) (chars : List Char) :
    Graphic (readParts readers chars) := by
  induction readers generalizing chars with
  | nil => exact graphic_nil
  | cons reader readers ih =>
      obtain ⟨first, others⟩ := List.forall_mem_cons.mp each
      exact (first chars).append (ih others _)

theorem graphic_hexadecimalTail (chars : List Char) : Graphic (hexadecimalTail chars) := by
  refine graphic_readParts ?_ chars
  simp only [List.forall_mem_cons, List.not_mem_nil, false_implies, implies_true, and_true]
  exact ⟨graphic_takeWhile isGraphic_of_isHexPart, graphic_fraction isGraphic_of_isHexPart,
    graphic_exponent ⟨by decide, by decide⟩ ⟨by decide, by decide⟩⟩

theorem graphic_decimalText (chars : List Char) : Graphic (decimalText chars) := by
  have digits := graphic_takeWhile isGraphic_of_isDecimalPart
  have power := @graphic_exponent 'e' 'E' ⟨by decide, by decide⟩ ⟨by decide, by decide⟩
  unfold decimalText
  split
  · exact graphic_nil
  split
  · next isDigit =>
    refine .cons (.of_isDigit isDigit) (graphic_readParts ?_ _)
    simp only [List.forall_mem_cons, List.not_mem_nil, false_implies, implies_true, and_true]
    exact ⟨digits, graphic_fraction isGraphic_of_isDecimalPart, power⟩
  split
  · split
    · refine .cons ⟨by decide, by decide⟩ (graphic_readParts ?_ _)
      simp only [List.forall_mem_cons, List.not_mem_nil, false_implies, implies_true, and_true]
      exact ⟨digits, power⟩
    · exact graphic_nil
  · exact graphic_nil

/-- A literal with a marker, or else a decimal one. -/
theorem graphic_marked (parts : ∀ char, isPart char → IsGraphic char) {mark : Char}
    (isMark : IsGraphic mark) (rest chars : List Char) :
    Graphic ((markedText isPart mark rest).getD (decimalText chars)) := by
  unfold markedText
  simp only
  split
  · exact graphic_decimalText chars
  · exact .cons ⟨by decide, by decide⟩ (.cons isMark (graphic_takeWhile parts rest))

theorem graphic_realText (chars : List Char) : Graphic (realText chars) := by
  unfold realText
  split
  · next mark rest =>
    split
    · next isMark =>
      refine .cons ⟨by decide, by decide⟩ (.cons ?_ (graphic_hexadecimalTail _))
      simp only [Bool.or_eq_true, decide_eq_true_eq] at isMark
      obtain rfl | rfl := isMark <;> exact ⟨by decide, by decide⟩
    split
    · next isMark =>
      refine graphic_marked isGraphic_of_isBinaryPart ?_ _ _
      simp only [Bool.or_eq_true, decide_eq_true_eq] at isMark
      obtain rfl | rfl := isMark <;> exact ⟨by decide, by decide⟩
    split
    · next isMark =>
      refine graphic_marked isGraphic_of_isOctalPart ?_ _ _
      simp only [Bool.or_eq_true, decide_eq_true_eq] at isMark
      obtain rfl | rfl := isMark <;> exact ⟨by decide, by decide⟩
    · exact graphic_decimalText _
  · exact graphic_decimalText _

theorem graphic_number (chars : List Char) : Graphic (number chars) := by
  have mark (chars : List Char) : Graphic (imaginaryMark chars) := by
    unfold imaginaryMark
    split
    · exact .cons ⟨by decide, by decide⟩ graphic_nil
    · exact graphic_nil
  unfold number
  split
  · exact graphic_nil
  · exact (graphic_realText chars).append (mark _)

end Graphic

end Literal

/-! ### Pieces -/

namespace Piece

open Layout (Inked)

/-- Something can be seen of a comment and of a lexeme, and only a literal in quotes can hold line
ends. -/
structure Shown (piece : Piece) : Prop where
  comment : ∀ chars, piece = .comment chars → Inked chars
  lexeme : ∀ token chars, piece = .lexeme token chars →
    Inked chars ∧ (token = .string ∨ token = .char ∨ '\n' ∉ chars)

theorem Shown.of_comment {chars : List Char} (inked : Inked chars) : Shown (.comment chars) :=
  ⟨fun _ same => Piece.comment.inj same ▸ inked, by simp⟩

theorem Shown.of_lexeme {token : Token} {chars : List Char} (inked : Inked chars)
    (whole : token = .string ∨ token = .char ∨ '\n' ∉ chars) : Shown (.lexeme token chars) := by
  refine ⟨by simp, fun _ _ same => ?_⟩
  obtain ⟨rfl, rfl⟩ := Piece.lexeme.inj same
  exact ⟨inked, whole⟩

theorem inked_cons {first : Char} (notBlank : Text.isBlank first = false) (rest : List Char) :
    Inked (first :: rest) :=
  ⟨first, List.mem_cons_self, notBlank⟩

theorem notBlank_of_startsWord {char : Char} (starts : startsWord char) : Text.isBlank char = false := by
  obtain isLetter | isLine := Bool.or_eq_true_iff.mp starts
  · exact Text.isBlank_of_isLetter isLetter
  · rw [of_decide_eq_true isLine]
    decide

theorem quotedLiteral_shown {quote : Char} {token : Token} {kind : String} {rest : List Char}
    {piece : Piece} (notBlank : Text.isBlank quote = false) (isQuoted : token = .string ∨ token = .char)
    (outcome : quotedLiteral quote token kind rest = .ok piece) : piece.Shown := by
  unfold quotedLiteral at outcome
  split at outcome
  · cases outcome
  · obtain rfl := Except.ok.inj outcome
    exact .of_lexeme (inked_cons notBlank _) (isQuoted.imp_right .inl)

theorem word_shown {first : Char} {rest : List Char} (starts : startsWord first) :
    (word (first :: rest.takeWhile continuesWord)).Shown := by
  refine .of_lexeme (inked_cons (notBlank_of_startsWord starts) _) (.inr (.inr fun isBreak => ?_))
  obtain rfl | isBreak := List.mem_cons.mp isBreak
  · exact absurd starts (by decide)
  · exact absurd (List.mem_takeWhile_imp isBreak) (by decide)

theorem leadingOperator?_shown {chars text : List Char} {token : Token}
    (found : Token.leadingOperator? chars = some (text, token)) : (Piece.lexeme token text).Shown := by
  have isOperator : (text, token) ∈ (Token.all.filter Token.isOperator).map
      fun token => (token.text.toList, token) :=
    (List.mergeSort_perm _ _).mem_iff.mp (List.mem_of_find?_eq_some found)
  obtain ⟨operator, -, entryEq⟩ := List.mem_map.mp isOperator
  obtain ⟨textEq, rfl⟩ := Prod.mk.inj entryEq
  have isLine := Layout.isLine_token operator
  rw [textEq] at isLine
  exact .of_lexeme isLine.inked (.inr (.inr isLine.noBreak))

theorem read_shown {first : Char} {rest : List Char} {piece : Piece}
    (outcome : read first rest = .ok piece) : piece.Shown := by
  have slash : Text.isBlank '/' = false := by decide
  unfold read at outcome
  split at outcome
  · obtain rfl := Except.ok.inj outcome
    exact ⟨by simp, by simp⟩
  split at outcome
  · obtain rfl := Except.ok.inj outcome
    exact ⟨by simp, by simp⟩
  split at outcome
  · next isComment =>
    obtain rfl := Except.ok.inj outcome
    obtain rfl : first = '/' := of_decide_eq_true (Bool.and_eq_true_iff.mp isComment).1
    exact .of_comment (inked_cons slash _)
  split at outcome
  · split at outcome
    · cases outcome
    · obtain rfl := Except.ok.inj outcome
      exact .of_comment (inked_cons slash _)
  split at outcome
  · next starts =>
    obtain rfl := Except.ok.inj outcome
    exact word_shown starts
  split at outcome
  · have graphic := Literal.graphic_number (first :: rest)
    split at outcome
    · cases outcome
    · next notEmpty =>
      obtain rfl := Except.ok.inj outcome
      obtain ⟨char, isChar⟩ := List.exists_mem_of_ne_nil _ notEmpty
      exact .of_lexeme ⟨char, isChar, (graphic char isChar).notBlank⟩
        (.inr (.inr fun isBreak => (graphic _ isBreak).ne_lineFeed rfl))
  split at outcome
  · exact quotedLiteral_shown (by decide) (.inl rfl) outcome
  split at outcome
  · next isQuote =>
    split at outcome
    · cases outcome
    · obtain rfl := Except.ok.inj outcome
      rw [isQuote]
      exact .of_lexeme (inked_cons (by decide) _) (.inl rfl)
  split at outcome
  · exact quotedLiteral_shown (by decide) (.inr rfl) outcome
  split at outcome
  · cases outcome
  · next text token found =>
    obtain rfl := Except.ok.inj outcome
    exact leadingOperator?_shown found

theorem ofChars_shown {pos : Pos} {chars : List Char} {pieces : List (Pos × Piece)}
    (outcome : ofChars pos chars = .ok pieces) : ∀ entry ∈ pieces, entry.2.Shown := by
  fun_induction ofChars pos chars generalizing pieces with
  | case1 =>
      obtain rfl := Except.ok.inj outcome
      simp
  | case2 => cases outcome
  | case3 => cases outcome
  | case4 pos first rest piece readOutcome length later laterOutcome =>
      rename_i ih
      obtain rfl := Except.ok.inj outcome
      exact List.forall_mem_cons.mpr ⟨read_shown readOutcome, ih laterOutcome⟩

end Piece

namespace Scan

open Layout (Inked IsLine)

variable {base : Nat} {text : String} {scan : Scan}

/-- A lexeme that is neither in quotes nor stands for the end of a line or of the text is a line. -/
theorem shown_of_mem (outcome : ofText base text = .ok scan) {lexeme : Lexeme}
    (isLexeme : lexeme ∈ scan.lexemes) (notSemicolon : lexeme.token ≠ .semicolon)
    (notEnd : lexeme.token ≠ .endOfFile) : Inked lexeme.text.toList ∧
      (lexeme.token = .string ∨ lexeme.token = .char ∨ '\n' ∉ lexeme.text.toList) := by
  unfold ofText at outcome
  split at outcome
  · cases outcome
  · next pieces piecesOutcome =>
    obtain rfl := Except.ok.inj outcome
    obtain ⟨chars, isPiece, textEq⟩ := mem_pieces isLexeme notSemicolon notEnd
    rw [textEq, String.toList_ofList]
    exact (Piece.ofChars_shown piecesOutcome _ isPiece).lexeme _ _ rfl

theorem inked_comment (outcome : ofText base text = .ok scan) {comment : Comment}
    (isComment : comment ∈ scan.comments) : Inked comment.text.toList := by
  unfold ofText at outcome
  split at outcome
  · cases outcome
  · next pieces piecesOutcome =>
    obtain rfl := Except.ok.inj outcome
    rw [comments_eq] at isComment
    obtain ⟨⟨pos, piece⟩, isPiece, isComment⟩ := List.mem_filterMap.mp isComment
    cases piece with
    | comment chars =>
        obtain rfl := Option.some.inj isComment
        rw [String.toList_ofList]
        exact (Piece.ofChars_shown piecesOutcome _ isPiece).comment _ rfl
    | _ => cases isComment

end Scan

/-! ### Trees -/

namespace Node

/-- Whether no literal in quotes of a tree holds a line end. -/
def IsQuiet (node : Node) : Prop :=
  ∀ literal, lit literal ∈ node.walk → literal.kind = .string ∨ literal.kind = .char →
    '\n' ∉ literal.value.toList

theorem IsQuiet.child {node child : Node} (quiet : node.IsQuiet) (isChild : child ∈ node.children) :
    child.IsQuiet := by
  intro literal isLiteral
  refine quiet literal ?_
  rw [walk_eq_preorder] at isLiteral ⊢
  rw [preorder_eq]
  exact List.mem_cons_of_mem _ (List.mem_flatMap.mpr ⟨child, isChild, isLiteral⟩)

theorem isLine_of_isLexeme {base : Nat} {text : String} {scan : Scan}
    (outcome : Scan.ofText base text = .ok scan) {lexeme : Lexeme} (isLexeme : lexeme ∈ scan.lexemes)
    (notSemicolon : lexeme.token ≠ .semicolon) (notEnd : lexeme.token ≠ .endOfFile)
    (quiet : lexeme.token = .string ∨ lexeme.token = .char → '\n' ∉ lexeme.text.toList) :
    Layout.IsLine lexeme.text.toList := by
  obtain ⟨inked, isString | isChar | noBreak⟩ :=
    Scan.shown_of_mem outcome isLexeme notSemicolon notEnd
  · exact ⟨quiet (.inl isString), inked⟩
  · exact ⟨quiet (.inr isChar), inked⟩
  · exact ⟨noBreak, inked⟩

/-- The names and literals of a tree that was read are lines if those in quotes hold no line ends. -/
theorem Written.worded {base : Nat} {text : String} {scan : Scan}
    (outcome : Scan.ofText base text = .ok scan) {node : Node} (written : Written scan.lexemes node)
    (quiet : node.IsQuiet) : node.Worded := by
  induction written with
  | @node node token room children ih =>
      refine .node ?_ fun child isChild => ih child isChild (quiet.child isChild)
      unfold WritesLine
      split
      · next name =>
        obtain isIdent | ⟨isPoint, -⟩ := token
        · exact isLine_of_isLexeme outcome isIdent (by simp) (by simp) (by simp)
        · rw [isPoint]
          exact Layout.isLine_plain "." rfl rfl
      · next literal =>
        obtain ⟨isLiteral, isLexeme⟩ := token
        have isHere : lit literal ∈ (lit literal).walk := by
          rw [walk_eq_preorder, preorder_eq]
          exact List.mem_cons_self
        refine isLine_of_isLexeme outcome isLexeme ?_ ?_ (quiet literal isHere) <;>
          rintro (kindEq : literal.kind = _) <;> rw [kindEq] at isLiteral <;> cases isLiteral
      · exact token
      · trivial

end Node

/-! ### Files -/

namespace File

/-- Whether no comment of a file and no literal in quotes holds a line end. -/
structure IsQuiet (file : File) : Prop where
  comments : ∀ comment ∈ file.comments, '\n' ∉ comment.text.toList
  literals : (Node.file file).IsQuiet

/-- What a quiet file that was read writes are lines. -/
theorem writesLines_of_ofText {source : SourceFile} {text : String} {file : File}
    (positive : 0 < source.base) (sizeEq : source.size = text.length)
    (outcome : ofText source text = .ok file) (quiet : file.IsQuiet) :
    file.WritesLines := by
  obtain ⟨-, -, -, scan, scanned, drawn, commentsEq⟩ := ofText_sound positive sizeEq outcome
  refine ⟨drawn.written.worded scanned quiet.literals, fun comment isComment => ?_⟩
  exact ⟨quiet.comments comment isComment, Scan.inked_comment scanned (commentsEq ▸ isComment)⟩

end File

end GoMend
