import GoMend.Proofs.Lexeme.Rescan

/-!
# Words of a text

A text that is made of blanks and of words, each of which is read in front of what follows it, is
scanned to these words.  A name is read in front of what does not go on it, a bracket in front of
anything, and an operator in front of what neither goes on an operator nor begins a comment with it.
-/

namespace GoMend

/-! ### Letters and digits -/

namespace Text

namespace CodeSet

/-- Whether no run of one list of changes meets a run of another one, when at most so many runs are
passed. -/
def areApart : Nat → List Nat → List Nat → Bool
  | passes + 1, low :: high :: changes, low' :: high' :: changes' =>
      if high ≤ low' then areApart passes changes (low' :: high' :: changes')
      else high' ≤ low && areApart passes (low :: high :: changes) changes'
  | _ + 1, [], _ => true
  | _ + 1, _, [] => true
  | _, _, _ => false

/-- A member lies in the first run or in a later one. -/
theorem contains_cons_cons {low high code : Nat} {changes : List Nat}
    (isMember : contains ⟨low :: high :: changes⟩ code) :
    low ≤ code ∧ (high ≤ code → contains ⟨changes⟩ code) := by
  by_cases low_le : low ≤ code
  · refine ⟨low_le, fun high_le => ?_⟩
    simp only [contains, changesUpTo, low_le, high_le, List.takeWhile_cons, decide_true, if_true,
      List.length_cons, beq_iff_eq] at isMember ⊢
    omega
  · simp [contains, changesUpTo, low_le] at isMember

/-- No code point is a member of both of two sets that are apart. -/
theorem not_contains_of_areApart {passes code : Nat} {changes changes' : List Nat}
    (apart : areApart passes changes changes') (isMember : contains ⟨changes⟩ code)
    (isMember' : contains ⟨changes'⟩ code) : False := by
  fun_induction areApart passes changes changes' with
  | case1 passes low high changes low' high' changes' high_le ih =>
      exact ih apart ((contains_cons_cons isMember).2
        (high_le.trans (contains_cons_cons isMember').1)) isMember'
  | case2 passes low high changes low' high' changes' not_le ih =>
      obtain ⟨high'_le, apart⟩ := Bool.and_eq_true_iff.mp apart
      exact ih apart isMember ((contains_cons_cons isMember').2
        ((of_decide_eq_true high'_le).trans (contains_cons_cons isMember).1))
  | case3 => cases isMember
  | case4 => cases isMember'
  | case5 => cases apart

end CodeSet

theorem letterSet_areApart :
    CodeSet.areApart 2000 letterSet.changes decimalSet.changes ∧
      CodeSet.areApart 2000 letterSet.changes digitFormSet.changes := by
  decide +kernel

/-- No letter is a digit. -/
theorem isDigit_of_isLetter {char : Char} (letter : isLetter char) : isDigit char = false := by
  unfold isLetter at letter
  unfold isDigit
  split
  · next small =>
      rw [if_pos small] at letter
      simp only [Char.isAlpha, Char.isUpper, Char.isLower, Char.isDigit, Bool.or_eq_true,
        Bool.and_eq_true, decide_eq_true_eq, ← Bool.not_eq_true, ge_iff_le,
        UInt32.le_iff_toNat_le] at letter ⊢
      rintro ⟨-, le⟩
      change char.val.toNat ≤ 57 at le
      rcases letter with ⟨ge, -⟩ | ⟨ge, -⟩
      · change 65 ≤ char.val.toNat at ge
        omega
      · change 97 ≤ char.val.toNat at ge
        omega
  · next large =>
      rw [if_neg large] at letter
      by_contra isDigit
      simp only [Bool.not_eq_false, Bool.or_eq_true] at isDigit
      rcases isDigit with decimal | form
      · exact CodeSet.not_contains_of_areApart letterSet_areApart.1 letter decimal
      · exact CodeSet.not_contains_of_areApart letterSet_areApart.2 letter form

end Text

/-! ### Signs -/

/-- A token with its text. -/
abbrev Word :=
  Token × String

namespace Token

/-- The word of a token that is written as its own text. -/
def word (token : Token) : Word :=
  (token, token.text)

@[simp]
theorem word_fst (token : Token) : token.word.1 = token :=
  rfl

theorem mem_all (token : Token) : token ∈ all := by
  cases token <;> decide

theorem precedence_le (token : Token) : token.precedence ≤ 5 := by
  cases token <;> decide

end Token

namespace Piece

theorem plain_of_startsWord {char : Char} (starts : startsWord char) :
    char ≠ '\n' ∧ isSeparator char = false ∧ char ≠ '/' := by
  refine ⟨?_, ?_, ?_⟩
  · rintro rfl
    exact absurd starts (by decide)
  · by_contra isSeparator
    simp only [Piece.isSeparator, Bool.not_eq_false, Bool.or_eq_true, decide_eq_true_eq]
      at isSeparator
    rcases isSeparator with (rfl | rfl) | rfl <;> exact absurd starts (by decide)
  · rintro rfl
    exact absurd starts (by decide)

/-- A word is read in front of what does not go on it. -/
theorem read_word {first : Char} {others more : List Char} (starts : startsWord first)
    (goesOn : ∀ char ∈ others, continuesWord char)
    (ends : ∀ char ∈ more.head?, continuesWord char = false) :
    read first (others ++ more) = .ok (word (first :: others)) := by
  obtain ⟨notFeed, notSeparator, notSlash⟩ := plain_of_startsWord starts
  rw [read, if_neg notFeed, if_neg (by simp [notSeparator]), if_neg (by simp [notSlash]),
    if_neg (by simp [notSlash]), if_pos starts, takeWhile_continuesWord_append goesOn ends]

/-- Whether a character can stand behind a binary operator without going on it. -/
def isApart (char : Char) : Bool :=
  char = ' ' || char = '(' || startsWord char

theorem isApart_of_startsWord {char : Char} (starts : startsWord char) : isApart char := by
  simp [isApart, starts]

/-- What can stand behind an operator goes on none. -/
theorem notMem_tail_of_isApart {char : Char} (apart : isApart char) :
    ∀ entry ∈ Token.operators, char ∉ entry.1.tail := by
  intro entry isEntry isPart
  obtain ⟨token, isMember, isOperator, rfl⟩ := Token.exists_of_operators isEntry
  have each : ∀ token ∈ Token.all, token.isOperator →
      token.text.toList.tail.all fun char => !isApart char := by decide
  have notApart := List.all_eq_true.mp (each token isMember isOperator) char isPart
  rw [apart] at notApart
  cases notApart

/-- The characters with which operators and delimiters begin. -/
def signs : List Char :=
  (Token.all.filter Token.isOperator).flatMap fun token => token.text.toList.take 1

/-- A sign begins an operator or a delimiter unless it begins a comment or a number. -/
theorem read_sign {first : Char} {rest chars : List Char} {token : Token} (isSign : first ∈ signs)
    (notComment : first = '/' → ∀ char ∈ rest.head?, char ≠ '/' ∧ char ≠ '*')
    (notNumber : first = '.' → rest.head?.any Text.isDigit = false)
    (leading : Token.leadingOperator? (first :: rest) = some (chars, token)) :
    read first rest = .ok (.lexeme token chars) := by
  have plain : signs.all fun sign => sign ≠ '\n' ∧ isSeparator sign = false ∧
      startsWord sign = false ∧ Text.isDigit sign = false ∧ sign ≠ '"' ∧ sign ≠ '\x60' ∧
        sign ≠ '\'' := by
    decide
  obtain ⟨notFeed, notSeparator, notWord, notDigit, notQuote, notRaw, notRune⟩ :=
    of_decide_eq_true (List.all_eq_true.mp plain first isSign)
  have isNumber : startsNumber first rest = false := by
    by_cases isPoint : first = '.'
    · simp [startsNumber, notDigit, notNumber isPoint]
    · simp [startsNumber, notDigit, isPoint]
  have notLine : ¬(first = '/' && rest.head? = some '/') := by
    simp only [Bool.and_eq_true, decide_eq_true_eq, not_and]
    exact fun isSlash headEq => (notComment isSlash '/' headEq).1 rfl
  have notGeneral : ¬(first = '/' && rest.head? = some '*') := by
    simp only [Bool.and_eq_true, decide_eq_true_eq, not_and]
    exact fun isSlash headEq => (notComment isSlash '*' headEq).2 rfl
  rw [read, if_neg notFeed, if_neg (by simp [notSeparator]), if_neg notLine, if_neg notGeneral,
    if_neg (by simp [notWord]), if_neg (by simp [isNumber]), if_neg notQuote, if_neg notRaw,
    if_neg notRune, leading]

/-- What is written as a binary operator begins like one, holds no mark of a comment and is found as a
whole. -/
theorem leading_of_precedence (op : Token) (isBinary : 0 < op.precedence) :
    op.text.toList ≠ [] ∧ (∀ char ∈ op.text.toList, char ∈ signs ∧ char ≠ '.') ∧
      (∀ char ∈ op.text.toList.tail, char ≠ '/' ∧ char ≠ '*') ∧
      Token.leadingOperator? op.text.toList = some (op.text.toList, op) := by
  have each : ∀ op ∈ Token.all, 0 < op.precedence → op.text.toList ≠ [] ∧
      (op.text.toList.all fun char => char ∈ signs ∧ char ≠ '.') ∧
      (op.text.toList.tail.all fun char => char ≠ '/' ∧ char ≠ '*') ∧
      leadingByLength op.text.toList = some (op.text.toList, op) := by
    decide +kernel
  obtain ⟨nonempty, areSigns, noComment, leading⟩ := each op op.mem_all isBinary
  rw [leadingByLength_eq] at leading
  exact ⟨nonempty, fun char isChar => of_decide_eq_true (List.all_eq_true.mp areSigns char isChar),
    fun char isChar => of_decide_eq_true (List.all_eq_true.mp noComment char isChar), leading⟩

/-- An operator is read as a whole in front of what cannot go on it. -/
theorem read_binary {op : Token} (isBinary : 0 < op.precedence) {more : List Char}
    (apart : ∀ char ∈ more.head?, isApart char) : ∃ first others, op.text.toList = first :: others ∧
      first ∈ signs ∧ read first (others ++ more) = .ok (.lexeme op (first :: others)) := by
  obtain ⟨nonempty, areSigns, noComment, leading⟩ := leading_of_precedence op isBinary
  obtain ⟨first, others, textEq⟩ := List.exists_cons_of_ne_nil nonempty
  rw [textEq] at areSigns noComment leading
  have isSign := areSigns first List.mem_cons_self
  refine ⟨first, others, textEq, isSign.1, read_sign isSign.1 ?_ (absurd · isSign.2) ?_⟩
  · intro _ char isHead
    cases others with
    | nil =>
        have isApart := apart char isHead
        constructor <;>
        · rintro rfl
          exact absurd isApart (by decide)
    | cons second others =>
        obtain rfl := Option.some.inj isHead
        exact noComment _ List.mem_cons_self
  · exact Token.leadingOperator?_append leading fun char isHead =>
      notMem_tail_of_isApart (apart char isHead)

/-- Whether a token is a bracket or a comma. -/
def isBracket (token : Token) : Bool :=
  token = .leftParen || token = .rightParen || token = .leftBracket || token = .rightBracket ||
    token = .comma

/-- A bracket or a comma is read whatever follows. -/
theorem read_bracket {token : Token} (isBracket : isBracket token) (more : List Char) :
    ∃ sign, token.text.toList = [sign] ∧ sign ∈ signs ∧
      read sign more = .ok (.lexeme token [sign]) := by
  simp only [Piece.isBracket, Bool.or_eq_true, decide_eq_true_eq] at isBracket
  simp only [← readBy_leadingByLength]
  rcases isBracket with (((rfl | rfl) | rfl) | rfl) | rfl
  · exact ⟨'(', rfl, by decide, rfl⟩
  · exact ⟨')', rfl, by decide, rfl⟩
  · exact ⟨'[', rfl, by decide, rfl⟩
  · exact ⟨']', rfl, by decide, rfl⟩
  · exact ⟨',', rfl, by decide, rfl⟩

/-- A point is read as such in front of a word. -/
theorem read_period {char : Char} (starts : startsWord char) (more : List Char) :
    read '.' (char :: more) = .ok (.lexeme .period ['.']) := by
  have found : Token.leadingOperator? ['.'] = some (['.'], .period) := by
    rw [← leadingByLength_eq]
    decide
  refine read_sign (by decide) (by simp) (fun _ => ?_)
    (Token.leadingOperator?_append found fun other (isHead : other ∈ (char :: more).head?) => ?_)
  · simp only [startsWord, Bool.or_eq_true, decide_eq_true_eq] at starts
    rcases starts with letter | rfl
    · simp [Text.isDigit_of_isLetter letter]
    · change Text.isDigit '_' = false
      decide
  · obtain rfl := Option.some.inj isHead
    exact notMem_tail_of_isApart (isApart_of_startsWord starts)

end Piece

/-! ### Words of a text -/

open Piece (startsWord continuesWord)

/-- Characters are blanks and words, each of which is read in front of what follows it. -/
inductive Spelled : List Char → List Word → Prop where
  | nil : Spelled [] []
  | blank {rest : List Char} {words : List Word} (later : Spelled rest words) :
      Spelled (' ' :: rest) words
  | word {first : Char} {others rest : List Char} {token : Token} {words : List Word}
      (read : Piece.read first (others ++ rest) = .ok (.lexeme token (first :: others)))
      (later : Spelled rest words) :
      Spelled (first :: others ++ rest) ((token, String.ofList (first :: others)) :: words)

/-- The last token of words that stand behind a token. -/
def lastToken (last : Option Token) (words : List Word) : Option Token :=
  words.foldl (fun _ word => some word.1) last

/-- The words of characters are scanned, and nothing else is. -/
theorem Spelled.scan {chars : List Char} {words : List Word} (spelled : Spelled chars words)
    (pos stop : Pos) (last : Option Token) : ∃ pieces, Piece.ofChars pos chars = .ok pieces ∧
      (Scan.ofPieces stop last pieces).lexemes.map Lexeme.word = words ++
        (Scan.ofPieces stop (lastToken last words) []).lexemes.map Lexeme.word := by
  induction spelled generalizing pos last with
  | nil => exact ⟨[], Piece.ofChars.eq_1 pos, rfl⟩
  | blank later ih =>
      obtain ⟨pieces, outcome, lexemesEq⟩ := ih (pos + 1) last
      exact ⟨(pos, .blank ' ') :: pieces, Piece.ofChars_read rfl rfl outcome, lexemesEq⟩
  | @word first others rest token words read later ih =>
      obtain ⟨pieces, outcome, lexemesEq⟩ := ih (pos + (first :: others).length) (some token)
      refine ⟨(pos, .lexeme token (first :: others)) :: pieces,
        Piece.ofChars_read read rfl outcome, ?_⟩
      simp only [Scan.ofPieces, List.map_cons, Lexeme.word, List.cons_append, lexemesEq]
      rfl

theorem lastToken_append (last : Option Token) (words : List Word) (word : Word) :
    lastToken last (words ++ [word]) = some word.1 := by
  rw [lastToken, List.foldl_append]
  rfl

end GoMend
