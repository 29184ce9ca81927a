import GoMend.Proofs.Lexeme.Lossless

/-!
# Scanning lexemes again

A lexeme is read in the same way when a blank follows it, whatever followed it before.  So the texts of
all lexemes of a scan, divided by blanks, are scanned to the same lexemes.
-/

namespace GoMend

namespace Literal

/-! ### Readers of literals -/

/-- What a reader takes does not depend on what is cut off behind it and replaced by a blank. -/
def Cuts (reader : List Char → List Char) : Prop :=
  ∀ chars count more, (reader chars).length ≤ count →
    reader (chars.take count ++ ' ' :: more) = reader chars

theorem cuts_takeWhile {isPart : Char → Bool} (notBlank : isPart ' ' = false) :
    Cuts (List.takeWhile isPart) := by
  intro chars count more le
  induction chars generalizing count with
  | nil => simp [notBlank]
  | cons char chars ih =>
      cases isChar : isPart char with
      | false => cases count <;> simp [isChar, notBlank]
      | true =>
          simp only [List.takeWhile_cons, isChar, if_true, List.length_cons] at le ⊢
          obtain ⟨count, rfl⟩ := Nat.exists_eq_add_of_le' (Nat.zero_lt_of_lt le)
          simp only [List.take_succ_cons, List.cons_append, List.takeWhile_cons, isChar, if_true]
          rw [ih count (by omega)]

theorem cuts_fraction {isPart : Char → Bool} (notBlank : isPart ' ' = false) :
    Cuts (fraction isPart) := by
  intro chars count more le
  cases chars with
  | nil => simp [fraction]
  | cons char chars =>
      by_cases isPoint : char = '.'
      · subst isPoint
        simp only [fraction, List.length_cons] at le ⊢
        obtain ⟨count, rfl⟩ := Nat.exists_eq_add_of_le' (Nat.zero_lt_of_lt le)
        simp only [List.take_succ_cons, List.cons_append]
        rw [cuts_takeWhile notBlank chars count more (by omega)]
      · cases count <;> simp [fraction, isPoint]

theorem cuts_imaginaryMark : Cuts imaginaryMark := by
  intro chars count more le
  cases chars with
  | nil => simp [imaginaryMark]
  | cons char chars =>
      by_cases isMark : char = 'i'
      · subst isMark
        simp only [imaginaryMark, List.length_cons] at le ⊢
        obtain ⟨count, rfl⟩ := Nat.exists_eq_add_of_le' (Nat.zero_lt_of_lt le)
        simp
      · cases count <;> simp [imaginaryMark, isMark]

theorem cuts_sign : Cuts sign := by
  intro chars count more le
  cases chars with
  | nil => simp [sign]
  | cons char chars =>
      cases count with
      | zero =>
          have empty := List.eq_nil_of_length_eq_zero (Nat.le_zero.mp le)
          rw [empty]
          rfl
      | succ count =>
          rw [List.take_succ_cons, List.cons_append]
          unfold sign
          split <;> simp_all

/-- Cutting keeps what is left after a part that was read. -/
theorem drop_take_append {part chars more : List Char} {count : Nat} (isPrefix : part <+: chars)
    (le : part.length ≤ count) :
    (chars.take count ++ ' ' :: more).drop part.length =
      (chars.drop part.length).take (count - part.length) ++ ' ' :: more := by
  have short : part.length ≤ (chars.take count).length := by
    rw [List.length_take]
    exact le_min le isPrefix.length_le
  rw [List.drop_append_of_le_length short, List.drop_take]

theorem length_sign_le (chars : List Char) : (sign chars).length ≤ 1 := by
  unfold sign
  split <;> simp

/-- The digits of an exponent, which are read after its sign. -/
def exponentDigits (rest : List Char) : List Char :=
  (rest.drop (sign rest).length).takeWhile isDecimalPart

theorem exponent_cons (lower upper mark : Char) (rest : List Char) :
    exponent lower upper (mark :: rest) =
      if (mark = lower ∨ mark = upper) ∧ exponentDigits rest ≠ [] then
        mark :: (sign rest ++ exponentDigits rest)
      else [] := by
  by_cases isMark : mark = lower ∨ mark = upper <;> by_cases empty : exponentDigits rest = [] <;>
    simp_all [exponent, exponentDigits]

/-- The digits of an exponent are cut with its sign before them. -/
theorem exponentDigits_cut {rest : List Char} {count : Nat} (more : List Char)
    (le : (sign rest).length + (exponentDigits rest).length ≤ count) :
    sign (rest.take count ++ ' ' :: more) = sign rest ∧
      exponentDigits (rest.take count ++ ' ' :: more) = exponentDigits rest := by
  have short := (Nat.le_add_right _ _).trans le
  have signEq := cuts_sign rest count more short
  refine ⟨signEq, ?_⟩
  rw [exponentDigits, signEq, drop_take_append (prefix_sign rest) short]
  exact cuts_takeWhile (by decide) _ _ more (Nat.le_sub_of_add_le' le)

/-- Without digits in the text there are none in what is left of it. -/
theorem exponentDigits_cut_nil {rest : List Char} (count : Nat) (more : List Char)
    (empty : exponentDigits rest = []) : exponentDigits (rest.take count ++ ' ' :: more) = [] := by
  cases count with
  | zero => rfl
  | succ count =>
      rw [(exponentDigits_cut more _).2, empty]
      rw [empty]
      exact (length_sign_le rest).trans (Nat.succ_le_succ (Nat.zero_le count))

theorem cuts_exponent {lower upper : Char} (notBlank : ' ' ≠ lower ∧ ' ' ≠ upper) :
    Cuts (exponent lower upper) := by
  intro chars count more le
  have blank (more : List Char) : exponent lower upper (' ' :: more) = [] := by
    rw [exponent_cons, if_neg]
    simp [notBlank]
  cases chars with
  | nil =>
      rw [List.take_nil]
      exact blank more
  | cons mark rest =>
      cases count with
      | zero =>
          rw [List.eq_nil_of_length_eq_zero (Nat.le_zero.mp le)]
          exact blank more
      | succ count =>
          rw [List.take_succ_cons, List.cons_append, exponent_cons, exponent_cons]
          rw [exponent_cons] at le
          by_cases empty : exponentDigits rest = []
          · simp [exponentDigits_cut_nil count more empty, empty]
          · by_cases isMark : mark = lower ∨ mark = upper
            · rw [if_pos ⟨isMark, empty⟩, List.length_cons, List.length_append] at le
              obtain ⟨signEq, digitsEq⟩ := exponentDigits_cut more (Nat.le_of_succ_le_succ le)
              rw [signEq, digitsEq]
            · simp [isMark]

/-- Readers that are cut one after another. -/
theorem cuts_readParts {readers : List (List Char → List Char)}
    (each : ∀ reader ∈ readers, Cuts reader ∧ ∀ chars, reader chars <+: chars) :
    Cuts (readParts readers) := by
  induction readers with
  | nil => exact fun _ _ _ _ => rfl
  | cons reader readers ih =>
      obtain ⟨⟨cuts, isPrefix⟩, others⟩ := List.forall_mem_cons.mp each
      intro chars count more le
      simp only [readParts, List.length_append] at le ⊢
      have partEq := cuts chars count more ((Nat.le_add_right _ _).trans le)
      rw [partEq, drop_take_append (isPrefix chars) ((Nat.le_add_right _ _).trans le),
        ih others _ _ more (Nat.le_sub_of_add_le' le)]

/-! ### Numbers -/

theorem cuts_hexadecimalTail : Cuts hexadecimalTail := by
  refine cuts_readParts ?_
  simp only [List.forall_mem_cons, List.not_mem_nil, false_implies, implies_true, and_true]
  exact ⟨⟨cuts_takeWhile (by decide), fun _ => List.takeWhile_prefix _⟩,
    ⟨cuts_fraction (by decide), prefix_fraction _⟩, cuts_exponent (by decide), prefix_exponent _ _⟩

/-- The parts of a decimal literal that begins with a digit, and of one that begins with a point. -/
def integralParts : List Char → List Char :=
  readParts [List.takeWhile isDecimalPart, fraction isDecimalPart, exponent 'e' 'E']

@[inherit_doc integralParts]
def fractionalParts : List Char → List Char :=
  readParts [List.takeWhile isDecimalPart, exponent 'e' 'E']

theorem cuts_integralParts : Cuts integralParts := by
  refine cuts_readParts ?_
  simp only [List.forall_mem_cons, List.not_mem_nil, false_implies, implies_true, and_true]
  exact ⟨⟨cuts_takeWhile (by decide), fun _ => List.takeWhile_prefix _⟩,
    ⟨cuts_fraction (by decide), prefix_fraction _⟩, cuts_exponent (by decide), prefix_exponent _ _⟩

theorem cuts_fractionalParts : Cuts fractionalParts := by
  refine cuts_readParts ?_
  simp only [List.forall_mem_cons, List.not_mem_nil, false_implies, implies_true, and_true]
  exact ⟨⟨cuts_takeWhile (by decide), fun _ => List.takeWhile_prefix _⟩, cuts_exponent (by decide),
    prefix_exponent _ _⟩

theorem decimalText_cons (first : Char) (rest : List Char) :
    decimalText (first :: rest) = if first.isDigit then first :: integralParts rest
      else if first = '.' ∧ rest.head?.any Char.isDigit then first :: fractionalParts rest else [] := by
  by_cases isDigit : first.isDigit
  · simp only [decimalText, isDigit, if_true, integralParts]
  · simp only [decimalText, isDigit, Bool.false_eq_true, if_false]
    split
    · simp [fractionalParts]
    · next notPoint =>
      have notStarted : ¬(first = '.' ∧ rest.head?.any Char.isDigit) := by
        rintro ⟨isPoint, startsDigit⟩
        cases rest with
        | nil => simp at startsDigit
        | cons digit rest => exact notPoint digit rest isPoint rfl
      rw [if_neg notStarted]

theorem fractionalParts_ne_nil {digit : Char} {rest : List Char} (isDigit : digit.isDigit) :
    fractionalParts (digit :: rest) ≠ [] := by
  simp [fractionalParts, readParts, isDecimalPart, isDigit]

theorem cuts_decimalText : Cuts decimalText := by
  intro chars count more le
  have blank (more : List Char) : decimalText (' ' :: more) = [] := by
    rw [decimalText_cons, if_neg (by decide), if_neg (by simp)]
  cases chars with
  | nil =>
      rw [List.take_nil]
      exact blank more
  | cons first rest =>
      cases count with
      | zero =>
          rw [List.eq_nil_of_length_eq_zero (Nat.le_zero.mp le)]
          exact blank more
      | succ count =>
          rw [List.take_succ_cons, List.cons_append, decimalText_cons, decimalText_cons]
          rw [decimalText_cons] at le
          by_cases isDigit : first.isDigit
          · simp only [isDigit, if_true, List.length_cons, Nat.add_le_add_iff_right] at le ⊢
            rw [cuts_integralParts rest count more le]
          · simp only [isDigit, Bool.false_eq_true, if_false] at le ⊢
            cases rest with
            | nil => simp
            | cons digit rest =>
                by_cases starts : first = '.' ∧ digit.isDigit
                · have nonempty := List.length_pos_iff.mpr (@fractionalParts_ne_nil _ rest starts.2)
                  simp only [List.head?_cons, Option.any_some, starts, and_self, if_true,
                    List.length_cons, Nat.add_le_add_iff_right] at le ⊢
                  rw [cuts_fractionalParts _ count more le]
                  obtain ⟨count, rfl⟩ := Nat.exists_eq_add_of_le' (nonempty.trans_le le)
                  simp [starts]
                · cases count <;> simp [starts]

theorem realText_of_ne {first : Char} (rest : List Char) (notZero : first ≠ '0') :
    realText (first :: rest) = decimalText (first :: rest) := by
  unfold realText
  split
  · next same => exact absurd (List.cons.inj same).1 notZero
  · rfl

/-- A literal whose marker has no digits after it is a decimal one. -/
theorem markedText_cut {isPart : Char → Bool} (notBlank : isPart ' ' = false) {mark : Char}
    {rest : List Char} {count : Nat} (more : List Char)
    (le : ((markedText isPart mark rest).getD (decimalText ('0' :: mark :: rest))).length ≤ count + 2) :
    (markedText isPart mark (rest.take count ++ ' ' :: more)).getD
        (decimalText ('0' :: mark :: (rest.take count ++ ' ' :: more))) =
      (markedText isPart mark rest).getD (decimalText ('0' :: mark :: rest)) := by
  have cut := cuts_takeWhile notBlank rest count more
  by_cases empty : rest.takeWhile isPart = []
  · rw [empty] at cut
    simp only [markedText, cut (Nat.zero_le _), empty, List.isEmpty_nil, if_true, Option.getD_none] at le ⊢
    exact cuts_decimalText ('0' :: mark :: rest) (count + 2) more le
  · have someDigits : (rest.takeWhile isPart).isEmpty = false := by simpa using empty
    simp only [markedText, someDigits, Bool.false_eq_true, if_false, Option.getD_some,
      List.length_cons] at le
    simp only [markedText, cut (by omega), someDigits, Bool.false_eq_true, if_false, Option.getD_some]

/-- A number with its marker and at least one more character is cut behind them. -/
theorem realText_zero_cut {mark : Char} {rest : List Char} {count : Nat} (more : List Char)
    (le : (realText ('0' :: mark :: rest)).length ≤ count + 2) :
    realText ('0' :: mark :: (rest.take count ++ ' ' :: more)) = realText ('0' :: mark :: rest) := by
  simp only [realText] at le ⊢
  split at le
  · next isHex =>
    rw [if_pos isHex, if_pos isHex, cuts_hexadecimalTail rest count more (by simpa using le)]
  next notHex =>
  rw [if_neg notHex, if_neg notHex]
  split at le
  · next isBinary =>
    rw [if_pos isBinary, if_pos isBinary]
    exact markedText_cut (by decide) more le
  next notBinary =>
  rw [if_neg notBinary, if_neg notBinary]
  split at le
  · next isOctal =>
    rw [if_pos isOctal, if_pos isOctal]
    exact markedText_cut (by decide) more le
  next notOctal =>
  rw [if_neg notOctal, if_neg notOctal]
  exact cuts_decimalText ('0' :: mark :: rest) (count + 2) more le

theorem realText_zero_blank (more : List Char) : realText ('0' :: ' ' :: more) = ['0'] := by
  simp [realText, decimalText, readParts, isDecimalPart, fraction, exponent]

theorem realText_zero_ne_nil (rest : List Char) : realText ('0' :: rest) ≠ [] := by
  have decimal : decimalText ('0' :: rest) ≠ [] := by
    rw [decimalText_cons, if_pos (by decide)]
    exact List.cons_ne_nil _ _
  have marked (isPart : Char → Bool) (mark : Char) (others : List Char) :
      (markedText isPart mark others).getD (decimalText ('0' :: rest)) ≠ [] := by
    unfold markedText
    simp only
    split
    · exact decimal
    · exact List.cons_ne_nil _ _
  unfold realText
  split
  · next mark others same =>
    obtain ⟨-, rfl⟩ := List.cons.inj same
    split
    · exact List.cons_ne_nil _ _
    · split
      · exact marked _ _ _
      · split
        · exact marked _ _ _
        · exact decimal
  · exact decimal

/-- A number of one character is that character, whatever follows it. -/
theorem realText_zero_alone {rest : List Char} (le : (realText ('0' :: rest)).length ≤ 1) :
    realText ('0' :: rest) = ['0'] := by
  have isPrefix := prefix_realText ('0' :: rest)
  have nonempty := realText_zero_ne_nil rest
  cases textEq : realText ('0' :: rest) with
  | nil => exact absurd textEq nonempty
  | cons first others =>
      rw [textEq] at isPrefix le
      obtain ⟨rfl, -⟩ := List.cons_prefix_cons.mp isPrefix
      rw [List.eq_nil_of_length_eq_zero (Nat.le_zero.mp (Nat.le_of_succ_le_succ le))]

theorem realText_cut {chars : List Char} {count : Nat} (more : List Char)
    (nonempty : realText chars ≠ []) (le : (realText chars).length ≤ count) :
    realText (chars.take count ++ ' ' :: more) = realText chars := by
  have positive := (List.length_pos_iff.mpr nonempty).trans_le le
  obtain ⟨count, rfl⟩ := Nat.exists_eq_add_of_le' positive
  cases chars with
  | nil => exact absurd rfl nonempty
  | cons first rest =>
      rw [List.take_succ_cons, List.cons_append]
      by_cases isZero : first = '0'
      · subst isZero
        cases rest with
        | nil =>
            rw [List.take_nil]
            exact realText_zero_blank more
        | cons mark rest =>
            cases count with
            | zero => exact (realText_zero_blank more).trans (realText_zero_alone le).symm
            | succ count =>
                rw [List.take_succ_cons, List.cons_append]
                exact realText_zero_cut more le
      · rw [realText_of_ne _ isZero] at le ⊢
        rw [realText_of_ne _ isZero]
        exact cuts_decimalText (first :: rest) (count + 1) more le

theorem number_eq {chars : List Char} (nonempty : realText chars ≠ []) :
    number chars = realText chars ++ imaginaryMark (chars.drop (realText chars).length) := by
  unfold number
  split
  · next empty => exact absurd empty nonempty
  · rfl

/-- A number is read again in front of a blank. -/
theorem number_again {chars : List Char} (more : List Char) (nonempty : number chars ≠ []) :
    number (number chars ++ ' ' :: more) = number chars := by
  have realNonempty : realText chars ≠ [] := by
    intro empty
    simp [number, empty] at nonempty
  have numberEq := number_eq realNonempty
  have taken : number chars = chars.take (number chars).length :=
    List.prefix_iff_eq_take.mp (prefix_number chars)
  have lengthEq := congrArg List.length numberEq
  rw [List.length_append] at lengthEq
  have realEq := realText_cut more realNonempty (show _ ≤ (number chars).length by omega)
  have markEq := cuts_imaginaryMark (chars.drop (realText chars).length)
    ((number chars).length - (realText chars).length) more (by omega)
  rw [← drop_take_append (prefix_realText chars) (by omega), ← taken] at markEq
  rw [← taken] at realEq
  rw [number_eq (realEq ▸ realNonempty), realEq, markEq, ← numberEq]

/-- A number that begins with a point has a digit after it. -/
theorem ne_nil_of_number_point {rest others : List Char} (textEq : number ('.' :: rest) = '.' :: others) :
    others ≠ [] := by
  have realNonempty : realText ('.' :: rest) ≠ [] := by
    intro empty
    simp [number, empty] at textEq
  have textEq := (number_eq realNonempty).symm.trans textEq
  rw [realText_of_ne rest (by decide), decimalText_cons, if_neg (by decide)] at textEq realNonempty
  split at textEq
  · next starts =>
    obtain ⟨-, startsDigit⟩ := starts
    rintro rfl
    cases rest with
    | nil => simp at startsDigit
    | cons digit rest =>
        have noParts := (List.append_eq_nil_iff.mp (List.cons.inj textEq).2).1
        exact fractionalParts_ne_nil startsDigit noParts
  · next notStarted => exact absurd (if_neg notStarted) realNonempty

/-! ### Quoted literals -/

theorem afterQuote_cons {quote char : Char} (rest : List Char) (notEscape : char ≠ '\\') :
    afterQuote quote (char :: rest) = if char = '\n' then none
      else if char = quote then some [char] else (afterQuote quote rest).map (char :: ·) := by
  rw [afterQuote]
  · rintro rfl
    exact absurd rfl notEscape
  · rintro _ _ rfl
    exact absurd rfl notEscape

/-- A character that begins no escape. -/
theorem ne_escape {char : Char} {rest : List Char} (notLast : char = '\\' → rest = [] → False)
    (notEscape : ∀ escaped others, char = '\\' → rest = escaped :: others → False) : char ≠ '\\' := by
  intro isEscape
  cases rest with
  | nil => exact notLast isEscape rfl
  | cons escaped others => exact notEscape escaped others isEscape rfl

/-- What follows an opening quote is read again up to the closing one. -/
theorem afterQuote_again {quote : Char} {chars text : List Char} (more : List Char)
    (found : afterQuote quote chars = some text) : afterQuote quote (text ++ more) = some text := by
  fun_induction afterQuote quote chars generalizing text with
  | case1 => cases found
  | case2 => cases found
  | case3 escaped rest ih =>
      obtain ⟨inner, innerFound, rfl⟩ := Option.map_eq_some_iff.mp found
      simp only [List.cons_append, afterQuote, ih innerFound, Option.map_some]
  | case4 => cases found
  | case5 rest notNil notEscape notFeed =>
      obtain rfl := Option.some.inj found
      have plain := ne_escape notNil notEscape
      rw [List.singleton_append, afterQuote_cons more plain, if_neg notFeed, if_pos rfl]
  | case6 char rest notNil notEscape notFeed notQuote ih =>
      obtain ⟨inner, innerFound, rfl⟩ := Option.map_eq_some_iff.mp found
      have plain := ne_escape notNil notEscape
      rw [List.cons_append, afterQuote_cons _ plain, if_neg notFeed, if_neg notQuote, ih innerFound]
      rfl

theorem afterRawQuote_again {chars text : List Char} (more : List Char)
    (found : afterRawQuote chars = some text) : afterRawQuote (text ++ more) = some text := by
  induction chars generalizing text with
  | nil => cases found
  | cons char rest ih =>
      rw [afterRawQuote] at found
      split at found
      · next isQuote =>
        obtain rfl := Option.some.inj found
        rw [List.cons_append, afterRawQuote, if_pos isQuote]
      · next notQuote =>
        obtain ⟨inner, innerFound, rfl⟩ := Option.map_eq_some_iff.mp found
        rw [List.cons_append, afterRawQuote, if_neg notQuote, ih innerFound]
        rfl

end Literal

/-! ### Operators -/

/-- The operators are the texts of the tokens that are operators. -/
theorem Token.exists_of_operators {entry : List Char × Token} (isEntry : entry ∈ operators) :
    ∃ token ∈ all, token.isOperator ∧ entry = (token.text.toList, token) := by
  obtain ⟨token, isToken, rfl⟩ := List.mem_map.mp ((List.mergeSort_perm _ _).mem_iff.mp isEntry)
  obtain ⟨isMember, isOperator⟩ := List.mem_filter.mp isToken
  exact ⟨token, isMember, isOperator, rfl⟩

theorem Token.ne_nil_of_operators {entry : List Char × Token} (isEntry : entry ∈ operators) :
    entry.1 ≠ [] := by
  obtain ⟨token, isMember, isOperator, rfl⟩ := exists_of_operators isEntry
  have each : ∀ token ∈ all, token.isOperator → token.text.toList ≠ [] := by decide
  exact each token isMember isOperator

/-- No operator has a blank in it. -/
theorem Token.blank_notMem_of_operators {entry : List Char × Token} (isEntry : entry ∈ operators) :
    ' ' ∉ entry.1 := by
  obtain ⟨token, isMember, -, rfl⟩ := exists_of_operators isEntry
  have each : ∀ token ∈ all, ' ' ∉ token.text.toList := by decide
  exact each token isMember

/-- An operator that is found is found again in front of a character that goes on no operator. -/
theorem Token.leadingOperator?_append {chars text more : List Char} {token : Token}
    (found : leadingOperator? chars = some (text, token))
    (apart : ∀ char ∈ more.head?, ∀ entry ∈ operators, char ∉ entry.1.tail) :
    leadingOperator? (text ++ more) = some (text, token) := by
  obtain ⟨begins, stronger, weaker, entriesEq, notStronger⟩ := List.find?_eq_some_iff_append.mp found
  refine List.find?_eq_some_iff_append.mpr ⟨?_, stronger, weaker, entriesEq, fun entry isEntry => ?_⟩
  · exact List.isPrefixOf_iff_prefix.mpr (List.prefix_append text _)
  · have isOperator : entry ∈ operators := entriesEq ▸ List.mem_append_left _ isEntry
    have notBefore := notStronger entry isEntry
    simp only [Bool.not_eq_true', Bool.eq_false_iff, ne_eq, List.isPrefixOf_iff_prefix] at notBefore ⊢
    intro again
    -- A shorter one would have been found before, and a longer one would go on with the character.
    by_cases shorter : entry.1.length ≤ text.length
    · have isPrefix := List.prefix_of_prefix_length_le again (List.prefix_append text _) shorter
      exact notBefore (isPrefix.trans (List.isPrefixOf_iff_prefix.mp begins))
    · have isFound : (text, token) ∈ operators := entriesEq ▸ by simp
      obtain ⟨first, others, rfl⟩ := List.exists_cons_of_ne_nil (ne_nil_of_operators isFound)
      cases more with
      | nil => exact shorter (List.append_nil (first :: others) ▸ again).length_le
      | cons char more =>
          have withChar : first :: others ++ [char] <+: first :: others ++ char :: more :=
            (List.prefix_append_right_inj _).mpr (List.cons_prefix_cons.mpr ⟨rfl, List.nil_prefix⟩)
          obtain ⟨behind, longer⟩ := List.prefix_of_prefix_length_le withChar again
            (by rw [List.length_append, List.length_singleton]; omega)
          refine apart char rfl entry isOperator ?_
          rw [← longer]
          simp

/-- An operator is read again in front of a blank, which is no part of an operator. -/
theorem Token.leadingOperator?_again {chars text : List Char} {token : Token} (more : List Char)
    (found : leadingOperator? chars = some (text, token)) :
    leadingOperator? (text ++ ' ' :: more) = some (text, token) := by
  refine leadingOperator?_append found fun char isBlank entry isOperator isPart => ?_
  obtain rfl := Option.some.inj isBlank
  exact blank_notMem_of_operators isOperator (List.mem_of_mem_tail isPart)

/-! ### Pieces -/

namespace Piece

theorem continuesWord_blank : continuesWord ' ' = false := by decide

/-- A word is read as far as it goes on. -/
theorem takeWhile_continuesWord_append {chars tail : List Char} (isWord : ∀ char ∈ chars, continuesWord char)
    (ends : ∀ char ∈ tail.head?, continuesWord char = false) :
    (chars ++ tail).takeWhile continuesWord = chars := by
  rw [List.takeWhile_append_of_pos isWord]
  cases tail with
  | nil => simp
  | cons char tail => simp [ends char rfl]

theorem quotedLiteral_again {quote : Char} {token token' : Token} {kind : String}
    {rest others : List Char} {first : Char} (more : List Char)
    (outcome : quotedLiteral quote token kind rest = .ok (.lexeme token' (first :: others))) :
    quotedLiteral quote token kind (others ++ ' ' :: more) = .ok (.lexeme token' (first :: others)) := by
  unfold quotedLiteral at outcome ⊢
  split at outcome
  · cases outcome
  · next text found =>
    obtain ⟨rfl, textEq⟩ := Piece.lexeme.inj (Except.ok.inj outcome)
    obtain ⟨rfl, rfl⟩ := List.cons.inj textEq
    rw [Literal.afterQuote_again (' ' :: more) found]

/-- A lexeme is read again in front of a blank. -/
theorem read_again {first : Char} {rest chars : List Char} {token : Token} (more : List Char)
    (outcome : read first rest = .ok (.lexeme token chars)) :
    ∃ others, chars = first :: others ∧ read first (others ++ ' ' :: more) = .ok (.lexeme token chars) := by
  obtain ⟨solid, isPrefix⟩ := read_solid outcome
  obtain ⟨others, rfl⟩ : ∃ others, chars = first :: others := by
    have positive := solid.positive
    cases chars with
    | nil => simp [Piece.chars] at positive
    | cons char others => exact ⟨others, by rw [(List.cons_prefix_cons.mp isPrefix).1]⟩
  have othersPrefix : others <+: rest := (List.cons_prefix_cons.mp isPrefix).2
  refine ⟨others, rfl, ?_⟩
  -- The next character is the one that was there, or the blank.
  have headEq (char : Char) (isHead : (others ++ ' ' :: more).head? = some char) :
      char = ' ' ∨ rest.head? = some char := by
    cases others with
    | nil => exact .inl (Option.some.inj isHead).symm
    | cons other others =>
        obtain ⟨behind, rfl⟩ := othersPrefix
        exact .inr isHead
  have notHead (char : Char) (notBlank : char ≠ ' ') (notBefore : ¬rest.head? = some char) :
      ¬(others ++ ' ' :: more).head? = some char := fun isHead =>
    (headEq char isHead).elim notBlank notBefore
  unfold read at outcome ⊢
  split at outcome
  · cases outcome
  next notFeed =>
  rw [if_neg notFeed]
  split at outcome
  · cases outcome
  next notSeparator =>
  rw [if_neg notSeparator]
  split at outcome
  · cases outcome
  next notComment =>
  have notComment' : ¬(first = '/' && (others ++ ' ' :: more).head? = some '/') := by
    simp only [Bool.and_eq_true, decide_eq_true_eq, not_and] at notComment ⊢
    exact fun isSlash => notHead '/' (by decide) (notComment isSlash)
  rw [if_neg notComment']
  split at outcome
  · split at outcome <;> cases outcome
  next notGeneral =>
  have notGeneral' : ¬(first = '/' && (others ++ ' ' :: more).head? = some '*') := by
    simp only [Bool.and_eq_true, decide_eq_true_eq, not_and] at notGeneral ⊢
    exact fun isSlash => notHead '*' (by decide) (notGeneral isSlash)
  rw [if_neg notGeneral']
  split at outcome
  · next starts =>
    rw [if_pos starts]
    have wordEq := Except.ok.inj outcome
    have othersEq : rest.takeWhile continuesWord = others :=
      (List.cons.inj (Piece.lexeme.inj wordEq).2).2
    have again : (others ++ ' ' :: more).takeWhile continuesWord = others := by
      refine takeWhile_continuesWord_append ?_ (by simp [continuesWord_blank])
      rw [← othersEq]
      exact fun char isChar => List.all_eq_true.mp List.all_takeWhile char isChar
    rw [othersEq] at outcome
    rw [again]
    exact outcome
  next notWord =>
  rw [if_neg notWord]
  split at outcome
  · next starts =>
    split at outcome
    · cases outcome
    · next nonempty =>
      obtain ⟨rfl, textEq⟩ := Piece.lexeme.inj (Except.ok.inj outcome)
      have starts' : startsNumber first (others ++ ' ' :: more) := by
        simp only [startsNumber, Bool.or_eq_true, Bool.and_eq_true, decide_eq_true_eq] at starts ⊢
        refine starts.imp_right fun both => ⟨both.1, ?_⟩
        obtain ⟨isPoint, isDigit⟩ := both
        subst isPoint
        cases others with
        | nil => exact absurd rfl (Literal.ne_nil_of_number_point textEq)
        | cons other others =>
            obtain ⟨behind, rfl⟩ := othersPrefix
            exact isDigit
      have again := Literal.number_again more nonempty
      rw [textEq, List.cons_append] at again
      rw [if_pos starts', again, textEq]
  next notNumber =>
  have notNumber' : ¬startsNumber first (others ++ ' ' :: more) := by
    simp only [startsNumber, Bool.or_eq_true, Bool.and_eq_true, decide_eq_true_eq, not_or, not_and]
      at notNumber ⊢
    refine ⟨notNumber.1, fun isPoint => ?_⟩
    have notDigit := notNumber.2 isPoint
    cases headIs : (others ++ ' ' :: more).head? with
    | none => simp
    | some char =>
        rcases headEq char headIs with rfl | isHead
        · decide
        · rwa [isHead] at notDigit
  rw [if_neg notNumber']
  split at outcome
  · next isQuote =>
    rw [if_pos isQuote]
    exact quotedLiteral_again more outcome
  next notQuote =>
  rw [if_neg notQuote]
  split at outcome
  · next isQuote =>
    rw [if_pos isQuote]
    split at outcome
    · cases outcome
    · next text found =>
      obtain ⟨rfl, textEq⟩ := Piece.lexeme.inj (Except.ok.inj outcome)
      obtain rfl := (List.cons.inj textEq).2
      rw [Literal.afterRawQuote_again (' ' :: more) found]
  next notRaw =>
  rw [if_neg notRaw]
  split at outcome
  · next isQuote =>
    rw [if_pos isQuote]
    exact quotedLiteral_again more outcome
  next notRune =>
  rw [if_neg notRune]
  split at outcome
  · cases outcome
  · next text found found' =>
    obtain ⟨rfl, rfl⟩ := Piece.lexeme.inj (Except.ok.inj outcome)
    have again := Token.leadingOperator?_again more found'
    rw [List.cons_append] at again
    rw [again]

/-- The first piece of characters is followed by the pieces of the characters behind it. -/
theorem ofChars_read {pos : Pos} {first : Char} {rest more : List Char} {piece : Piece}
    {pieces : List (Pos × Piece)} (outcome : read first rest = .ok piece)
    (charsEq : first :: rest = piece.chars ++ more)
    (later : ofChars (pos + piece.chars.length) more = .ok pieces) :
    ofChars pos (first :: rest) = .ok ((pos, piece) :: pieces) := by
  have positive := (read_solid outcome).1.positive
  obtain ⟨count, lengthEq⟩ := Nat.exists_eq_add_of_le' positive
  have behindEq : rest.drop (piece.chars.length - 1) = more := by
    have dropped := congrArg (List.drop piece.chars.length) charsEq
    rw [List.drop_left, lengthEq, List.drop_succ_cons] at dropped
    rw [lengthEq]
    exact dropped
  have nextEq : pos + (piece.chars.length - 1 : Nat) + 1 = pos + piece.chars.length := by lia
  rw [ofChars, outcome]
  simp only [behindEq, nextEq, later]

end Piece

/-! ### All lexemes -/

/-- A lexeme is read again in front of a blank. -/
def Lexeme.Rereads (lexeme : Lexeme) : Prop :=
  ∃ first others, lexeme.text.toList = first :: others ∧
    ∀ more, Piece.read first (others ++ ' ' :: more) = .ok (.lexeme lexeme.token (first :: others))

/-- Lexemes after a token up to the end of the file: a semicolon stands for a line end exactly where
the token before it calls for one. -/
inductive Chained : Option Token → List Lexeme → Prop where
  | atEnd {last : Option Token} (pos : Pos) (notEnds : last.any Token.endsStatement = false) :
      Chained last [⟨.endOfFile, "", pos⟩]
  | lineEnd {last : Option Token} {rest : List Lexeme} (pos : Pos)
      (ends : last.any Token.endsStatement) (later : Chained (some .semicolon) rest) :
      Chained last (⟨.semicolon, "\n", pos⟩ :: rest)
  | written {last : Option Token} {lexeme : Lexeme} {rest : List Lexeme} (again : lexeme.Rereads)
      (later : Chained (some lexeme.token) rest) : Chained last (lexeme :: rest)

theorem Chained.ne_nil {last : Option Token} {lexemes : List Lexeme} (chained : Chained last lexemes) :
    lexemes ≠ [] := by
  cases chained <;> exact List.cons_ne_nil _ _

theorem Chained.semicolonAfter {last : Option Token} {lexemes : List Lexeme}
    (later : Chained (Scan.lastAfterLine last) lexemes) (pos : Pos) :
    Chained last (Scan.semicolonAfter last pos ++ lexemes) := by
  unfold Scan.semicolonAfter Scan.lastAfterLine at *
  by_cases ends : last.any Token.endsStatement
  · rw [if_pos ends] at later ⊢
    exact .lineEnd pos ends later
  · rw [if_neg ends] at later ⊢
    exact later

theorem Scan.ofPieces_chained {stop : Pos} {pieces : List (Pos × Piece)}
    (again : ∀ lexeme ∈ pieces.filterMap lexeme?, lexeme.Rereads) (last : Option Token) :
    Chained last (ofPieces stop last pieces).lexemes := by
  induction pieces generalizing last with
  | nil =>
      refine Chained.semicolonAfter (.atEnd stop ?_) stop
      exact Separated.lastAfterLine_not_ends last
  | cons entry pieces ih =>
      obtain ⟨start, piece⟩ := entry
      cases piece with
      | blank char => exact ih again last
      | lineEnd => exact (ih again _).semicolonAfter start
      | comment chars =>
          simp only [ofPieces]
          split
          · exact (ih again _).semicolonAfter start
          · exact ih again last
      | lexeme token chars =>
          obtain ⟨first, others⟩ := List.forall_mem_cons.mp again
          exact .written first (ih others (some token))

theorem Piece.ofChars_rereads {pos : Pos} {chars : List Char} {pieces : List (Pos × Piece)}
    (outcome : ofChars pos chars = .ok pieces) :
    ∀ lexeme ∈ pieces.filterMap lexeme?, lexeme.Rereads := by
  fun_induction ofChars pos chars generalizing pieces with
  | case1 =>
      obtain rfl := Except.ok.inj outcome
      simp
  | case2 => cases outcome
  | case3 => cases outcome
  | case4 pos first rest piece readOutcome length later laterOutcome =>
      rename_i ih
      obtain rfl := Except.ok.inj outcome
      intro lexeme isLexeme
      obtain ⟨entry, isEntry, lexemeEq⟩ := List.mem_filterMap.mp isLexeme
      rcases List.mem_cons.mp isEntry with rfl | isLater
      · cases piece with
        | lexeme token chars =>
            obtain rfl := Option.some.inj lexemeEq
            obtain ⟨others, rfl, -⟩ := read_again [] readOutcome
            refine ⟨first, others, String.toList_ofList, fun more => ?_⟩
            obtain ⟨_, same, again⟩ := read_again more readOutcome
            obtain rfl := (List.cons.inj same).2
            exact again
        | _ => cases lexemeEq
      · exact ih laterOutcome lexeme (List.mem_filterMap.mpr ⟨entry, isLater, lexemeEq⟩)

/-- A lexeme without its position. -/
def Lexeme.word (lexeme : Lexeme) : Token × String :=
  (lexeme.token, lexeme.text)

/-- The characters of lexemes with a blank between each two. -/
def joinedChars (lexemes : List Lexeme) : List Char :=
  [' '].intercalate (lexemes.map fun lexeme => lexeme.text.toList)

theorem joinedChars_cons (lexeme : Lexeme) {rest : List Lexeme} (nonempty : rest ≠ []) :
    joinedChars (lexeme :: rest) = lexeme.text.toList ++ ' ' :: joinedChars rest := by
  cases rest with
  | nil => exact absurd rfl nonempty
  | cons next rest =>
      rw [joinedChars, List.map_cons, List.map_cons, List.intercalate_cons_cons, List.append_assoc]
      rfl

/-- Lexemes that are joined by blanks are scanned to the same lexemes. -/
theorem Chained.rescan {last : Option Token} {lexemes : List Lexeme} (chained : Chained last lexemes)
    (pos stop : Pos) : ∃ pieces, Piece.ofChars pos (joinedChars lexemes) = .ok pieces ∧
      (Scan.ofPieces stop last pieces).lexemes.map Lexeme.word = lexemes.map Lexeme.word ∧
      (Scan.ofPieces stop last pieces).comments = [] := by
  induction chained generalizing pos with
  | atEnd start notEnds =>
      refine ⟨[], Piece.ofChars.eq_1 pos, ?_, rfl⟩
      simp [Scan.ofPieces, Scan.semicolonAfter, notEnds, Lexeme.word]
  | @lineEnd last rest start ends later ih =>
      obtain ⟨pieces, outcome, lexemesEq, noComments⟩ := ih (pos + 1 + 1)
      refine ⟨(pos, .lineEnd) :: (pos + 1, .blank ' ') :: pieces, ?_, ?_, ?_⟩
      · have blank : Piece.ofChars (pos + 1) (' ' :: joinedChars rest) =
            .ok ((pos + 1, .blank ' ') :: pieces) := Piece.ofChars_read rfl rfl outcome
        have textEq : "\n".toList = ['\n'] := by decide
        rw [joinedChars_cons _ later.ne_nil, textEq]
        exact Piece.ofChars_read rfl rfl blank
      · simp [Scan.ofPieces, Scan.semicolonAfter, Scan.lastAfterLine, ends, Lexeme.word] at lexemesEq ⊢
        exact lexemesEq
      · simpa [Scan.ofPieces, Scan.lastAfterLine, ends] using noComments
  | @written last lexeme rest again later ih =>
      obtain ⟨first, others, textEq, again⟩ := again
      obtain ⟨pieces, outcome, lexemesEq, noComments⟩ := ih (pos + (first :: others).length + 1)
      refine ⟨(pos, .lexeme lexeme.token (first :: others)) ::
        (pos + (first :: others).length, .blank ' ') :: pieces, ?_, ?_, noComments⟩
      · have blank : Piece.ofChars (pos + (first :: others).length) (' ' :: joinedChars rest) =
            .ok ((pos + (first :: others).length, .blank ' ') :: pieces) :=
          Piece.ofChars_read rfl rfl outcome
        rw [joinedChars_cons _ later.ne_nil, textEq]
        exact Piece.ofChars_read (again _) rfl blank
      · have sameText : String.ofList (first :: others) = lexeme.text := by
          rw [← textEq, String.ofList_toList]
        simp only [Scan.ofPieces, List.map_cons, Lexeme.word, sameText] at lexemesEq ⊢
        rw [lexemesEq]

/-- The texts of lexemes with a blank between each two. -/
def joinedText (lexemes : List Lexeme) : String :=
  " ".intercalate (lexemes.map Lexeme.text)

/-- The texts of the lexemes of a scan, joined by blanks, are scanned to the same lexemes, and to no
comments. -/
theorem Scan.ofText_joinedText {scan : Scan} {base : Nat} {text : String}
    (outcome : ofText base text = .ok scan) (other : Nat) :
    ∃ again, ofText other (joinedText scan.lexemes) = .ok again ∧
      again.lexemes.map Lexeme.word = scan.lexemes.map Lexeme.word ∧ again.comments = [] := by
  obtain ⟨pieces, piecesOutcome, -, rfl⟩ := exists_pieces outcome
  have chained := @ofPieces_chained (base + text.length : Nat) _
    (Piece.ofChars_rereads piecesOutcome) none
  generalize (ofPieces (base + text.length : Nat) none pieces).lexemes = lexemes at chained
  have charsEq : (joinedText lexemes).toList = joinedChars lexemes := by
    rw [joinedText, String.toList_intercalate, List.map_map]
    rfl
  obtain ⟨others, again, lexemesEq, noComments⟩ :=
    chained.rescan other (other + (joinedText lexemes).length : Nat)
  exact ⟨_, by rw [ofText, charsEq, again], lexemesEq, noComments⟩

theorem Scan.ofText_joinedText_commented : ofText 1 "a // b\n" = .ok commentedScan ∧
    ∃ again, ofText 1 (joinedText commentedScan.lexemes) = .ok again ∧
      again.lexemes.map Lexeme.word = commentedScan.lexemes.map Lexeme.word ∧ again.comments = [] := by
  have outcome : ofText 1 "a // b\n" = .ok commentedScan := by
    rw [← Scan.ofTextIn_eq]
    rfl
  exact ⟨outcome, ofText_joinedText outcome 1⟩

end GoMend
