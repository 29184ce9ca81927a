import GoMend.Diagnostic.Shape
import Mathlib.Data.List.Basic

/-!
# What a message says

A finding can be told from its message as far as there is a fix for it: only an unused variable, an
unused import and a `:=` without new names are worded in the way of their shapes.
-/

namespace GoMend

namespace Finding

/-- The end of the message of a finding, as far as it does not depend on a name. -/
def ending : Finding → String
  | .unusedVariable _ => " declared but not used"
  | .unusedImport _ => " imported but not used"
  | .unusedNamedImport .. => " and not used"
  | .noNewVariables => "no new variables on left side of :="
  | .noNewVariable => "no new variable on left side of :="
  | .notAName _ => " on left side of :="
  | .undefined _ | .duplicateArgument _ => ""
  | .blankValue => "cannot use _ as value"
  | .redeclared _ => " redeclared in this block"
  | .packageAsValue _ => " without selector"
  | .unusedLabel _ => " declared but not used"
  | .redefinedLabel _ => " already defined"
  | .undefinedLabel _ => " not defined"

theorem toString_string (text : String) : toString text = text :=
  rfl

theorem ending_suffix (finding : Finding) : finding.ending.toList <:+ finding.message.toList := by
  cases finding <;> unfold message <;> simp only [toString_string, String.toList_append]
  case undefined | duplicateArgument => exact List.nil_suffix
  case noNewVariables | noNewVariable | blankValue => exact List.suffix_rfl
  all_goals exact List.suffix_append _ _

/-- Two ends of one message are comparable. -/
theorem suffix_or_suffix {finding : Finding} {before rest : List Char}
    (isMessage : finding.message.toList = before ++ rest) :
    finding.ending.toList <:+ rest ∨ rest <:+ finding.ending.toList :=
  List.suffix_or_suffix_of_suffix finding.ending_suffix (isMessage ▸ List.suffix_append ..)

/-- Whether a character is no blank and no colon. -/
def isInWord (char : Char) : Bool :=
  char ≠ ' ' && char ≠ ':'

/-- The part of a text after its first word. -/
theorem dropWhile_isInWord {word rest : List Char} {char : Char} (isWord : word.all isInWord)
    (ends : isInWord char = false) : (word ++ char :: rest).dropWhile isInWord = char :: rest := by
  rw [List.dropWhile_append_of_pos (by simpa using isWord)]
  simp [ends]

/-- What is unused: a variable or an import. -/
theorem message_unusedVariable (name : String) :
    (unusedVariable name).message.toList = name.toList ++ " declared but not used".toList :=
  String.toList_append

theorem message_unusedImport (path : String) :
    (unusedImport path).message.toList = path.toList ++ " imported but not used".toList :=
  String.toList_append

theorem message_undefined (name : String) :
    (undefined name).message.toList = "undefined".toList ++ ':' :: (' ' :: name.toList) := by
  have appended : (undefined name).message.toList = "undefined: ".toList ++ name.toList :=
    String.toList_append
  simp [appended]

theorem message_duplicateArgument (name : String) :
    (duplicateArgument name).message.toList =
      "duplicate".toList ++ ' ' :: ("argument ".toList ++ name.toList) := by
  have appended : (duplicateArgument name).message.toList =
      "duplicate argument ".toList ++ name.toList :=
    String.toList_append
  simp [appended]

theorem message_unusedLabel (name : String) :
    (unusedLabel name).message.toList =
      "label".toList ++ ' ' :: (name.toList ++ " declared but not used".toList) := by
  have appended : (unusedLabel name).message.toList =
      "label ".toList ++ name.toList ++ " declared but not used".toList := by
    rw [← String.toList_append, ← String.toList_append]
    rfl
  rw [appended]
  simp

/-- A message in which a word is declared but not used is about a variable of that name. -/
theorem eq_unusedVariable {finding : Finding} {word tail : List Char} (isWord : word.all isInWord)
    (isTail : tail = [] ∨ tail = ['\n'])
    (isMessage : finding.message.toList = word ++ (" declared but not used".toList ++ tail)) :
    finding = .unusedVariable (String.ofList word) ∧ tail = [] := by
  have rest : finding.message.toList.dropWhile isInWord =
      " declared but not used".toList ++ tail := by
    rw [isMessage]
    exact dropWhile_isInWord isWord rfl
  have comparable := suffix_or_suffix isMessage
  cases finding with
  | unusedVariable name =>
      obtain rfl | rfl := isTail
      · rw [message_unusedVariable, List.append_nil, List.append_cancel_right_eq] at isMessage
        exact ⟨by rw [← isMessage, String.ofList_toList], rfl⟩
      · exact absurd comparable (by simp [ending]; decide)
  | undefined name =>
      rw [message_undefined, dropWhile_isInWord (by simp [isInWord]) rfl] at rest
      cases rest
  | duplicateArgument name =>
      rw [message_duplicateArgument, dropWhile_isInWord (by simp [isInWord]) rfl] at rest
      cases rest
  | unusedLabel name =>
      rw [message_unusedLabel, dropWhile_isInWord (by simp [isInWord]) rfl] at rest
      have lengths := congrArg List.length rest
      obtain rfl | rfl := isTail
      · simp at lengths
      · exact absurd comparable (by simp [ending]; decide)
  | _ =>
      obtain rfl | rfl := isTail <;> exact absurd comparable (by simp [ending]; decide)

/-- A message in which something in quotes is imported but not used is about an import of it. -/
theorem eq_unusedImport {finding : Finding} {path tail : List Char} (quoted : path.head? = some '"')
    (isTail : tail = [] ∨ tail = ['\n'])
    (isMessage : finding.message.toList = path ++ (" imported but not used".toList ++ tail)) :
    finding = .unusedImport (String.ofList path) ∧ tail = [] := by
  have head : finding.message.toList.head? = some '"' := by
    rw [isMessage, List.head?_append, quoted]
    rfl
  have comparable := suffix_or_suffix isMessage
  cases finding with
  | unusedImport name =>
      obtain rfl | rfl := isTail
      · rw [message_unusedImport, List.append_nil, List.append_cancel_right_eq] at isMessage
        exact ⟨by rw [← isMessage, String.ofList_toList], rfl⟩
      · exact absurd comparable (by simp [ending]; decide)
  | undefined name =>
      rw [message_undefined] at head
      exact absurd head (by simp)
  | duplicateArgument name =>
      rw [message_duplicateArgument] at head
      exact absurd head (by simp)
  | _ =>
      obtain rfl | rfl := isTail <;> exact absurd comparable (by simp [ending]; decide)

theorem message_noNewVariables :
    noNewVariables.message = "no new variables on left side of :=" :=
  rfl

theorem message_notAName (text : String) :
    (notAName text).message.toList =
      "non-name ".toList ++ (text.toList ++ " on left side of :=".toList) := by
  have appended : (notAName text).message.toList =
      "non-name ".toList ++ text.toList ++ " on left side of :=".toList := by
    rw [← String.toList_append, ← String.toList_append]
    rfl
  rw [appended, List.append_assoc]

/-- A message about missing new names is about nothing else. -/
theorem eq_noNewVariables {finding : Finding}
    (isMessage : finding.message = noNewVariables.message) : finding = .noNewVariables := by
  rw [message_noNewVariables] at isMessage
  have letters : finding.message.toList = [] ++ "no new variables on left side of :=".toList :=
    congrArg String.toList isMessage
  have comparable := suffix_or_suffix letters
  have head := congrArg (fun text : String => text.toList.take 3) isMessage
  cases finding with
  | noNewVariables => rfl
  | undefined name =>
      simp only [message_undefined] at head
      exact absurd head (by simp)
  | duplicateArgument name =>
      simp only [message_duplicateArgument] at head
      exact absurd head (by simp)
  | notAName text =>
      simp only [message_notAName] at head
      exact absurd head (by simp)
  | _ => exact absurd comparable (by simp [ending]; decide)

end Finding

/-! ### Shapes -/

namespace Shape

theorem eq_append_of_before? {ending text before : List Char}
    (isBefore : before? ending text = some before) : text = before ++ ending := by
  simp only [before?, Option.ite_none_right_eq_some, List.isSuffixOf_iff_suffix, Option.some.injEq]
    at isBefore
  obtain ⟨⟨start, rfl⟩, rfl⟩ := isBefore
  simp

theorem eq_append_of_beforeLineEnd? {ending line before : List Char}
    (isBefore : beforeLineEnd? ending line = some before) :
    ∃ tail, (tail = [] ∨ tail = ['\n']) ∧ line = before ++ (ending ++ tail) := by
  simp only [beforeLineEnd?, Option.orElse_eq_orElse, Option.orElse_eq_or, Option.or_eq_some_iff]
    at isBefore
  obtain isBefore | ⟨-, isBefore⟩ := isBefore
  · exact ⟨[], .inl rfl, by rw [eq_append_of_before? isBefore, List.append_nil]⟩
  · exact ⟨['\n'], .inr rfl, eq_append_of_before? isBefore⟩

/-- Whether a finding is of a shape. -/
def IsOf : Shape → Finding → Prop
  | .unusedVariable name, finding => finding = .unusedVariable name ∧ name.toList.all isWordChar
  | .unusedImport path, finding => finding = .unusedImport path
  | .noNewVariables, finding => finding = .noNewVariables

theorem isInWord_of_isWordChar {char : Char} (isWord : isWordChar char) : Finding.isInWord char := by
  simp only [Finding.isInWord, Bool.and_eq_true, decide_eq_true_eq]
  constructor <;> rintro rfl <;> exact absurd isWord (by decide)

/-- A finding whose message has a shape is of that shape. -/
theorem isOf_of_shape? {finding : Finding} {pos : Pos} {shape : Shape}
    (isShape : (finding.diagnostic pos).shape? = some shape) : shape.IsOf finding := by
  simp only [Diagnostic.shape?, Finding.diagnostic, ofMessage?, Option.orElse_eq_orElse,
    Option.orElse_eq_or, Option.or_eq_some_iff] at isShape
  obtain isShape | ⟨-, isShape | ⟨-, isShape⟩⟩ := isShape
  · simp only [ofVariableMessage?, Option.bind_eq_bind, Option.bind_eq_some_iff,
      Option.ite_none_right_eq_some, Bool.and_eq_true, Option.some.injEq] at isShape
    obtain ⟨word, isBefore, ⟨-, isWord⟩, rfl⟩ := isShape
    obtain ⟨tail, isTail, isMessage⟩ := eq_append_of_beforeLineEnd? isBefore
    refine ⟨(Finding.eq_unusedVariable ?_ isTail isMessage).1, by simpa using isWord⟩
    exact List.all_eq_true.mpr fun char mem =>
      isInWord_of_isWordChar (List.all_eq_true.mp isWord char mem)
  · simp only [ofImportMessage?, Option.bind_eq_bind, Option.bind_eq_some_iff,
      Option.ite_none_right_eq_some, isQuotedPath, Bool.and_eq_true, decide_eq_true_eq,
      Option.some.injEq] at isShape
    obtain ⟨path, isBefore, ⟨⟨⟨-, quoted⟩, -⟩, -⟩, rfl⟩ := isShape
    obtain ⟨tail, isTail, isMessage⟩ := eq_append_of_beforeLineEnd? isBefore
    exact (Finding.eq_unusedImport quoted isTail isMessage).1
  · simp only [ofDefineMessage?, Option.ite_none_right_eq_some, Option.some.injEq] at isShape
    obtain ⟨isMessage, rfl⟩ := isShape
    exact Finding.eq_noNewVariables (String.toList_inj.mp isMessage)

/-- The message of a variable whose name is a word is about nothing else. -/
theorem eq_unusedVariable_of_message {finding : Finding} {name : String}
    (isWord : name.toList.all Finding.isInWord)
    (isMessage : finding.message = (Finding.unusedVariable name).message) :
    finding = .unusedVariable name := by
  have letters := congrArg String.toList isMessage
  rw [Finding.message_unusedVariable] at letters
  rw [← List.append_nil " declared but not used".toList] at letters
  obtain ⟨found, -⟩ := Finding.eq_unusedVariable isWord (.inl rfl) letters
  rwa [String.ofList_toList] at found

end Shape

end GoMend
