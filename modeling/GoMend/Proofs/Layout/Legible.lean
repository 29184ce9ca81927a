import GoMend.Proofs.Layout.Rows
import Mathlib.Data.List.Forall2
import Mathlib.Data.List.TakeWhile

/-!
# Legible text

A printed text may span lines.  It is legible when its first and its last line show something, and
between two lines that show something stands at most one empty line.  Legible texts can be put
together in many ways: with texts of one line, below each other, and with an empty line between them.
-/

namespace GoMend

namespace Layout

/-! ### Lists with gaps -/

/-- A list of texts with single gaps between some of them. -/
inductive Spaced {α : Type} (IsText : α → Prop) (gap : α) : List α → Prop
  | one {text : α} (isText : IsText text) : Spaced IsText gap [text]
  | next {text : α} {rest : List α} (isText : IsText text) (below : Spaced IsText gap rest) :
      Spaced IsText gap (text :: rest)
  | gap {text : α} {rest : List α} (isText : IsText text) (below : Spaced IsText gap rest) :
      Spaced IsText gap (text :: gap :: rest)

namespace Spaced

variable {α β : Type} {IsText : α → Prop} {gapped : α} {first second : List α}

theorem append (above : Spaced IsText gapped first) (below : Spaced IsText gapped second) :
    Spaced IsText gapped (first ++ second) := by
  induction above with
  | one isText => exact .next isText below
  | next isText _ ih => exact .next isText ih
  | gap isText _ ih => exact .gap isText ih

theorem appendGap (above : Spaced IsText gapped first) (below : Spaced IsText gapped second) :
    Spaced IsText gapped (first ++ gapped :: second) := by
  induction above with
  | one isText => exact .gap isText below
  | next isText _ ih => exact .next isText ih
  | gap isText _ ih => exact .gap isText ih

theorem reverse (spaced : Spaced IsText gapped first) : Spaced IsText gapped first.reverse := by
  induction spaced with
  | one isText => exact .one isText
  | next isText _ ih => exact List.reverse_cons ▸ ih.append (.one isText)
  | @gap text rest isText _ ih =>
      rw [List.reverse_cons, List.reverse_cons, List.append_assoc]
      exact ih.appendGap (.one isText)

/-- A list of which the texts are taken to texts and the gap to the gap. -/
theorem map {IsText' : β → Prop} {gapped' : β} {others : List β}
    (spaced : Spaced IsText gapped first)
    (taken : List.Forall₂ (fun item other => (IsText item → IsText' other) ∧
      (item = gapped → other = gapped')) first others) : Spaced IsText' gapped' others := by
  induction spaced generalizing others with
  | one isText =>
      obtain ⟨other, _, isOther, rest, rfl⟩ := List.forall₂_cons_left_iff.mp taken
      obtain rfl := List.forall₂_nil_left_iff.mp rest
      exact .one (isOther.1 isText)
  | next isText _ ih =>
      obtain ⟨other, _, isOther, rest, rfl⟩ := List.forall₂_cons_left_iff.mp taken
      exact .next (isOther.1 isText) (ih rest)
  | gap isText _ ih =>
      obtain ⟨other, _, isOther, more, rfl⟩ := List.forall₂_cons_left_iff.mp taken
      obtain ⟨_, _, isGap, below, rfl⟩ := List.forall₂_cons_left_iff.mp more
      rw [isGap.2 rfl]
      exact .gap (isOther.1 isText) (ih below)

theorem exists_cons (spaced : Spaced IsText gapped first) :
    ∃ text rest, first = text :: rest ∧ IsText text := by
  cases spaced with
  | one isText => exact ⟨_, _, rfl, isText⟩
  | next isText => exact ⟨_, _, rfl, isText⟩
  | gap isText => exact ⟨_, _, rfl, isText⟩

/-- The first text of a list in place of another one. -/
theorem withFirst {text other : α} {rest : List α} (spaced : Spaced IsText gapped (text :: rest))
    (isOther : IsText other) : Spaced IsText gapped (other :: rest) := by
  cases spaced with
  | one => exact .one isOther
  | next _ below => exact .next isOther below
  | gap _ below => exact .gap isOther below

end Spaced

/-- A list that is empty or ends with texts. -/
inductive Begun {α : Type} (IsText : α → Prop) (gap : α) : List α → Prop
  | nothing : Begun IsText gap []
  | spaced {list : List α} (spaced : Spaced IsText gap list) : Begun IsText gap list

theorem Begun.spaced_of_ne {α : Type} {IsText : α → Prop} {gap : α} {list : List α}
    (begun : Begun IsText gap list) (notEmpty : list ≠ []) : Spaced IsText gap list := by
  cases begun with
  | nothing => exact absurd rfl notEmpty
  | spaced spaced => exact spaced

/-- A list to which a text can be added, the last one first: a gap may wait for it. -/
inductive Awaits {α : Type} (IsText : α → Prop) (gap : α) : List α → Prop
  | begun {list : List α} (begun : Begun IsText gap list) : Awaits IsText gap list
  | waiting {list : List α} (spaced : Spaced IsText gap list) : Awaits IsText gap (gap :: list)

theorem Awaits.cons {α : Type} {IsText : α → Prop} {gap text : α} {list : List α}
    (awaits : Awaits IsText gap list) (isText : IsText text) : Spaced IsText gap (text :: list) := by
  cases awaits with
  | begun begun =>
      cases begun with
      | nothing => exact .one isText
      | spaced spaced => exact .next isText spaced
  | waiting spaced => exact .gap isText spaced

/-! ### Characters -/

/-- Whether something can be seen of a text. -/
def Inked (text : List Char) : Prop :=
  ∃ char ∈ text, Text.isBlank char = false

/-- A line of which something can be seen. -/
structure IsLine (text : List Char) : Prop where
  noBreak : '\n' ∉ text
  inked : Inked text

theorem Inked.append_left {text : List Char} (inked : Inked text) (other : List Char) :
    Inked (text ++ other) :=
  inked.imp fun _ isInk => ⟨List.mem_append_left _ isInk.1, isInk.2⟩

theorem Inked.append_right {text : List Char} (inked : Inked text) (other : List Char) :
    Inked (other ++ text) :=
  inked.imp fun _ isInk => ⟨List.mem_append_right _ isInk.1, isInk.2⟩

/-- Characters whose first and last line show something, with at most one empty line between two
lines that do. -/
inductive LegibleChars : List Char → Prop
  | line {text : List Char} (isLine : IsLine text) : LegibleChars text
  | next {line text : List Char} (isLine : IsLine line) (below : LegibleChars text) :
      LegibleChars (line ++ '\n' :: text)
  | gap {line text : List Char} (isLine : IsLine line) (below : LegibleChars text) :
      LegibleChars (line ++ '\n' :: '\n' :: text)

namespace LegibleChars

variable {text other : List Char}

theorem inked (legible : LegibleChars text) : Inked text := by
  cases legible with
  | line isLine => exact isLine.inked
  | next isLine => exact isLine.inked.append_left _
  | gap isLine => exact isLine.inked.append_left _

/-- A text of one line before a legible one. -/
theorem lead (legible : LegibleChars text) (noBreak : '\n' ∉ other) :
    LegibleChars (other ++ text) := by
  have joined {line : List Char} (isLine : IsLine line) : IsLine (other ++ line) :=
    ⟨by simp [noBreak, isLine.noBreak], isLine.inked.append_right other⟩
  cases legible with
  | line isLine => exact .line (joined isLine)
  | next isLine below => exact List.append_assoc .. ▸ .next (joined isLine) below
  | gap isLine below => exact List.append_assoc .. ▸ .gap (joined isLine) below

/-- A text of one line behind a legible one. -/
theorem trail (legible : LegibleChars text) (noBreak : '\n' ∉ other) :
    LegibleChars (text ++ other) := by
  induction legible with
  | line isLine => exact .line ⟨by simp [noBreak, isLine.noBreak], isLine.inked.append_left other⟩
  | next isLine _ ih =>
      rw [List.append_assoc]
      exact .next isLine ih
  | gap isLine _ ih =>
      rw [List.append_assoc]
      exact .gap isLine ih

theorem append (first : LegibleChars text) (second : LegibleChars other) :
    LegibleChars (text ++ other) := by
  induction first with
  | line isLine => exact second.lead isLine.noBreak
  | next isLine _ ih =>
      rw [List.append_assoc]
      exact .next isLine ih
  | gap isLine _ ih =>
      rw [List.append_assoc]
      exact .gap isLine ih

theorem under (first : LegibleChars text) (second : LegibleChars other) :
    LegibleChars (text ++ '\n' :: other) := by
  induction first with
  | line isLine => exact .next isLine second
  | next isLine _ ih =>
      rw [List.append_assoc]
      exact .next isLine ih
  | gap isLine _ ih =>
      rw [List.append_assoc]
      exact .gap isLine ih

theorem farUnder (first : LegibleChars text) (second : LegibleChars other) :
    LegibleChars (text ++ '\n' :: '\n' :: other) := by
  induction first with
  | line isLine => exact .gap isLine second
  | next isLine _ ih =>
      rw [List.append_assoc]
      exact .next isLine ih
  | gap isLine _ ih =>
      rw [List.append_assoc]
      exact .gap isLine ih

end LegibleChars

/-! ### Texts -/

/-- Whether a text is legible. -/
def Legible (text : String) : Prop :=
  LegibleChars text.toList

/-- Whether a text can stand beside a legible one: it is legible itself, or it breaks no line. -/
def Fair (text : String) : Prop :=
  '\n' ∉ text.toList ∨ Legible text

theorem Legible.fair {text : String} (legible : Legible text) : Fair text :=
  .inr legible

theorem IsLine.legible {text : String} (isLine : IsLine text.toList) : Legible text :=
  .line isLine

/-- What the layout writes itself breaks no line. -/
theorem fair_plain (text : String) (noBreak : text.toList.all (· != '\n')) : Fair text := by
  refine .inl fun isBreak => ?_
  simpa using List.all_eq_true.mp noBreak '\n' isBreak

/-- What the layout writes itself can be seen. -/
theorem isLine_plain (text : String) (noBreak : text.toList.all (· != '\n'))
    (inked : text.toList.any (!Text.isBlank ·)) : IsLine text.toList where
  noBreak isBreak := by simpa using List.all_eq_true.mp noBreak '\n' isBreak
  inked := by simpa [Inked] using inked

theorem legible_plain (text : String) (noBreak : text.toList.all (· != '\n'))
    (inked : text.toList.any (!Text.isBlank ·)) : Legible text :=
  (isLine_plain text noBreak inked).legible

section Append

variable {first second : String}

theorem Legible.append (legible : Legible first) (fair : Fair second) : Legible (first ++ second) := by
  rw [Legible, String.toList_append]
  exact fair.elim (LegibleChars.trail legible) (LegibleChars.append legible)

theorem Legible.after (legible : Legible second) (fair : Fair first) : Legible (first ++ second) := by
  rw [Legible, String.toList_append]
  exact fair.elim (LegibleChars.lead legible) fun first => LegibleChars.append first legible

theorem Fair.append (fair : Fair first) (fair' : Fair second) : Fair (first ++ second) := by
  obtain noBreak | legible := fair
  · obtain noBreak' | legible' := fair'
    · exact .inl (by simp [noBreak, noBreak'])
    · exact .inr (legible'.after (.inl noBreak))
  · exact .inr (legible.append fair')

/-- A fair text of which something can be seen is legible. -/
theorem Fair.legible (fair : Fair first) (inked : Inked first.toList) : Legible first :=
  fair.elim (fun noBreak => .line ⟨noBreak, inked⟩) id

end Append

/-- A legible text under another one. -/
theorem Legible.under {first second : String} (above : Legible first) (below : Legible second) :
    Legible (first ++ "\n" ++ second) := by
  have charsEq : (first ++ "\n" ++ second).toList = first.toList ++ '\n' :: second.toList := by simp
  rw [Legible, charsEq]
  exact LegibleChars.under above below

theorem Legible.farUnder {first second : String} (above : Legible first) (below : Legible second) :
    Legible (first ++ "\n" ++ "\n" ++ second) := by
  have charsEq : (first ++ "\n" ++ "\n" ++ second).toList =
      first.toList ++ '\n' :: '\n' :: second.toList := by
    simp
  rw [Legible, charsEq]
  exact LegibleChars.farUnder above below

/-! ### What the layout makes of texts -/

theorem Legible.inked {text : String} (legible : Legible text) : Inked text.toList :=
  LegibleChars.inked legible

theorem Legible.ne_empty {text : String} (legible : Legible text) : text ≠ "" := by
  rintro rfl
  obtain ⟨char, isChar, -⟩ := legible.inked
  cases isChar

theorem fair_empty : Fair "" :=
  fair_plain "" rfl

theorem fair_replicate {char : Char} (notBreak : char ≠ '\n') (count : Nat) :
    Fair (String.ofList (List.replicate count char)) := by
  refine .inl fun isBreak => ?_
  rw [String.toList_ofList] at isBreak
  exact notBreak (List.eq_of_mem_replicate isBreak).symm

/-- Texts with a divider between each two of them. -/
theorem Fair.intercalate {divider : String} {texts : List String} (fairDivider : Fair divider)
    (fair : ∀ text ∈ texts, Fair text) : Fair (divider.intercalate texts) := by
  induction texts with
  | nil => exact fair_empty
  | cons text texts ih =>
      obtain ⟨first, others⟩ := List.forall_mem_cons.mp fair
      by_cases isLast : texts = []
      · rwa [isLast, String.intercalate_singleton]
      · rw [String.intercalate_cons_of_ne_nil isLast]
        exact (first.append fairDivider).append (ih others)

theorem Inked.intercalate {divider text : String} {texts : List String} (isText : text ∈ texts)
    (inked : Inked text.toList) : Inked (divider.intercalate texts).toList := by
  induction texts with
  | nil => cases isText
  | cons first texts ih =>
      by_cases isLast : texts = []
      · rw [isLast] at isText ⊢
        rwa [String.intercalate_singleton, ← List.mem_singleton.mp isText]
      · rw [String.intercalate_cons_of_ne_nil isLast, String.toList_append, String.toList_append]
        obtain rfl | isText := List.mem_cons.mp isText
        · exact (inked.append_left _).append_left _
        · exact (ih isText).append_right _

theorem fair_commas {texts : List String} (fair : ∀ text ∈ texts, Fair text) : Fair (commas texts) :=
  (fair_plain ", " rfl).intercalate fair

theorem legible_commas {texts : List String} (nonempty : texts ≠ [])
    (legible : ∀ text ∈ texts, Legible text) : Legible (commas texts) := by
  obtain ⟨text, others, rfl⟩ := List.exists_cons_of_ne_nil nonempty
  exact (fair_commas fun text isText => (legible text isText).fair).legible
    ((legible text List.mem_cons_self).inked.intercalate List.mem_cons_self)

theorem Legible.inParens {text : String} (legible : Legible text) (needed : Bool) :
    Legible (inParens needed text) := by
  cases needed with
  | false => exact legible
  | true => exact (legible.after (fair_plain "(" rfl)).append (fair_plain ")" rfl)

theorem Fair.inParens {text : String} (fair : Fair text) (needed : Bool) :
    Fair (inParens needed text) := by
  cases needed with
  | false => exact fair
  | true => exact ((fair_plain "(" rfl).append fair).append (fair_plain ")" rfl)

/-- A blank that may be missing. -/
theorem fair_blankIf (condition : Prop) [Decidable condition] : Fair (if condition then " " else "") := by
  split
  · exact fair_plain " " rfl
  · exact fair_empty

theorem fair_tabs (indent : Nat) : Fair (tabs indent) :=
  fair_replicate (by decide) indent

theorem Legible.indented {text : String} (legible : Legible text) (indent : Nat) :
    Legible (indented indent text) := by
  unfold Layout.indented
  split
  · next isEmpty => exact absurd (by simpa using isEmpty) legible.ne_empty
  · exact legible.after (fair_tabs indent)

/-- Lines are legible together. -/
theorem Spaced.legible {lines : List String} (spaced : Spaced Legible "" lines) :
    Legible ("\n".intercalate lines) := by
  induction spaced with
  | one legible => rwa [String.intercalate_singleton]
  | @next text rest legible below ih =>
      obtain ⟨_, _, rfl, -⟩ := below.exists_cons
      rw [String.intercalate_cons_of_ne_nil (List.cons_ne_nil _ _)]
      exact legible.under ih
  | @gap text rest legible below ih =>
      obtain ⟨_, _, rfl, -⟩ := below.exists_cons
      rw [String.intercalate_cons_of_ne_nil (List.cons_ne_nil _ _),
        String.intercalate_cons_of_ne_nil (List.cons_ne_nil _ _), String.empty_append,
        ← String.append_assoc]
      exact legible.farUnder ih

/-- Lines that follow an opening bracket, each after a line break. -/
def bodyText (indent : Nat) (lines : List String) : String :=
  String.join (lines.map fun line => if line.isEmpty then "\n" else "\n" ++ tabs indent ++ line)

theorem Spaced.exists_body {lines : List String} (spaced : Spaced Legible "" lines) (indent : Nat) :
    ∃ text, bodyText indent lines = "\n" ++ text ∧ Legible text := by
  have body_cons {line : String} (legible : Legible line) (rest : List String) :
      bodyText indent (line :: rest) = "\n" ++ (tabs indent ++ line ++ bodyText indent rest) := by
    simp [bodyText, legible.ne_empty, String.append_assoc]
  have indented {line : String} (legible : Legible line) : Legible (tabs indent ++ line) :=
    legible.after (fair_tabs indent)
  induction spaced with
  | one legible => exact ⟨_, body_cons legible [], (indented legible).append fair_empty⟩
  | next legible below ih =>
      obtain ⟨text, bodyEq, isText⟩ := ih
      refine ⟨_, body_cons legible _, ?_⟩
      rw [bodyEq, ← String.append_assoc]
      exact (indented legible).under isText
  | gap legible below ih =>
      obtain ⟨text, bodyEq, isText⟩ := ih
      refine ⟨_, body_cons legible _, ?_⟩
      have gapEq (rest : List String) : bodyText indent ("" :: rest) = "\n" ++ bodyText indent rest := by
        simp [bodyText]
      rw [gapEq, bodyEq, ← String.append_assoc, ← String.append_assoc]
      exact (indented legible).farUnder isText

/-- Lines after an opening bracket. -/
theorem Legible.body {head : String} (legible : Legible head) {lines : List String}
    (begun : Begun Legible "" lines) (indent : Nat) : Legible (head ++ bodyText indent lines) := by
  cases begun with
  | nothing => exact legible.append fair_empty
  | spaced spaced =>
      obtain ⟨text, bodyEq, isText⟩ := spaced.exists_body indent
      rw [bodyEq, ← String.append_assoc]
      exact legible.under isText

/-! ### Trimmed texts -/

/-- What is dropped at the beginning of a text does not go beyond a character that stays. -/
theorem dropWhile_append_of_mem {isLeft : Char → Bool} {text other : List Char} {char : Char}
    (isChar : char ∈ text) (stays : isLeft char = false) :
    (text ++ other).dropWhile isLeft = text.dropWhile isLeft ++ other := by
  rw [List.dropWhile_append]
  split
  · next isEmpty =>
      have none := List.dropWhile_eq_nil_iff.mp (List.isEmpty_iff.mp isEmpty) char isChar
      rw [stays] at none
      cases none
  · rfl

theorem IsLine.dropWhile {text : List Char} (isLine : IsLine text) {isLeft : Char → Bool}
    (areBlank : ∀ char, isLeft char → Text.isBlank char) : IsLine (text.dropWhile isLeft) := by
  obtain ⟨char, isChar, isInk⟩ := isLine.inked
  have stays : isLeft char = false := by
    by_contra isLeft
    exact Bool.false_ne_true (isInk.symm.trans (areBlank char (by simpa using isLeft)))
  refine ⟨fun isBreak => isLine.noBreak ((List.dropWhile_suffix _).subset isBreak), char, ?_, isInk⟩
  rw [← List.takeWhile_append_dropWhile (p := isLeft) (l := text)] at isChar
  refine (List.mem_append.mp isChar).resolve_left fun isTaken => ?_
  exact Bool.false_ne_true (stays.symm.trans (List.mem_takeWhile_imp isTaken))

theorem LegibleChars.dropWhile {text : List Char} (legible : LegibleChars text) {isLeft : Char → Bool}
    (areBlank : ∀ char, isLeft char → Text.isBlank char) : LegibleChars (text.dropWhile isLeft) := by
  have cut {line : List Char} (isLine : IsLine line) (other : List Char) :
      (line ++ other).dropWhile isLeft = line.dropWhile isLeft ++ other := by
    obtain ⟨char, isChar, isInk⟩ := isLine.inked
    refine dropWhile_append_of_mem isChar ?_
    by_contra isLeft
    exact Bool.false_ne_true (isInk.symm.trans (areBlank char (by simpa using isLeft)))
  cases legible with
  | line isLine => exact .line (isLine.dropWhile areBlank)
  | next isLine below => exact cut isLine _ ▸ .next (isLine.dropWhile areBlank) below
  | gap isLine below => exact cut isLine _ ▸ .gap (isLine.dropWhile areBlank) below

theorem LegibleChars.reverse {text : List Char} (legible : LegibleChars text) :
    LegibleChars text.reverse := by
  have reversed {line : List Char} (isLine : IsLine line) : LegibleChars line.reverse :=
    .line ⟨by simpa using isLine.noBreak, by simpa [Inked] using isLine.inked⟩
  induction legible with
  | line isLine => exact reversed isLine
  | next isLine _ ih => simpa using ih.under (reversed isLine)
  | gap isLine _ ih => simpa using ih.farUnder (reversed isLine)

theorem Legible.trimEnd {text : String} (legible : Legible text) : Legible (Text.trimEnd text) := by
  rw [Text.trimEnd, Legible, String.toList_ofList]
  exact ((LegibleChars.reverse legible).dropWhile fun _ => id).reverse

/-! ### Rows -/

/-- Cells of which something can be seen. -/
structure LegibleCells (cells : List String) : Prop where
  fair : ∀ cell ∈ cells, Fair cell
  inked : ∃ cell ∈ cells, Inked cell.toList

theorem LegibleCells.joined {cells : List String} (legible : LegibleCells cells) :
    Legible (joined cells) := by
  obtain ⟨cell, isCell, inked⟩ := legible.inked
  exact ((fair_plain " " rfl).intercalate legible.fair).legible (inked.intercalate isCell)

theorem LegibleCells.filter {cells : List String} (legible : LegibleCells cells) :
    LegibleCells (cells.filter (!·.isEmpty)) where
  fair cell isCell := legible.fair cell (List.mem_of_mem_filter isCell)
  inked := by
    obtain ⟨cell, isCell, inked⟩ := legible.inked
    refine ⟨cell, List.mem_filter.mpr ⟨isCell, ?_⟩, inked⟩
    have notEmpty : cell ≠ "" := by
      rintro rfl
      obtain ⟨_, isChar, -⟩ := inked
      cases isChar
    simpa using notEmpty

theorem LegibleCells.padRow {cells : List String} (legible : LegibleCells cells) (widths : List Nat) :
    LegibleCells (padRow widths cells) := by
  obtain ⟨fair, inked⟩ := legible
  constructor
  · clear inked
    fun_induction Layout.padRow widths cells with
    | case1 width widths cell second cells ih =>
        obtain ⟨first, others⟩ := List.forall_mem_cons.mp fair
        exact List.forall_mem_cons.mpr
          ⟨first.append (fair_replicate (by decide) _), ih others⟩
    | case2 => exact fair
  · clear fair
    fun_induction Layout.padRow widths cells with
    | case1 width widths cell second cells ih =>
        rw [List.exists_mem_cons_iff] at inked ⊢
        exact inked.imp (fun inked => by simpa [padded] using inked.append_left _) ih
    | case2 => exact inked

/-- Rows set in columns. -/
theorem legible_align {rows : List (List String)} (legible : ∀ row ∈ rows, LegibleCells row) :
    ∀ line ∈ align rows, Legible line := by
  refine List.forall_mem_map.mpr fun row isRow => ?_
  exact ((legible row isRow).padRow _).joined.trimEnd

/-! ### Lines of a text -/

/-- The lines of a text that ends with a line feed. -/
def linesOfText (text : String) : List (List Char) :=
  (text.toList.splitOn '\n').dropLast

/-- A text of lines without needless blanks: no empty line stands at its beginning, at its end or after
another one, and no line has blanks only. -/
structure IsTidy (text : String) : Prop where
  ends : text.toList.getLast? = some '\n'
  first : ∀ line ∈ (linesOfText text).head?, line ≠ []
  last : ∀ line ∈ (linesOfText text).getLast?, line ≠ []
  single : (linesOfText text).IsChain fun line next => line ≠ [] ∨ next ≠ []
  inked : ∀ line ∈ linesOfText text, line ≠ [] → Inked line

theorem IsLine.ne_nil {line : List Char} (isLine : IsLine line) : line ≠ [] := by
  obtain ⟨char, isChar, -⟩ := isLine.inked
  exact List.ne_nil_of_mem isChar

/-- The lines of a legible text and of what follows its last line end. -/
theorem LegibleChars.exists_lines {text : List Char} (legible : LegibleChars text) :
    ∃ lines, (text ++ ['\n']).splitOn '\n' = lines ++ [[]] ∧ Spaced IsLine [] lines := by
  have split {line : List Char} (noBreak : '\n' ∉ line) (rest : List Char) :
      (line ++ '\n' :: rest).splitOn '\n' = line :: rest.splitOn '\n' := by
    have alone : line.splitOn '\n' = [line] := List.splitOn_eq_singleton noBreak
    exact (List.splitOnP_append_cons line rest rfl).trans (congrArg (· ++ _) alone)
  induction legible with
  | @line text isLine => exact ⟨[text], split isLine.noBreak [], .one isLine⟩
  | next isLine _ ih =>
      obtain ⟨lines, linesEq, spaced⟩ := ih
      refine ⟨_ :: lines, ?_, .next isLine spaced⟩
      rw [List.append_assoc, List.cons_append, split isLine.noBreak, linesEq, List.cons_append]
  | @gap line text isLine _ ih =>
      obtain ⟨lines, linesEq, spaced⟩ := ih
      refine ⟨_ :: [] :: lines, ?_, .gap isLine spaced⟩
      have empty : ('\n' :: (text ++ ['\n'])).splitOn '\n' = [] :: (text ++ ['\n']).splitOn '\n' :=
        split List.not_mem_nil _
      rw [List.append_assoc, List.cons_append, List.cons_append, split isLine.noBreak, empty, linesEq]
      rfl

/-- A legible text with a line end is tidy. -/
theorem Legible.isTidy {text : String} (legible : Legible text) : IsTidy (text ++ "\n") := by
  obtain ⟨lines, linesEq, spaced⟩ := LegibleChars.exists_lines legible
  have charsEq : (text ++ "\n").toList = text.toList ++ ['\n'] := by simp
  have textLines : linesOfText (text ++ "\n") = lines := by
    rw [linesOfText, charsEq, linesEq, List.dropLast_concat]
  have notEmpty {lines : List (List Char)} (spaced : Spaced IsLine [] lines) :
      ∀ line ∈ lines.head?, line ≠ [] := by
    obtain ⟨line, rest, rfl, isLine⟩ := spaced.exists_cons
    rintro _ ⟨⟩
    exact isLine.ne_nil
  refine ⟨by rw [charsEq, List.getLast?_concat], ?_, ?_, ?_, ?_⟩
  · exact textLines ▸ notEmpty spaced
  · rw [textLines, ← List.head?_reverse]
    exact notEmpty spaced.reverse
  · rw [textLines]
    clear linesEq textLines
    induction spaced with
    | one => exact List.IsChain.singleton _
    | next isLine below ih =>
        obtain ⟨_, _, rfl, -⟩ := below.exists_cons
        exact List.isChain_cons_cons.mpr ⟨.inl isLine.ne_nil, ih⟩
    | gap isLine below ih =>
        obtain ⟨_, _, rfl, isNext⟩ := below.exists_cons
        exact List.isChain_cons_cons.mpr ⟨.inl isLine.ne_nil,
          List.isChain_cons_cons.mpr ⟨.inr isNext.ne_nil, ih⟩⟩
  · rw [textLines]
    clear linesEq textLines
    induction spaced with
    | one isLine => exact List.forall_mem_singleton.mpr fun _ => isLine.inked
    | next isLine _ ih => exact List.forall_mem_cons.mpr ⟨fun _ => isLine.inked, ih⟩
    | gap isLine _ ih =>
        exact List.forall_mem_cons.mpr ⟨fun _ => isLine.inked,
          List.forall_mem_cons.mpr ⟨absurd rfl, ih⟩⟩

end Layout

end GoMend
