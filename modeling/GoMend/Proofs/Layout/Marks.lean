import GoMend.Layout.Render
import Mathlib.Data.List.TakeWhile

/-!
# Marks on a page

Characters that occur in comments and nowhere else mark where the comments went.  Printing is watched
for them: the marks of what is printed are those of the comments that were taken meanwhile, in their
order.  A text that was not yet written is held, and its marks count as well.  Comments are taken
only where a node asks for those before a position, so that all others begin there or later.
-/

namespace GoMend

/-- Whether a token is written as its own text: a keyword, an operator or a delimiter. -/
def Token.isWritten (token : Token) : Bool :=
  token.isKeyword || token.isOperator

namespace Layout

/-! ### Marks of texts -/

/-- How printing is watched: which characters are marks, for which set of files it prints, and at
which positions the comments before them may be taken. -/
structure Watch where
  isMark : Char → Bool
  set : Option FileSet
  asked : Pos → Prop

/-- Whether no mark is blank or belongs to a token. -/
structure Watch.Foreign (watch : Watch) : Prop where
  blank : ∀ char, Text.isBlank char → watch.isMark char = false
  token : ∀ token : Token, token.isWritten → ∀ char ∈ token.text.toList, watch.isMark char = false

/-- The characters of the texts that the layout writes itself. -/
def layoutChars : List Char :=
  [' ', '\n', '(', ')', '*', ',', '-', '.', '/', ':', ';', '<', '=', '>', '[', ']', '\x7b', '\x7d',
    'a', 'c', 'd', 'e', 'f', 'g', 'h', 'i', 'k', 'l', 'm', 'n', 'o', 'p', 'r', 's', 't', 'u', 'w', 'y']

/-- Tokens in which these characters stand. -/
def layoutTokens : List Token :=
  [.leftParen, .rightParen, .mul, .comma, .sub, .period, .quo, .colon, .semicolon, .less, .assign,
    .greater, .leftBracket, .rightBracket, .leftBrace, .rightBrace, .kwDefault, .kwFunc, .kwImport,
    .kwPackage, .kwSwitch, .kwType]

theorem isWritten_of_layoutTokens : ∀ token ∈ layoutTokens, token.isWritten := by
  decide

/-- What the layout writes itself are blanks and parts of tokens. -/
theorem cases_of_layoutChars : ∀ char ∈ layoutChars,
    char = ' ' ∨ char = '\n' ∨ ∃ token ∈ layoutTokens, char ∈ token.text.toList := by
  have checked : layoutChars.all (fun char => char == ' ' || char == '\n' ||
      layoutTokens.any fun token => token.text.toList.contains char) := by decide
  simpa [or_assoc] using checked

namespace Watch

variable (watch : Watch)

/-- The marks of a text. -/
def marks (text : String) : List Char :=
  text.toList.filter watch.isMark

/-- The marks of texts one after the other. -/
def allMarks (texts : List String) : List Char :=
  texts.flatMap watch.marks

/-- The marks of comments. -/
def commentMarks (comments : List Comment) : List Char :=
  comments.flatMap fun comment => watch.marks comment.text

@[simp]
theorem marks_append (first second : String) :
    watch.marks (first ++ second) = watch.marks first ++ watch.marks second := by
  simp [marks]

@[simp]
theorem marks_empty : watch.marks "" = [] :=
  rfl

@[simp]
theorem allMarks_nil : watch.allMarks [] = [] :=
  rfl

@[simp]
theorem allMarks_cons (text : String) (texts : List String) :
    watch.allMarks (text :: texts) = watch.marks text ++ watch.allMarks texts :=
  rfl

@[simp]
theorem allMarks_append (first second : List String) :
    watch.allMarks (first ++ second) = watch.allMarks first ++ watch.allMarks second :=
  List.flatMap_append

@[simp]
theorem commentMarks_nil : watch.commentMarks [] = [] :=
  rfl

@[simp]
theorem commentMarks_cons (comment : Comment) (comments : List Comment) :
    watch.commentMarks (comment :: comments) =
      watch.marks comment.text ++ watch.commentMarks comments :=
  rfl

@[simp]
theorem commentMarks_append (first second : List Comment) :
    watch.commentMarks (first ++ second) = watch.commentMarks first ++ watch.commentMarks second :=
  List.flatMap_append

/-- Texts without their empty ones. -/
theorem allMarks_filter (texts : List String) :
    watch.allMarks (texts.filter (!·.isEmpty)) = watch.allMarks texts := by
  induction texts with
  | nil => rfl
  | cons text texts ih =>
      rw [List.filter_cons, allMarks_cons]
      split
      · rw [allMarks_cons, ih]
      · next isEmpty =>
          obtain rfl : text = "" := by simpa using isEmpty
          rw [ih]
          rfl

theorem allMarks_intercalate {separator : String} (plain : watch.marks separator = [])
    (texts : List String) : watch.marks (separator.intercalate texts) = watch.allMarks texts := by
  have folded : ∀ (rest : List String) (start : String),
      watch.marks (String.intercalate separator (start :: rest)) = watch.marks start ++ watch.allMarks rest := by
    intro rest
    induction rest with
    | nil => simp
    | cons text rest ih =>
        intro start
        rw [String.intercalate_cons_cons]
        simp [plain, ih]
  cases texts with
  | nil => rfl
  | cons text texts => exact folded texts text

/-- Rows of texts. -/
def rowMarks (rows : List (List String)) : List Char :=
  rows.flatMap watch.allMarks

end Watch

namespace Watch.Foreign

variable {watch : Watch} (foreign : watch.Foreign)

include foreign

/-- What the layout writes itself has no marks. -/
theorem plain (text : String) (isPlain : text.toList.all layoutChars.contains) :
    watch.marks text = [] := by
  refine List.filter_eq_nil_iff.mpr fun char isChar => ?_
  have isLayout := List.all_eq_true.mp isPlain char isChar
  obtain rfl | rfl | ⟨token, isToken, isChar⟩ :=
    cases_of_layoutChars char (List.contains_iff_mem.mp isLayout)
  · simp [foreign.blank ' ' (by decide)]
  · simp [foreign.blank '\n' (by decide)]
  · simp [foreign.token token (isWritten_of_layoutTokens token isToken) char isChar]

theorem replicate (char : Char) (isBlank : Text.isBlank char) (count : Nat) :
    watch.marks (String.ofList (List.replicate count char)) = [] := by
  simp [marks, foreign.blank char isBlank]

theorem tabs (indent : Nat) : watch.marks (tabs indent) = [] :=
  foreign.replicate '\t' (by decide) indent

theorem indented (indent : Nat) (text : String) :
    watch.marks (indented indent text) = watch.marks text := by
  unfold Layout.indented
  split
  · next isEmpty =>
      obtain rfl : text = "" := by simpa using isEmpty
      rfl
  · simp [foreign.tabs]

/-- Blanks at the beginning of a text. -/
theorem dropWhile {isLeft : Char → Bool} (areBlank : ∀ char, isLeft char → Text.isBlank char)
    (text : List Char) : (text.dropWhile isLeft).filter watch.isMark = text.filter watch.isMark := by
  induction text with
  | nil => rfl
  | cons char text ih =>
      rw [List.dropWhile_cons]
      split
      · next isLeft =>
          rw [ih, List.filter_cons_of_neg (by simp [foreign.blank char (areBlank char isLeft)])]
      · rfl

theorem trimEnd (text : String) : watch.marks (Text.trimEnd text) = watch.marks text := by
  rw [Text.trimEnd, marks, String.toList_ofList, List.filter_reverse,
    foreign.dropWhile (fun _ => id), List.filter_reverse, List.reverse_reverse, marks]

theorem commas (texts : List String) : watch.marks (commas texts) = watch.allMarks texts :=
  watch.allMarks_intercalate (foreign.plain _ rfl) texts

theorem joined (texts : List String) : watch.marks (joined texts) = watch.allMarks texts :=
  watch.allMarks_intercalate (foreign.plain _ rfl) texts

theorem inParens (needed : Bool) (text : String) :
    watch.marks (inParens needed text) = watch.marks text := by
  cases needed <;> simp [Layout.inParens, foreign.plain "(" rfl, foreign.plain ")" rfl]

/-- A blank that may be missing. -/
theorem blankIf (condition : Prop) [Decidable condition] :
    watch.marks (if condition then " " else "") = [] := by
  split
  · exact foreign.plain " " rfl
  · rfl

theorem padded (width : Nat) (text : String) :
    watch.marks (padded width text) = watch.marks text := by
  simp [Layout.padded, foreign.replicate ' ' (by decide)]

theorem padRow (widths : List Nat) (row : List String) :
    watch.allMarks (padRow widths row) = watch.allMarks row := by
  fun_induction Layout.padRow widths row with
  | case1 width widths cell second cells ih => simp [foreign.padded, ih]
  | case2 => rfl

/-- Rows set in columns. -/
theorem align (rows : List (List String)) : watch.allMarks (align rows) = watch.rowMarks rows := by
  rw [Layout.align, Watch.allMarks, Watch.rowMarks, List.flatMap_map]
  refine congrArg (rows.flatMap ·) (funext fun row => ?_)
  rw [foreign.trimEnd, foreign.joined, foreign.padRow]

end Watch.Foreign

/-! ### Taking comments -/

/-- The comments that were taken: those before the rest.  Each of them begins before a position at
which comments were asked for, and the rest begins there or later. -/
structure Taken (asked : Pos → Prop) (comments taken rest : List Comment) : Prop where
  split : comments = taken ++ rest
  asked : ∀ comment ∈ taken, ∃ pos, asked pos ∧ comment.span.start < pos ∧
    ∀ later ∈ rest, pos ≤ later.span.start

namespace Taken

variable {asked : Pos → Prop} {comments taken middle rest : List Comment}

theorem nothing (comments : List Comment) : Taken asked comments [] comments :=
  ⟨rfl, by simp⟩

theorem append {more : List Comment} (first : Taken asked comments taken middle)
    (second : Taken asked middle more rest) : Taken asked comments (taken ++ more) rest where
  split := by rw [first.split, second.split, List.append_assoc]
  asked := by
    refine List.forall_mem_append.mpr ⟨fun comment isTaken => ?_, second.asked⟩
    obtain ⟨pos, isAsked, before, later⟩ := first.asked comment isTaken
    refine ⟨pos, isAsked, before, fun other isOther => later other ?_⟩
    exact second.split ▸ List.mem_append_right _ isOther

theorem mono {asked' : Pos → Prop} (taken : Taken asked comments middle rest)
    (within : ∀ pos, asked pos → asked' pos) : Taken asked' comments middle rest where
  split := taken.split
  asked comment isTaken := by
    obtain ⟨pos, isAsked, before⟩ := taken.asked comment isTaken
    exact ⟨pos, within pos isAsked, before⟩

end Taken

/-- Whether comments stand in the order of their positions. -/
def InOrder (comments : List Comment) : Prop :=
  comments.Pairwise fun first second => first.span.start ≤ second.span.start

theorem Taken.inOrder {asked : Pos → Prop} {comments taken rest : List Comment}
    (isTaken : Taken asked comments taken rest) (inOrder : InOrder comments) : InOrder rest :=
  List.Pairwise.sublist (isTaken.split ▸ List.sublist_append_right taken rest) inOrder

/-- The marks on the lines of a page. -/
def Watch.pageMarks (watch : Watch) (page : Page) : List Char :=
  watch.allMarks page.lines.reverse

/-! ### Printing that takes no comments -/

section Writes

variable {α β : Type} {watch : Watch} {printed : Print α} {next : α → Print β} {held more : List Char}

/-- Whether printing takes no comments, and writes the given marks. -/
def Writes (watch : Watch) (held : List Char) (printed : Print α) : Prop :=
  ∀ page value after, printed watch.set page = .ok (value, after) →
    after.comments = page.comments ∧ watch.pageMarks after = watch.pageMarks page ++ held

/-- The outcome of one printing after another. -/
theorem bind_eq_ok {set : Option FileSet} {page : Page} {result : β × Page} :
    (printed >>= next) set page = .ok result ↔
      ∃ value middle, printed set page = .ok (value, middle) ∧ next value set middle = .ok result := by
  show (printed set page >>= fun pair => next pair.1 set pair.2) = .ok result ↔ _
  cases printed set page with
  | error error => simp [Bind.bind, Except.bind]
  | ok pair =>
      constructor
      · exact fun outcome => ⟨pair.1, pair.2, rfl, outcome⟩
      · rintro ⟨value, middle, ⟨⟩, outcome⟩
        exact outcome

namespace Writes

theorem pure (value : α) : Writes watch [] (Pure.pure value) := by
  rintro page _ _ ⟨⟩
  exact ⟨rfl, (List.append_nil _).symm⟩

theorem bind (first : Writes watch held printed) (rest : ∀ value, Writes watch more (next value)) :
    Writes watch (held ++ more) (printed >>= next) := by
  intro page value after outcome
  obtain ⟨given, middle, isFirst, isRest⟩ := bind_eq_ok.mp outcome
  obtain ⟨sameComments, marks⟩ := first _ _ _ isFirst
  obtain ⟨sameComments', marks'⟩ := rest _ _ _ _ isRest
  exact ⟨sameComments'.trans sameComments, by rw [marks', marks, List.append_assoc]⟩

/-- After what writes no marks. -/
theorem after (first : Writes watch [] printed) (rest : ∀ value, Writes watch held (next value)) :
    Writes watch held (printed >>= next) :=
  first.bind rest

/-- Before what writes no marks. -/
theorem before (first : Writes watch held printed) (rest : ∀ value, Writes watch [] (next value)) :
    Writes watch held (printed >>= next) :=
  List.append_nil held ▸ first.bind rest

theorem ite {condition : Prop} [Decidable condition] {first second : Print α}
    (firstOk : condition → Writes watch held first) (secondOk : ¬ condition → Writes watch held second) :
    Writes watch held (if condition then first else second) := by
  split
  · next holds => exact firstOk holds
  · next fails => exact secondOk fails

/-- Printing one item after the other. -/
theorem forM {weigh : α → List Char} {action : α → Print PUnit} {items : List α}
    (each : ∀ item ∈ items, Writes watch (weigh item) (action item)) :
    Writes watch (items.flatMap weigh) (items.forM action) := by
  induction items with
  | nil => exact pure _
  | cons item items ih =>
      obtain ⟨first, others⟩ := List.forall_mem_cons.mp each
      exact bind first fun _ => ih others

end Writes

/-- A change of a page that keeps its comments and its lines. -/
theorem modify_writes {change : Page → Page} (sameComments : ∀ page, (change page).comments = page.comments)
    (sameMarks : ∀ page, watch.pageMarks (change page) = watch.pageMarks page ++ held) :
    Writes watch held (MonadState.modifyGet fun page => ((), change page)) := by
  rintro page _ _ ⟨⟩
  exact ⟨sameComments page, sameMarks page⟩

end Writes

/-! ### The page -/

section

variable {watch : Watch}

theorem read_writes : Writes watch [] (MonadReader.read : Print (Option FileSet)) := by
  rintro page _ _ ⟨⟩
  exact ⟨rfl, (List.append_nil _).symm⟩

theorem get_writes : Writes watch [] (MonadState.get : Print Page) := by
  rintro page _ _ ⟨⟩
  exact ⟨rfl, (List.append_nil _).symm⟩

theorem lineOf_writes (pos : Pos) : Writes watch [] (lineOf pos) :=
  .bind read_writes fun _ => .pure _

theorem finish_writes (pos : Pos) : Writes watch [] (finish pos) :=
  .bind (lineOf_writes pos) fun _ => .ite
    (fun _ => modify_writes (fun _ => rfl) fun _ => (List.append_nil _).symm) fun _ => .pure _

theorem blankLine_writes : Writes watch [] blankLine := by
  refine modify_writes (fun page => ?_) fun page => ?_
  · split
    · rfl
    · split <;> rfl
  · split
    · simp
    · split
      · simp
      · simp [Watch.pageMarks, *]

theorem blankLineBefore_writes (line : Nat) : Writes watch [] (blankLineBefore line) :=
  .bind get_writes fun _ => .ite (fun _ => blankLine_writes) fun _ => .pure _

variable (foreign : watch.Foreign)

include foreign

theorem emit_writes (text : String) : Writes watch (watch.marks text) (emit text) :=
  modify_writes (fun _ => rfl) fun page => by simp [Watch.pageMarks, foreign.indented]

theorem emitOutdented_writes (text : String) : Writes watch (watch.marks text) (emitOutdented text) :=
  modify_writes (fun _ => rfl) fun page => by simp [Watch.pageMarks, foreign.indented]

/-- A text goes to the end of the last line if there is one, and otherwise elsewhere. -/
theorem appendOr_writes {text : String} {isFit : Bool} {tail other : Print Unit}
    (tailWrites : Writes watch [] tail) (otherWrites : Writes watch (watch.marks text) other) :
    Writes watch (watch.marks text) (do
      if (← hasOpenLine) && isFit then
        appendToLine text
        tail
      else
        other) := by
  intro page value after outcome
  obtain ⟨isOpen, middle, isFirst, outcome⟩ := bind_eq_ok.mp outcome
  obtain ⟨rfl, rfl⟩ := Prod.mk.inj (Except.ok.inj isFirst)
  split at outcome
  · next fits =>
    obtain ⟨_, _, isAppend, outcome⟩ := bind_eq_ok.mp outcome
    obtain ⟨sameComments, marks⟩ := tailWrites _ _ _ outcome
    obtain ⟨-, rfl⟩ := Prod.mk.inj (Except.ok.inj isAppend)
    rw [sameComments, marks]
    cases linesEq : page.lines with
    | nil => simp [linesEq] at fits
    | cons last lines => simp [linesEq, Watch.pageMarks, foreign.plain " " rfl]
  · exact otherWrites _ _ _ outcome

theorem leadingComment_writes (comment : Comment) :
    Writes watch (watch.marks comment.text) (leadingComment comment) := by
  refine .after (lineOf_writes _) fun line => .after get_writes fun page => ?_
  simp only [Bool.and_assoc]
  exact appendOr_writes foreign (finish_writes _) (.after (blankLineBefore_writes line) fun _ =>
    .before (emit_writes foreign _) fun _ => finish_writes _)

theorem trailingComment_writes (comment : Comment) :
    Writes watch (watch.marks comment.text) (trailingComment comment) := by
  have tail : Writes watch [] (do
      let stopLine ← lineOf comment.span.stop
      modify fun page => { page with lastLine := stopLine }) :=
    .bind (lineOf_writes _) fun _ => modify_writes (fun _ => rfl) fun _ => (List.append_nil _).symm
  refine .after (lineOf_writes _) fun line => .after get_writes fun page => ?_
  simp only [Bool.and_assoc]
  refine appendOr_writes foreign tail (.ite (fun _ => ?_) fun _ => ?_)
  · exact .after blankLine_writes fun _ => .before (emit_writes foreign _) fun _ => tail
  · exact .before (emit_writes foreign _) fun _ => tail

end

/-! ### Printing that takes comments -/

section Triples

variable {α β : Type} {watch : Watch} {printed : Print α} {next : α → Print β}
  {held : List Char} {has mid : α → List Char → Prop} {has' : β → List Char → Prop}
  {weigh : α → List Char} {weigh' : β → List Char}

/-- Whether printing gives values that have the marks that were held and those of the comments that
it takes, and writes nothing on the page. -/
def Gives (watch : Watch) (held : List Char) (printed : Print α) (has : α → List Char → Prop) : Prop :=
  ∀ page value after, InOrder page.comments → printed watch.set page = .ok (value, after) →
    after.lines = page.lines ∧ ∃ taken, Taken watch.asked page.comments taken after.comments ∧
      has value (held ++ watch.commentMarks taken)

/-- Whether printing writes the marks that were held and those of the comments that it takes, except
for those that its values have at last. -/
def Keeps (watch : Watch) (held : List Char) (printed : Print α) (weigh : α → List Char) : Prop :=
  ∀ page value after, InOrder page.comments → printed watch.set page = .ok (value, after) →
    ∃ taken, Taken watch.asked page.comments taken after.comments ∧
      watch.pageMarks after ++ weigh value =
        watch.pageMarks page ++ (held ++ watch.commentMarks taken)

/-- Whether values have the marks that are weighed. -/
def Weighs (weigh : α → List Char) (value : α) (found : List Char) : Prop :=
  weigh value = found

/-- Whether printing writes the marks that were held and those of the comments that it takes. -/
abbrev Emits (watch : Watch) (held : List Char) (printed : Print α) : Prop :=
  Keeps watch held printed fun _ => []

namespace Gives

theorem pure {value : α} (here : has value held) : Gives watch held (Pure.pure value) has := by
  rintro page _ _ - ⟨⟩
  exact ⟨rfl, [], .nothing _, by simpa using here⟩

theorem bind (first : Gives watch held printed mid)
    (rest : ∀ value found, mid value found → Gives watch found (next value) has') :
    Gives watch held (printed >>= next) has' := by
  intro page value after inOrder outcome
  obtain ⟨given, middle, isFirst, isRest⟩ := bind_eq_ok.mp outcome
  obtain ⟨sameLines, taken, isTaken, isMid⟩ := first _ _ _ inOrder isFirst
  obtain ⟨sameLines', taken', isTaken', isLast⟩ :=
    rest _ _ isMid _ _ _ (isTaken.inOrder inOrder) isRest
  refine ⟨sameLines'.trans sameLines, taken ++ taken', isTaken.append isTaken', ?_⟩
  simpa using isLast

/-- What was held before stays where it is. -/
theorem frame (gives : Gives watch held printed has) (lead : List Char) :
    Gives watch (lead ++ held) printed fun value found =>
      ∃ own, has value own ∧ lead ++ own = found := by
  intro page value after inOrder outcome
  obtain ⟨sameLines, taken, isTaken, isHas⟩ := gives _ _ _ inOrder outcome
  exact ⟨sameLines, taken, isTaken, _, isHas, (List.append_assoc ..).symm⟩

/-- A text is held while the rest is printed. -/
theorem text (first : Gives watch [] printed (Weighs weigh))
    (rest : ∀ value, Gives watch (held ++ weigh value) (next value) has') :
    Gives watch held (printed >>= next) has' := by
  have framed := first.frame held
  rw [List.append_nil] at framed
  refine framed.bind fun value found isFound => ?_
  obtain ⟨_, rfl, rfl⟩ := isFound
  exact rest value

/-- A value that is known. -/
theorem known {value : α} (rest : Gives watch held (next value) has') :
    Gives watch held (Pure.pure value >>= next) has' :=
  rest

/-- Printing reads the set of files. -/
theorem read {next : Option FileSet → Print β} (rest : Gives watch held (next watch.set) has') :
    Gives watch held (MonadReader.read >>= next) has' :=
  rest

theorem lineOf {pos : Pos} {next : Nat → Print β}
    (rest : Gives watch held (next (lineIn watch.set pos)) has') :
    Gives watch held (Layout.lineOf pos >>= next) has' :=
  rest

theorem get {next : Page → Print β} (rest : ∀ page, Gives watch held (next page) has') :
    Gives watch held (MonadState.get >>= next) has' :=
  fun page => rest page page

theorem ite {condition : Prop} [Decidable condition] {first second : Print α}
    (firstOk : condition → Gives watch held first has)
    (secondOk : ¬ condition → Gives watch held second has) :
    Gives watch held (if condition then first else second) has := by
  split
  · next holds => exact firstOk holds
  · next fails => exact secondOk fails

theorem nested (inner : Gives watch held printed has) : Gives watch held (nested printed) has := by
  intro page value after inOrder outcome
  obtain ⟨_, _, ⟨⟩, outcome⟩ := bind_eq_ok.mp outcome
  obtain ⟨given, middle, isInner, outcome⟩ := bind_eq_ok.mp outcome
  obtain ⟨_, _, ⟨⟩, ⟨⟩⟩ := bind_eq_ok.mp outcome
  exact inner { page with indent := page.indent + 1 } value middle inOrder isInner

/-- A printing that fails gives nothing. -/
theorem throw (error : PrintError) : Gives watch held (MonadExcept.throw error) has :=
  fun _ _ _ _ => nofun

/-- Comments may be asked for at more positions. -/
theorem mono {asked : Pos → Prop} (gives : Gives { watch with asked } held printed has)
    (within : ∀ pos, asked pos → watch.asked pos) : Gives watch held printed has := by
  intro page value after inOrder outcome
  obtain ⟨sameLines, taken, isTaken, isHas⟩ := gives page value after inOrder outcome
  exact ⟨sameLines, taken, isTaken.mono within, isHas⟩

end Gives

namespace Keeps

theorem pure {value : α} (same : weigh value = held) :
    Keeps watch held (Pure.pure value) weigh := by
  rintro page _ _ - ⟨⟩
  exact ⟨[], .nothing _, by simp [same]⟩

/-- A value that is known. -/
theorem known {value : α} (rest : Keeps watch held (next value) weigh') :
    Keeps watch held (Pure.pure value >>= next) weigh' :=
  rest

theorem bind (first : Keeps watch held printed weigh)
    (rest : ∀ value, Keeps watch (weigh value) (next value) weigh') :
    Keeps watch held (printed >>= next) weigh' := by
  intro page value after inOrder outcome
  obtain ⟨given, middle, isFirst, isRest⟩ := bind_eq_ok.mp outcome
  obtain ⟨taken, isTaken, marks⟩ := first _ _ _ inOrder isFirst
  obtain ⟨taken', isTaken', marks'⟩ := rest _ _ _ _ (isTaken.inOrder inOrder) isRest
  refine ⟨taken ++ taken', isTaken.append isTaken', ?_⟩
  rw [marks', ← List.append_assoc, marks, watch.commentMarks_append]
  simp

/-- What was given is held while the rest is printed. -/
theorem given (first : Gives watch held printed mid)
    (rest : ∀ value found, mid value found → Keeps watch found (next value) weigh') :
    Keeps watch held (printed >>= next) weigh' := by
  intro page value after inOrder outcome
  obtain ⟨given, middle, isFirst, isRest⟩ := bind_eq_ok.mp outcome
  obtain ⟨sameLines, taken, isTaken, isMid⟩ := first _ _ _ inOrder isFirst
  obtain ⟨taken', isTaken', marks'⟩ :=
    rest _ _ isMid _ _ _ (isTaken.inOrder inOrder) isRest
  refine ⟨taken ++ taken', isTaken.append isTaken', ?_⟩
  have sameMarks : watch.pageMarks middle = watch.pageMarks page := by
    rw [Watch.pageMarks, sameLines, Watch.pageMarks]
  rw [marks', sameMarks]
  simp

/-- A text is held while the rest is printed. -/
theorem text (first : Gives watch [] printed (Weighs weigh))
    (rest : ∀ value, Keeps watch (held ++ weigh value) (next value) weigh') :
    Keeps watch held (printed >>= next) weigh' := by
  have framed := first.frame held
  rw [List.append_nil] at framed
  refine given framed fun value found isFound => ?_
  obtain ⟨_, rfl, rfl⟩ := isFound
  exact rest value

theorem of_writes (writes : Writes watch held printed) : Emits watch held printed := by
  intro page value after _ outcome
  obtain ⟨sameComments, marks⟩ := writes _ _ _ outcome
  exact ⟨[], sameComments ▸ .nothing _, by simp [marks]⟩

/-- What is held is written before the rest. -/
theorem writes (first : Writes watch held printed)
    (rest : ∀ value, Keeps watch [] (next value) weigh') :
    Keeps watch held (printed >>= next) weigh' :=
  (of_writes first).bind rest

/-- What writes no marks. -/
theorem still (first : Writes watch [] printed)
    (rest : ∀ value, Keeps watch held (next value) weigh') :
    Keeps watch held (printed >>= next) weigh' := by
  intro page value after inOrder outcome
  obtain ⟨given, middle, isFirst, isRest⟩ := bind_eq_ok.mp outcome
  obtain ⟨sameComments, marks⟩ := first _ _ _ isFirst
  rw [← sameComments] at inOrder ⊢
  obtain ⟨taken, isTaken, marks'⟩ := rest _ _ _ _ inOrder isRest
  exact ⟨taken, isTaken, by rw [marks', marks, List.append_nil]⟩

/-- A text that is given is kept. -/
theorem of_gives (gives : Gives watch [] printed (Weighs weigh)) : Keeps watch [] printed weigh := by
  intro page value after inOrder outcome
  obtain ⟨sameLines, taken, isTaken, isWeight⟩ := gives _ _ _ inOrder outcome
  refine ⟨taken, isTaken, ?_⟩
  rw [isWeight, Watch.pageMarks, sameLines, Watch.pageMarks]

/-- A printing that fails writes nothing. -/
theorem throw (error : PrintError) : Keeps watch held (MonadExcept.throw error) weigh :=
  fun _ _ _ _ => nofun

theorem cast (keeps : Keeps watch held printed weigh) {same : List Char} (heldEq : held = same) :
    Keeps watch same printed weigh :=
  heldEq ▸ keeps

theorem get {next : Page → Print β} (rest : ∀ page, Keeps watch held (next page) weigh') :
    Keeps watch held (MonadState.get >>= next) weigh' :=
  fun page => rest page page

theorem ite {condition : Prop} [Decidable condition] {first second : Print α}
    (firstOk : condition → Keeps watch held first weigh)
    (secondOk : ¬ condition → Keeps watch held second weigh) :
    Keeps watch held (if condition then first else second) weigh := by
  split
  · next holds => exact firstOk holds
  · next fails => exact secondOk fails

theorem nested (inner : Keeps watch held printed weigh) :
    Keeps watch held (nested printed) weigh := by
  intro page value after inOrder outcome
  obtain ⟨_, _, ⟨⟩, outcome⟩ := bind_eq_ok.mp outcome
  obtain ⟨given, middle, isInner, outcome⟩ := bind_eq_ok.mp outcome
  obtain ⟨_, _, ⟨⟩, ⟨⟩⟩ := bind_eq_ok.mp outcome
  exact inner { page with indent := page.indent + 1 } value middle inOrder isInner

/-- The lines that are written apart from the page. -/
theorem capture {inner : Print Unit} (emits : Emits watch held inner) :
    Gives watch held (capture inner) (Weighs watch.allMarks) := by
  intro page value after inOrder outcome
  obtain ⟨_, _, ⟨⟩, outcome⟩ := bind_eq_ok.mp outcome
  obtain ⟨_, _, ⟨⟩, outcome⟩ := bind_eq_ok.mp outcome
  obtain ⟨_, middle, isInner, outcome⟩ := bind_eq_ok.mp outcome
  obtain ⟨_, _, ⟨⟩, outcome⟩ := bind_eq_ok.mp outcome
  obtain ⟨_, _, ⟨⟩, ⟨⟩⟩ := bind_eq_ok.mp outcome
  obtain ⟨taken, isTaken, marks⟩ := emits { page with lines := [] } _ _ inOrder isInner
  exact ⟨rfl, taken, isTaken, by simpa [Watch.pageMarks, Watch.allMarks, Weighs] using marks⟩

end Keeps

/-! ### Comments before a position -/

/-- The comments before a position at which they are asked for. -/
theorem takeComments_gives {pos : Pos} (isAsked : watch.asked pos) :
    Gives watch [] (takeComments pos) (Weighs watch.commentMarks) := by
  intro page value after inOrder outcome
  obtain ⟨_, _, ⟨⟩, outcome⟩ := bind_eq_ok.mp outcome
  obtain ⟨_, _, ⟨⟩, ⟨⟩⟩ := bind_eq_ok.mp outcome
  refine ⟨rfl, _, ⟨(List.takeWhile_append_dropWhile ..).symm, fun comment isTaken => ?_⟩, rfl⟩
  have before : comment.span.start < pos := by simpa using List.mem_takeWhile_imp isTaken
  refine ⟨pos, isAsked, before, fun later isLater => ?_⟩
  have dropped := page.comments.head?_dropWhile_not (·.span.start < pos)
  have inOrder : InOrder (page.comments.dropWhile (·.span.start < pos)) :=
    inOrder.sublist (List.dropWhile_sublist _)
  simp only at isLater
  cases restEq : page.comments.dropWhile (·.span.start < pos) with
  | nil =>
      rw [restEq] at isLater
      cases isLater
  | cons first rest =>
      rw [restEq] at isLater dropped inOrder
      have firstLe : pos ≤ first.span.start := by simpa using dropped
      obtain rfl | isRest := List.mem_cons.mp isLater
      · exact firstLe
      · exact Int.le_trans firstLe ((List.pairwise_cons.mp inOrder).1 later isRest)

/-- The comments before a node go where the node is written. -/
theorem advance_emits (foreign : watch.Foreign) {pos : Pos} (isAsked : pos ≠ noPos → watch.asked pos)
    (separate : Bool) : Emits watch [] (advance pos separate) := by
  refine .ite (fun _ => .pure rfl) fun isPos => .text (takeComments_gives (isAsked isPos)) fun pending => ?_
  have rest : Emits watch ([] ++ watch.commentMarks pending) (do
      pending.forM leadingComment
      if !pending.isEmpty then
        blankLineBefore (← lineOf pos)) :=
    .writes (.forM fun comment _ => leadingComment_writes foreign comment) fun _ =>
      .of_writes (.ite (fun _ => .bind (lineOf_writes _) fun _ => blankLineBefore_writes _) fun _ => .pure _)
  exact .ite (fun _ => .still blankLine_writes fun _ => rest) fun _ =>
    .still (lineOf_writes _) fun _ => .still (blankLineBefore_writes _) fun _ => rest

end Triples

end Layout

end GoMend
