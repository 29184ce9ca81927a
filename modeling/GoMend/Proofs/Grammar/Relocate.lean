import GoMend.Grammar.SourceFile
import GoMend.Proofs.Grammar.Outcome
import GoMend.Proofs.Tree.Relocate

/-!
# Reading at another place

A production looks at tokens and copies positions, so it reads the same tree from lexemes that stand
elsewhere, with all positions replaced.  The positions may be replaced in any way that keeps every
lexeme in one piece and leaves the missing position to what has none.
-/

namespace GoMend

open Relocatable (relocate)

variable {place : Pos → Pos}

/-! ### Lexemes and cursors -/

/-- A lexeme at another place. -/
def Lexeme.relocated (place : Pos → Pos) (lexeme : Lexeme) : Lexeme :=
  { lexeme with pos := place lexeme.pos }

/-- A lexeme stays in one piece when positions are replaced. -/
structure Lexeme.KeptBy (place : Pos → Pos) (lexeme : Lexeme) : Prop where
  stop : place lexeme.stop = (lexeme.relocated place).stop
  ellipsis : lexeme.token = .ellipsis → place (lexeme.pos + 3) = place lexeme.pos + 3
  period : lexeme.token = .period → place (lexeme.pos + 1) = place lexeme.pos + 1

theorem Lexeme.KeptBy.ofEnd (pos : Pos) : KeptBy place ⟨.endOfFile, "", pos⟩ where
  stop := by simp [Lexeme.stop, Lexeme.relocated]
  ellipsis isEllipsis := by cases isEllipsis
  period isPeriod := by cases isPeriod

/-- Lexemes stay in one piece when positions are replaced, but for a semicolon that the end of the
text stands for, which ends behind the text. -/
def Lexeme.AllKept (place : Pos → Pos) : List Lexeme → Prop
  | [] => True
  | lexeme :: rest =>
      ((lexeme.token = .semicolon → ∀ next ∈ rest.head?, next.token ≠ .endOfFile) →
        lexeme.KeptBy place) ∧ AllKept place rest

namespace Cursor

/-- A cursor on lexemes at other places. -/
def relocated (place : Pos → Pos) (cursor : Cursor) : Cursor where
  current := cursor.current.relocated place
  ahead := cursor.ahead.map (Lexeme.relocated place)
  prevStop := place cursor.prevStop
  level := cursor.level

@[simp]
theorem level_relocated (cursor : Cursor) : (cursor.relocated place).level = cursor.level :=
  rfl

@[simp]
theorem token_relocated (cursor : Cursor) :
    (cursor.relocated place).current.token = cursor.current.token :=
  rfl

/-- Whether the cursor has come to the end of the text. -/
def atEnd (cursor : Cursor) : Prop :=
  cursor.current.token = .endOfFile

/-- The lexemes from a cursor on stay in one piece. -/
def KeptBy (place : Pos → Pos) (cursor : Cursor) : Prop :=
  Lexeme.AllKept place (cursor.current :: cursor.ahead)

theorem atEnd_next {cursor : Cursor} (atEnd : cursor.atEnd) : cursor.next.atEnd := by
  rwa [next, if_pos (show cursor.current.token = .endOfFile from atEnd)]

namespace KeptBy

variable {cursor : Cursor}

theorem current (kept : cursor.KeptBy place) (notSemicolon : cursor.current.token ≠ .semicolon) :
    cursor.current.KeptBy place :=
  kept.1 fun isSemicolon => absurd isSemicolon notSemicolon

/-- The lexeme at a cursor stays in one piece if more than the end of the text follows. -/
theorem current_of_next (kept : cursor.KeptBy place) (notEnd : ¬cursor.next.atEnd) :
    cursor.current.KeptBy place := by
  refine kept.1 fun isSemicolon next isNext isEnd => notEnd ?_
  obtain ⟨current, ahead, prevStop, level⟩ := cursor
  cases ahead with
  | nil => cases isNext
  | cons lexeme ahead =>
      obtain rfl := Option.some.inj isNext
      simp only at isSemicolon
      simpa [Cursor.next, Cursor.atEnd, isSemicolon] using isEnd

theorem next (kept : cursor.KeptBy place) (notEnd : ¬cursor.next.atEnd) :
    cursor.next.KeptBy place ∧ (cursor.relocated place).next = cursor.next.relocated place := by
  have currentKept := kept.current_of_next notEnd
  have currentNotEnd : ¬cursor.atEnd := fun atEnd => notEnd (atEnd_next atEnd)
  obtain ⟨current, ahead, prevStop, level⟩ := cursor
  simp only [atEnd] at currentNotEnd
  · cases ahead with
    | nil =>
        simp only [Cursor.next, relocated, Lexeme.relocated, currentNotEnd, if_false, List.map_nil]
        exact ⟨kept, trivial⟩
    | cons lexeme ahead =>
        simp only [Cursor.next, relocated, Lexeme.relocated, currentNotEnd, if_false, List.map_cons]
        exact ⟨kept.2, by rw [currentKept.stop]; rfl⟩

end KeptBy

theorem peek_relocated (cursor : Cursor) (distance : Nat) :
    (cursor.relocated place).peek distance = cursor.peek distance := by
  simp only [peek, relocated, ← List.map_drop]
  cases cursor.ahead.drop (distance - 1) with
  | nil =>
      simp only [List.map_nil, List.getLast?_map]
      cases cursor.ahead.getLast? <;> rfl
  | cons lexeme rest => rfl

end Cursor

/-! ### Productions -/

/-- The second production reads at the other place what the first one reads, as far as the end of
the text does not follow at once. -/
structure Parse.Relocates {α : Type} [Relocatable α] (place : Pos → Pos) (first second : Parse α) :
    Prop where
  staysAtEnd : ∀ cursor value after, first cursor = .ok (value, after) → cursor.atEnd → after.atEnd
  moves : ∀ cursor value after, cursor.KeptBy place → first cursor = .ok (value, after) →
    ¬after.atEnd → after.KeptBy place ∧
      second (cursor.relocated place) = .ok (relocate place value, after.relocated place)

/-- The same where the cursor stands on a given token. -/
structure Parse.RelocatesFrom {α : Type} [Relocatable α] (tok : Token) (place : Pos → Pos)
    (first second : Parse α) : Prop where
  staysAtEnd : ∀ cursor value after, cursor.current.token = tok → first cursor = .ok (value, after) →
    cursor.atEnd → after.atEnd
  moves : ∀ cursor value after, cursor.current.token = tok → cursor.KeptBy place →
    first cursor = .ok (value, after) → ¬after.atEnd → after.KeptBy place ∧
      second (cursor.relocated place) = .ok (relocate place value, after.relocated place)

namespace Parse.Relocates

variable {α β : Type} [Relocatable α] [Relocatable β]

theorem pure {value other : α} (same : other = relocate place value) :
    Relocates place (Pure.pure value) (Pure.pure other) where
  staysAtEnd cursor _ after outcome atEnd := by
    obtain ⟨rfl, rfl⟩ := Prod.mk.inj (Except.ok.inj outcome)
    exact atEnd
  moves cursor _ after kept outcome _ := by
    obtain ⟨rfl, rfl⟩ := Prod.mk.inj (Except.ok.inj outcome)
    exact ⟨kept, same ▸ rfl⟩

theorem bind {first second : Parse α} {next next' : α → Parse β} (read : Relocates place first second)
    (readNext : ∀ value, Relocates place (next value) (next' (relocate place value))) :
    Relocates place (first >>= next) (second >>= next') where
  staysAtEnd cursor value after outcome atEnd := by
    obtain ⟨middleValue, middle, firstRead, secondRead⟩ := bind_eq_ok.mp outcome
    exact (readNext middleValue).staysAtEnd middle value after secondRead
      (read.staysAtEnd cursor middleValue middle firstRead atEnd)
  moves cursor value after kept outcome notEnd := by
    obtain ⟨middleValue, middle, firstRead, secondRead⟩ := bind_eq_ok.mp outcome
    have middleNotEnd : ¬middle.atEnd := fun atEnd =>
      notEnd ((readNext middleValue).staysAtEnd middle value after secondRead atEnd)
    obtain ⟨middleKept, firstMoved⟩ :=
      read.moves cursor middleValue middle kept firstRead middleNotEnd
    obtain ⟨afterKept, secondMoved⟩ :=
      (readNext middleValue).moves middle value after middleKept secondRead notEnd
    exact ⟨afterKept, bind_eq_ok.mpr ⟨_, _, firstMoved, secondMoved⟩⟩

theorem bind_pair {γ : Type} [Relocatable γ] {first second : Parse (α × γ)}
    {next next' : α × γ → Parse β} (read : Relocates place first second)
    (readNext : ∀ left right,
      Relocates place (next (left, right)) (next' (relocate place left, relocate place right))) :
    Relocates place (first >>= next) (second >>= next') :=
  .bind read fun value => readNext value.1 value.2

theorem map {first second : Parse α} {change change' : α → β} (read : Relocates place first second)
    (same : ∀ value, change' (relocate place value) = relocate place (change value)) :
    Relocates place (change <$> first) (change' <$> second) := by
  rw [← bind_pure_comp, ← bind_pure_comp]
  exact .bind read fun value => .pure (same value)

/-- A production that always fails. -/
theorem of_fails {first second : Parse α} (fails : ∀ cursor, ∃ fault, first cursor = .error fault) :
    Relocates place first second := by
  have never (cursor : Cursor) (value : α) (after : Cursor)
      (outcome : first cursor = .ok (value, after)) : False := by
    obtain ⟨fault, isFault⟩ := fails cursor
    rw [isFault] at outcome
    cases outcome
  exact ⟨fun cursor value after outcome => (never cursor value after outcome).elim,
    fun cursor value after _ outcome => (never cursor value after outcome).elim⟩

theorem fail {cause : FaultCause} {second : Parse α} : Relocates place (Parse.fail cause) second :=
  of_fails fun _ => ⟨_, rfl⟩

theorem failAt {pos : Pos} {cause : FaultCause} {second : Parse α} :
    Relocates place (Parse.failAt pos cause) second :=
  of_fails fun _ => ⟨_, rfl⟩

theorem expected {what : String} {second : Parse α} :
    Relocates place (Parse.expected what) second :=
  of_fails fun _ => ⟨_, rfl⟩

omit [Relocatable α] in
/-- Nothing follows a fault. -/
theorem failBind {cause : FaultCause} {next : α → Parse β} {second : Parse β} :
    Relocates place (Parse.fail cause >>= next) second :=
  of_fails fun _ => ⟨_, rfl⟩

/-- A production that only looks at the cursor. -/
theorem look {view : Cursor → α} (same : ∀ cursor : Cursor, cursor.KeptBy place →
    view (cursor.relocated place) = relocate place (view cursor)) :
    Relocates place (do return view (← get)) (do return view (← get)) where
  staysAtEnd cursor value after outcome atEnd := by
    obtain ⟨rfl, rfl⟩ := Prod.mk.inj (Except.ok.inj outcome)
    exact atEnd
  moves cursor value after kept outcome _ := by
    obtain ⟨rfl, rfl⟩ := Prod.mk.inj (Except.ok.inj outcome)
    exact ⟨kept, congrArg Except.ok (congrArg₂ Prod.mk (same cursor kept) rfl)⟩

theorem token : Relocates place Parse.token Parse.token :=
  .look fun _ _ => rfl

theorem pos : Relocates place Parse.pos Parse.pos :=
  .look fun _ _ => rfl

theorem prevStop : Relocates place Parse.prevStop Parse.prevStop :=
  .look fun _ _ => rfl

theorem itemLimit : Relocates place Parse.itemLimit Parse.itemLimit :=
  .look fun cursor _ => by simp [Cursor.relocated, relocate]

theorem advance : Relocates place Parse.advance Parse.advance where
  staysAtEnd cursor value after outcome atEnd := by
    obtain ⟨rfl, rfl⟩ := Prod.mk.inj (Except.ok.inj outcome)
    exact Cursor.atEnd_next atEnd
  moves cursor value after kept outcome notEnd := by
    obtain ⟨rfl, rfl⟩ := Prod.mk.inj (Except.ok.inj outcome)
    obtain ⟨nextKept, nextEq⟩ := kept.next notEnd
    exact ⟨nextKept, congrArg (fun next => Except.ok ((), next)) nextEq⟩

/-- What follows the look at a token. -/
theorem bind_token {next next' : Token → Parse β}
    (read : ∀ tok, Relocates place (next tok) (next' tok)) :
    Relocates place (Parse.token >>= next) (Parse.token >>= next') :=
  .bind token read

/-- What follows the look at a token, given that it is there. -/
theorem bind_token_of {next next' : Token → Parse β}
    (read : ∀ tok, RelocatesFrom tok place (next tok) (next' tok)) :
    Relocates place (Parse.token >>= next) (Parse.token >>= next') where
  staysAtEnd cursor value after outcome atEnd := by
    obtain ⟨_, _, looked, rest⟩ := bind_eq_ok.mp outcome
    obtain ⟨rfl, rfl⟩ := token_eq_ok.mp looked
    exact (read _).staysAtEnd _ value after rfl rest atEnd
  moves cursor value after kept outcome notEnd := by
    obtain ⟨_, _, looked, rest⟩ := bind_eq_ok.mp outcome
    obtain ⟨rfl, rfl⟩ := token_eq_ok.mp looked
    obtain ⟨afterKept, moved⟩ := (read _).moves _ value after rfl kept rest notEnd
    exact ⟨afterKept, bind_eq_ok.mpr ⟨_, _, token_eq_ok.mpr ⟨rfl, rfl⟩, moved⟩⟩

/-- What follows the look at a position. -/
theorem bind_pos {next next' : Pos → Parse β}
    (read : ∀ start, Relocates place (next start) (next' (place start))) :
    Relocates place (Parse.pos >>= next) (Parse.pos >>= next') :=
  .bind pos read

/-- What follows the look at the end of what was read. -/
theorem bind_prevStop {next next' : Pos → Parse β}
    (read : ∀ stop, Relocates place (next stop) (next' (place stop))) :
    Relocates place (Parse.prevStop >>= next) (Parse.prevStop >>= next') :=
  .bind prevStop read

/-- What follows a lexeme that is left behind. -/
theorem bind_advance {next next' : Unit → Parse β}
    (read : Relocates place (next ()) (next' ())) :
    Relocates place (Parse.advance >>= next) (Parse.advance >>= next') :=
  .bind advance fun _ => read

/-- What follows the look at a cursor. -/
theorem bind_get {next next' : Cursor → Parse β}
    (read : ∀ cursor, Relocates place (next cursor) (next' (cursor.relocated place))) :
    Relocates place (get >>= next) (get >>= next') where
  staysAtEnd cursor value after outcome atEnd := by
    obtain ⟨_, _, looked, rest⟩ := bind_eq_ok.mp outcome
    obtain ⟨rfl, rfl⟩ := get_eq_ok.mp looked
    exact (read _).staysAtEnd _ value after rest atEnd
  moves cursor value after kept outcome notEnd := by
    obtain ⟨_, _, looked, rest⟩ := bind_eq_ok.mp outcome
    obtain ⟨rfl, rfl⟩ := get_eq_ok.mp looked
    obtain ⟨afterKept, moved⟩ := (read _).moves _ value after kept rest notEnd
    exact ⟨afterKept, bind_eq_ok.mpr ⟨_, _, get_eq_ok.mpr ⟨rfl, rfl⟩, moved⟩⟩

/-- What follows the look at the position and the token of a lexeme. -/
theorem bind_lexeme {next next' : Pos → Token → Parse β}
    (read : ∀ lexeme : Lexeme, (lexeme.token ≠ .semicolon → lexeme.KeptBy place) →
      Relocates place (next lexeme.pos lexeme.token) (next' (place lexeme.pos) lexeme.token)) :
    Relocates place (Parse.pos >>= fun start => Parse.token >>= next start)
      (Parse.pos >>= fun start => Parse.token >>= next' start) where
  staysAtEnd cursor value after outcome atEnd := by
    simp only [bind_eq_ok, pos_eq_ok, token_eq_ok] at outcome
    obtain ⟨_, _, ⟨rfl, rfl⟩, _, _, ⟨rfl, rfl⟩, rest⟩ := outcome
    rename_i here
    rw [show here.current.token = .endOfFile from atEnd] at rest
    exact (read ⟨.endOfFile, "", here.current.pos⟩ fun _ => .ofEnd _).staysAtEnd _ value after rest
      atEnd
  moves cursor value after kept outcome notEnd := by
    simp only [bind_eq_ok, pos_eq_ok, token_eq_ok] at outcome
    obtain ⟨_, _, ⟨rfl, rfl⟩, _, _, ⟨rfl, rfl⟩, rest⟩ := outcome
    obtain ⟨afterKept, moved⟩ := (read _ kept.current).moves _ value after kept rest notEnd
    refine ⟨afterKept, bind_eq_ok.mpr ⟨_, _, pos_eq_ok.mpr ⟨rfl, rfl⟩, ?_⟩⟩
    exact bind_eq_ok.mpr ⟨_, _, token_eq_ok.mpr ⟨rfl, rfl⟩, moved⟩

theorem expect (tok : Token) : Relocates place (Parse.expect tok) (Parse.expect tok) := by
  refine .bind_token fun found => ?_
  split
  · exact .bind_pos fun start => .bind_advance (.pure rfl)
  · exact .expected

theorem accept (tok : Token) : Relocates place (Parse.accept tok) (Parse.accept tok) := by
  refine .bind_token fun found => ?_
  split
  · exact .bind_advance (.pure rfl)
  · exact .pure rfl

theorem expectEnd : Relocates place Parse.expectEnd Parse.expectEnd := by
  refine .bind_token fun found => ?_
  split
  · exact .pure rfl
  · exact .pure rfl
  · exact .advance
  · exact .expected

/-- What follows a token that has to be there. -/
theorem bind_expect {tok : Token} {next next' : Pos → Parse β}
    (read : ∀ start, Relocates place (next start) (next' (place start))) :
    Relocates place (Parse.expect tok >>= next) (Parse.expect tok >>= next') :=
  .bind (expect tok) read

/-- What follows a token that may be there. -/
theorem bind_accept {tok : Token} {next next' : Bool → Parse β}
    (read : ∀ found, Relocates place (next found) (next' found)) :
    Relocates place (Parse.accept tok >>= next) (Parse.accept tok >>= next') :=
  .bind (accept tok) read

/-- What follows the end of a statement. -/
theorem bind_expectEnd {next next' : Unit → Parse β}
    (read : Relocates place (next ()) (next' ())) :
    Relocates place (Parse.expectEnd >>= next) (Parse.expectEnd >>= next') :=
  .bind expectEnd fun _ => read

theorem atLevel {first second : Parse α} (read : Relocates place first second) (level : Int) :
    Relocates place (Parse.atLevel level first) (Parse.atLevel level second) where
  staysAtEnd cursor value after outcome atEnd := by
    obtain ⟨middle, inside, rfl⟩ := atLevel_eq_ok.mp outcome
    exact read.staysAtEnd { cursor with level := level } value middle inside atEnd
  moves cursor value after kept outcome notEnd := by
    obtain ⟨middle, inside, rfl⟩ := atLevel_eq_ok.mp outcome
    obtain ⟨middleKept, moved⟩ :=
      read.moves { cursor with level := level } value middle kept inside notEnd
    exact ⟨middleKept, atLevel_eq_ok.mpr ⟨middle.relocated place, moved, rfl⟩⟩

theorem repeatWhile {more more' : Parse Bool} {item item' : Parse α}
    (readMore : Relocates place more more') (read : Relocates place item item') (limit : Nat) :
    Relocates place (Parse.repeatWhile more item limit) (Parse.repeatWhile more' item' limit) := by
  induction limit with
  | zero => exact .fail
  | succ limit ih =>
      refine .bind readMore fun found => ?_
      show Relocates place (if found then _ else _) (if found then _ else _)
      split
      · exact .bind read fun first => .bind ih fun rest => .pure rfl
      · exact .pure rfl

theorem manyWhile {more more' : Parse Bool} {item item' : Parse α}
    (readMore : Relocates place more more') (read : Relocates place item item') :
    Relocates place (Parse.manyWhile more item) (Parse.manyWhile more' item') :=
  .bind itemLimit fun limit => repeatWhile readMore read limit

theorem commaSeparated {item item' : Parse α} (read : Relocates place item item') :
    Relocates place (Parse.commaSeparated item) (Parse.commaSeparated item') :=
  .bind read fun _ => .bind (.manyWhile (accept .comma) read) fun _ => .pure rfl

theorem repeatUntil {item item' : Parse α} (read : Relocates place item item') (closing : Token)
    (limit : Nat) :
    Relocates place (Parse.repeatUntil closing item limit)
      (Parse.repeatUntil closing item' limit) := by
  induction limit with
  | zero => exact .fail
  | succ limit ih =>
      refine .bind_token fun tok => ?_
      split
      · exact .pure rfl
      · refine .bind read fun first => .bind_accept fun found => ?_
        split
        · exact .bind ih fun rest => .pure rfl
        · exact .pure rfl

theorem listUntil {item item' : Parse α} (read : Relocates place item item') (closing : Token) :
    Relocates place (Parse.listUntil closing item) (Parse.listUntil closing item') :=
  .bind itemLimit fun limit => repeatUntil read closing limit

theorem extendAll {extend extend' : α → Parse (Option α)}
    (read : ∀ value, Relocates place (extend value) (extend' (relocate place value))) (value : α) :
    Relocates place (Parse.extendAll extend value)
      (Parse.extendAll extend' (relocate place value)) := by
  refine .bind itemLimit fun limit => ?_
  show Relocates place (Parse.repeatExtend extend limit value)
    (Parse.repeatExtend extend' limit (relocate place value))
  induction limit generalizing value with
  | zero => exact .fail
  | succ limit ih =>
      refine .bind (read value) fun extended => ?_
      cases extended with
      | none => exact .pure rfl
      | some next => exact ih next

theorem bracketed {first second : Parse α} (read : Relocates place first second) :
    Relocates place (Parse.bracketed first) (Parse.bracketed second) where
  staysAtEnd cursor value after outcome atEnd := by
    obtain ⟨middle, inside, rfl⟩ := bracketed_eq_ok.mp outcome
    exact read.staysAtEnd { cursor with level := cursor.level + 1 } value middle inside atEnd
  moves cursor value after kept outcome notEnd := by
    obtain ⟨middle, inside, rfl⟩ := bracketed_eq_ok.mp outcome
    obtain ⟨middleKept, moved⟩ :=
      read.moves { cursor with level := cursor.level + 1 } value middle kept inside notEnd
    exact ⟨middleKept, bracketed_eq_ok.mpr ⟨middle.relocated place, moved, rfl⟩⟩

theorem inHeader {first second : Parse α} (read : Relocates place first second) :
    Relocates place (Parse.inHeader first) (Parse.inHeader second) :=
  atLevel read _

/-- A part that may be missing. -/
theorem option {first second : Parse α} (read : Relocates place first second) :
    Relocates place (some <$> first) (some <$> second) :=
  .map read fun _ => rfl

end Parse.Relocates

namespace Parse.RelocatesFrom

variable {α β : Type} [Relocatable α] [Relocatable β]

theorem of_relocates {first second : Parse α} (read : Relocates place first second) {tok : Token} :
    RelocatesFrom tok place first second where
  staysAtEnd cursor value after _ := read.staysAtEnd cursor value after
  moves cursor value after _ := read.moves cursor value after

/-- What follows the look at the position of a token that is so long. -/
theorem bind_length {tok : Token} (notSemicolon : tok ≠ .semicolon) (length : Int)
    (isLong : ∀ lexeme : Lexeme, lexeme.KeptBy place → lexeme.token = tok →
      place (lexeme.pos + length) = place lexeme.pos + length)
    {next next' : Pos → Parse β} (read : ∀ start, place (start + length) = place start + length →
      Relocates place (next start) (next' (place start))) :
    RelocatesFrom tok place (Parse.pos >>= next) (Parse.pos >>= next') where
  staysAtEnd cursor value after isTok outcome atEnd := by
    have endLong := isLong ⟨.endOfFile, "", cursor.current.pos⟩ (.ofEnd _) (atEnd.symm.trans isTok)
    obtain ⟨_, _, looked, rest⟩ := bind_eq_ok.mp outcome
    obtain ⟨rfl, rfl⟩ := pos_eq_ok.mp looked
    exact (read _ endLong).staysAtEnd _ value after rest atEnd
  moves cursor value after isTok kept outcome notEnd := by
    obtain ⟨_, _, looked, rest⟩ := bind_eq_ok.mp outcome
    obtain ⟨rfl, rfl⟩ := pos_eq_ok.mp looked
    have currentLong := isLong _ (kept.current (isTok ▸ notSemicolon)) isTok
    obtain ⟨afterKept, moved⟩ := (read _ currentLong).moves _ value after kept rest notEnd
    exact ⟨afterKept, bind_eq_ok.mpr ⟨_, _, pos_eq_ok.mpr ⟨rfl, rfl⟩, moved⟩⟩

end Parse.RelocatesFrom

/-! ### The end of the text -/

/-- A cursor on lexemes at other places.  Where only the end of the text is left, it does not matter
where the lexeme before it ended. -/
structure Cursor.Matches (place : Pos → Pos) (cursor other : Cursor) : Prop where
  same : other = { cursor.relocated place with prevStop := other.prevStop }
  kept : cursor.KeptBy place
  prevStop : ¬cursor.atEnd → other.prevStop = place cursor.prevStop

namespace Cursor

variable {cursor other : Cursor}

theorem Matches.refl (kept : cursor.KeptBy place) : cursor.Matches place (cursor.relocated place) :=
  ⟨rfl, kept, fun _ => rfl⟩

theorem Matches.eq_relocated (related : cursor.Matches place other) (notEnd : ¬cursor.atEnd) :
    other = cursor.relocated place := by
  rw [related.same, related.prevStop notEnd]
  rfl

theorem Matches.token_eq (related : cursor.Matches place other) :
    other.current.token = cursor.current.token := by
  rw [related.same]
  rfl

theorem KeptBy.matches_next (kept : cursor.KeptBy place) (notEnd : ¬cursor.atEnd) :
    cursor.next.Matches place (cursor.relocated place).next := by
  by_cases nextAtEnd : cursor.next.atEnd
  · obtain ⟨current, ahead, prevStop, level⟩ := cursor
    simp only [atEnd] at notEnd
    cases ahead with
    | nil =>
        rw [Cursor.next, if_neg notEnd] at nextAtEnd
        exact absurd nextAtEnd notEnd
    | cons lexeme ahead =>
        simp only [Cursor.next, notEnd, if_false] at nextAtEnd
        simp only [Cursor.next, relocated, Lexeme.relocated, notEnd, if_false, List.map_cons]
        exact ⟨rfl, kept.2, fun isNotEnd => absurd nextAtEnd isNotEnd⟩
  · obtain ⟨nextKept, nextEq⟩ := kept.next nextAtEnd
    rw [nextEq]
    exact .refl nextKept

end Cursor

/-- The second production reads at the other place what the first one reads, up to the end of the
text. -/
def Parse.Matches {α : Type} [Relocatable α] (place : Pos → Pos) (first second : Parse α) : Prop :=
  ∀ cursor other value after, cursor.Matches place other → first cursor = .ok (value, after) →
    ∃ afterOther, second other = .ok (relocate place value, afterOther) ∧
      after.Matches place afterOther

/-- The same for a production that reads the end of a statement, so that it cannot begin at the end
of the text. -/
structure Parse.Closes {α : Type} [Relocatable α] (place : Pos → Pos) (first second : Parse α) :
    Prop where
  notAtEnd : ∀ cursor value after, first cursor = .ok (value, after) → ¬cursor.atEnd
  moves : ∀ cursor value after, cursor.KeptBy place → first cursor = .ok (value, after) →
    ∃ other, second (cursor.relocated place) = .ok (relocate place value, other) ∧
      after.Matches place other

namespace Parse

variable {α β : Type} [Relocatable α] [Relocatable β]

namespace Closes

theorem toRelocates {first second : Parse α} (closes : Closes place first second) :
    Relocates place first second where
  staysAtEnd cursor value after outcome atEnd :=
    absurd atEnd (closes.notAtEnd cursor value after outcome)
  moves cursor value after kept outcome notEnd := by
    obtain ⟨other, moved, related⟩ := closes.moves cursor value after kept outcome
    rw [related.eq_relocated notEnd] at moved
    exact ⟨related.kept, moved⟩

theorem toMatches {first second : Parse α} (closes : Closes place first second) :
    Matches place first second := by
  intro cursor other value after related outcome
  rw [related.eq_relocated (closes.notAtEnd cursor value after outcome)]
  exact closes.moves cursor value after related.kept outcome

theorem of_fails {first second : Parse α} (fails : ∀ cursor, ∃ fault, first cursor = .error fault) :
    Closes place first second := by
  have never (cursor : Cursor) (value : α) (after : Cursor)
      (outcome : first cursor = .ok (value, after)) : False := by
    obtain ⟨fault, isFault⟩ := fails cursor
    rw [isFault] at outcome
    cases outcome
  exact ⟨fun cursor value after outcome => (never cursor value after outcome).elim,
    fun cursor value after _ outcome => (never cursor value after outcome).elim⟩

/-- What is read before the end of a statement. -/
theorem bind {first second : Parse α} {next next' : α → Parse β} (read : Relocates place first second)
    (closes : ∀ value, Closes place (next value) (next' (relocate place value))) :
    Closes place (first >>= next) (second >>= next') where
  notAtEnd cursor value after outcome atEnd := by
    obtain ⟨middleValue, middle, firstRead, secondRead⟩ := bind_eq_ok.mp outcome
    exact (closes middleValue).notAtEnd middle value after secondRead
      (read.staysAtEnd cursor middleValue middle firstRead atEnd)
  moves cursor value after kept outcome := by
    obtain ⟨middleValue, middle, firstRead, secondRead⟩ := bind_eq_ok.mp outcome
    have notEnd := (closes middleValue).notAtEnd middle value after secondRead
    obtain ⟨middleKept, firstMoved⟩ := read.moves cursor middleValue middle kept firstRead notEnd
    obtain ⟨other, secondMoved, related⟩ :=
      (closes middleValue).moves middle value after middleKept secondRead
    exact ⟨other, bind_eq_ok.mpr ⟨_, _, firstMoved, secondMoved⟩, related⟩

/-- What is read after the end of a statement. -/
theorem append {first second : Parse α} {next next' : α → Parse β}
    (closes : Closes place first second)
    (read : ∀ value, Matches place (next value) (next' (relocate place value))) :
    Closes place (first >>= next) (second >>= next') where
  notAtEnd cursor value after outcome := by
    obtain ⟨middleValue, middle, firstRead, -⟩ := bind_eq_ok.mp outcome
    exact closes.notAtEnd cursor middleValue middle firstRead
  moves cursor value after kept outcome := by
    obtain ⟨middleValue, middle, firstRead, secondRead⟩ := bind_eq_ok.mp outcome
    obtain ⟨other, firstMoved, related⟩ := closes.moves cursor middleValue middle kept firstRead
    obtain ⟨last, secondMoved, related⟩ :=
      read middleValue middle other value after related secondRead
    exact ⟨last, bind_eq_ok.mpr ⟨_, _, firstMoved, secondMoved⟩, related⟩

theorem expectEnd : Closes place Parse.expectEnd Parse.expectEnd where
  notAtEnd cursor value after outcome atEnd := by
    simp only [Parse.expectEnd, bind_eq_ok, token_eq_ok] at outcome
    obtain ⟨tok, _, ⟨rfl, rfl⟩, outcome⟩ := outcome
    rw [show _ = Token.endOfFile from atEnd] at outcome
    exact expected_ne_ok outcome
  moves cursor value after kept outcome := by
    simp only [Parse.expectEnd, bind_eq_ok, token_eq_ok] at outcome ⊢
    obtain ⟨tok, _, ⟨tokEq, rfl⟩, outcome⟩ := outcome
    split at outcome
    · obtain ⟨rfl, rfl⟩ := pure_eq_ok.mp outcome
      refine ⟨_, ⟨_, _, ⟨rfl, rfl⟩, ?_⟩, .refl kept⟩
      rw [Cursor.token_relocated, ← tokEq]
      rfl
    · obtain ⟨rfl, rfl⟩ := pure_eq_ok.mp outcome
      refine ⟨_, ⟨_, _, ⟨rfl, rfl⟩, ?_⟩, .refl kept⟩
      rw [Cursor.token_relocated, ← tokEq]
      rfl
    · obtain rfl := advance_eq_ok.mp outcome
      have notEnd : ¬Cursor.atEnd _ := fun atEnd => by cases atEnd.symm.trans tokEq.symm
      refine ⟨_, ⟨_, _, ⟨rfl, rfl⟩, ?_⟩, kept.matches_next notEnd⟩
      rw [Cursor.token_relocated, ← tokEq]
      rfl
    · exact absurd outcome expected_ne_ok

end Closes

namespace Matches

theorem pure {value other : α} (same : other = relocate place value) :
    Matches place (Pure.pure value) (Pure.pure other) := by
  intro cursor cursor' _ after related outcome
  obtain ⟨rfl, rfl⟩ := Prod.mk.inj (Except.ok.inj outcome)
  exact ⟨cursor', same ▸ rfl, related⟩

theorem bind {first second : Parse α} {next next' : α → Parse β} (read : Matches place first second)
    (readNext : ∀ value, Matches place (next value) (next' (relocate place value))) :
    Matches place (first >>= next) (second >>= next') := by
  intro cursor other value after related outcome
  obtain ⟨middleValue, middle, firstRead, secondRead⟩ := bind_eq_ok.mp outcome
  obtain ⟨otherMiddle, firstMoved, related⟩ := read _ _ _ _ related firstRead
  obtain ⟨last, secondMoved, related⟩ := readNext middleValue _ _ _ _ related secondRead
  exact ⟨last, bind_eq_ok.mpr ⟨_, _, firstMoved, secondMoved⟩, related⟩

theorem bind_token {next next' : Token → Parse β} (read : ∀ tok, Matches place (next tok) (next' tok)) :
    Matches place (Parse.token >>= next) (Parse.token >>= next') := by
  intro cursor other value after related outcome
  obtain ⟨_, _, looked, rest⟩ := bind_eq_ok.mp outcome
  obtain ⟨rfl, rfl⟩ := token_eq_ok.mp looked
  obtain ⟨last, moved, matched⟩ := read _ _ other value after related rest
  exact ⟨last, bind_eq_ok.mpr ⟨_, _, token_eq_ok.mpr ⟨related.token_eq.symm, rfl⟩, moved⟩, matched⟩

/-- Items that end before the end of the text are read as long as there are any. -/
theorem manyWhile {more more' : Parse Bool} {item item' : Parse α}
    (readMore : Matches place more more') (closes : Closes place item item') :
    Matches place (Parse.manyWhile more item) (Parse.manyWhile more' item') := by
  have repeats (limit : Nat) : Matches place (Parse.repeatWhile more item limit)
      (Parse.repeatWhile more' item' limit) := by
    induction limit with
    | zero => exact fun _ _ _ _ _ outcome => absurd outcome fail_ne_ok
    | succ limit ih =>
        refine .bind readMore fun found => ?_
        show Matches place (if found then _ else _) (if found then _ else _)
        split
        · exact .bind closes.toMatches fun first => .bind ih fun rest => .pure rfl
        · exact .pure rfl
  intro cursor other value after related outcome
  obtain ⟨limit, middle, limitRead, rest⟩ := bind_eq_ok.mp outcome
  obtain ⟨rfl, rfl⟩ := itemLimit_eq_ok.mp limitRead
  obtain ⟨last, moved, matched⟩ := repeats _ _ _ _ _ related rest
  have lengthEq : other.ahead.length = middle.ahead.length := by
    rw [related.same]
    simp [Cursor.relocated]
  exact ⟨last, bind_eq_ok.mpr ⟨_, _, itemLimit_eq_ok.mpr ⟨rfl, rfl⟩, lengthEq ▸ moved⟩, matched⟩

end Matches

theorem Closes.map {first second : Parse α} {change change' : α → β}
    (closes : Closes place first second)
    (same : ∀ value, change' (relocate place value) = relocate place (change value)) :
    Closes place (change <$> first) (change' <$> second) := by
  rw [← bind_pure_comp, ← bind_pure_comp]
  exact .append closes fun value => .pure (same value)

end Parse

/-- Productions that read at the other place what they read here. -/
structure Rules.Relocate (place : Pos → Pos) (rules : Rules) : Prop where
  binary : ∀ least, (rules.binary least).Relocates place (rules.binary least)
  unary : rules.unary.Relocates place rules.unary
  element : rules.element.Relocates place rules.element
  type : rules.type.Relocates place rules.type
  block : rules.block.Relocates place rules.block
  stmt : rules.stmt.Relocates place rules.stmt
  ifStmt : rules.ifStmt.Relocates place rules.ifStmt

namespace Parse

variable {rules : Rules}

theorem ident_eq_ok {cursor after : Cursor} {result : Ident} :
    ident cursor = .ok (result, after) ↔ cursor.current.token = .ident ∧
      result = ⟨cursor.current.span, cursor.current.text⟩ ∧ after = cursor.next := by
  simp only [ident, bind_eq_ok, get_eq_ok, ite_eq_ok, advance_eq_ok, pure_eq_ok, expected_ne_ok]
  grind

theorem ident_relocates : Relocates place ident ident where
  staysAtEnd cursor value after outcome atEnd := by
    obtain ⟨isIdent, -⟩ := ident_eq_ok.mp outcome
    cases atEnd.symm.trans isIdent
  moves cursor value after kept outcome notEnd := by
    obtain ⟨isIdent, rfl, rfl⟩ := ident_eq_ok.mp outcome
    obtain ⟨nextKept, nextEq⟩ := kept.next notEnd
    have stop := (kept.current_of_next notEnd).stop
    refine ⟨nextKept, ident_eq_ok.mpr ⟨isIdent, ?_, nextEq.symm⟩⟩
    simp only [relocate, Ident.relocated, Span.relocated, Lexeme.span, stop]
    rfl

theorem literal_relocates : Relocates place literal literal where
  staysAtEnd cursor value after outcome atEnd := by
    obtain ⟨rfl, rfl⟩ := Prod.mk.inj (Except.ok.inj outcome)
    exact Cursor.atEnd_next atEnd
  moves cursor value after kept outcome notEnd := by
    obtain ⟨rfl, rfl⟩ := Prod.mk.inj (Except.ok.inj outcome)
    obtain ⟨nextKept, nextEq⟩ := kept.next notEnd
    have stop := (kept.current_of_next notEnd).stop
    refine ⟨nextKept, congrArg Except.ok (congrArg₂ Prod.mk ?_ nextEq)⟩
    simp [relocate, BasicLit.relocated, Span.relocated, Lexeme.span, stop, Cursor.relocated,
      Lexeme.relocated]

theorem identList_relocates : Relocates place identList identList :=
  .bind (.commaSeparated ident_relocates) fun _ => .pure rfl

theorem exprList_relocates (moves : rules.Relocate place) :
    Relocates place (exprList rules) (exprList rules) :=
  .commaSeparated (moves.binary 1)

end Parse

end GoMend
