import GoMend.Grammar.SourceFile
import GoMend.Proofs.Grammar.Outcome
import GoMend.Proofs.Tree.Statements

/-!
# How productions behave

A production that succeeds has read lexemes from the cursor on, has left the end of the file where it
is and has returned to the nesting at which it began.  A production that fails does so at a position
that is known from the lexemes, and never for want of unrolling if few enough lexemes are left.  Every
way of building productions keeps this behaviour, together with what is known of the values.
-/

namespace GoMend

/-! ### Lexemes that are read -/

namespace Cursor

/-- The lexemes from the cursor on. -/
def lexemes (cursor : Cursor) : List Lexeme :=
  cursor.current :: cursor.ahead

/-- The end of the file is the last lexeme. -/
def IsClosed (cursor : Cursor) : Prop :=
  (cursor.lexemes.getLast (List.cons_ne_nil _ _)).token = .endOfFile

/-- A cursor on closed lexemes at valid positions. -/
structure Stands (valid : Pos → Prop) (cursor : Cursor) : Prop where
  closed : cursor.IsClosed
  valid : ∀ lexeme ∈ cursor.lexemes, valid lexeme.pos

/-- The lexemes between two cursors were read: they come before the end of the file, the nesting is
what it was, and the last one ends where the second cursor says. -/
structure Consumed (read : List Lexeme) (cursor after : Cursor) : Prop where
  lexemes_eq : cursor.lexemes = read ++ after.lexemes
  notEnd : ∀ lexeme ∈ read, lexeme.token ≠ .endOfFile
  level_eq : after.level = cursor.level
  prevStop_eq : after.prevStop = (read.getLast?.map Lexeme.stop).getD cursor.prevStop

variable {valid : Pos → Prop} {cursor middle after : Cursor} {read : List Lexeme}

theorem Stands.current (stands : cursor.Stands valid) : valid cursor.current.pos :=
  stands.valid _ List.mem_cons_self

theorem Stands.withLevel (stands : cursor.Stands valid) (level : Int) :
    Stands valid { cursor with level } :=
  ⟨stands.closed, stands.valid⟩

namespace Consumed

theorem nil : Consumed [] cursor cursor :=
  ⟨rfl, by simp, rfl, rfl⟩

theorem append {other : List Lexeme} (first : Consumed read cursor middle)
    (second : Consumed other middle after) : Consumed (read ++ other) cursor after where
  lexemes_eq := by rw [first.lexemes_eq, second.lexemes_eq, List.append_assoc]
  notEnd := List.forall_mem_append.mpr ⟨first.notEnd, second.notEnd⟩
  level_eq := second.level_eq.trans first.level_eq
  prevStop_eq := by
    rw [second.prevStop_eq, first.prevStop_eq, List.getLast?_append]
    cases other.getLast? <;> rfl

/-- The cursor moves on over one lexeme, which is not the last one. -/
theorem next (closed : cursor.IsClosed) (notEnd : cursor.current.token ≠ .endOfFile) :
    Consumed [cursor.current] cursor cursor.next := by
  obtain ⟨current, ahead, prevStop, level⟩ := cursor
  cases ahead with
  | nil => exact absurd closed notEnd
  | cons lexeme rest =>
      simp only at notEnd
      simp only [Cursor.next, if_neg notEnd]
      exact ⟨rfl, by simpa using notEnd, rfl, rfl⟩

theorem stands (consumed : Consumed read cursor after) (stands : cursor.Stands valid) :
    after.Stands valid := by
  have lexemesEq := consumed.lexemes_eq
  constructor
  · have closed := stands.closed
    simp only [IsClosed, lexemesEq] at closed
    rwa [List.getLast_append_of_ne_nil] at closed
  · intro lexeme mem
    exact stands.valid lexeme (lexemesEq ▸ List.mem_append_right read mem)

theorem length_ahead (consumed : Consumed read cursor after) :
    cursor.ahead.length = read.length + after.ahead.length := by
  have lengths := congrArg List.length consumed.lexemes_eq
  simp only [lexemes, List.length_append, List.length_cons] at lengths
  omega

/-- Reading at another nesting, which is undone in the end. -/
theorem withLevel {level : Int} (consumed : Consumed read { cursor with level } after) :
    Consumed read cursor { after with level := cursor.level } :=
  ⟨consumed.lexemes_eq, consumed.notEnd, rfl, consumed.prevStop_eq⟩

end Consumed

theorem Stands.next (stands : cursor.Stands valid) : cursor.next.Stands valid := by
  by_cases atEnd : cursor.current.token = .endOfFile
  · simpa [Cursor.next, atEnd] using stands
  · exact (Consumed.next stands.closed atEnd).stands stands

end Cursor

open Cursor

/-! ### Behaviour -/

/-- A fault lies at a valid position, and is not that productions were unrolled too few times. -/
structure Fault.IsFair (valid : Pos → Prop) (fault : Fault) : Prop where
  cause_ne : fault.cause ≠ .nestedTooDeeply
  valid : valid fault.pos

/-- What a production does from the tokens it is made for: it reads at least so many lexemes and gives
a fitting value, or fails fairly if there are fewer lexemes ahead than the limit says. -/
structure Parse.Behaves {α : Type} (valid : Pos → Prop) (Here : Token → Prop) (count limit : Nat)
    (Fits : α → Prop) (production : Parse α) : Prop where
  reads : ∀ ⦃cursor value after⦄, cursor.Stands valid → Here cursor.current.token →
    production cursor = .ok (value, after) →
      Fits value ∧ ∃ read, count ≤ read.length ∧ Consumed read cursor after
  fails : ∀ ⦃cursor fault⦄, cursor.Stands valid → Here cursor.current.token →
    cursor.ahead.length < limit → production cursor = .error fault → fault.IsFair valid

/-- Any token. -/
abbrev Token.Any (_ : Token) : Prop :=
  True

open Token (Any)

namespace Parse

theorem bind_eq_error {α β : Type} {first : Parse α} {next : α → Parse β} {cursor : Cursor}
    {fault : Fault} :
    (first >>= next) cursor = .error fault ↔ first cursor = .error fault ∨
      ∃ value middle, first cursor = .ok (value, middle) ∧ next value middle = .error fault := by
  show (first cursor >>= fun pair => next pair.1 pair.2) = _ ↔ _
  cases outcome : first cursor with
  | error fault => simp [bind, Except.bind]
  | ok pair =>
      obtain ⟨value, middle⟩ := pair
      simp only [bind, Except.bind, reduceCtorEq, Except.ok.injEq, Prod.mk.injEq, false_or]
      constructor
      · intro failed
        exact ⟨value, middle, ⟨rfl, rfl⟩, failed⟩
      · rintro ⟨_, _, ⟨rfl, rfl⟩, failed⟩
        exact failed

namespace Behaves

variable {α β : Type} {valid : Pos → Prop} {Here There : Token → Prop} {count more limit rest : Nat}
  {Fits : α → Prop} {FitsNext : β → Prop}

theorem mono {production : Parse α} {Fits' : α → Prop} {count' limit' : Nat}
    (behaves : Behaves valid Here count limit Fits production)
    (count_le : count' ≤ count) (limit_le : limit' ≤ limit)
    (here : ∀ tok, There tok → Here tok) (fits : ∀ value, Fits value → Fits' value) :
    Behaves valid There count' limit' Fits' production where
  reads cursor value after stands isThere outcome := by
    obtain ⟨isFit, read, count_le', consumed⟩ := behaves.reads stands (here _ isThere) outcome
    exact ⟨fits value isFit, read, count_le.trans count_le', consumed⟩
  fails cursor fault stands isThere few outcome :=
    behaves.fails stands (here _ isThere) (few.trans_le limit_le) outcome

/-- Fewer lexemes may be counted on, and fewer may stand ahead. -/
theorem narrow {production : Parse α} {count' limit' : Nat}
    (behaves : Behaves valid Here count limit Fits production) (count_le : count' ≤ count)
    (limit_le : limit' ≤ limit) : Behaves valid Here count' limit' Fits production :=
  behaves.mono count_le limit_le (fun _ here => here) fun _ fits => fits

/-- The number of lexemes need not be known. -/
theorem relax {production : Parse α} (behaves : Behaves valid Here count limit Fits production) :
    Behaves valid Here 0 limit Fits production :=
  behaves.narrow (Nat.zero_le count) (Nat.le_refl limit)

/-- Where any token may stand, a known one may. -/
theorem here {production : Parse α} (behaves : Behaves valid Any count limit Fits production) :
    Behaves valid Here count limit Fits production :=
  behaves.mono (Nat.le_refl count) (Nat.le_refl limit) (fun _ _ => trivial) fun _ fits => fits

/-- A production in its place after another one. -/
theorem later {production : Parse α}
    (behaves : Behaves valid Here count (limit + 1) Fits production) :
    Behaves valid Here 0 limit Fits production :=
  behaves.narrow (Nat.zero_le count) (Nat.le_succ limit)

/-- More is known of a value than how a production behaves tells. -/
theorem strengthen {production : Parse α} {Fits' : α → Prop}
    (behaves : Behaves valid Here count limit Fits production)
    (fits : ∀ ⦃cursor value after⦄, cursor.Stands valid →
      production cursor = .ok (value, after) → Fits' value) :
    Behaves valid Here count limit Fits' production where
  reads _ _ _ stands here outcome :=
    ⟨fits stands outcome, (behaves.reads stands here outcome).2⟩
  fails := behaves.fails

theorem pure {value : α} (fits : Fits value) :
    Behaves valid Here 0 limit Fits (Pure.pure value) where
  reads cursor _ after _ _ outcome := by
    obtain ⟨rfl, rfl⟩ := pure_eq_ok.mp outcome
    exact ⟨fits, [], Nat.le_refl 0, .nil⟩
  fails _ _ _ _ _ outcome := by cases outcome

/-- One production after another one, at least one of which takes a lexeme if that is called for. -/
theorem bind_of_le {first : Parse α} {next : α → Parse β} {total : Nat}
    (behaves : Behaves valid Here count limit Fits first)
    (behavesNext : ∀ value, Fits value → Behaves valid Any more rest FitsNext (next value))
    (total_le : total ≤ count + more) (limit_le : limit ≤ rest + count) :
    Behaves valid Here total limit FitsNext (first >>= next) where
  reads cursor value after stands here outcome := by
    obtain ⟨firstValue, middle, firstOutcome, nextOutcome⟩ := bind_eq_ok.mp outcome
    obtain ⟨isFit, read, count_le, consumed⟩ := behaves.reads stands here firstOutcome
    obtain ⟨fits, other, more_le, consumedNext⟩ :=
      (behavesNext firstValue isFit).reads (consumed.stands stands) trivial nextOutcome
    refine ⟨fits, read ++ other, ?_, consumed.append consumedNext⟩
    rw [List.length_append]
    omega
  fails cursor fault stands here few outcome := by
    rcases bind_eq_error.mp outcome with failed | ⟨firstValue, middle, firstOutcome, failed⟩
    · exact behaves.fails stands here few failed
    · obtain ⟨isFit, read, count_le, consumed⟩ := behaves.reads stands here firstOutcome
      have lengthEq := consumed.length_ahead
      exact (behavesNext firstValue isFit).fails (consumed.stands stands) trivial (by omega) failed

/-- What follows a production may fail with as many lexemes ahead. -/
theorem bind {first : Parse α} {next : α → Parse β}
    (behaves : Behaves valid Here count limit Fits first)
    (behavesNext : ∀ value, Fits value → Behaves valid Any more limit FitsNext (next value)) :
    Behaves valid Here more limit FitsNext (first >>= next) :=
  bind_of_le behaves behavesNext (Nat.le_add_left _ _) (Nat.le_add_right _ _)

/-- What follows a production that takes a lexeme has fewer lexemes ahead. -/
theorem bind_step {first : Parse α} {next : α → Parse β} (limit_le : limit ≤ rest + 1)
    (behaves : Behaves valid Here 1 limit Fits first)
    (behavesNext : ∀ value, Fits value → Behaves valid Any 0 rest FitsNext (next value)) :
    Behaves valid Here 1 limit FitsNext (first >>= next) :=
  bind_of_le behaves behavesNext (Nat.le_add_right _ _) limit_le

theorem map {production : Parse α} {change : α → β}
    (behaves : Behaves valid Here count limit Fits production)
    (fits : ∀ value, Fits value → FitsNext (change value)) :
    Behaves valid Here count limit FitsNext (change <$> production) := by
  rw [← bind_pure_comp]
  exact bind_of_le behaves (fun value isFit => .pure (fits value isFit)) (Nat.le_refl _)
    (Nat.le_add_right _ _)

/-- A production that may be left out, where it is not. -/
theorem option {production : Parse α} (behaves : Behaves valid Here count limit Fits production) :
    Behaves valid Here count limit (fun found => ∀ value ∈ found, Fits value)
      (Option.some <$> production) :=
  behaves.map fun value isFit => by simpa using isFit

theorem ite {condition : Prop} [Decidable condition] {first second : Parse α}
    (yes : condition → Behaves valid Here count limit Fits first)
    (no : ¬condition → Behaves valid Here count limit Fits second) :
    Behaves valid Here count limit Fits (if condition then first else second) := by
  split
  · exact yes ‹_›
  · exact no ‹_›

/-- No lexeme is read at the end of the file. -/
theorem not_reads {production : Parse α} {cursor after : Cursor}
    {value : α} (behaves : Behaves valid Any 1 limit Fits production) (stands : cursor.Stands valid)
    (atEnd : cursor.current.token = .endOfFile) : production cursor ≠ .ok (value, after) := by
  intro outcome
  obtain ⟨_, read, count_le, consumed⟩ := behaves.reads stands trivial outcome
  cases read with
  | nil => simp at count_le
  | cons lexeme read =>
      obtain ⟨rfl, -⟩ := List.cons.inj consumed.lexemes_eq
      exact consumed.notEnd _ List.mem_cons_self atEnd

/-! #### Steps -/

theorem failAt {pos : Pos} {cause : FaultCause} (isValid : valid pos)
    (cause_ne : cause ≠ .nestedTooDeeply) :
    Behaves valid Here count limit Fits (Parse.failAt pos cause) where
  reads _ _ _ _ _ outcome := absurd outcome failAt_ne_ok
  fails _ _ _ _ _ outcome := by
    cases outcome
    exact ⟨cause_ne, isValid⟩

theorem fail {cause : FaultCause} (cause_ne : cause ≠ .nestedTooDeeply) :
    Behaves valid Here count limit Fits (Parse.fail cause) where
  reads _ _ _ _ _ outcome := absurd outcome fail_ne_ok
  fails _ _ stands _ _ outcome := by
    cases outcome
    exact ⟨cause_ne, stands.current⟩

/-- Nothing follows a fault. -/
theorem failBind {cause : FaultCause} {next : α → Parse β}
    (cause_ne : cause ≠ .nestedTooDeeply) :
    Behaves valid Here count limit FitsNext (Parse.fail cause >>= next) where
  reads _ _ _ _ _ outcome := by
    obtain ⟨_, _, failed, -⟩ := bind_eq_ok.mp outcome
    exact absurd failed fail_ne_ok
  fails _ _ stands _ _ outcome := by
    cases outcome
    exact ⟨cause_ne, stands.current⟩

theorem expected {what : String} : Behaves valid Here count limit Fits (Parse.expected what) where
  reads _ _ _ _ _ outcome := absurd outcome expected_ne_ok
  fails _ _ stands _ _ outcome := by
    cases outcome
    exact ⟨by simp, stands.current⟩

/-- What follows a look at the cursor. -/
theorem bind_look {view : Cursor → α} {next : α → Parse β}
    (behaves : ∀ value, Behaves valid Here count limit FitsNext (next value)) :
    Behaves valid Here count limit FitsNext ((do return view (← get)) >>= next) where
  reads _ _ _ stands here outcome := (behaves _).reads stands here outcome
  fails _ _ stands here few outcome := (behaves _).fails stands here few outcome

theorem bind_prevStop {next : Pos → Parse β}
    (behaves : ∀ stop, Behaves valid Here count limit FitsNext (next stop)) :
    Behaves valid Here count limit FitsNext (Parse.prevStop >>= next) :=
  bind_look behaves

/-- What follows a look at the position, which is valid. -/
theorem bind_pos {next : Pos → Parse β}
    (behaves : ∀ start, valid start → Behaves valid Here count limit FitsNext (next start)) :
    Behaves valid Here count limit FitsNext (Parse.pos >>= next) where
  reads _ _ _ stands here outcome :=
    (behaves _ stands.current).reads stands here outcome
  fails _ _ stands here few outcome :=
    (behaves _ stands.current).fails stands here few outcome

/-- What follows a look at the token, which is known from then on. -/
theorem bind_token {next : Token → Parse β}
    (behaves : ∀ tok, Here tok → Behaves valid (· = tok) count limit FitsNext (next tok)) :
    Behaves valid Here count limit FitsNext (Parse.token >>= next) where
  reads _ _ _ stands here outcome := (behaves _ here).reads stands rfl outcome
  fails _ _ stands here few outcome := (behaves _ here).fails stands rfl few outcome

/-- What follows a look at the cursor, the token of which is known from then on. -/
theorem bind_get {next : Cursor → Parse β}
    (behaves : ∀ cursor : Cursor, cursor.Stands valid → Here cursor.current.token →
      Behaves valid (· = cursor.current.token) count limit FitsNext (next cursor)) :
    Behaves valid Here count limit FitsNext (get >>= next) where
  reads cursor _ _ stands here outcome :=
    (behaves cursor stands here).reads stands rfl outcome
  fails cursor _ stands here few outcome :=
    (behaves cursor stands here).fails stands rfl few outcome

theorem advance (notEnd : ∀ tok, Here tok → tok ≠ .endOfFile) :
    Behaves valid Here 1 limit (fun _ => True) Parse.advance where
  reads cursor value after stands here outcome := by
    obtain rfl := advance_eq_ok.mp outcome
    exact ⟨trivial, [cursor.current], Nat.le_refl 1, .next stands.closed (notEnd _ here)⟩
  fails _ _ _ _ _ outcome := by cases outcome

/-- What follows the lexeme of a known token. -/
theorem bind_advance {tok : Token} {next : Unit → Parse β} (notEnd : tok ≠ .endOfFile)
    (limit_le : limit ≤ rest + 1) (behaves : Behaves valid Any 0 rest FitsNext (next ())) :
    Behaves valid (· = tok) 1 limit FitsNext (Parse.advance >>= next) :=
  bind_step limit_le (advance fun _ isTok => isTok ▸ notEnd) fun _ _ => behaves

theorem expect {tok : Token} (notEnd : tok ≠ .endOfFile) :
    Behaves valid Here 1 limit valid (Parse.expect tok) := by
  refine bind_token fun found _ => ite (fun isTok => bind_pos fun start isValid => ?_)
    fun _ => expected
  exact bind_step (Nat.le_succ limit) (advance fun _ same => (same.trans isTok) ▸ notEnd)
    fun _ _ => .pure isValid

/-- What follows a token that has to be there. -/
theorem bind_expect {tok : Token} {next : Pos → Parse β} (notEnd : tok ≠ .endOfFile)
    (limit_le : limit ≤ rest + 1)
    (behaves : ∀ start, valid start → Behaves valid Any 0 rest FitsNext (next start)) :
    Behaves valid Here 1 limit FitsNext (Parse.expect tok >>= next) :=
  bind_step limit_le (expect notEnd) behaves

theorem accept {tok : Token} (notEnd : tok ≠ .endOfFile) :
    Behaves valid Here 0 limit (fun _ => True) (Parse.accept tok) := by
  refine bind_token fun found _ => ite (fun isTok => ?_) fun _ => .pure trivial
  exact .relax (bind_step (Nat.le_succ limit) (advance fun _ same => (same.trans isTok) ▸ notEnd)
    fun _ _ => .pure trivial)

/-- What follows a token that may be there. -/
theorem bind_accept {tok : Token} {next : Bool → Parse β} (notEnd : tok ≠ .endOfFile)
    (behaves : ∀ found, Behaves valid Any more limit FitsNext (next found)) :
    Behaves valid Here more limit FitsNext (Parse.accept tok >>= next) :=
  bind (accept notEnd) fun found _ => behaves found

theorem expectEnd : Behaves valid Here 0 limit (fun _ => True) Parse.expectEnd := by
  refine bind_token fun found _ => ?_
  split
  · exact .pure trivial
  · exact .pure trivial
  · exact .relax (advance fun _ isTok => by subst isTok; decide)
  · exact expected

/-- What follows the end of a statement. -/
theorem bind_expectEnd {next : Unit → Parse β}
    (behaves : Behaves valid Any more limit FitsNext (next ())) :
    Behaves valid Here more limit FitsNext (Parse.expectEnd >>= next) :=
  bind expectEnd fun _ _ => behaves

/-- What is read inside brackets comes back to its level, so the level before them is restored. -/
theorem bracketed {production : Parse α} (behaves : Behaves valid Here count limit Fits production) :
    Behaves valid Here count limit Fits (Parse.bracketed production) where
  reads cursor value after stands here outcome := by
    obtain ⟨middle, inner, rfl⟩ := bracketed_eq_ok.mp outcome
    obtain ⟨isFit, read, count_le, consumed⟩ := behaves.reads
      (stands.withLevel (cursor.level + 1)) here inner
    have restored : middle.level - 1 = cursor.level := by
      rw [consumed.level_eq]
      exact Int.add_sub_cancel _ _
    exact ⟨isFit, read, count_le, restored ▸ consumed.withLevel⟩
  fails cursor fault stands here few outcome := by
    simp only [Parse.bracketed, bind_eq_error] at outcome
    rcases outcome with isFault | ⟨_, _, changed, failed | ⟨_, _, _, isFault | ⟨_, _, _, isFault⟩⟩⟩
    · cases isFault
    · obtain rfl := modify_eq_ok.mp changed
      exact behaves.fails (stands.withLevel (cursor.level + 1)) here few failed
    · cases isFault
    · cases isFault

theorem atLevel {level : Int} {production : Parse α}
    (behaves : Behaves valid Here count limit Fits production) :
    Behaves valid Here count limit Fits (Parse.atLevel level production) where
  reads cursor value after stands here outcome := by
    obtain ⟨middle, inner, rfl⟩ := atLevel_eq_ok.mp outcome
    obtain ⟨isFit, read, count_le, consumed⟩ := behaves.reads (stands.withLevel level) here inner
    exact ⟨isFit, read, count_le, consumed.withLevel⟩
  fails cursor fault stands here few outcome := by
    simp only [Parse.atLevel, bind_eq_error] at outcome
    rcases outcome with isFault | ⟨_, _, got, isFault | ⟨_, _, changed, outcome⟩⟩
    · cases isFault
    · cases isFault
    · obtain ⟨rfl, rfl⟩ := get_eq_ok.mp got
      obtain rfl := modify_eq_ok.mp changed
      rcases outcome with failed | ⟨_, _, _, isFault | ⟨_, _, _, isFault⟩⟩
      · exact behaves.fails (stands.withLevel level) here few failed
      · cases isFault
      · cases isFault

/-! #### Loops -/

/-- A loop ends before its limit is reached, since every item takes a lexeme. -/
theorem repeatWhile {more : Parse Bool} {item : Parse α}
    (moreBehaves : Behaves valid Any 0 limit (fun _ => True) more)
    (itemBehaves : Behaves valid Any 1 limit Fits item) (rounds : Nat) :
    Behaves valid Here 0 (min rounds limit) (fun items => ∀ value ∈ items, Fits value)
      (Parse.repeatWhile more item rounds) := by
  induction rounds generalizing Here with
  | zero =>
      rw [Nat.zero_min]
      exact ⟨fun _ _ _ _ _ outcome => absurd outcome fail_ne_ok,
        fun _ _ _ _ few => absurd few (Nat.not_lt_zero _)⟩
  | succ rounds ih =>
      refine bind (moreBehaves.here.narrow (Nat.le_refl 0) (Nat.min_le_right _ _)) fun goesOn _ =>
        ite (fun _ => ?_) fun _ => .pure (by simp)
      refine .relax (bind_step (by omega)
        (itemBehaves.here.narrow (Nat.le_refl 1) (Nat.min_le_right _ _))
        fun first fitsFirst => bind ih fun others fitsOthers => .pure ?_)
      exact List.forall_mem_cons.mpr ⟨fitsFirst, fitsOthers⟩

/-- The limit of a loop is large enough for the lexemes that are left. -/
theorem with_itemLimit {loop : Nat → Parse α}
    (behaves : ∀ rounds, Behaves valid Here count (min rounds limit) Fits (loop rounds)) :
    Behaves valid Here count limit Fits (Parse.itemLimit >>= loop) where
  reads _ _ _ stands here outcome := (behaves _).reads stands here outcome
  fails _ _ stands here few outcome :=
    (behaves _).fails stands here (Nat.lt_min.mpr ⟨Nat.lt_succ_self _, few⟩) outcome

theorem manyWhile {more : Parse Bool} {item : Parse α}
    (moreBehaves : Behaves valid Any 0 limit (fun _ => True) more)
    (itemBehaves : Behaves valid Any 1 limit Fits item) :
    Behaves valid Here 0 limit (fun items => ∀ value ∈ items, Fits value)
      (Parse.manyWhile more item) :=
  with_itemLimit (repeatWhile moreBehaves itemBehaves)

theorem commaSeparated {item : Parse α} (limit_le : limit ≤ rest + 1)
    (first : Behaves valid Here 1 limit Fits item) (others : Behaves valid Any 1 rest Fits item) :
    Behaves valid Here 1 limit (fun items => Fits items.1 ∧ ∀ value ∈ items.2, Fits value)
      (Parse.commaSeparated item) :=
  bind_step limit_le first fun _ fitsFirst =>
    bind (manyWhile (accept (by decide)) others) fun _ fitsOthers => .pure ⟨fitsFirst, fitsOthers⟩

theorem repeatUntil {closing : Token} {item : Parse α}
    (itemBehaves : Behaves valid Any 1 limit Fits item) (rounds : Nat) :
    Behaves valid Here 0 (min rounds limit) (fun items => ∀ value ∈ items, Fits value)
      (Parse.repeatUntil closing item rounds) := by
  induction rounds generalizing Here with
  | zero =>
      rw [Nat.zero_min]
      exact ⟨fun _ _ _ _ _ outcome => absurd outcome fail_ne_ok,
        fun _ _ _ _ few => absurd few (Nat.not_lt_zero _)⟩
  | succ rounds ih =>
      refine bind_token fun tok _ => ite (fun _ => .pure (by simp)) fun _ => ?_
      refine .relax (bind_step (by omega)
        (itemBehaves.here.narrow (Nat.le_refl 1) (Nat.min_le_right _ _))
        fun first fitsFirst => bind_accept (by decide) fun found =>
          ite (fun _ => bind ih fun others fitsOthers => .pure ?_) fun _ => .pure ?_)
      · exact List.forall_mem_cons.mpr ⟨fitsFirst, fitsOthers⟩
      · simpa using fitsFirst

theorem listUntil {closing : Token} {item : Parse α}
    (itemBehaves : Behaves valid Any 1 limit Fits item) :
    Behaves valid Here 0 limit (fun items => ∀ value ∈ items, Fits value)
      (Parse.listUntil closing item) :=
  with_itemLimit (repeatUntil itemBehaves)

end Behaves

/-! ### Extensions -/

/-- A value is extended until nothing extends it. -/
theorem repeatExtend_ends {α : Type} {extend : α → Parse (Option α)} {rounds : Nat}
    {value result : α} {cursor after : Cursor}
    (outcome : repeatExtend extend rounds value cursor = .ok (result, after)) :
    ∃ last, extend result last = .ok (none, after) := by
  induction rounds generalizing value cursor with
  | zero => exact absurd outcome fail_ne_ok
  | succ rounds ih =>
      obtain ⟨extended, middle, extendOutcome, restOutcome⟩ := bind_eq_ok.mp outcome
      cases extended with
      | none =>
          obtain ⟨rfl, rfl⟩ := pure_eq_ok.mp restOutcome
          exact ⟨cursor, extendOutcome⟩
      | some next => exact ih restOutcome

theorem extendAll_ends {α : Type} {extend : α → Parse (Option α)} {value result : α}
    {cursor after : Cursor} (outcome : extendAll extend value cursor = .ok (result, after)) :
    ∃ last, extend result last = .ok (none, after) := by
  obtain ⟨rounds, middle, -, restOutcome⟩ := bind_eq_ok.mp outcome
  exact repeatExtend_ends restOutcome

/-- What extends a value takes a lexeme, or nothing is there and the cursor stays. -/
structure Extends {α : Type} (valid : Pos → Prop) (Here : Token → Prop) (limit : Nat)
    (Fits : α → Prop) (production : Parse (Option α)) : Prop where
  reads : ∀ ⦃cursor value after⦄, cursor.Stands valid → Here cursor.current.token →
    production cursor = .ok (some value, after) →
      Fits value ∧ ∃ read, 1 ≤ read.length ∧ Consumed read cursor after
  stays : ∀ ⦃cursor after⦄, Here cursor.current.token →
    production cursor = .ok (none, after) → after = cursor
  fails : ∀ ⦃cursor fault⦄, cursor.Stands valid → Here cursor.current.token →
    cursor.ahead.length < limit → production cursor = .error fault → fault.IsFair valid

namespace Extends

variable {α : Type} {valid : Pos → Prop} {Here : Token → Prop} {limit rest : Nat} {Fits : α → Prop}

theorem mono {production : Parse (Option α)} {Fits' : α → Prop}
    (behaves : Extends valid Here limit Fits production)
    (fits : ∀ value, Fits value → Fits' value) : Extends valid Here limit Fits' production where
  reads _ _ _ stands here outcome :=
    (behaves.reads stands here outcome).imp_left (fits _)
  stays := behaves.stays
  fails := behaves.fails

theorem none : Extends valid Here limit Fits (pure Option.none) where
  reads _ _ _ _ _ outcome := by cases outcome
  stays _ _ _ outcome := (pure_eq_ok.mp outcome).2
  fails _ _ _ _ _ outcome := by cases outcome

theorem some {production : Parse α} (behaves : Behaves valid Here 1 limit Fits production) :
    Extends valid Here limit Fits (do return Option.some (← production)) where
  reads _ _ _ stands here outcome := by
    obtain ⟨value, middle, firstOutcome, nextOutcome⟩ := bind_eq_ok.mp outcome
    obtain ⟨valueEq, rfl⟩ := pure_eq_ok.mp nextOutcome
    obtain rfl := Option.some.inj valueEq
    exact behaves.reads stands here firstOutcome
  stays _ _ _ outcome := by
    obtain ⟨value, middle, firstOutcome, nextOutcome⟩ := bind_eq_ok.mp outcome
    cases (pure_eq_ok.mp nextOutcome).1
  fails _ _ stands here few outcome := by
    rcases bind_eq_error.mp outcome with failed | ⟨value, middle, firstOutcome, failed⟩
    · exact behaves.fails stands here few failed
    · cases failed

theorem bind_token {next : Token → Parse (Option α)}
    (behaves : ∀ tok, Here tok → Extends valid (· = tok) limit Fits (next tok)) :
    Extends valid Here limit Fits (Parse.token >>= next) where
  reads _ _ _ stands here outcome := (behaves _ here).reads stands rfl outcome
  stays _ _ here outcome := (behaves _ here).stays rfl outcome
  fails _ _ stands here few outcome := (behaves _ here).fails stands rfl few outcome

/-- What follows a look at the cursor. -/
theorem bind_get {next : Cursor → Parse (Option α)}
    (behaves : ∀ cursor, Extends valid Here limit Fits (next cursor)) :
    Extends valid Here limit Fits (get >>= next) where
  reads cursor _ _ stands here outcome := (behaves cursor).reads stands here outcome
  stays cursor _ here outcome := (behaves cursor).stays here outcome
  fails cursor _ stands here few outcome := (behaves cursor).fails stands here few outcome

theorem ite {condition : Prop} [Decidable condition] {first second : Parse (Option α)}
    (yes : condition → Extends valid Here limit Fits first)
    (no : ¬condition → Extends valid Here limit Fits second) :
    Extends valid Here limit Fits (if condition then first else second) := by
  split
  · exact yes ‹_›
  · exact no ‹_›

end Extends

namespace Behaves

variable {α : Type} {valid : Pos → Prop} {Here : Token → Prop} {limit : Nat} {Fits : α → Prop}

theorem repeatExtend {extend : α → Parse (Option α)}
    (extending : ∀ value, Fits value → Extends valid Any limit Fits (extend value)) (rounds : Nat)
    {value : α} (fits : Fits value) :
    Behaves valid Any 0 (min rounds limit) Fits (Parse.repeatExtend extend rounds value) := by
  induction rounds generalizing value with
  | zero =>
      rw [Nat.zero_min]
      exact ⟨fun _ _ _ _ _ outcome => absurd outcome fail_ne_ok,
        fun _ _ _ _ few => absurd few (Nat.not_lt_zero _)⟩
  | succ rounds ih =>
      have extending := extending value fits
      constructor
      · intro cursor result after stands _ outcome
        obtain ⟨extended, middle, extendOutcome, restOutcome⟩ := bind_eq_ok.mp outcome
        cases extended with
        | none =>
            obtain rfl := extending.stays trivial extendOutcome
            obtain ⟨rfl, rfl⟩ := pure_eq_ok.mp restOutcome
            exact ⟨fits, [], Nat.le_refl 0, .nil⟩
        | some next =>
            obtain ⟨fitsNext, read, _, consumed⟩ := extending.reads stands trivial extendOutcome
            obtain ⟨fitsResult, other, _, consumedOther⟩ :=
              (ih fitsNext).reads (consumed.stands stands) trivial restOutcome
            exact ⟨fitsResult, read ++ other, Nat.zero_le _, consumed.append consumedOther⟩
      · intro cursor fault stands _ few outcome
        rcases bind_eq_error.mp outcome with failed | ⟨extended, middle, extendOutcome, failed⟩
        · exact extending.fails stands trivial (few.trans_le (Nat.min_le_right _ _)) failed
        · cases extended with
          | none => cases failed
          | some next =>
              obtain ⟨fitsNext, read, nonempty, consumed⟩ :=
                extending.reads stands trivial extendOutcome
              have lengthEq := consumed.length_ahead
              exact (ih fitsNext).fails (consumed.stands stands) trivial (by omega) failed

theorem extendAll {extend : α → Parse (Option α)}
    (extending : ∀ value, Fits value → Extends valid Any limit Fits (extend value)) {value : α}
    (fits : Fits value) : Behaves valid Here 0 limit Fits (Parse.extendAll extend value) :=
  .here (with_itemLimit fun rounds => repeatExtend extending rounds fits)

end Behaves

end Parse

end GoMend
