import GoMend.Grammar.Rules

/-!
# Outcomes of productions

What has happened when a production has succeeded.  For each way of building productions there is
one equivalence, which takes a success apart into the successes of its steps.
-/

namespace GoMend

namespace Parse

variable {α β : Type} {cursor after : Cursor}

@[simp]
theorem pure_eq_ok {value result : α} :
    (pure value : Parse α) cursor = .ok (result, after) ↔ result = value ∧ after = cursor := by
  show Except.ok (value, cursor) = .ok (result, after) ↔ _
  simp [eq_comm]

@[simp]
theorem bind_eq_ok {first : Parse α} {next : α → Parse β} {result : β} :
    (first >>= next) cursor = .ok (result, after) ↔
      ∃ value middle, first cursor = .ok (value, middle) ∧
        next value middle = .ok (result, after) := by
  show (first cursor >>= fun pair => next pair.1 pair.2) = _ ↔ _
  cases outcome : first cursor with
  | error fault => simp [bind, Except.bind]
  | ok pair =>
      obtain ⟨value, middle⟩ := pair
      simp only [bind, Except.bind, Except.ok.injEq, Prod.mk.injEq]
      constructor
      · intro rest
        exact ⟨value, middle, ⟨rfl, rfl⟩, rest⟩
      · rintro ⟨_, _, ⟨rfl, rfl⟩, rest⟩
        exact rest

@[simp]
theorem map_eq_ok {change : α → β} {production : Parse α} {result : β} :
    (change <$> production) cursor = .ok (result, after) ↔
      ∃ value, production cursor = .ok (value, after) ∧ result = change value := by
  rw [← bind_pure_comp, bind_eq_ok]
  simp only [pure_eq_ok]
  constructor
  · rintro ⟨value, middle, outcome, rfl, rfl⟩
    exact ⟨value, outcome, rfl⟩
  · rintro ⟨value, outcome, rfl⟩
    exact ⟨value, after, outcome, rfl, rfl⟩

@[simp]
theorem get_eq_ok {result : Cursor} :
    (get : Parse Cursor) cursor = .ok (result, after) ↔ result = cursor ∧ after = cursor := by
  show Except.ok (cursor, cursor) = .ok (result, after) ↔ _
  simp [eq_comm]

@[simp]
theorem modify_eq_ok {change : Cursor → Cursor} {result : PUnit} :
    (modify change : Parse PUnit) cursor = .ok (result, after) ↔ after = change cursor := by
  show Except.ok (PUnit.unit, change cursor) = .ok (result, after) ↔ _
  simp [eq_comm]

@[simp]
theorem token_eq_ok {result : Token} :
    token cursor = .ok (result, after) ↔ result = cursor.current.token ∧ after = cursor := by
  show Except.ok (cursor.current.token, cursor) = .ok (result, after) ↔ _
  simp [eq_comm]

@[simp]
theorem pos_eq_ok {result : Pos} :
    pos cursor = .ok (result, after) ↔ result = cursor.current.pos ∧ after = cursor := by
  show Except.ok (cursor.current.pos, cursor) = .ok (result, after) ↔ _
  simp [eq_comm]

@[simp]
theorem prevStop_eq_ok {result : Pos} :
    prevStop cursor = .ok (result, after) ↔ result = cursor.prevStop ∧ after = cursor := by
  show Except.ok (cursor.prevStop, cursor) = .ok (result, after) ↔ _
  simp [eq_comm]

@[simp]
theorem advance_eq_ok {result : PUnit} :
    advance cursor = .ok (result, after) ↔ after = cursor.next := by
  simp [advance, modify_eq_ok]

@[simp]
theorem failAt_ne_ok {pos : Pos} {cause : FaultCause} {result : α} :
    ¬ failAt pos cause cursor = .ok (result, after) := by
  show ¬ Except.error _ = .ok (result, after)
  simp

@[simp]
theorem fail_ne_ok {cause : FaultCause} {result : α} :
    ¬ fail cause cursor = .ok (result, after) := by
  simp [fail, bind_eq_ok, pos_eq_ok, failAt_ne_ok]

@[simp]
theorem expected_ne_ok {what : String} {result : α} :
    ¬ expected what cursor = .ok (result, after) := by
  simp [expected, bind_eq_ok, get_eq_ok, fail_ne_ok]

@[simp]
theorem ite_eq_ok {condition : Prop} [Decidable condition] {first second : Parse α} {result : α} :
    (if condition then first else second) cursor = .ok (result, after) ↔
      condition ∧ first cursor = .ok (result, after) ∨
        ¬ condition ∧ second cursor = .ok (result, after) := by
  split <;> simp [*]

@[simp]
theorem expect_eq_ok {tok : Token} {result : Pos} :
    expect tok cursor = .ok (result, after) ↔
      cursor.current.token = tok ∧ result = cursor.current.pos ∧ after = cursor.next := by
  simp only [expect, bind_eq_ok, token_eq_ok, pos_eq_ok, advance_eq_ok, ite_eq_ok, pure_eq_ok,
    expected_ne_ok]
  grind

@[simp]
theorem accept_eq_ok {tok : Token} {result : Bool} :
    accept tok cursor = .ok (result, after) ↔
      (cursor.current.token = tok ∧ result = true ∧ after = cursor.next) ∨
        (cursor.current.token ≠ tok ∧ result = false ∧ after = cursor) := by
  simp only [accept, bind_eq_ok, token_eq_ok, advance_eq_ok, ite_eq_ok, pure_eq_ok]
  grind

theorem expectEnd_eq_ok {result : PUnit} (outcome : expectEnd cursor = .ok (result, after)) :
    after = cursor ∨ cursor.current.token = .semicolon ∧ after = cursor.next := by
  simp only [expectEnd, bind_eq_ok, token_eq_ok] at outcome
  obtain ⟨tok, middle, ⟨tokEq, rfl⟩, outcome⟩ := outcome
  split at outcome
  · exact .inl (pure_eq_ok.mp outcome).2
  · exact .inl (pure_eq_ok.mp outcome).2
  · exact .inr ⟨tokEq.symm, advance_eq_ok.mp outcome⟩
  · exact absurd outcome expected_ne_ok

@[simp]
theorem atLevel_eq_ok {level : Int} {production : Parse α} {result : α} :
    atLevel level production cursor = .ok (result, after) ↔
      ∃ middle, production { cursor with level := level } = .ok (result, middle) ∧
        after = { middle with level := cursor.level } := by
  simp only [atLevel, bind_eq_ok, get_eq_ok, modify_eq_ok, pure_eq_ok]
  grind

theorem bracketed_eq_ok {production : Parse α} {result : α} :
    bracketed production cursor = .ok (result, after) ↔
      ∃ middle, production { cursor with level := cursor.level + 1 } = .ok (result, middle) ∧
        after = { middle with level := middle.level - 1 } := by
  simp only [bracketed, bind_eq_ok, modify_eq_ok, pure_eq_ok]
  grind

@[simp]
theorem itemLimit_eq_ok {result : Nat} :
    itemLimit cursor = .ok (result, after) ↔
      result = cursor.ahead.length + 1 ∧ after = cursor := by
  show Except.ok (cursor.ahead.length + 1, cursor) = .ok (result, after) ↔ _
  simp [eq_comm]

end Parse

end GoMend
