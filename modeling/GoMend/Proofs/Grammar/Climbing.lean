import GoMend.Proofs.Grammar.StatementProductions

/-!
# Binary operators by precedence

An expression is read as operands with binary operators between them.  The tree joins stronger operators
first and operators of one precedence from the left, and no other tree does so with the same operands
and operators.
-/

namespace GoMend

open Cursor

namespace Expr

/-! ### Operands and operators of a tree -/

/-- The operands and binary operators of an expression from left to right.  What is no binary operator
is an operand, whatever it contains. -/
def terms : Expr → List (Expr ⊕ Token)
  | .binary _ left op right => left.terms ++ .inr op :: right.terms
  | operand => [.inl operand]

/-- The expression in which every binary operator reaches from its left operand to its right one. -/
def joined : Expr → Expr
  | .binary _ left op right =>
      .binary ⟨left.joined.span.start, right.joined.span.stop⟩ left.joined op right.joined
  | operand => operand

@[simp]
theorem terms_binary (span : Span) (left right : Expr) (op : Token) :
    (binary span left op right).terms = left.terms ++ .inr op :: right.terms := rfl

@[simp]
theorem joined_binary (span : Span) (left right : Expr) (op : Token) :
    (binary span left op right).joined =
      .binary ⟨left.joined.span.start, right.joined.span.stop⟩ left.joined op right.joined := rfl

/-- An expression is no binary operator. -/
def IsAlone (value : Expr) : Prop :=
  ∀ span left op right, value ≠ .binary span left op right

theorem isAlone_of_binds {value : Expr} (binds : ∀ least, value.Binds least) : value.IsAlone := by
  rintro span left op right rfl
  exact Nat.not_succ_le_self op.precedence (binds (op.precedence + 1))

theorem IsAlone.terms_eq {value : Expr} (alone : value.IsAlone) : value.terms = [.inl value] := by
  cases value with
  | binary span left op right => exact absurd rfl (alone span left op right)
  | _ => rfl

theorem IsAlone.joined_eq {value : Expr} (alone : value.IsAlone) : value.joined = value := by
  cases value with
  | binary span left op right => exact absurd rfl (alone span left op right)
  | _ => rfl

theorem terms_length_pos (value : Expr) : 0 < value.terms.length := by
  cases value with
  | binary => simp only [terms_binary, List.length_append, List.length_cons]; omega
  | _ => exact Nat.one_pos

/-- The operands of a graded operator are graded and bind as it calls for. -/
theorem graded_binary {span : Span} {left right : Expr} {op : Token}
    (graded : (Node.expr (.binary span left op right)).IsGraded) :
    ((Node.expr left).IsGraded ∧ left.Binds op.precedence) ∧
      (Node.expr right).IsGraded ∧ right.Binds (op.precedence + 1) := by
  have joinsWell : (Node.expr (.binary span left op right)).JoinsWell := (Node.isGraded_iff.mp graded).1
  exact ⟨⟨graded.child (by simp [Node.children, Node.exprChildren]), joinsWell.1⟩,
    graded.child (by simp [Node.children, Node.exprChildren]), joinsWell.2⟩

/-- All binary operators of an expression are as strong as its place calls for. -/
theorem le_precedence_of_mem_terms {least : Nat} {op : Token} {value : Expr}
    (graded : (Node.expr value).IsGraded) (binds : value.Binds least) (isOp : .inr op ∈ value.terms) :
    least ≤ op.precedence := by
  induction value using terms.induct generalizing least with
  | case1 span left middle right ihLeft ihRight =>
      obtain ⟨⟨leftGraded, leftBinds⟩, rightGraded, rightBinds⟩ := graded_binary graded
      have least_le : least ≤ middle.precedence := binds
      rw [terms_binary, List.mem_append, List.mem_cons] at isOp
      rcases isOp with isLeft | same | isRight
      · exact least_le.trans (ihLeft leftGraded leftBinds isLeft)
      · obtain rfl := Sum.inr.inj same
        exact least_le
      · exact (least_le.trans (Nat.le_succ _)).trans (ihRight rightGraded rightBinds isRight)
  | case2 value alone =>
      rw [IsAlone.terms_eq alone] at isOp
      simp at isOp

/-- Two operators of graded trees with the same terms stand at the same place: otherwise each of them
would be among the operands of the other one. -/
theorem terms_length_le {span span' : Span} {left left' right right' : Expr} {op op' : Token}
    (graded : (Node.expr (.binary span left op right)).IsGraded)
    (graded' : (Node.expr (.binary span' left' op' right')).IsGraded)
    (same : left.terms ++ .inr op :: right.terms = left'.terms ++ .inr op' :: right'.terms) :
    left'.terms.length ≤ left.terms.length := by
  by_contra longer
  obtain ⟨-, rightGraded, rightBinds⟩ := graded_binary graded
  obtain ⟨⟨leftGraded, leftBinds⟩, -⟩ := graded_binary graded'
  obtain ⟨gap, rightEq, leftEq⟩ : ∃ gap, .inr op :: right.terms = gap ++ .inr op' :: right'.terms ∧
      left'.terms = left.terms ++ gap := by
    rcases List.append_eq_append_iff.mp same with ⟨gap, leftEq, rightEq⟩ | ⟨gap, leftEq, -⟩
    · exact ⟨gap, rightEq, leftEq⟩
    · have lengths := congrArg List.length leftEq
      rw [List.length_append] at lengths
      omega
  cases gap with
  | nil =>
      rw [List.append_nil] at leftEq
      rw [leftEq] at longer
      exact longer (Nat.le_refl _)
  | cons term gap =>
      obtain ⟨rfl, restEq⟩ := List.cons.inj rightEq
      have stronger : op'.precedence ≤ op.precedence :=
        le_precedence_of_mem_terms leftGraded leftBinds (by simp [leftEq])
      have weaker : op.precedence + 1 ≤ op'.precedence :=
        le_precedence_of_mem_terms rightGraded rightBinds
          (restEq ▸ List.mem_append_right gap List.mem_cons_self)
      omega

/-- There is one graded tree for given operands and operators. -/
theorem joined_eq_of_terms_eq {value other : Expr} (graded : (Node.expr value).IsGraded)
    (otherGraded : (Node.expr other).IsGraded) (same : other.terms = value.terms) :
    other.joined = value.joined := by
  induction value using terms.induct generalizing other with
  | case1 span left op right ihLeft ihRight =>
      cases other using terms.fun_cases with
      | case1 span' left' op' right' =>
          simp only [terms_binary] at same
          have lengthEq : left'.terms.length = left.terms.length :=
            Nat.le_antisymm (terms_length_le graded otherGraded same.symm)
              (terms_length_le otherGraded graded same)
          obtain ⟨leftEq, rest⟩ := List.append_inj same lengthEq
          obtain ⟨opEq, rightEq⟩ := List.cons.inj rest
          obtain rfl := Sum.inr.inj opEq
          obtain ⟨⟨leftGraded, -⟩, rightGraded, -⟩ := graded_binary graded
          obtain ⟨⟨leftGraded', -⟩, rightGraded', -⟩ := graded_binary otherGraded
          rw [joined_binary, joined_binary, ihLeft leftGraded leftGraded' leftEq,
            ihRight rightGraded rightGraded' rightEq]
      | case2 _ alone =>
          have lengths := congrArg List.length same
          have positive := left.terms_length_pos
          simp only [IsAlone.terms_eq alone, terms_binary, List.length_append, List.length_cons,
            List.length_nil] at lengths
          omega
  | case2 value alone =>
      rw [IsAlone.terms_eq alone] at same
      cases other using terms.fun_cases with
      | case1 span' left' op' right' =>
          have lengths := congrArg List.length same
          have positive := left'.terms_length_pos
          simp only [terms_binary, List.length_append, List.length_cons, List.length_nil] at lengths
          omega
      | case2 _ otherAlone =>
          rw [IsAlone.terms_eq otherAlone] at same
          rw [Sum.inl.inj (List.singleton_inj.mp same)]

end Expr

/-! ### Operands and operators that are read -/

/-- Operands and operators are read one after another: an operator takes one lexeme, and an operand
takes the lexemes of an expression without binary operators outside of brackets. -/
inductive TermsRead : Cursor → List (Expr ⊕ Token) → List Lexeme → Cursor → Prop where
  | nil (cursor : Cursor) : TermsRead cursor [] [] cursor
  | operand {cursor middle after : Cursor} {value : Expr} {terms : List (Expr ⊕ Token)}
      {read others : List Lexeme} (depth : Nat)
      (outcome : Parse.unaryExpr (Rules.ofDepth depth) cursor = .ok (value, middle))
      (consumed : Consumed read cursor middle) (rest : TermsRead middle terms others after) :
      TermsRead cursor (.inl value :: terms) (read ++ others) after
  | operator {cursor after : Cursor} {terms : List (Expr ⊕ Token)} {others : List Lexeme}
      (rest : TermsRead cursor.next terms others after) :
      TermsRead cursor (.inr cursor.current.token :: terms) (cursor.current :: others) after

theorem TermsRead.append {cursor middle after : Cursor} {terms more : List (Expr ⊕ Token)}
    {read others : List Lexeme} (first : TermsRead cursor terms read middle)
    (second : TermsRead middle more others after) :
    TermsRead cursor (terms ++ more) (read ++ others) after := by
  induction first with
  | nil => exact second
  | operand depth outcome consumed _ ih =>
      rw [List.append_assoc]
      exact .operand depth outcome consumed (ih second)
  | operator _ ih => exact .operator (ih second)

/-- What is known of a left operand in front of the next operator: its terms were read, and its
positions are those of the operands. -/
structure JoinsTerms (first : Cursor) (cursor : Cursor) (value : Expr) : Prop where
  stands : cursor.Stands (fun _ => True)
  read : ∃ read, Consumed read first cursor ∧ TermsRead first value.terms read cursor
  joined_eq : value.joined = value

theorem Rules.ofDepth_behave (depth : Nat) : (ofDepth depth).Behave (fun _ => True) 0 :=
  (ofDepth_behaves depth).narrow (Nat.zero_le _) (Nat.zero_le _) (Nat.zero_le _)

namespace Parse

variable {depth least : Nat} {cursor first after : Cursor} {value : Expr}

theorem unaryExpr_joins (stands : cursor.Stands (fun _ => True))
    (outcome : unaryExpr (Rules.ofDepth depth) cursor = .ok (value, after)) :
    JoinsTerms cursor after value := by
  have behaves := @unaryExpr_behaves _ Token.Any _ _ (Rules.ofDepth_behave depth) _ (Nat.le_succ 0)
    (Rules.ofDepth_behave depth).type
  obtain ⟨isOperand, read, -, consumed⟩ := behaves.reads stands trivial outcome
  have alone := Expr.isAlone_of_binds isOperand.alone
  refine ⟨consumed.stands stands, ⟨read, consumed, ?_⟩, alone.joined_eq⟩
  rw [alone.terms_eq, ← List.append_nil read]
  exact .operand depth outcome consumed (.nil after)

/-- An operator and its right operand are read after the terms on the left. -/
theorem binaryStep_joins {rules : Rules} {extended : Option Expr}
    (right : ∀ {least cursor value after}, 1 ≤ least → cursor.Stands (fun _ => True) →
      rules.binary least cursor = .ok (value, after) → JoinsTerms cursor after value)
    (least_pos : 1 ≤ least) (joins : JoinsTerms first cursor value)
    (outcome : binaryStep rules least value cursor = .ok (extended, after)) :
    JoinsTerms first after (extended.getD value) := by
  simp only [binaryStep, bind_eq_ok, token_eq_ok, ite_eq_ok, pure_eq_ok, advance_eq_ok] at outcome
  obtain ⟨op, cursor, ⟨rfl, rfl⟩, ⟨-, rfl, rfl⟩ | ⟨strong, _, _, rfl, operand, middle, rightOutcome,
    rfl, rfl⟩⟩ := outcome
  · exact joins
  · have notEnd : cursor.current.token ≠ .endOfFile := by
      intro atEnd
      rw [atEnd] at strong
      exact strong least_pos
    obtain ⟨read, consumed, termsRead⟩ := joins.read
    have step := Consumed.next joins.stands.closed notEnd
    have rightJoins := right (Nat.succ_pos _) joins.stands.next rightOutcome
    obtain ⟨others, consumedOthers, termsOthers⟩ := rightJoins.read
    refine ⟨rightJoins.stands, ⟨read ++ (cursor.current :: others),
      consumed.append (step.append consumedOthers), termsRead.append (.operator termsOthers)⟩, ?_⟩
    simp only [Option.getD_some, Expr.joined_binary, joins.joined_eq, rightJoins.joined_eq]

theorem binaryExpr_joins (least_pos : 1 ≤ least) (stands : cursor.Stands (fun _ => True))
    (outcome : (Rules.ofDepth depth).binary least cursor = .ok (value, after)) :
    JoinsTerms cursor after value := by
  induction depth generalizing least cursor value after with
  | zero => exact absurd outcome fail_ne_ok
  | succ depth ih =>
      obtain ⟨operand, middle, firstOutcome, restOutcome⟩ := bind_eq_ok.mp outcome
      exact extendAll_keeps (fun _ _ _ _ joins => binaryStep_joins ih least_pos joins)
        (unaryExpr_joins stands firstOutcome) restOutcome

end Parse

/-- An expression that is read has its binary operators joined by precedence, from the left where they
are equally strong.  Its operands and operators are those that were read, no operator follows, and no
other tree of the same operands and operators is joined by precedence. -/
theorem Rules.expr_climbs {depth : Nat} {cursor after : Cursor} {value : Expr}
    (closed : cursor.IsClosed) (outcome : (ofDepth depth).expr cursor = .ok (value, after)) :
    (Node.expr value).IsGraded ∧
      (∃ read, Consumed read cursor after ∧ TermsRead cursor value.terms read after) ∧
      after.current.token.precedence = 0 ∧
      ∀ other, (Node.expr other).IsGraded → other.terms = value.terms → other.joined = value := by
  have stands : cursor.Stands (fun _ => True) := ⟨closed, fun _ _ => trivial⟩
  have behave := ofDepth_behave depth
  have graded := (behave.expr.reads stands trivial outcome).1.graded
  have joins := Parse.binaryExpr_joins (Nat.le_refl 1) stands outcome
  refine ⟨graded, joins.read, Nat.lt_one_iff.mp (behave.stops outcome), fun other otherGraded same => ?_⟩
  rw [Expr.joined_eq_of_terms_eq graded otherGraded same, joins.joined_eq]

/-- The lexemes of `a-b*c`. -/
def differenceCursor : Cursor where
  current := ⟨.ident, "a", 1⟩
  ahead := [⟨.sub, "-", 2⟩, ⟨.ident, "b", 3⟩, ⟨.mul, "*", 4⟩, ⟨.ident, "c", 5⟩, ⟨.endOfFile, "", 6⟩]
  prevStop := 1

/-- The tree of `a-b*c`. -/
def differenceTree : Expr :=
  .binary ⟨1, 6⟩ (.ident ⟨⟨1, 2⟩, "a"⟩) .sub
    (.binary ⟨3, 6⟩ (.ident ⟨⟨3, 4⟩, "b"⟩) .mul (.ident ⟨⟨5, 6⟩, "c"⟩))

theorem Rules.expr_climbs_difference : differenceCursor.IsClosed ∧
    (ofDepth 3).expr differenceCursor = .ok (differenceTree, ⟨⟨.endOfFile, "", 6⟩, [], 6, 0⟩) ∧
      ∀ other, (Node.expr other).IsGraded → other.terms = differenceTree.terms →
        other.joined = differenceTree := by
  have closed : differenceCursor.IsClosed := rfl
  have outcome : (ofDepth 3).expr differenceCursor =
      .ok (differenceTree, ⟨⟨.endOfFile, "", 6⟩, [], 6, 0⟩) := by rfl
  exact ⟨closed, outcome, (expr_climbs closed outcome).2.2.2⟩

end GoMend
