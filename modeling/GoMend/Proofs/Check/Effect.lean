import GoMend.Proofs.Check.Events

/-!
# What an event does

The parts of a check as functions on its state, and what every event can change: which object it
makes, which findings it notes, and that what was noted before stays.
-/

namespace GoMend

namespace CheckState

/-- The state with one more finding. -/
def reporting (state : CheckState) (pos : Pos) (finding : Finding) : CheckState :=
  { state with found := (finding, pos) :: state.found }

/-- The state after an object was read. -/
def reading (state : CheckState) (object : Object) : CheckState :=
  { state with used := object.id :: state.used }

/-- The state with one more object in the innermost scope. -/
def holding (state : CheckState) (object : Object) : CheckState :=
  match state.scopes with
  | [] => state
  | scope :: outer => { state with scopes := scope.add object :: outer }

/-- Whether a name is declared in the innermost scope. -/
def declares (state : CheckState) (name : String) : Bool :=
  (state.scopes.head?.bind (·.find? name)).isSome

/-- The object that is made next. -/
def fresh (state : CheckState) (name : String) (kind : ObjectKind) (pos : Pos) : Object :=
  { id := state.nextId, name, kind, pos }

/-- The state after an object was made. -/
def made (state : CheckState) : CheckState :=
  { state with nextId := state.nextId + 1 }

/-- The state in which a variable has to be read. -/
def awaiting (state : CheckState) (object : Object) : CheckState :=
  { state with locals := object :: state.locals }

end CheckState

theorem ok_bind {ε α β : Type} (value : α) (next : α → Except ε β) :
    (Except.ok value >>= next) = next value :=
  rfl

namespace Check

variable (state : CheckState) (ident : Ident)

theorem run_newObject (name : String) (kind : ObjectKind) (pos : Pos) :
    (newObject name kind pos).run state = .ok (state.fresh name kind pos, state.made) :=
  rfl

theorem run_insert (object : Object) :
    (insert object).run state =
      .ok (if state.declares object.name then (false, state) else (true, state.holding object)) := by
  have unfolded : (insert object).run state =
      (if state.declares object.name then
        pure false
      else do
        modify (·.holding object)
        return true : Check Bool).run state :=
    rfl
  rw [unfolded]
  split <;> rfl

/-- The state after a declaration, and what was declared. -/
def declared (kind : ObjectKind) : Option Object × CheckState :=
  if ident.isBlank then
    (none, state)
  else if state.declares ident.name then
    (none, state.made.reporting ident.span.start (.redeclared ident.name))
  else
    let object := state.fresh ident.name kind ident.span.start
    (some object, state.made.holding object)

theorem run_declare (kind : ObjectKind) :
    (declare ident kind).run state = .ok (declared state ident kind) := by
  unfold declare declared
  split
  · rfl
  · simp only [StateT.run_bind, run_newObject, ok_bind, run_insert]
    cases taken : state.declares ident.name with
    | true =>
        have stillTaken : state.made.declares ident.name = true := taken
        simp only [CheckState.fresh, stillTaken, if_true]
        rfl
    | false =>
        have stillFree : state.made.declares ident.name = false := taken
        simp only [CheckState.fresh, stillFree, Bool.false_eq_true, if_false]
        rfl

/-- The state after a variable was declared. -/
def declaredLocal : CheckState :=
  match declared state ident .var with
  | (none, after) => after
  | (some object, after) => after.awaiting object

theorem run_declareLocal :
    (declareLocal ident).run state = .ok ((), declaredLocal state ident) := by
  unfold declareLocal declaredLocal
  simp only [StateT.run_bind, run_declare, ok_bind]
  rcases declared state ident .var with ⟨_ | object, after⟩ <;> rfl

/-- What a name denotes after it was read, and the state after that. -/
def resolved : Option Object × CheckState :=
  match Scope.lookup? state.scopes ident.name with
  | some object => (some object, state.reading object)
  | none =>
      (none,
        if state.lenient then state else state.reporting ident.span.start (.undefined ident.name))

theorem run_resolve : (resolve ident).run state = .ok (resolved state ident) := by
  unfold resolve resolved
  simp only [lookup?, bind_pure_comp, StateT.run_bind, StateT.run_map, StateT.run_get]
  show (match Scope.lookup? state.scopes ident.name with | some object => _ | none => _ :
    Check (Option Object)).run state = _
  cases Scope.lookup? state.scopes ident.name with
  | some object => rfl
  | none =>
      simp only [StateT.run_bind, StateT.run_get, pure_bind]
      cases lenient : state.lenient <;> rfl

/-- The state after a name was read as a value. -/
def usedName : CheckState :=
  if ident.isBlank then
    state.reporting ident.span.start .blankValue
  else
    match resolved state ident with
    | (some object, after) =>
        if object.kind = .package then
          after.reporting ident.span.start (.packageAsValue ident.name)
        else
          after
    | (none, after) => after

theorem run_use : (use ident).run state = .ok ((), usedName state ident) := by
  unfold use usedName
  split
  · rfl
  · simp only [StateT.run_bind, run_resolve, ok_bind]
    rcases resolved state ident with ⟨_ | object, after⟩
    · rfl
    · by_cases isPackage : object.kind = .package
      · simp only [isPackage, if_true]
        rfl
      · simp only [isPackage, if_false]
        rfl

/-- The state after a name was assigned to. -/
def assigned : CheckState :=
  if !ident.isBlank && (Scope.lookup? state.scopes ident.name).isNone && !state.lenient then
    state.reporting ident.span.start (.undefined ident.name)
  else
    state

theorem run_assignTo : (assignTo ident).run state = .ok ((), assigned state ident) := by
  have unfolded : (assignTo ident).run state =
      (if !ident.isBlank && (Scope.lookup? state.scopes ident.name).isNone && !state.lenient then
        report ident.span.start (.undefined ident.name)
      else
        pure () : Check Unit).run state :=
    rfl
  rw [unfolded, assigned]
  split <;> rfl

/-- The state after the key of an element was looked at. -/
def usedKey : CheckState :=
  match Scope.lookup? state.scopes ident.name with
  | some object => state.reading object
  | none => state

theorem run_useKey : (useKey ident).run state = .ok ((), usedKey state ident) := by
  have unfolded : (useKey ident).run state =
      (match Scope.lookup? state.scopes ident.name with
      | some object => markUsed object
      | none => pure () : Check Unit).run state :=
    rfl
  rw [unfolded, usedKey]
  cases Scope.lookup? state.scopes ident.name <;> rfl

/-- The state after a parameter was declared. -/
def declaredParam : CheckState :=
  if ident.isBlank then
    state
  else if state.declares ident.name then
    state.made.reporting ident.span.start (.duplicateArgument ident.name)
  else
    state.made.holding (state.fresh ident.name .var ident.span.start)

theorem run_declareParam :
    (declareParam ident).run state = .ok ((), declaredParam state ident) := by
  unfold declareParam declaredParam
  cases blank : ident.isBlank with
  | true => rfl
  | false =>
      simp only [Bool.not_false, if_true, Bool.false_eq_true, if_false, StateT.run_bind,
        run_newObject, ok_bind, run_insert]
      cases taken : state.declares ident.name with
      | true =>
          have stillTaken : state.made.declares ident.name = true := taken
          simp only [CheckState.fresh, stillTaken, if_true]
          rfl
      | false =>
          have stillFree : state.made.declares ident.name = false := taken
          simp only [CheckState.fresh, stillFree, Bool.false_eq_true, if_false]
          rfl

/-- The state after a label was used. -/
def usedLabel : CheckState :=
  if state.labels.any (·.name = ident.name) then
    { state with
      labels := state.labels.map fun label =>
        if label.name = ident.name then { label with used := true } else label }
  else
    state.reporting ident.span.start (.undefinedLabel ident.name)

theorem run_useLabel : (useLabel ident).run state = .ok ((), usedLabel state ident) := by
  have unfolded : (useLabel ident).run state =
      (if state.labels.any (·.name = ident.name) then
        modify fun state =>
          { state with
            labels := state.labels.map fun label =>
              if label.name = ident.name then { label with used := true } else label }
      else
        report ident.span.start (.undefinedLabel ident.name) : Check Unit).run state :=
    rfl
  rw [unfolded, usedLabel]
  split <;> rfl

/-- The state after a label was declared. -/
def declaredLabel : CheckState :=
  if state.labels.any (·.name = ident.name) then
    state.reporting ident.span.start (.redefinedLabel ident.name)
  else
    { state with labels := state.labels ++ [{ name := ident.name, pos := ident.span.start }] }

theorem run_declareLabel :
    (declareLabel ident).run state = .ok ((), declaredLabel state ident) := by
  have unfolded : (declareLabel ident).run state =
      (if state.labels.any (·.name = ident.name) then
        report ident.span.start (.redefinedLabel ident.name)
      else
        modify fun state =>
          { state with labels := state.labels ++ [{ name := ident.name, pos := ident.span.start }] } :
        Check Unit).run state :=
    rfl
  rw [unfolded, declaredLabel]
  split <;> rfl

/-- The state after the import of a name. -/
def bound (packageName : String → String) (spec : ImportSpec) : CheckState :=
  let state := if spec.name.any (·.name = ".") then { state with lenient := true } else state
  match boundName? packageName spec with
  | none => state
  | some name =>
      let object := state.fresh name .package spec.span.start
      let after :=
        if state.declares name then
          state.made.reporting spec.span.start (.redeclared name)
        else
          state.made.holding object
      { after with imports := ⟨object, spec⟩ :: after.imports }

theorem run_importName (packageName : String → String) (spec : ImportSpec) :
    (importName packageName spec).run state = .ok ((), bound state packageName spec) := by
  -- The import of a point only makes the rest lenient, so the rest is the same for both states.
  have rest (state : CheckState) :
      (match boundName? packageName spec with
        | none => pure ()
        | some name => do
            let object ← newObject name .package spec.span.start
            if !(← insert object) then
              report spec.span.start (.redeclared name)
            modify fun state => { state with imports := ⟨object, spec⟩ :: state.imports } :
          Check Unit).run state =
        .ok ((), match boundName? packageName spec with
          | none => state
          | some name =>
              let object := state.fresh name .package spec.span.start
              let after :=
                if state.declares name then
                  state.made.reporting spec.span.start (.redeclared name)
                else
                  state.made.holding object
              { after with imports := ⟨object, spec⟩ :: after.imports }) := by
    cases boundName? packageName spec with
    | none => rfl
    | some name =>
        simp only [StateT.run_bind, run_newObject, ok_bind, run_insert]
        cases taken : state.declares name with
        | true =>
            have stillTaken : state.made.declares name = true := taken
            simp only [CheckState.fresh, stillTaken, if_true]
            rfl
        | false =>
            have stillFree : state.made.declares name = false := taken
            simp only [CheckState.fresh, stillFree, Bool.false_eq_true, if_false]
            rfl
  unfold importName bound
  cases dotted : spec.name.any (·.name = ".") with
  | true => exact rest { state with lenient := true }
  | false => exact rest state

/-- The findings about labels that are not used. -/
def unusedLabels (labels : List Label) : List (Finding × Pos) :=
  (labels.filter fun label => !label.used).map fun label => (.unusedLabel label.name, label.pos)

theorem run_reportLabels :
    Event.reportLabels.run state =
      .ok ((), { state with found := (unusedLabels state.labels).reverse ++ state.found }) := by
  have each (labels : List Label) (state : CheckState) :
      (labels.forM fun label => do
        if !label.used then
          report label.pos (.unusedLabel label.name)).run state =
        .ok ((), { state with found := (unusedLabels labels).reverse ++ state.found }) := by
    induction labels generalizing state with
    | nil => rfl
    | cons label labels ih =>
        show ((if !label.used then report label.pos (.unusedLabel label.name) else pure () :
          Check Unit).run state >>= fun result => (labels.forM _ : Check Unit).run result.2) = _
        cases used : label.used with
        | true =>
            refine (ih state).trans ?_
            simp [unusedLabels, used]
        | false =>
            refine (ih (state.reporting label.pos (.unusedLabel label.name))).trans ?_
            simp [unusedLabels, used, CheckState.reporting]
  exact each state.labels state

end Check

/-! ### Events -/

namespace Event

/-- The error with which an event ends the check. -/
def failure? : Event → Option CheckError
  | .reject error => some error
  | .notAName target =>
      match (Node.expr target).print with
      | .error error => some (.notPrintable error)
      | .ok _ => none
  | _ => none

/-- The point after an event that does not end the check. -/
def next (packageName : String → String) (point : CheckPoint) (happens : Event) : CheckPoint :=
  let state := point.state
  match happens with
  | .enter kind => { point with state := { state with scopes := { kind } :: state.scopes } }
  | .leave => { point with state := { state with scopes := state.scopes.tail } }
  | .use name => { point with state := Check.usedName state name }
  | .select name =>
      { point with
        state := if name.isBlank then Check.usedName state name else (Check.resolved state name).2 }
  | .assign name => { point with state := Check.assigned state name }
  | .key name => { point with state := Check.usedKey state name }
  | .declare name kind => { point with state := (Check.declared state name kind).2 }
  | .declareLocal name => { point with state := Check.declaredLocal state name }
  | .param name => { point with state := Check.declaredParam state name }
  | .defineName name =>
      if name.isBlank || state.declares name.name then
        point
      else
        { point with isFresh := true, state := Check.declaredLocal state name }
  | .notAName target =>
      match (Node.expr target).print with
      | .error _ => point
      | .ok text => { point with state := state.reporting target.span.start (.notAName text) }
  | .endDefine tokPos =>
      if point.isFresh then
        { point with isFresh := false }
      else
        { point with state := state.reporting tokPos .noNewVariables }
  | .openLabels =>
      { point with
        state := { state with labels := [] }
        outerLabels := state.labels :: point.outerLabels }
  | .label name => { point with state := Check.declaredLabel state name }
  | .useLabel name => { point with state := Check.usedLabel state name }
  | .closeLabels =>
      { point with
        outerLabels := point.outerLabels.tail
        state := { state with
          found := (Check.unusedLabels state.labels).reverse ++ state.found
          labels := point.outerLabels.headD [] } }
  | .openSwitch => { point with symbols := none :: point.symbols }
  | .symbol name tokPos =>
      if name.isBlank then
        { point with state := state.reporting tokPos .noNewVariable }
      else
        let object := state.fresh name.name .var name.span.start
        { point with
          state := state.made.awaiting object
          symbols := some object :: point.symbols.tail }
  | .notASymbol tokPos => { point with state := state.reporting tokPos .noNewVariable }
  | .clause =>
      match point.symbols.headD none with
      | none => point
      | some object =>
          if state.declares object.name then point else { point with state := state.holding object }
  | .closeSwitch => { point with symbols := point.symbols.tail }
  | .beginFile => { point with state := { state with lenient := false } }
  | .bind spec => { point with state := Check.bound state packageName spec }
  | .reject _ => point

/-- An event ends the check with its failure, or leads to the next point. -/
theorem step_eq (packageName : String → String) (point : CheckPoint) (happens : Event) :
    happens.step packageName point =
      match happens.failure? with
      | some error => .error error
      | none => .ok (happens.next packageName point) := by
  have performed {check : Check Unit} {after : CheckState} {point : CheckPoint}
      (outcome : check.run point.state = .ok ((), after)) :
      point.perform check = .ok { point with state := after } := by
    rw [CheckPoint.perform, outcome]
    rfl
  cases happens with
  | use name => exact performed (Check.run_use _ _)
  | select name =>
      refine performed ?_
      split
      · exact Check.run_use _ _
      · simp only [StateT.run_bind, Check.run_resolve, ok_bind]
        rfl
  | assign name => exact performed (Check.run_assignTo _ _)
  | key name => exact performed (Check.run_useKey _ _)
  | declare name kind =>
      refine performed ?_
      simp only [StateT.run_bind, Check.run_declare, ok_bind]
      rfl
  | declareLocal name => exact performed (Check.run_declareLocal _ _)
  | param name => exact performed (Check.run_declareParam _ _)
  | defineName name =>
      show (if _ then _ else _) = Except.ok (if _ then _ else _)
      by_cases taken : (name.isBlank || point.state.declares name.name) = true
      · rw [if_pos taken]
        exact if_pos taken
      · rw [if_neg taken]
        exact (if_neg taken).trans (performed (Check.run_declareLocal _ _))
  | notAName target =>
      simp only [step, failure?, next]
      cases (Node.expr target).print <;> rfl
  | endDefine tokPos =>
      simp only [step, failure?, next]
      split <;> rfl
  | label name => exact performed (Check.run_declareLabel _ _)
  | useLabel name => exact performed (Check.run_useLabel _ _)
  | closeLabels =>
      refine performed ?_
      simp only [StateT.run_bind, Check.run_reportLabels, ok_bind]
      rfl
  | symbol name tokPos =>
      simp only [step, failure?, next]
      split <;> rfl
  | clause =>
      simp only [step, failure?, next]
      cases point.symbols.headD none with
      | none => rfl
      | some object =>
          simp only [CheckPoint.perform, StateT.run_bind, Check.run_insert, ok_bind]
          cases point.state.declares object.name <;> rfl
  | bind spec => exact performed (Check.run_importName _ _ _)
  | _ => rfl

theorem run_cons (packageName : String → String) (happens : Event) (events : List Event)
    (point : CheckPoint) :
    run packageName (happens :: events) point =
      match happens.failure? with
      | some error => .error error
      | none => run packageName events (happens.next packageName point) := by
  rw [run, List.foldlM_cons, step_eq]
  cases happens.failure? <;> rfl

/-- Events of which none ends the check lead to a point. -/
theorem exists_run (packageName : String → String) {events : List Event}
    (safe : ∀ happens ∈ events, happens.failure? = none) (point : CheckPoint) :
    ∃ after, run packageName events point = .ok after := by
  induction events generalizing point with
  | nil => exact ⟨point, rfl⟩
  | cons happens events ih =>
      obtain ⟨first, others⟩ := List.forall_mem_cons.mp safe
      rw [run_cons, first]
      exact ih others _

/-- What every step keeps holds after all of them. -/
theorem run_keeps {packageName : String → String} (kept : List Event → CheckPoint → Prop)
    (step : ∀ done (happens : Event) point, kept done point →
      kept (done ++ [happens]) (happens.next packageName point))
    {done events : List Event} {point after : CheckPoint} (start : kept done point)
    (outcome : run packageName events point = .ok after) : kept (done ++ events) after := by
  induction events generalizing done point with
  | nil =>
      obtain rfl : point = after := Except.ok.inj outcome
      simpa using start
  | cons happens events ih =>
      rw [run_cons] at outcome
      cases failed : happens.failure? with
      | some error => simp [failed] at outcome
      | none =>
          rw [failed] at outcome
          simpa using ih (step done happens point start) outcome

end Event

/-! ### What was noted before -/

/-- The state with older findings and readings before its own. -/
def CheckState.onto (used : List Nat) (found : List (Finding × Pos)) (state : CheckState) :
    CheckState :=
  { state with used := state.used ++ used, found := state.found ++ found }

/-- The point with older findings and readings before its own. -/
def CheckPoint.onto (used : List Nat) (found : List (Finding × Pos)) (point : CheckPoint) :
    CheckPoint :=
  { point with state := point.state.onto used found }

namespace Check

variable (used : List Nat) (found : List (Finding × Pos)) (state : CheckState) (ident : Ident)

theorem holding_onto (object : Object) :
    (state.onto used found).holding object = (state.holding object).onto used found := by
  obtain ⟨scopes, nextId, reads, locals, imports, labels, lenient, findings⟩ := state
  cases scopes <;> rfl

theorem declared_onto (kind : ObjectKind) :
    declared (state.onto used found) ident kind =
      ((declared state ident kind).1, (declared state ident kind).2.onto used found) := by
  unfold declared
  split
  · rfl
  · show (if state.declares ident.name then _ else _) = _
    split
    · rfl
    · exact Prod.ext rfl (holding_onto used found state.made _)

theorem declaredLocal_onto :
    declaredLocal (state.onto used found) ident = (declaredLocal state ident).onto used found := by
  simp only [declaredLocal, declared_onto]
  rcases declared state ident .var with ⟨_ | object, after⟩ <;> rfl

theorem resolved_onto :
    resolved (state.onto used found) ident =
      ((resolved state ident).1, (resolved state ident).2.onto used found) := by
  unfold resolved
  show (match Scope.lookup? state.scopes ident.name with | some object => _ | none => _) = _
  cases Scope.lookup? state.scopes ident.name with
  | some object => rfl
  | none =>
      refine Prod.ext rfl ?_
      show (if state.lenient then _ else _) = CheckState.onto used found (if _ then _ else _)
      split <;> rfl

theorem usedName_onto :
    usedName (state.onto used found) ident = (usedName state ident).onto used found := by
  unfold usedName
  split
  · rfl
  · rw [resolved_onto]
    rcases resolved state ident with ⟨_ | object, after⟩
    · rfl
    · by_cases isPackage : object.kind = .package
      · simp only [isPackage, if_true]
        rfl
      · simp only [isPackage, if_false]

theorem assigned_onto :
    assigned (state.onto used found) ident = (assigned state ident).onto used found := by
  unfold assigned
  show (if (!ident.isBlank && (Scope.lookup? state.scopes ident.name).isNone && !state.lenient) = true
    then _ else _) = _
  split <;> rfl

theorem usedKey_onto :
    usedKey (state.onto used found) ident = (usedKey state ident).onto used found := by
  unfold usedKey
  show (match Scope.lookup? state.scopes ident.name with | some object => _ | none => _) = _
  cases Scope.lookup? state.scopes ident.name <;> rfl

theorem declaredParam_onto :
    declaredParam (state.onto used found) ident = (declaredParam state ident).onto used found := by
  unfold declaredParam
  split
  · rfl
  · show (if state.declares ident.name then _ else _) = _
    split
    · rfl
    · exact holding_onto used found state.made _

theorem usedLabel_onto :
    usedLabel (state.onto used found) ident = (usedLabel state ident).onto used found := by
  unfold usedLabel
  show (if state.labels.any _ = true then _ else _) = _
  split <;> rfl

theorem declaredLabel_onto :
    declaredLabel (state.onto used found) ident = (declaredLabel state ident).onto used found := by
  unfold declaredLabel
  show (if state.labels.any _ = true then _ else _) = _
  split <;> rfl

theorem bound_onto (packageName : String → String) (spec : ImportSpec) :
    bound (state.onto used found) packageName spec =
      (bound state packageName spec).onto used found := by
  have rest (state : CheckState) (name : String) :
      (if (state.onto used found).declares name then
          (state.onto used found).made.reporting spec.span.start (.redeclared name)
        else
          (state.onto used found).made.holding
            ((state.onto used found).fresh name .package spec.span.start)) =
        CheckState.onto used found
          (if state.declares name then
            state.made.reporting spec.span.start (.redeclared name)
          else
            state.made.holding (state.fresh name .package spec.span.start)) := by
    show (if state.declares name then _ else _) = _
    split
    · rfl
    · exact holding_onto used found state.made _
  unfold bound
  cases dotted : spec.name.any (·.name = ".") <;>
    cases boundName? packageName spec with
    | none => rfl
    | some name =>
        simp only [if_true, Bool.false_eq_true, if_false]
        first
        | rw [rest state name]; rfl
        | rw [show ({ state.onto used found with lenient := true } : CheckState) =
            CheckState.onto used found { state with lenient := true } from rfl, rest]; rfl

end Check

namespace Event

/-- An event does not depend on what was noted before it. -/
theorem next_onto (packageName : String → String) (used : List Nat) (found : List (Finding × Pos))
    (point : CheckPoint) (happens : Event) :
    happens.next packageName (point.onto used found) =
      (happens.next packageName point).onto used found := by
  cases happens with
  | use name => exact congrArg (CheckPoint.mk · _ _ _) (Check.usedName_onto used found _ name)
  | select name =>
      refine congrArg (CheckPoint.mk · _ _ _) ?_
      show (if _ then _ else _) = CheckState.onto used found (if _ then _ else _)
      split
      · exact Check.usedName_onto used found _ name
      · exact congrArg Prod.snd (Check.resolved_onto used found _ name)
  | assign name => exact congrArg (CheckPoint.mk · _ _ _) (Check.assigned_onto used found _ name)
  | key name => exact congrArg (CheckPoint.mk · _ _ _) (Check.usedKey_onto used found _ name)
  | declare name kind =>
      exact congrArg (fun result => CheckPoint.mk result.2 _ _ _)
        (Check.declared_onto used found _ name kind)
  | declareLocal name =>
      exact congrArg (CheckPoint.mk · _ _ _) (Check.declaredLocal_onto used found _ name)
  | param name =>
      exact congrArg (CheckPoint.mk · _ _ _) (Check.declaredParam_onto used found _ name)
  | defineName name =>
      simp only [next]
      show (if (name.isBlank || point.state.declares name.name) = true then _ else _) = _
      split
      · rfl
      · exact congrArg (CheckPoint.mk · _ _ _) (Check.declaredLocal_onto used found _ name)
  | notAName target =>
      simp only [next]
      cases (Node.expr target).print <;> rfl
  | endDefine tokPos =>
      simp only [next]
      show (if point.isFresh then _ else _) = _
      split <;> rfl
  | label name =>
      exact congrArg (CheckPoint.mk · _ _ _) (Check.declaredLabel_onto used found _ name)
  | useLabel name =>
      exact congrArg (CheckPoint.mk · _ _ _) (Check.usedLabel_onto used found _ name)
  | closeLabels =>
      simp only [next, CheckPoint.onto, CheckState.onto, List.append_assoc]
  | symbol name tokPos =>
      simp only [next]
      split <;> rfl
  | clause =>
      simp only [next]
      show (match point.symbols.headD none with | none => _ | some object => _) = _
      cases point.symbols.headD none with
      | none => rfl
      | some object =>
          show (if point.state.declares object.name then _ else _) =
            CheckPoint.onto used found (if _ then _ else _)
          split
          · rfl
          · exact congrArg (CheckPoint.mk · _ _ _) (Check.holding_onto used found _ object)
  | bind spec => exact congrArg (CheckPoint.mk · _ _ _) (Check.bound_onto used found _ _ spec)
  | _ => rfl

/-- Events do not depend on what was noted before them. -/
theorem run_onto (packageName : String → String) (used : List Nat) (found : List (Finding × Pos))
    (events : List Event) (point : CheckPoint) :
    run packageName events (point.onto used found) =
      (run packageName events point).map (CheckPoint.onto used found) := by
  induction events generalizing point with
  | nil => rfl
  | cons happens events ih =>
      rw [run_cons, run_cons]
      cases happens.failure? with
      | some error => rfl
      | none =>
          simp only [next_onto]
          exact ih _

end Event

end GoMend
