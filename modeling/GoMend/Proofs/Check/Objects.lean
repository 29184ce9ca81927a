import GoMend.Proofs.Check.Spots

/-!
# The objects of a check

Every object that a check knows is predeclared or was made by one event, which gave it the next
number.  A variable has the name and the place of the event that made it, and an object is found
through its number.  What a check has found on its way are never the things that are not read.
-/

namespace GoMend

/-- The parts of a state that hold objects. -/
def CheckState.frame (state : CheckState) :
    List Scope × Nat × List Object × List ImportedName :=
  (state.scopes, state.nextId, state.locals, state.imports)

namespace Check

variable (state : CheckState) (ident : Ident)

theorem frame_resolved : (resolved state ident).2.frame = state.frame := by
  unfold resolved
  split
  · rfl
  · show (if state.lenient then _ else _ : CheckState).frame = _
    split <;> rfl

theorem frame_usedName : (usedName state ident).frame = state.frame := by
  have resolvedFrame := frame_resolved state ident
  unfold usedName
  generalize resolved state ident = outcome at resolvedFrame ⊢
  split
  · rfl
  · obtain ⟨_ | object, after⟩ := outcome
    · exact resolvedFrame
    · dsimp only
      split <;> exact resolvedFrame

theorem frame_assigned : (assigned state ident).frame = state.frame := by
  unfold assigned
  split <;> rfl

theorem frame_usedKey : (usedKey state ident).frame = state.frame := by
  unfold usedKey
  split <;> rfl

theorem frame_usedLabel : (usedLabel state ident).frame = state.frame := by
  unfold usedLabel
  split <;> rfl

theorem frame_declaredLabel : (declaredLabel state ident).frame = state.frame := by
  unfold declaredLabel
  split <;> rfl

end Check

/-! ### One event -/

/-- The import that an event binds. -/
def Event.bound? : Event → Option ImportSpec
  | .bind spec => some spec
  | _ => none

/-- What an event that declares a variable or binds an import may do to the objects of a state: it
makes at most one, and puts it or the variable of a switch into a scope. -/
structure CheckState.Adds (symbols : List (Option Object)) (declares : Option Ident)
    (binds : Option ImportSpec) (old new : CheckState) (made : List Object) : Prop where
  nextId : new.nextId = old.nextId + made.length
  ids : ∀ object ∈ made, made = [object] ∧ object.id = old.nextId
  named : ∀ object ∈ made, object.kind = .var →
    ∃ name, declares = some name ∧ object.name = name.name ∧ object.pos = name.span.start
  scopes : ∀ scope ∈ new.scopes, ∀ object ∈ scope.objects,
    (∃ outer ∈ old.scopes, object ∈ outer.objects) ∨ object ∈ made ∨ some object ∈ symbols
  locals : new.locals = old.locals ∨
    ∃ object, made = [object] ∧ object.kind = .var ∧ new.locals = object :: old.locals
  imports : ∀ entry ∈ new.imports, entry ∈ old.imports ∨
    entry.object ∈ made ∧ entry.object.kind = .package ∧ binds = some entry.spec

namespace CheckState.Adds

variable {symbols : List (Option Object)} {declares : Option Ident} {binds : Option ImportSpec}
  {old new : CheckState}

/-- A state whose scopes have got no objects. -/
theorem of_scopes (nextIdEq : new.nextId = old.nextId) (localsEq : new.locals = old.locals)
    (importsEq : new.imports = old.imports)
    (scopes : ∀ scope ∈ new.scopes, scope ∈ old.scopes ∨ scope.objects = []) :
    Adds symbols declares binds old new [] where
  nextId := nextIdEq
  ids := by simp
  named := by simp
  scopes scope isScope object isObject := by
    obtain isOld | empty := scopes scope isScope
    · exact .inl ⟨scope, isOld, isObject⟩
    · simp [empty] at isObject
  locals := .inl localsEq
  imports entry isEntry := .inl (importsEq ▸ isEntry)

theorem of_frame (same : new.frame = old.frame) : Adds symbols declares binds old new [] := by
  simp only [frame, Prod.mk.injEq] at same
  obtain ⟨scopesEq, nextIdEq, localsEq, importsEq⟩ := same
  exact of_scopes nextIdEq localsEq importsEq fun scope isScope => .inl (scopesEq ▸ isScope)

/-- Only the objects of a state matter. -/
theorem congr {made : List Object} {other : CheckState} (same : old.frame = other.frame)
    (adds : Adds symbols declares binds old new made) : Adds symbols declares binds other new made := by
  simp only [frame, Prod.mk.injEq] at same
  obtain ⟨scopesEq, nextIdEq, localsEq, importsEq⟩ := same
  obtain ⟨nextId, ids, named, scopes, locals, imports⟩ := adds
  rw [nextIdEq] at nextId ids
  rw [scopesEq] at scopes
  rw [localsEq] at locals
  rw [importsEq] at imports
  exact ⟨nextId, ids, named, scopes, locals, imports⟩

end CheckState.Adds

namespace Check

variable (state : CheckState) (ident : Ident)

theorem scopes_holding (object : Object) :
    ∀ scope ∈ (state.holding object).scopes, ∀ held ∈ scope.objects,
      (∃ outer ∈ state.scopes, held ∈ outer.objects) ∨ held = object := by
  obtain ⟨scopes, nextId, used, locals, imports, labels, lenient, found⟩ := state
  cases scopes with
  | nil => simp [CheckState.holding]
  | cons scope outer =>
      simp only [CheckState.holding, List.forall_mem_cons]
      refine ⟨fun held isHeld => ?_, fun other isOther held isHeld => ?_⟩
      · simp only [Scope.add, List.mem_append, List.mem_singleton] at isHeld
        exact isHeld.imp_left fun isOld => ⟨scope, List.mem_cons_self, isOld⟩
      · exact .inl ⟨other, List.mem_cons_of_mem _ isOther, isHeld⟩

theorem holding_rest (object : Object) :
    (state.holding object).nextId = state.nextId ∧ (state.holding object).locals = state.locals ∧
      (state.holding object).imports = state.imports := by
  unfold CheckState.holding
  split <;> exact ⟨rfl, rfl, rfl⟩

section Adds

variable {symbols : List (Option Object)} {binds : Option ImportSpec}

/-- A new object in the innermost scope. -/
theorem adds_holding {declares : Option Ident} {object : Object} (isNext : object.id = state.nextId)
    (named : object.kind = .var →
      ∃ name, declares = some name ∧ object.name = name.name ∧ object.pos = name.span.start) :
    CheckState.Adds symbols declares binds state (state.made.holding object) [object] := by
  obtain ⟨nextIdEq, localsEq, importsEq⟩ := holding_rest state.made object
  refine ⟨nextIdEq, by simpa using isNext, by simpa using named, ?_, .inl localsEq, ?_⟩
  · intro scope isScope held isHeld
    have known := scopes_holding state.made object scope isScope held isHeld
    exact known.imp_right fun same => .inl (by simp [same])
  · exact fun entry isEntry => .inl (importsEq ▸ isEntry)

/-- A new object that is in no scope. -/
theorem adds_made {declares : Option Ident} {object : Object} {new : CheckState}
    (isNext : object.id = state.nextId)
    (named : object.kind = .var →
      ∃ name, declares = some name ∧ object.name = name.name ∧ object.pos = name.span.start)
    (same : new.frame = state.made.frame) :
    CheckState.Adds symbols declares binds state new [object] := by
  simp only [CheckState.frame, Prod.mk.injEq] at same
  obtain ⟨scopesEq, nextIdEq, localsEq, importsEq⟩ := same
  refine ⟨nextIdEq, by simpa using isNext, by simpa using named, ?_, .inl localsEq, ?_⟩
  · exact fun scope isScope held isHeld => .inl ⟨scope, scopesEq ▸ isScope, isHeld⟩
  · exact fun entry isEntry => .inl (importsEq ▸ isEntry)

theorem adds_declared (symbols : List (Option Object)) (kind : ObjectKind) :
    ∃ made, CheckState.Adds symbols (Event.declare ident kind).declared? binds state
      (declared state ident kind).2 made ∧
      ∀ object, (declared state ident kind).1 = some object → made = [object] ∧ object.kind = kind := by
  unfold declared
  split
  · exact ⟨[], .of_frame rfl, by simp⟩
  · next notBlank =>
    have named (object : Object)
        (isObject : object = state.fresh ident.name kind ident.span.start) :
        object.kind = .var → ∃ name, (Event.declare ident kind).declared? = some name ∧
          object.name = name.name ∧ object.pos = name.span.start := by
      subst isObject
      intro isVar
      obtain rfl : kind = .var := isVar
      exact ⟨ident, by simp [Event.declared?, notBlank], rfl, rfl⟩
    split
    · exact ⟨[_], adds_made state rfl (named _ rfl) rfl, by simp⟩
    · refine ⟨[_], adds_holding state rfl (named _ rfl), fun object isObject => ?_⟩
      obtain rfl := Option.some.inj isObject
      exact ⟨rfl, rfl⟩

theorem locals_declared (kind : ObjectKind) :
    (declared state ident kind).2.locals = state.locals := by
  unfold declared
  split
  · rfl
  · split
    · rfl
    · exact (holding_rest state.made _).2.1

theorem adds_declaredLocal :
    ∃ made, CheckState.Adds symbols (Event.declareLocal ident).declared? binds state
      (declaredLocal state ident) made := by
  obtain ⟨made, adds, isMade⟩ := adds_declared state ident symbols .var
  have localsEq := locals_declared state ident .var
  unfold declaredLocal
  generalize declared state ident .var = outcome at adds isMade localsEq ⊢
  obtain ⟨_ | object, after⟩ := outcome
  · exact ⟨made, adds⟩
  · obtain ⟨rfl, isVar⟩ := isMade object rfl
    refine ⟨[object], { adds with locals := .inr ⟨object, rfl, isVar, ?_⟩ }⟩
    exact congrArg (object :: ·) localsEq

theorem adds_declaredParam :
    ∃ made, CheckState.Adds symbols (Event.param ident).declared? binds state
      (declaredParam state ident) made := by
  unfold declaredParam
  split
  · exact ⟨[], .of_frame rfl⟩
  · next notBlank =>
    have named : ∃ name, (Event.param ident).declared? = some name ∧
        (state.fresh ident.name .var ident.span.start).name = name.name ∧
        (state.fresh ident.name .var ident.span.start).pos = name.span.start :=
      ⟨ident, by simp [Event.declared?, notBlank], rfl, rfl⟩
    split
    · exact ⟨[state.fresh ident.name .var ident.span.start], adds_made state rfl (fun _ => named) rfl⟩
    · exact ⟨[_], adds_holding state rfl fun _ => named⟩

theorem adds_bound (packageName : String → String) (spec : ImportSpec) :
    ∃ made, CheckState.Adds symbols none (some spec) state (bound state packageName spec) made := by
  have bind (state : CheckState) (name : String) :
      let object := state.fresh name .package spec.span.start
      let after :=
        if state.declares name then
          state.made.reporting spec.span.start (.redeclared name)
        else
          state.made.holding object
      CheckState.Adds symbols none (some spec) state { after with imports := ⟨object, spec⟩ :: after.imports }
        [object] := by
    intro object after
    have adds : CheckState.Adds symbols none (some spec) state after [object] ∧ after.imports = state.imports := by
      simp only [after]
      split
      · exact ⟨adds_made state rfl nofun rfl, rfl⟩
      · exact ⟨adds_holding state rfl nofun, (holding_rest state.made object).2.2⟩
    refine { adds.1 with imports := fun entry isEntry => ?_ }
    obtain rfl | isOld := List.mem_cons.mp isEntry
    · exact .inr ⟨List.mem_cons_self, rfl, rfl⟩
    · exact .inl (adds.2 ▸ isOld)
  unfold bound
  cases bindsName : boundName? packageName spec with
  | none =>
      refine ⟨[], .of_frame ?_⟩
      split <;> rfl
  | some name =>
      cases dotted : spec.name.any (·.name = ".") with
      | false => exact ⟨_, bind state name⟩
      | true =>
          have adds := bind { state with lenient := true } name
          refine ⟨_, CheckState.Adds.congr ?_ adds⟩
          rfl

end Adds

end Check

namespace Event

/-- Every event adds at most one object to those of a check. -/
theorem exists_adds (packageName : String → String) (point : CheckPoint) (happens : Event) :
    ∃ made, CheckState.Adds point.symbols happens.declared? happens.bound? point.state
        (happens.next packageName point).state made ∧
      ∀ object, some object ∈ (happens.next packageName point).symbols →
        some object ∈ point.symbols ∨ object ∈ made := by
  have quiet {new : CheckPoint} (same : new.state.frame = point.state.frame)
      (symbolsEq : new.symbols = point.symbols) :
      ∃ made, CheckState.Adds point.symbols happens.declared? happens.bound? point.state new.state made ∧
        ∀ object, some object ∈ new.symbols → some object ∈ point.symbols ∨ object ∈ made :=
    ⟨[], .of_frame same, fun object mem => .inl (symbolsEq ▸ mem)⟩
  cases happens with
  | enter kind =>
      refine ⟨[], .of_scopes rfl rfl rfl fun scope isScope => ?_, fun object mem => .inl mem⟩
      obtain rfl | isOld := List.mem_cons.mp isScope
      · exact .inr rfl
      · exact .inl isOld
  | leave =>
      refine ⟨[], .of_scopes rfl rfl rfl fun scope isScope => ?_, fun object mem => .inl mem⟩
      exact .inl (List.mem_of_mem_tail isScope)
  | use name => exact quiet (Check.frame_usedName _ name) rfl
  | select name =>
      refine quiet ?_ rfl
      simp only [next]
      split
      · exact Check.frame_usedName _ name
      · exact Check.frame_resolved _ name
  | assign name => exact quiet (Check.frame_assigned _ name) rfl
  | key name => exact quiet (Check.frame_usedKey _ name) rfl
  | declare name kind =>
      obtain ⟨made, adds, -⟩ := Check.adds_declared point.state name point.symbols kind
      exact ⟨made, adds, fun object mem => .inl mem⟩
  | declareLocal name =>
      obtain ⟨made, adds⟩ := Check.adds_declaredLocal point.state name
      exact ⟨made, adds, fun object mem => .inl mem⟩
  | param name =>
      obtain ⟨made, adds⟩ := Check.adds_declaredParam point.state name
      exact ⟨made, adds, fun object mem => .inl mem⟩
  | defineName name =>
      simp only [next]
      split
      · exact quiet rfl rfl
      · obtain ⟨made, adds⟩ := Check.adds_declaredLocal point.state name
        exact ⟨made, adds, fun object mem => .inl mem⟩
  | notAName target =>
      simp only [next]
      split <;> exact quiet rfl rfl
  | endDefine tokPos =>
      simp only [next]
      split <;> exact quiet rfl rfl
  | label name => exact quiet (Check.frame_declaredLabel _ name) rfl
  | useLabel name => exact quiet (Check.frame_usedLabel _ name) rfl
  | openSwitch =>
      exact ⟨[], .of_frame rfl, fun object mem => .inl (by simpa [next] using mem)⟩
  | closeSwitch =>
      exact ⟨[], .of_frame rfl, fun object mem => .inl (List.mem_of_mem_tail mem)⟩
  | symbol name tokPos =>
      simp only [next]
      split
      · exact quiet rfl rfl
      · next notBlank =>
        let object := point.state.fresh name.name .var name.span.start
        have named : ∃ other, (Event.symbol name tokPos).declared? = some other ∧
            object.name = other.name ∧ object.pos = other.span.start :=
          ⟨name, by simp [declared?, notBlank], rfl, rfl⟩
        have adds : CheckState.Adds point.symbols (Event.symbol name tokPos).declared? none point.state
            point.state.made [object] :=
          Check.adds_made point.state rfl (fun _ => named) rfl
        refine ⟨[object], { adds with locals := .inr ⟨object, rfl, rfl, rfl⟩ }, ?_⟩
        intro other mem
        obtain same | mem := List.mem_cons.mp mem
        · exact .inr (by simpa using same)
        · exact .inl (List.mem_of_mem_tail mem)
  | clause =>
      simp only [next]
      cases head : point.symbols.headD none with
      | none => exact quiet rfl rfl
      | some object =>
          dsimp only
          split
          · exact quiet rfl rfl
          · have isSymbol : some object ∈ point.symbols := by
              cases symbols : point.symbols with
              | nil => simp [symbols] at head
              | cons first others => simp_all
            have scopes := Check.scopes_holding point.state object
            obtain ⟨nextIdEq, localsEq, importsEq⟩ := Check.holding_rest point.state object
            refine ⟨[], ⟨nextIdEq, by simp, by simp, ?_, .inl localsEq, ?_⟩, fun _ mem => .inl mem⟩
            · intro scope isScope held isHeld
              refine (scopes scope isScope held isHeld).imp_right fun same => .inr ?_
              rw [same]
              exact isSymbol
            · exact fun entry isEntry => .inl (importsEq ▸ isEntry)
  | bind spec =>
      obtain ⟨made, adds⟩ := Check.adds_bound point.state packageName spec
      exact ⟨made, adds, fun object mem => .inl mem⟩
  | _ => exact quiet rfl rfl

end Event

/-! ### Findings -/

/-- Whether a finding is noted on the way, other than that there are no new names. -/
def Finding.isPassing : Finding → Bool
  | .unusedVariable _ | .unusedImport _ | .unusedNamedImport .. | .noNewVariables => false
  | _ => true

/-- A state in which more was noted on the way. -/
def CheckState.Notes (old new : CheckState) : Prop :=
  ∃ added, new.found = added ++ old.found ∧ ∀ entry ∈ added, entry.1.isPassing

namespace CheckState.Notes

variable {old new : CheckState}

theorem of_eq (same : new.found = old.found) : old.Notes new :=
  ⟨[], same, by simp⟩

theorem of_cons (finding : Finding) {pos : Pos} (passing : finding.isPassing)
    (foundEq : new.found = (finding, pos) :: old.found) : old.Notes new :=
  ⟨[(finding, pos)], foundEq, by simpa using passing⟩

end CheckState.Notes

namespace Check

variable (state : CheckState) (ident : Ident)

theorem found_holding (object : Object) : (state.holding object).found = state.found := by
  unfold CheckState.holding
  split <;> rfl

theorem notes_declared (kind : ObjectKind) : state.Notes (declared state ident kind).2 := by
  unfold declared
  split
  · exact .of_eq rfl
  · split
    · exact .of_cons (.redeclared ident.name) rfl rfl
    · exact .of_eq (found_holding state.made _)

theorem notes_declaredLocal : state.Notes (declaredLocal state ident) := by
  have notes := notes_declared state ident .var
  unfold declaredLocal
  generalize declared state ident .var = outcome at notes ⊢
  obtain ⟨_ | object, after⟩ := outcome <;> exact notes

theorem notes_declaredParam : state.Notes (declaredParam state ident) := by
  unfold declaredParam
  split
  · exact .of_eq rfl
  · split
    · exact .of_cons (.duplicateArgument ident.name) rfl rfl
    · exact .of_eq (found_holding state.made _)

theorem notes_resolved : state.Notes (resolved state ident).2 := by
  unfold resolved
  split
  · exact .of_eq rfl
  · show state.Notes (if state.lenient then _ else _)
    split
    · exact .of_eq rfl
    · exact .of_cons (.undefined ident.name) rfl rfl

theorem notes_usedName : state.Notes (usedName state ident) := by
  unfold usedName
  split
  · exact .of_cons .blankValue rfl rfl
  · unfold resolved
    cases Scope.lookup? state.scopes ident.name with
    | some object =>
        dsimp only
        split
        · exact .of_cons (.packageAsValue ident.name) rfl rfl
        · exact .of_eq rfl
    | none =>
        show state.Notes (if state.lenient then _ else _)
        split
        · exact .of_eq rfl
        · exact .of_cons (.undefined ident.name) rfl rfl

theorem notes_assigned : state.Notes (assigned state ident) := by
  unfold assigned
  split
  · exact .of_cons (.undefined ident.name) rfl rfl
  · exact .of_eq rfl

theorem notes_usedKey : state.Notes (usedKey state ident) := by
  unfold usedKey
  split <;> exact .of_eq rfl

theorem notes_usedLabel : state.Notes (usedLabel state ident) := by
  unfold usedLabel
  split
  · exact .of_eq rfl
  · exact .of_cons (.undefinedLabel ident.name) rfl rfl

theorem notes_declaredLabel : state.Notes (declaredLabel state ident) := by
  unfold declaredLabel
  split
  · exact .of_cons (.redefinedLabel ident.name) rfl rfl
  · exact .of_eq rfl

theorem notes_bound (packageName : String → String) (spec : ImportSpec) :
    state.Notes (bound state packageName spec) := by
  have bind (state : CheckState) (name : String) :
      state.Notes (if state.declares name then
          state.made.reporting spec.span.start (.redeclared name)
        else
          state.made.holding (state.fresh name .package spec.span.start)) := by
    split
    · exact .of_cons (.redeclared name) rfl rfl
    · exact .of_eq (found_holding state.made _)
  unfold bound
  cases boundName? packageName spec with
  | none =>
      dsimp only
      split <;> exact .of_eq rfl
  | some name =>
      cases spec.name.any (·.name = ".") with
      | false => exact bind state name
      | true => exact bind { state with lenient := true } name

theorem isPassing_of_mem_unusedLabels {labels : List Label} {entry : Finding × Pos}
    (mem : entry ∈ unusedLabels labels) : entry.1.isPassing := by
  obtain ⟨label, -, rfl⟩ := List.mem_map.mp mem
  rfl

end Check

namespace Event

/-- What an event finds passes, or is that a `:=` has no new names. -/
theorem exists_found (packageName : String → String) (point : CheckPoint) (happens : Event) :
    ∃ added, (happens.next packageName point).state.found = added ++ point.state.found ∧
      ∀ entry ∈ added, entry.1.isPassing ∨
        entry.1 = .noNewVariables ∧ happens = .endDefine entry.2 := by
  have passing {new : CheckPoint} (notes : point.state.Notes new.state) :
      ∃ added, new.state.found = added ++ point.state.found ∧
        ∀ entry ∈ added, entry.1.isPassing ∨
          entry.1 = .noNewVariables ∧ happens = .endDefine entry.2 := by
    obtain ⟨added, foundEq, areNoted⟩ := notes
    exact ⟨added, foundEq, fun entry isAdded => .inl (areNoted entry isAdded)⟩
  cases happens with
  | use name => exact passing (Check.notes_usedName _ name)
  | select name =>
      refine passing ?_
      simp only [next]
      split
      · exact Check.notes_usedName _ name
      · exact Check.notes_resolved _ name
  | assign name => exact passing (Check.notes_assigned _ name)
  | key name => exact passing (Check.notes_usedKey _ name)
  | declare name kind => exact passing (Check.notes_declared _ name kind)
  | declareLocal name => exact passing (Check.notes_declaredLocal _ name)
  | param name => exact passing (Check.notes_declaredParam _ name)
  | defineName name =>
      refine passing ?_
      simp only [next]
      split
      · exact .of_eq rfl
      · exact Check.notes_declaredLocal _ name
  | notAName target =>
      refine passing ?_
      simp only [next]
      split
      · exact .of_eq rfl
      · exact .of_cons (.notAName _) rfl rfl
  | endDefine tokPos =>
      simp only [next]
      split
      · exact passing (.of_eq rfl)
      · exact ⟨[(.noNewVariables, tokPos)], rfl, by simp⟩
  | label name => exact passing (Check.notes_declaredLabel _ name)
  | useLabel name => exact passing (Check.notes_usedLabel _ name)
  | closeLabels =>
      refine passing ⟨_, rfl, fun entry isAdded => ?_⟩
      exact Check.isPassing_of_mem_unusedLabels (List.mem_reverse.mp isAdded)
  | symbol name tokPos =>
      refine passing ?_
      simp only [next]
      split
      · exact .of_cons .noNewVariable rfl rfl
      · exact .of_eq rfl
  | notASymbol tokPos => exact passing (.of_cons .noNewVariable rfl rfl)
  | clause =>
      refine passing ?_
      simp only [next]
      split
      · exact .of_eq rfl
      · split
        · exact .of_eq rfl
        · exact .of_eq (Check.found_holding point.state _)
  | bind spec => exact passing (Check.notes_bound _ packageName spec)
  | _ => exact passing (.of_eq rfl)

end Event

end GoMend
