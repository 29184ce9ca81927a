import GoMend.Proofs.Check.Effect
import Mathlib.Data.List.Forall2
import Mathlib.Data.Option.Basic
import Mathlib.Order.Basic

/-!
# Twin checks

Two checks perform the same events, one in the midst of a package and one in another.  They begin
with other objects in their scopes, but with the same names, and give other numbers to what they
make.  The checks go on alike: what they find is the same, and what the one reads the other one
reads too.
-/

namespace GoMend

/-- How a check numbers its objects: below the first bound are those that it knows from the
beginning, and from the second one on those that it makes. -/
structure Numbering where
  known : Nat
  start : Nat

section Relations

variable (left right : Numbering) (count : Nat)

/-- Numbers of objects that are known, or of the same one among those that were made. -/
def TwinIds (first second : Nat) : Prop :=
  (first < left.known ∧ second < right.known) ∨
    ∃ offset < count, first = left.start + offset ∧ second = right.start + offset

/-- The same object among those that were made. -/
structure TwinMade (first second : Object) : Prop where
  ids : ∃ offset < count, first.id = left.start + offset ∧ second.id = right.start + offset
  name : first.name = second.name
  kind : first.kind = second.kind
  pos : first.pos = second.pos

/-- Objects that are known and are no packages, or the same object among those that were made. -/
def TwinObjects (first second : Object) : Prop :=
  (first.id < left.known ∧ second.id < right.known ∧ first.kind ≠ .package ∧
      second.kind ≠ .package) ∨
    TwinMade left right count first second

/-- Scopes that declare the same names. -/
def TwinScopes (first second : Scope) : Prop :=
  ∀ name, Option.Rel (TwinObjects left right count) (first.find? name) (second.find? name)

/-- The same import. -/
structure TwinImports (first second : ImportedName) : Prop where
  object : TwinMade left right count first.object second.object
  spec : first.spec = second.spec

end Relations

/-- Lists that have got corresponding elements in front. -/
def TwinGrowth {α : Type} (relation : α → α → Prop) (old old' new new' : List α) : Prop :=
  ∃ added added', new = added ++ old ∧ new' = added' ++ old' ∧ List.Forall₂ relation added added'

namespace TwinGrowth

variable {α : Type} {relation wider : α → α → Prop} {old old' new new' : List α}

theorem start (relation : α → α → Prop) (old old' : List α) :
    TwinGrowth relation old old' old old' :=
  ⟨[], [], rfl, rfl, .nil⟩

theorem cons {first second : α} (growth : TwinGrowth relation old old' new new')
    (related : relation first second) :
    TwinGrowth relation old old' (first :: new) (second :: new') := by
  obtain ⟨added, added', rfl, rfl, each⟩ := growth
  exact ⟨first :: added, second :: added', rfl, rfl, .cons related each⟩

theorem mono (growth : TwinGrowth relation old old' new new')
    (wide : ∀ first second, relation first second → wider first second) :
    TwinGrowth wider old old' new new' := by
  obtain ⟨added, added', isNew, isNew', each⟩ := growth
  exact ⟨added, added', isNew, isNew', each.imp fun _ _ related => wide _ _ related⟩

end TwinGrowth

/-- Related results are both there, or neither is. -/
theorem none_or_some_of_rel {α : Type} {relation : α → α → Prop} {first second : Option α}
    (related : Option.Rel relation first second) :
    first = none ∧ second = none ∨
      ∃ value other, first = some value ∧ second = some other ∧ relation value other := by
  cases related with
  | none => exact .inl ⟨rfl, rfl⟩
  | some related => exact .inr ⟨_, _, rfl, rfl, related⟩

theorem forall₂_tail {α : Type} {relation : α → α → Prop} {first second : List α}
    (each : List.Forall₂ relation first second) :
    List.Forall₂ relation first.tail second.tail := by
  cases each with
  | nil => exact .nil
  | cons head others => exact others

variable {left right : Numbering} {count more : Nat}

theorem TwinIds.mono {first second : Nat} (twins : TwinIds left right count first second)
    (le : count ≤ more) : TwinIds left right more first second :=
  twins.imp_right fun ⟨offset, inside, same⟩ => ⟨offset, by omega, same⟩

namespace TwinMade

variable {first second : Object}

theorem mono (twins : TwinMade left right count first second) (le : count ≤ more) :
    TwinMade left right more first second := by
  obtain ⟨⟨offset, inside, same⟩, name, kind, pos⟩ := twins
  exact ⟨⟨offset, by omega, same⟩, name, kind, pos⟩

end TwinMade

namespace TwinObjects

variable {first second : Object}

theorem mono (twins : TwinObjects left right count first second) (le : count ≤ more) :
    TwinObjects left right more first second :=
  twins.imp_right fun made => made.mono le

theorem ids (twins : TwinObjects left right count first second) :
    TwinIds left right count first.id second.id := by
  rcases twins with known | made
  · exact .inl ⟨known.1, known.2.1⟩
  · exact .inr made.ids

theorem isPackage_iff (twins : TwinObjects left right count first second) :
    first.kind = .package ↔ second.kind = .package := by
  rcases twins with known | made
  · simp [known.2.2.1, known.2.2.2]
  · rw [made.kind]

end TwinObjects

/-! ### Twin states -/

/-- States of two checks that have done the same since they were in the given states. -/
structure TwinStates (left right : Numbering) (count : Nat) (old old' state state' : CheckState) :
    Prop where
  nextId : state.nextId = left.start + count ∧ state'.nextId = right.start + count
  scopes : List.Forall₂ (TwinScopes left right count) state.scopes state'.scopes
  used : TwinGrowth (TwinIds left right count) old.used old'.used state.used state'.used
  locals : TwinGrowth (TwinMade left right count) old.locals old'.locals state.locals state'.locals
  imports : TwinGrowth (TwinImports left right count) old.imports old'.imports state.imports
    state'.imports
  labels : state.labels = state'.labels
  lenient : state.lenient = state'.lenient
  found : ∃ added, state.found = added ++ old.found ∧ state'.found = added ++ old'.found

namespace TwinStates

variable {old old' state state' : CheckState}

theorem lookup? (twins : TwinStates left right count old old' state state') (name : String) :
    Option.Rel (TwinObjects left right count) (Scope.lookup? state.scopes name)
      (Scope.lookup? state'.scopes name) := by
  have each := twins.scopes
  unfold Scope.lookup?
  generalize state.scopes = scopes at each ⊢
  generalize state'.scopes = scopes' at each ⊢
  induction each with
  | nil => exact .none
  | cons first others ih =>
      simp only [List.findSome?_cons]
      rcases none_or_some_of_rel (first name) with ⟨none, none'⟩ | ⟨value, other, found, found', related⟩
      · rw [none, none']
        exact ih
      · rw [found, found']
        exact .some related

theorem declares_eq (twins : TwinStates left right count old old' state state') (name : String) :
    state.declares name = state'.declares name := by
  have each := twins.scopes
  unfold CheckState.declares
  generalize state.scopes = scopes at each ⊢
  generalize state'.scopes = scopes' at each ⊢
  cases each with
  | nil => rfl
  | cons first others =>
      simp only [List.head?_cons, Option.bind_some]
      rcases none_or_some_of_rel (first name) with ⟨none, none'⟩ | ⟨value, other, found, found', related⟩
      · rw [none, none']
      · rw [found, found']
        rfl

theorem reporting (twins : TwinStates left right count old old' state state') (pos : Pos)
    (finding : Finding) :
    TwinStates left right count old old' (state.reporting pos finding)
      (state'.reporting pos finding) := by
  obtain ⟨added, isNew, isNew'⟩ := twins.found
  exact { twins with
    found := ⟨(finding, pos) :: added, congrArg (_ :: ·) isNew, congrArg (_ :: ·) isNew'⟩ }

theorem reading {first second : Object} (twins : TwinStates left right count old old' state state')
    (objects : TwinObjects left right count first second) :
    TwinStates left right count old old' (state.reading first) (state'.reading second) :=
  { twins with used := twins.used.cons objects.ids }

theorem made (twins : TwinStates left right count old old' state state') :
    TwinStates left right (count + 1) old old' state.made state'.made where
  nextId := ⟨congrArg (· + 1) twins.nextId.1, congrArg (· + 1) twins.nextId.2⟩
  scopes := by
    refine twins.scopes.imp fun scope scope' related name => ?_
    rcases none_or_some_of_rel (related name) with ⟨none, none'⟩ | ⟨value, other, found, found', objects⟩
    · rw [none, none']
      exact .none
    · rw [found, found']
      exact .some (objects.mono (Nat.le_succ count))
  used := twins.used.mono fun _ _ ids => ids.mono (Nat.le_succ count)
  locals := twins.locals.mono fun _ _ objects => objects.mono (Nat.le_succ count)
  imports := twins.imports.mono fun _ _ entries =>
    ⟨entries.object.mono (Nat.le_succ count), entries.spec⟩
  labels := twins.labels
  lenient := twins.lenient
  found := twins.found

theorem fresh (twins : TwinStates left right count old old' state state') (name : String)
    (kind : ObjectKind) (pos : Pos) :
    TwinMade left right (count + 1) (state.fresh name kind pos) (state'.fresh name kind pos) :=
  ⟨⟨count, Nat.lt_succ_self count, twins.nextId⟩, rfl, rfl, rfl⟩

theorem holding {first second : Object} (twins : TwinStates left right count old old' state state')
    (objects : TwinMade left right count first second) :
    TwinStates left right count old old' (state.holding first) (state'.holding second) := by
  obtain ⟨scopes, nextId, used, locals, imports, labels, lenient, found⟩ := state
  obtain ⟨scopes', nextId', used', locals', imports', labels', lenient', found'⟩ := state'
  have each : List.Forall₂ (TwinScopes left right count) scopes scopes' := twins.scopes
  cases each with
  | nil => exact twins
  | @cons scope scope' outer outer' inner others =>
      refine { twins with scopes := .cons (fun name => ?_) others }
      simp only [Scope.find?, Scope.add, List.find?_append, List.find?_singleton, ← objects.name]
      rcases none_or_some_of_rel (inner name) with ⟨none, none'⟩ | ⟨value, other, isValue, isOther, related⟩
      · simp only [Scope.find?] at none none'
        rw [none, none', Option.none_or, Option.none_or]
        split
        · exact .some (.inr objects)
        · exact .none
      · simp only [Scope.find?] at isValue isOther
        rw [isValue, isOther]
        exact .some related

theorem awaiting {first second : Object} (twins : TwinStates left right count old old' state state')
    (objects : TwinMade left right count first second) :
    TwinStates left right count old old' (state.awaiting first) (state'.awaiting second) :=
  { twins with locals := twins.locals.cons objects }

section Parts

variable (twins : TwinStates left right count old old' state state') (ident : Ident)

include twins

theorem declared (kind : ObjectKind) : ∃ more, count ≤ more ∧
    TwinStates left right more old old' (Check.declared state ident kind).2
        (Check.declared state' ident kind).2 ∧
      Option.Rel (TwinMade left right more) (Check.declared state ident kind).1
        (Check.declared state' ident kind).1 := by
  unfold Check.declared
  rw [← twins.declares_eq]
  split
  · exact ⟨count, Nat.le_refl _, twins, .none⟩
  · split
    · exact ⟨count + 1, Nat.le_succ _, twins.made.reporting _ _, .none⟩
    · have object := twins.fresh ident.name kind ident.span.start
      exact ⟨count + 1, Nat.le_succ _, twins.made.holding object, .some object⟩

theorem declaredLocal : ∃ more, count ≤ more ∧ TwinStates left right more old old'
    (Check.declaredLocal state ident) (Check.declaredLocal state' ident) := by
  obtain ⟨more, le, states, objects⟩ := twins.declared ident .var
  unfold Check.declaredLocal
  generalize Check.declared state ident .var = outcome at states objects ⊢
  generalize Check.declared state' ident .var = outcome' at states objects ⊢
  obtain ⟨object, after⟩ := outcome
  obtain ⟨object', after'⟩ := outcome'
  cases objects with
  | none => exact ⟨more, le, states⟩
  | some objects => exact ⟨more, le, states.awaiting objects⟩

theorem resolved : TwinStates left right count old old' (Check.resolved state ident).2
      (Check.resolved state' ident).2 ∧
    Option.Rel (TwinObjects left right count) (Check.resolved state ident).1
      (Check.resolved state' ident).1 := by
  unfold Check.resolved
  rcases none_or_some_of_rel (twins.lookup? ident.name) with
    ⟨none, none'⟩ | ⟨object, object', found, found', objects⟩
  · rw [none, none', ← twins.lenient]
    refine ⟨?_, .none⟩
    dsimp only
    split
    · exact twins
    · exact twins.reporting _ _
  · rw [found, found']
    exact ⟨twins.reading objects, .some objects⟩

theorem usedName : TwinStates left right count old old' (Check.usedName state ident)
    (Check.usedName state' ident) := by
  obtain ⟨states, objects⟩ := twins.resolved ident
  unfold Check.usedName
  split
  · exact twins.reporting _ _
  · generalize Check.resolved state ident = outcome at states objects ⊢
    generalize Check.resolved state' ident = outcome' at states objects ⊢
    obtain ⟨object, after⟩ := outcome
    obtain ⟨object', after'⟩ := outcome'
    cases objects with
    | none => exact states
    | some objects =>
        simp only [objects.isPackage_iff]
        split
        · exact states.reporting _ _
        · exact states

theorem assigned : TwinStates left right count old old' (Check.assigned state ident)
    (Check.assigned state' ident) := by
  unfold Check.assigned
  have sameNone : (Scope.lookup? state.scopes ident.name).isNone =
      (Scope.lookup? state'.scopes ident.name).isNone := by
    rcases none_or_some_of_rel (twins.lookup? ident.name) with
      ⟨none, none'⟩ | ⟨object, object', found, found', -⟩
    · rw [none, none']
    · rw [found, found']
      rfl
  rw [sameNone, twins.lenient]
  split
  · exact twins.reporting _ _
  · exact twins

theorem usedKey : TwinStates left right count old old' (Check.usedKey state ident)
    (Check.usedKey state' ident) := by
  unfold Check.usedKey
  rcases none_or_some_of_rel (twins.lookup? ident.name) with
    ⟨none, none'⟩ | ⟨object, object', found, found', objects⟩
  · rw [none, none']
    exact twins
  · rw [found, found']
    exact twins.reading objects

theorem declaredParam : ∃ more, count ≤ more ∧ TwinStates left right more old old'
    (Check.declaredParam state ident) (Check.declaredParam state' ident) := by
  unfold Check.declaredParam
  rw [← twins.declares_eq]
  split
  · exact ⟨count, Nat.le_refl _, twins⟩
  · split
    · exact ⟨count + 1, Nat.le_succ _, twins.made.reporting _ _⟩
    · exact ⟨count + 1, Nat.le_succ _, twins.made.holding (twins.fresh _ _ _)⟩

theorem usedLabel : TwinStates left right count old old' (Check.usedLabel state ident)
    (Check.usedLabel state' ident) := by
  unfold Check.usedLabel
  rw [← twins.labels]
  split
  · exact { twins with labels := rfl }
  · exact twins.reporting _ _

theorem declaredLabel : TwinStates left right count old old' (Check.declaredLabel state ident)
    (Check.declaredLabel state' ident) := by
  unfold Check.declaredLabel
  rw [← twins.labels]
  split
  · exact twins.reporting _ _
  · exact { twins with labels := rfl }

theorem bound (packageName : String → String) (spec : ImportSpec) : ∃ more, count ≤ more ∧
    TwinStates left right more old old' (Check.bound state packageName spec)
      (Check.bound state' packageName spec) := by
  have rest {state state' : CheckState}
      (twins : TwinStates left right count old old' state state') (name : String) :
      TwinStates left right (count + 1) old old'
        (if state.declares name then
          state.made.reporting spec.span.start (.redeclared name)
        else
          state.made.holding (state.fresh name .package spec.span.start))
        (if state'.declares name then
          state'.made.reporting spec.span.start (.redeclared name)
        else
          state'.made.holding (state'.fresh name .package spec.span.start)) := by
    rw [← twins.declares_eq]
    split
    · exact twins.made.reporting _ _
    · exact twins.made.holding (twins.fresh _ _ _)
  unfold Check.bound
  have lenient : TwinStates left right count old old' { state with lenient := true }
      { state' with lenient := true } := { twins with lenient := rfl }
  cases spec.name.any (·.name = ".") <;> cases Check.boundName? packageName spec with
  | none => first | exact ⟨count, Nat.le_refl _, twins⟩ | exact ⟨count, Nat.le_refl _, lenient⟩
  | some name =>
      simp only [if_true, Bool.false_eq_true, if_false]
      first
      | exact ⟨count + 1, Nat.le_succ _, { rest twins name with
          imports := (rest twins name).imports.cons ⟨twins.fresh _ _ _, rfl⟩ }⟩
      | exact ⟨count + 1, Nat.le_succ _, { rest lenient name with
          imports := (rest lenient name).imports.cons ⟨lenient.fresh _ _ _, rfl⟩ }⟩

end Parts

end TwinStates

/-! ### Twin runs -/

/-- Points of two checks that have done the same since they were in the given states. -/
structure TwinPoints (left right : Numbering) (count : Nat) (old old' : CheckState)
    (point point' : CheckPoint) : Prop where
  states : TwinStates left right count old old' point.state point'.state
  outerLabels : point.outerLabels = point'.outerLabels
  symbols : List.Forall₂ (Option.Rel (TwinMade left right count)) point.symbols point'.symbols
  isFresh : point.isFresh = point'.isFresh

namespace TwinPoints

variable {old old' : CheckState} {point point' : CheckPoint}

theorem next (twins : TwinPoints left right count old old' point point')
    (packageName : String → String) (happens : Event) : ∃ more, count ≤ more ∧
    TwinPoints left right more old old' (happens.next packageName point)
      (happens.next packageName point') := by
  obtain ⟨state, outerLabels, symbols, isFresh⟩ := point
  obtain ⟨state', outerLabels', symbols', isFresh'⟩ := point'
  obtain ⟨states, labels, symbolsEach, freshEq⟩ := twins
  dsimp only at states labels symbolsEach freshEq
  subst labels freshEq
  have symbolsMono {more : Nat} (le : count ≤ more) :
      List.Forall₂ (Option.Rel (TwinMade left right more)) symbols symbols' := by
    refine symbolsEach.imp fun symbol symbol' related => ?_
    rcases none_or_some_of_rel related with ⟨rfl, rfl⟩ | ⟨object, object', rfl, rfl, made⟩
    · exact .none
    · exact .some (made.mono le)
  have same {new new' : CheckState} {fresh : Bool}
      (states : TwinStates left right count old old' new new') : ∃ more, count ≤ more ∧
        TwinPoints left right more old old' ⟨new, outerLabels, symbols, fresh⟩
          ⟨new', outerLabels, symbols', fresh⟩ :=
    ⟨count, Nat.le_refl _, states, rfl, symbolsEach, rfl⟩
  have grown {new new' : CheckState} {fresh : Bool}
      (states : ∃ more, count ≤ more ∧ TwinStates left right more old old' new new') :
      ∃ more, count ≤ more ∧
        TwinPoints left right more old old' ⟨new, outerLabels, symbols, fresh⟩
          ⟨new', outerLabels, symbols', fresh⟩ := by
    obtain ⟨more, le, states⟩ := states
    exact ⟨more, le, states, rfl, symbolsMono le, rfl⟩
  cases happens with
  | enter kind =>
      refine same { states with scopes := .cons (fun name => ?_) states.scopes }
      exact .none
  | leave =>
      refine same { states with scopes := ?_ }
      exact forall₂_tail states.scopes
  | use name => exact same (states.usedName name)
  | select name =>
      refine same ?_
      split
      · exact states.usedName name
      · exact (states.resolved name).1
  | assign name => exact same (states.assigned name)
  | key name => exact same (states.usedKey name)
  | declare name kind =>
      obtain ⟨more, le, states, -⟩ := states.declared name kind
      exact grown ⟨more, le, states⟩
  | declareLocal name => exact grown (states.declaredLocal name)
  | param name => exact grown (states.declaredParam name)
  | defineName name =>
      simp only [Event.next, ← states.declares_eq]
      split
      · exact same states
      · exact grown (states.declaredLocal name)
  | notAName target =>
      simp only [Event.next]
      split
      · exact same states
      · exact same (states.reporting _ _)
  | endDefine tokPos =>
      simp only [Event.next]
      split
      · exact same states
      · exact same (states.reporting _ _)
  | openLabels =>
      exact ⟨count, Nat.le_refl _, { states with labels := rfl },
        congrArg (· :: outerLabels) states.labels, symbolsEach, rfl⟩
  | label name => exact same (states.declaredLabel name)
  | useLabel name => exact same (states.usedLabel name)
  | closeLabels =>
      refine ⟨count, Nat.le_refl _, { states with labels := rfl, found := ?_ }, rfl, symbolsEach, rfl⟩
      obtain ⟨added, isNew, isNew'⟩ := states.found
      refine ⟨(Check.unusedLabels state.labels).reverse ++ added, ?_, ?_⟩
      · simp only [Event.next, isNew, List.append_assoc]
      · simp only [Event.next, isNew', states.labels, List.append_assoc]
  | openSwitch => exact ⟨count, Nat.le_refl _, states, rfl, .cons .none symbolsEach, rfl⟩
  | symbol name tokPos =>
      simp only [Event.next]
      split
      · exact same (states.reporting _ _)
      · have object := states.fresh name.name .var name.span.start
        refine ⟨count + 1, Nat.le_succ _, states.made.awaiting object, rfl, .cons (.some object) ?_, rfl⟩
        exact forall₂_tail (symbolsMono (Nat.le_succ _))
  | notASymbol tokPos => exact same (states.reporting _ _)
  | clause =>
      simp only [Event.next]
      have related : Option.Rel (TwinMade left right count) (symbols.headD none)
          (symbols'.headD none) := by
        cases symbolsEach with
        | nil => exact .none
        | cons first others => exact first
      rcases none_or_some_of_rel related with ⟨none, none'⟩ | ⟨object, object', found, found', made⟩
      · rw [none, none']
        exact same states
      · simp only [found, found', ← made.name, ← states.declares_eq]
        split
        · exact same states
        · exact same (states.holding made)
  | closeSwitch =>
      exact ⟨count, Nat.le_refl _, states, rfl, forall₂_tail symbolsEach, rfl⟩
  | beginFile => exact same { states with lenient := rfl }
  | bind spec => exact grown (states.bound packageName spec)
  | reject => exact same states

/-- Twin checks stay twins while they perform the same events. -/
theorem run (twins : TwinPoints left right count old old' point point')
    {packageName : String → String} {events : List Event} {after : CheckPoint}
    (outcome : Event.run packageName events point = .ok after) :
    ∃ after' more, Event.run packageName events point' = .ok after' ∧ count ≤ more ∧
      TwinPoints left right more old old' after after' := by
  induction events generalizing point point' count with
  | nil => exact ⟨point', count, rfl, Nat.le_refl _, Except.ok.inj outcome ▸ twins⟩
  | cons happens events ih =>
      rw [Event.run_cons] at outcome ⊢
      cases failed : happens.failure? with
      | some error => simp [failed] at outcome
      | none =>
          rw [failed] at outcome
          obtain ⟨more, le, twins⟩ := twins.next packageName happens
          obtain ⟨after', most, outcome', leMost, twins⟩ := ih twins outcome
          exact ⟨after', most, outcome', Nat.le_trans le leMost, twins⟩

end TwinPoints

end GoMend
