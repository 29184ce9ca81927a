import GoMend.Proofs.Check.Objects

/-!
# Runs of a check

The events of a sound package lead to a state in which every object has its own number and every
variable its own place, so that a diagnostic about a variable is about one object.  What is not read
is found at the end only.
-/

namespace GoMend

theorem Scope.kind_ne_var_of_mem_outermost {object : Object}
    (mem : object ∈ Scope.outermost.objects) : object.kind ≠ .var := by
  have all : Scope.outermost.objects.all (·.kind ≠ .var) := by decide
  simpa using List.all_eq_true.mp all object mem

theorem Event.spot?_of_declared? {happens : Event} {name : Ident}
    (declares : happens.declared? = some name) : happens.spot? = some name.span.start := by
  cases happens with
  | endDefine tokPos => cases declares
  | _ => exact congrArg (Option.map (·.span.start)) declares

theorem Event.eq_bind_of_bound? {happens : Event} {spec : ImportSpec}
    (binds : happens.bound? = some spec) : happens = .bind spec := by
  cases happens with
  | bind other => rw [Option.some.inj binds]
  | _ => cases binds

/-- The objects that the events so far have made, and where the state holds them. -/
structure Tracks (done : List Event) (point : CheckPoint) (made : List Object) : Prop where
  nextId : point.state.nextId = Scope.outermost.objects.length + made.length
  ids : made.map (·.id) = List.range' Scope.outermost.objects.length made.length
  spots : ((made.filter (·.kind = .var)).map (·.pos)).Sublist (spots done)
  named : ∀ object ∈ made, object.kind = .var → ∃ happens ∈ done, ∃ name : Ident,
    happens.declared? = some name ∧ object.name = name.name ∧ object.pos = name.span.start
  scopes : ∀ scope ∈ point.state.scopes, ∀ object ∈ scope.objects,
    object ∈ Scope.outermost.objects ∨ object ∈ made
  symbols : ∀ object, some object ∈ point.symbols → object ∈ made
  locals : point.state.locals.reverse.Sublist (made.filter (·.kind = .var))
  imports : ∀ entry ∈ point.state.imports,
    entry.object ∈ made ∧ entry.object.kind = .package ∧ .bind entry.spec ∈ done

namespace Tracks

variable {done : List Event} {point : CheckPoint} {made : List Object}

theorem start : Tracks [] {} [] where
  nextId := rfl
  ids := rfl
  spots := List.nil_sublist _
  named := by simp
  scopes := by simp
  symbols := by simp
  locals := List.nil_sublist _
  imports := by simp

/-- What an event makes is tracked with the rest. -/
theorem next (tracks : Tracks done point made) (packageName : String → String) (happens : Event) :
    ∃ more, Tracks (done ++ [happens]) (happens.next packageName point) (made ++ more) := by
  obtain ⟨more, adds, symbols⟩ := happens.exists_adds packageName point
  refine ⟨more, ⟨?_, ?_, ?_, ?_, ?_, ?_, ?_, ?_⟩⟩
  · rw [adds.nextId, tracks.nextId, List.length_append, Nat.add_assoc]
  · have moreIds : more.map (·.id) =
        List.range' (Scope.outermost.objects.length + made.length) more.length := by
      cases more with
      | nil => rfl
      | cons object others =>
          obtain ⟨single, isNext⟩ := adds.ids object List.mem_cons_self
          obtain rfl : others = [] := by simpa using single
          simp [isNext, tracks.nextId]
    rw [List.map_append, tracks.ids, moreIds, List.length_append, List.range'_append_1]
  · rw [List.filter_append, List.map_append, spots_append]
    refine tracks.spots.append ?_
    cases more with
    | nil => exact List.nil_sublist _
    | cons object others =>
        obtain ⟨single, -⟩ := adds.ids object List.mem_cons_self
        obtain rfl : others = [] := by simpa using single
        by_cases isVar : object.kind = .var
        · obtain ⟨name, declares, -, posEq⟩ := adds.named object List.mem_cons_self isVar
          have isSpot : happens.spot? = some object.pos := posEq ▸ Event.spot?_of_declared? declares
          simp [GoMend.spots, isVar, isSpot]
        · simp [isVar]
  · intro object mem isVar
    obtain mem | mem := List.mem_append.mp mem
    · obtain ⟨earlier, isEarlier, rest⟩ := tracks.named object mem isVar
      exact ⟨earlier, List.mem_append_left _ isEarlier, rest⟩
    · obtain ⟨name, rest⟩ := adds.named object mem isVar
      exact ⟨happens, by simp, name, rest⟩
  · intro scope isScope object isObject
    obtain ⟨outer, isOuter, isOld⟩ | isMore | isSymbol := adds.scopes scope isScope object isObject
    · exact (tracks.scopes outer isOuter object isOld).imp_right (List.mem_append_left _)
    · exact .inr (List.mem_append_right _ isMore)
    · exact .inr (List.mem_append_left _ (tracks.symbols object isSymbol))
  · intro object isSymbol
    obtain isOld | isMore := symbols object isSymbol
    · exact List.mem_append_left _ (tracks.symbols object isOld)
    · exact List.mem_append_right _ isMore
  · rw [List.filter_append]
    obtain same | ⟨object, rfl, isVar, localsEq⟩ := adds.locals
    · rw [same]
      exact tracks.locals.trans (List.sublist_append_left ..)
    · rw [localsEq, List.reverse_cons]
      exact tracks.locals.append (by simp [isVar])
  · intro entry isEntry
    obtain isOld | ⟨isMore, isPackage, isBind⟩ := adds.imports entry isEntry
    · obtain ⟨isMade, isPackage, isDone⟩ := tracks.imports entry isOld
      exact ⟨List.mem_append_left _ isMade, isPackage, List.mem_append_left _ isDone⟩
    · obtain rfl := Event.eq_bind_of_bound? isBind
      exact ⟨List.mem_append_right _ isMore, isPackage, by simp⟩

/-- What some events make is tracked with the rest. -/
theorem run {packageName : String → String} {events : List Event} {after : CheckPoint}
    (tracks : Tracks done point made)
    (outcome : Event.run packageName events point = .ok after) :
    ∃ more, Tracks (done ++ events) after (made ++ more) := by
  refine Event.run_keeps (fun done point => ∃ more, Tracks done point (made ++ more))
    (fun done happens point ⟨more, tracks⟩ => ?_) ⟨[], by simpa using tracks⟩ outcome
  obtain ⟨others, tracks⟩ := tracks.next packageName happens
  exact ⟨more ++ others, by rwa [← List.append_assoc]⟩

theorem eq_of_id (tracks : Tracks done point made) {first second : Object} (isFirst : first ∈ made)
    (isSecond : second ∈ made) (same : first.id = second.id) : first = second := by
  have nodup : (made.map (·.id)).Nodup := tracks.ids ▸ List.nodup_range'
  exact List.inj_on_of_nodup_map nodup isFirst isSecond same

/-- No two variables stand at one place. -/
theorem eq_of_pos (tracks : Tracks done point made) (nodup : (GoMend.spots done).Nodup)
    {first second : Object} (isFirst : first ∈ made) (isSecond : second ∈ made)
    (firstVar : first.kind = .var) (secondVar : second.kind = .var)
    (same : first.pos = second.pos) : first = second := by
  refine List.inj_on_of_nodup_map (nodup.sublist tracks.spots) ?_ ?_ same
  · exact List.mem_filter.mpr ⟨isFirst, by simpa using firstVar⟩
  · exact List.mem_filter.mpr ⟨isSecond, by simpa using secondVar⟩

theorem mem_of_lookup? (tracks : Tracks done point made) {name : String} {object : Object}
    (found : Scope.lookup? point.state.scopes name = some object) (isVar : object.kind = .var) :
    object ∈ made ∧ object.name = name := by
  obtain ⟨scope, isScope, inScope⟩ := List.exists_of_findSome?_eq_some found
  have isObject := List.mem_of_find?_eq_some inScope
  refine ⟨?_, by simpa using List.find?_some inScope⟩
  exact (tracks.scopes scope isScope object isObject).resolve_left
    fun predeclared => Scope.kind_ne_var_of_mem_outermost predeclared isVar

theorem mem_of_local (tracks : Tracks done point made) {object : Object}
    (mem : object ∈ point.state.locals) : object ∈ made ∧ object.kind = .var := by
  have mem := List.mem_filter.mp (tracks.locals.subset (List.mem_reverse.mpr mem))
  exact ⟨mem.1, by simpa using mem.2⟩

theorem nodup_locals (tracks : Tracks done point made) : point.state.locals.Nodup := by
  have nodup : (made.map (·.id)).Nodup := tracks.ids ▸ List.nodup_range'
  exact List.nodup_reverse.mp ((nodup.of_map _).filter _ |>.sublist tracks.locals)

end Tracks

/-! ### What is found on the way -/

/-- What some events can find: that a `:=` has no new names is found where it ends. -/
def FoundBy (done : List Event) (found : List (Finding × Pos)) : Prop :=
  ∀ entry ∈ found, entry.1.isPassing ∨ entry.1 = .noNewVariables ∧ .endDefine entry.2 ∈ done

theorem FoundBy.run {packageName : String → String} {done events : List Event}
    {point after : CheckPoint} (found : FoundBy done point.state.found)
    (outcome : Event.run packageName events point = .ok after) :
    FoundBy (done ++ events) after.state.found := by
  refine Event.run_keeps (fun done point => FoundBy done point.state.found) ?_ found outcome
  intro done happens point found entry isEntry
  obtain ⟨added, foundEq, areAdded⟩ := happens.exists_found packageName point
  rw [foundEq] at isEntry
  obtain isAdded | isOld := List.mem_append.mp isEntry
  · exact (areAdded entry isAdded).imp_right fun ⟨isDefine, same⟩ => ⟨isDefine, by simp [same]⟩
  · exact (found entry isOld).imp_right fun ⟨isDefine, isDone⟩ =>
      ⟨isDefine, List.mem_append_left _ isDone⟩

theorem FoundBy.of_run {packageName : String → String} {events : List Event} {after : CheckPoint}
    (outcome : Event.run packageName events {} = .ok after) : FoundBy events after.state.found := by
  have start : FoundBy [] ({} : CheckPoint).state.found := by simp [FoundBy]
  exact start.run outcome

/-- What is found about imports at the end. -/
theorem CheckState.eq_of_mem_unusedImports {state : CheckState} {finding : Finding} {pos : Pos}
    (isFound : (finding, pos) ∈ state.unusedImports) :
    (∃ path, finding = .unusedImport path) ∨ ∃ path name, finding = .unusedNamedImport path name := by
  obtain ⟨entry, -, same⟩ := List.mem_map.mp isFound
  obtain ⟨rfl, -⟩ := Prod.mk.inj same
  unfold unusedImport
  split
  · exact .inl ⟨_, rfl⟩
  · exact .inr ⟨_, _, rfl⟩

namespace Event

variable {packageName : String → String} {point after : CheckPoint}

theorem exists_of_run_append {first second : List Event}
    (outcome : run packageName (first ++ second) point = .ok after) :
    ∃ middle, run packageName first point = .ok middle ∧
      run packageName second middle = .ok after := by
  rw [run_append] at outcome
  cases firstRun : run packageName first point with
  | error error =>
      rw [firstRun] at outcome
      cases outcome
  | ok middle => exact ⟨middle, rfl, by rwa [firstRun] at outcome⟩

/-- Events note the same whatever was noted before them. -/
theorem exists_noted {events : List Event} (outcome : run packageName events point = .ok after) :
    ∃ reads later, FoundBy events later ∧ after.state.used = reads ++ point.state.used ∧
      after.state.found = later ++ point.state.found ∧ ∀ used found,
        run packageName events { point with state := { point.state with used, found } } =
          .ok { after with state := { after.state with
            used := reads ++ used, found := later ++ found } } := by
  let bare : CheckPoint := { point with state := { point.state with used := [], found := [] } }
  have ontoEq (used : List Nat) (found : List (Finding × Pos)) :
      { point with state := { point.state with used, found } } = bare.onto used found :=
    rfl
  rw [show point = bare.onto point.state.used point.state.found from rfl, run_onto] at outcome
  cases bareRun : run packageName events bare with
  | error error =>
      rw [bareRun] at outcome
      cases outcome
  | ok bareAfter =>
      rw [bareRun] at outcome
      obtain rfl := Except.ok.inj outcome
      have start : FoundBy [] bare.state.found := by simp [FoundBy, bare]
      refine ⟨bareAfter.state.used, bareAfter.state.found, start.run bareRun, rfl, rfl,
        fun used found => ?_⟩
      rw [ontoEq, run_onto, bareRun]
      rfl

end Event

end GoMend
