import GoMend.Proofs.Check.Nesting
import GoMend.Proofs.Check.Twins

/-!
# The findings of a package, file by file

A check first declares the names of all files and then looks at the files one after the other.  The
second part finds in a file what it would find there if only the names of the package were known:
nothing else of the other files can be seen.  So the findings of a package are those of its files.
-/

namespace GoMend

/-! ### The names of a package -/

/-- The names that an item of a declaration with the given keyword declares in a package. -/
def Spec.declarations (tok : Token) : Spec → List (Ident × ObjectKind)
  | .importSpec _ => []
  | .valueSpec _ names _ _ => names.map fun name => (name, if tok = .kwConst then .const else .var)
  | .typeSpec _ name _ _ => [(name, .type)]

/-- The names that a declaration declares in a package.  Methods and `init` declare none. -/
def Decl.declarations : Decl → List (Ident × ObjectKind)
  | .gen item => item.specs.flatMap (Spec.declarations item.tok)
  | .func item =>
      if item.recv.isSome || item.name.name = "init" then [] else [(item.name, .func)]

/-- The names that are known after some declarations. -/
def declaredNames (declarations : List (Ident × ObjectKind)) : List String :=
  (declarations.filter fun declaration => !declaration.1.isBlank).map (·.1.name)

namespace File

/-- The names that a file declares in its package, each with what it denotes. -/
def declarations (file : File) : List (Ident × ObjectKind) :=
  file.decls.flatMap Decl.declarations

/-- The names that are known in the whole package because a file declares them. -/
def packageNames (file : File) : List String :=
  declaredNames file.declarations

end File

/-- What is found about names of a package that are declared again, when some are taken. -/
def redeclared (taken : List String) : List (Ident × ObjectKind) → List (Finding × Pos)
  | [] => []
  | (ident, _) :: others =>
      if ident.isBlank then
        redeclared taken others
      else if ident.name ∈ taken then
        (.redeclared ident.name, ident.span.start) :: redeclared taken others
      else
        redeclared (ident.name :: taken) others

/-- The kinds of the objects of a package. -/
theorem kind_ne_package_of_mem_declarations {file : File} {ident : Ident} {kind : ObjectKind}
    (mem : (ident, kind) ∈ file.declarations) : kind ≠ .package := by
  obtain ⟨item, -, mem⟩ := List.mem_flatMap.mp mem
  cases item with
  | gen item =>
      obtain ⟨spec, -, mem⟩ := List.mem_flatMap.mp mem
      cases spec with
      | importSpec => cases mem
      | valueSpec span names type values =>
          obtain ⟨name, -, same⟩ := List.mem_map.mp mem
          simp only [Prod.mk.injEq] at same
          rw [← same.2]
          split <;> simp
      | typeSpec span name type isAlias =>
          simp only [Spec.declarations, List.mem_singleton, Prod.mk.injEq] at mem
          simp [mem.2]
  | func item =>
      simp only [Decl.declarations] at mem
      split at mem
      · cases mem
      · simp only [List.mem_singleton, Prod.mk.injEq] at mem
        simp [mem.2]

/-- The events in which a file declares its names in the package. -/
def declareEvents (declarations : List (Ident × ObjectKind)) : List Event :=
  declarations.map fun declaration => .declare declaration.1 declaration.2

theorem events_package (file : File) :
    (Node.file file).events .package = declareEvents file.declarations := by
  have specEvents (tok : Token) (item : Spec) :
      (Node.spec item).events (.packageSpec tok) = declareEvents (item.declarations tok) := by
    rw [Node.events_eq]
    cases item <;> simp [Node.plan, Node.children, Node.specChildren, Node.ident, Node.namePlan,
      declareEvents, Spec.declarations, List.flatMap_map, Function.comp_def, ← List.map_eq_flatMap]
  have declEvents (item : Decl) :
      (Node.decl item).events .package = declareEvents item.declarations := by
    rw [Node.events_eq]
    cases item with
    | gen item =>
        simp [Node.plan, Node.children, Node.declChildren, declareEvents, Decl.declarations,
          List.flatMap_map, List.map_flatMap, specEvents]
    | func item =>
        obtain ⟨span, recv, name, type, body⟩ := item
        by_cases isInit : name.name = "init" <;> cases recv <;>
          simp [Node.plan, Node.children, Node.declChildren, Node.ident, Node.namePlan,
            declareEvents, Decl.declarations, isInit]
  rw [Node.events_eq]
  simp [Node.plan, Node.children, List.flatMap_map, declareEvents, File.declarations,
    List.map_flatMap, declEvents]

/-! ### Declaring names -/

/-- A state in which the names of a package are being declared. -/
structure PackageState (names : List String) (state : CheckState) : Prop where
  scopes : ∃ scope, state.scopes = [scope, Scope.outermost] ∧
    (∀ name, (scope.find? name).isSome ↔ name ∈ names) ∧
    ∀ object ∈ scope.objects, object.id < state.nextId ∧ object.kind ≠ .package
  nextId : Scope.outermost.objects.length ≤ state.nextId
  used : state.used = []
  locals : state.locals = []
  imports : state.imports = []
  labels : state.labels = []

theorem Scope.isSome_find?_add (scope : Scope) (object : Object) (name : String) :
    ((scope.add object).find? name).isSome ↔ (scope.find? name).isSome ∨ object.name = name := by
  simp [Scope.find?, Scope.add, List.find?_append]

namespace PackageState

variable {names : List String} {state : CheckState}

theorem declares_iff (package : PackageState names state) (name : String) :
    state.declares name ↔ name ∈ names := by
  obtain ⟨scope, scopesEq, isName, -⟩ := package.scopes
  rw [← isName, CheckState.declares, scopesEq]
  rfl

/-- One more name is declared, or was declared before. -/
theorem declared (package : PackageState names state) (ident : Ident) {kind : ObjectKind}
    (notPackage : kind ≠ .package) :
    PackageState (names ++ declaredNames [(ident, kind)]) (Check.declared state ident kind).2 ∧
      (Check.declared state ident kind).2.found =
        (redeclared names [(ident, kind)]).reverse ++ state.found := by
  obtain ⟨scope, scopesEq, isName, objects⟩ := package.scopes
  by_cases blank : ident.isBlank
  · simp only [Check.declared, blank, if_true, declaredNames, redeclared]
    simpa [blank] using package
  · have namesEq : declaredNames [(ident, kind)] = [ident.name] := by simp [declaredNames, blank]
    rw [namesEq]
    by_cases taken : ident.name ∈ names
    · have declares := (package.declares_iff ident.name).mpr taken
      simp only [Check.declared, blank, declares, if_true, Bool.false_eq_true, if_false, redeclared,
        taken]
      refine ⟨{ package with
          scopes := ⟨scope, scopesEq, fun name => ?_, fun object mem => ?_⟩
          nextId := Nat.le_succ_of_le package.nextId }, rfl⟩
      · rw [isName]
        simp only [List.mem_append, List.mem_singleton]
        exact ⟨.inl, fun known => known.elim id fun same => same ▸ taken⟩
      · exact ⟨Nat.lt_succ_of_lt (objects object mem).1, (objects object mem).2⟩
    · have declares : state.declares ident.name = false := by
        simpa using fun declares => taken ((package.declares_iff ident.name).mp declares)
      obtain ⟨scopes, nextId, used, locals, imports, labels, lenient, found⟩ := state
      obtain rfl : scopes = [scope, Scope.outermost] := scopesEq
      simp only [Check.declared, blank, declares, Bool.false_eq_true, if_false, redeclared, taken]
      refine ⟨{ package with
          scopes := ⟨scope.add _, rfl, fun name => ?_, fun object mem => ?_⟩
          nextId := Nat.le_succ_of_le package.nextId }, rfl⟩
      · rw [Scope.isSome_find?_add, isName, List.mem_append, List.mem_singleton]
        exact or_congr Iff.rfl eq_comm
      · rcases List.mem_append.mp mem with isOld | isNew
        · exact ⟨Nat.lt_succ_of_lt (objects object isOld).1, (objects object isOld).2⟩
        · obtain rfl := List.mem_singleton.mp isNew
          exact ⟨Nat.lt_succ_self _, notPackage⟩

end PackageState

/-- What is found about names that are declared again depends on which names are taken. -/
theorem redeclared_congr {taken other : List String} {declarations : List (Ident × ObjectKind)}
    (same : ∀ name ∈ declaredNames declarations, name ∈ taken ↔ name ∈ other) :
    redeclared taken declarations = redeclared other declarations := by
  induction declarations generalizing taken other with
  | nil => rfl
  | cons declaration declarations ih =>
      obtain ⟨ident, kind⟩ := declaration
      simp only [redeclared]
      by_cases blank : ident.isBlank
      · simp only [blank, if_true]
        exact ih (by simpa [declaredNames, blank] using same)
      · have namesEq : declaredNames ((ident, kind) :: declarations) =
            ident.name :: declaredNames declarations := by
          simp [declaredNames, blank]
        rw [namesEq, List.forall_mem_cons] at same
        simp only [blank, Bool.false_eq_true, if_false, same.1, ih same.2]
        split
        · rfl
        · refine ih fun name mem => ?_
          simp only [List.mem_cons, same.2 name mem]

theorem declaredNames_append (first second : List (Ident × ObjectKind)) :
    declaredNames (first ++ second) = declaredNames first ++ declaredNames second := by
  simp [declaredNames]

theorem redeclared_append (taken : List String) (first second : List (Ident × ObjectKind)) :
    redeclared taken (first ++ second) =
      redeclared taken first ++ redeclared (taken ++ declaredNames first) second := by
  induction first generalizing taken with
  | nil => simp [redeclared, declaredNames]
  | cons declaration first ih =>
      obtain ⟨ident, kind⟩ := declaration
      simp only [redeclared, List.cons_append]
      by_cases blank : ident.isBlank
      · simp only [blank, if_true, ih]
        simp [declaredNames, blank]
      · have namesEq : declaredNames ((ident, kind) :: first) =
            ident.name :: declaredNames first := by
          simp [declaredNames, blank]
        simp only [blank, Bool.false_eq_true, if_false, ih, namesEq]
        split
        · next isTaken =>
          refine congrArg (_ :: _ ++ ·) (redeclared_congr fun name _ => ?_)
          simp only [List.mem_append, List.mem_cons]
          grind -ring -linarith
        · refine congrArg (_ ++ ·) (redeclared_congr fun name _ => ?_)
          simp only [List.mem_append, List.mem_cons]
          grind -ring -linarith

namespace PackageState

variable {names : List String} {state : CheckState}

/-- The names of a package are declared one after the other. -/
theorem run_declareEvents (package : PackageState names state)
    {declarations : List (Ident × ObjectKind)}
    (notPackage : ∀ declaration ∈ declarations, declaration.2 ≠ .package)
    (packageName : String → String) (outerLabels : List (List Label))
    (symbols : List (Option Object)) (isFresh : Bool) :
    ∃ after, Event.run packageName (declareEvents declarations)
        ⟨state, outerLabels, symbols, isFresh⟩ = .ok ⟨after, outerLabels, symbols, isFresh⟩ ∧
      PackageState (names ++ declaredNames declarations) after ∧
      after.found = (redeclared names declarations).reverse ++ state.found := by
  induction declarations generalizing names state with
  | nil => exact ⟨state, rfl, by simpa [declaredNames] using package, rfl⟩
  | cons declaration declarations ih =>
      obtain ⟨first, others⟩ := List.forall_mem_cons.mp notPackage
      obtain ⟨declared, foundEq⟩ := package.declared declaration.1 first
      obtain ⟨after, outcome, afterPackage, afterFound⟩ := ih declared others
      refine ⟨after, ?_, ?_, ?_⟩
      · rw [declareEvents, List.map_cons, Event.run_cons]
        exact outcome
      · rw [List.append_assoc, ← declaredNames_append] at afterPackage
        exact afterPackage
      · have split := redeclared_append names [declaration] declarations
        rw [List.singleton_append] at split
        rw [afterFound, foundEq, split, List.reverse_append, List.append_assoc]

end PackageState

/-! ### One file -/

/-- What is found in a file on the way, about its variables and about its imports. -/
structure FileFindings where
  noted : List (Finding × Pos)
  locals : List (Finding × Pos)
  imports : List (Finding × Pos)

namespace FileFindings

/-- The findings of a file and then those of others. -/
def append (first second : FileFindings) : FileFindings where
  noted := first.noted ++ second.noted
  locals := first.locals ++ second.locals
  imports := first.imports ++ second.imports

/-- The findings of several files. -/
def join (parts : List FileFindings) : FileFindings where
  noted := parts.flatMap noted
  locals := parts.flatMap locals
  imports := parts.flatMap imports

/-- All findings, in the order in which a check of the file alone would give them. -/
def all (part : FileFindings) : List (Finding × Pos) :=
  part.noted ++ part.locals ++ part.imports

end FileFindings

/-- The state of a check in a package of which only the names are known. -/
def CheckState.alone (names : List String) : CheckState where
  scopes := [{ kind := "package", objects := names.map fun name => { id := 0, name, kind := .var } },
    Scope.outermost]

/-- What is found in a file of a package with the given names, or why it cannot be checked. -/
def File.findings (packageName : String → String) (names : List String) (file : File) :
    Except CheckError FileFindings :=
  (Event.run packageName ((Node.file file).events .file) { state := .alone names }).map
    fun after => ⟨after.state.found.reverse, after.state.unusedLocals, after.state.unusedImports⟩

/-- A state in which all names of a package are declared and the check is in none of its files. -/
structure BetweenFiles (names : List String) (known : Nat) (state : CheckState) : Prop where
  scopes : ∃ scope, state.scopes = [scope, Scope.outermost] ∧
    (∀ name, (scope.find? name).isSome ↔ name ∈ names) ∧
    ∀ object ∈ scope.objects, object.id < known ∧ object.kind ≠ .package
  predeclared : Scope.outermost.objects.length ≤ known
  nextId : known ≤ state.nextId
  used : ∀ id ∈ state.used, id < state.nextId
  labels : state.labels = []

/-- What the check of some files adds to a state. -/
structure AddsFindings (known : Nat) (part : FileFindings) (old new : CheckState) : Prop where
  found : new.found = part.noted.reverse ++ old.found
  nextId : old.nextId ≤ new.nextId
  used : ∃ reads, new.used = reads ++ old.used ∧ ∀ id ∈ reads, id < known ∨ old.nextId ≤ id
  locals : ∃ added, new.locals = added ++ old.locals ∧
    (∀ object ∈ added, old.nextId ≤ object.id ∧ object.id < new.nextId) ∧
    CheckState.unusedLocals { new with locals := added } = part.locals
  imports : ∃ added, new.imports = added ++ old.imports ∧
    (∀ entry ∈ added, old.nextId ≤ entry.object.id ∧ entry.object.id < new.nextId) ∧
    CheckState.unusedImports { new with imports := added } = part.imports

theorem Scope.isKnown_of_mem_outermost {object : Object}
    (mem : object ∈ Scope.outermost.objects) :
    object.id < Scope.outermost.objects.length ∧ object.kind ≠ .package := by
  have all : Scope.outermost.objects.all fun object =>
      object.id < Scope.outermost.objects.length ∧ object.kind ≠ .package := by decide
  simpa using List.all_eq_true.mp all object mem

namespace BetweenFiles

variable {names : List String} {known : Nat} {state : CheckState}

/-- The numbers of a package of which only the names are known. -/
def aloneNumbers : Numbering :=
  ⟨Scope.outermost.objects.length, Scope.outermost.objects.length⟩

/-- A check between two files is the twin of one that knows only the names. -/
theorem twins (between : BetweenFiles names known state) (notLenient : state.lenient = false) :
    TwinStates ⟨known, state.nextId⟩ aloneNumbers 0 state (.alone names) state (.alone names) := by
  obtain ⟨scope, scopesEq, isName, objects⟩ := between.scopes
  refine ⟨⟨rfl, rfl⟩, ?_, .start _ _ _, .start _ _ _, .start _ _ _, between.labels, notLenient,
    ⟨[], rfl, rfl⟩⟩
  rw [scopesEq]
  refine .cons (fun name => ?_) (.cons (fun name => ?_) .nil)
  · have isAlone : (Scope.find? { kind := "package", objects := names.map fun name =>
        { id := 0, name, kind := .var } } name).isSome ↔ name ∈ names := by
      simp [Scope.find?]
    cases found : scope.find? name with
    | none =>
        have notName : name ∉ names := by simp [← isName, found]
        rw [← isAlone, Option.not_isSome_iff_eq_none] at notName
        rw [notName]
        exact .none
    | some object =>
        have isKnown : name ∈ names := by simp [← isName, found]
        rw [← isAlone, Option.isSome_iff_exists] at isKnown
        obtain ⟨other, isOther⟩ := isKnown
        obtain ⟨inside, notPackage⟩ := objects object (List.mem_of_find?_eq_some found)
        obtain ⟨name, -, rfl⟩ := List.mem_map.mp (List.mem_of_find?_eq_some isOther)
        rw [isOther]
        exact .some (.inl ⟨inside, (by decide : 0 < Scope.outermost.objects.length), notPackage,
          by simp⟩)
  · cases found : Scope.outermost.find? name with
    | none => exact .none
    | some object =>
        obtain ⟨inside, notPackage⟩ := Scope.isKnown_of_mem_outermost (List.mem_of_find?_eq_some found)
        exact .some (.inl ⟨Nat.lt_of_lt_of_le inside between.predeclared, inside, notPackage, notPackage⟩)

/-- A file is checked leniently or not on its own account. -/
theorem run_fileEvents (packageName : String → String) (file : File) (state : CheckState)
    (outerLabels : List (List Label)) (symbols : List (Option Object)) (isFresh : Bool) :
    Event.run packageName ((Node.file file).events .file) ⟨state, outerLabels, symbols, isFresh⟩ =
      Event.run packageName ((Node.file file).events .file)
        ⟨{ state with lenient := false }, outerLabels, symbols, isFresh⟩ := by
  rw [Node.events_eq]
  simp only [Node.plan, List.cons_append, List.flatMap_cons, PlanStep.events_event, List.nil_append]
  rfl

/-- A number that was made is read by a check if its twin is read by the other one. -/
theorem mem_reads_iff {left right : Numbering} {count : Nat} {reads reads' : List Nat}
    (each : List.Forall₂ (TwinIds left right count) reads reads') (leftLe : left.known ≤ left.start)
    (rightLe : right.known ≤ right.start) (offset : Nat) :
    left.start + offset ∈ reads ↔ right.start + offset ∈ reads' := by
  induction each with
  | nil => simp
  | cons first others ih =>
      rw [List.mem_cons, List.mem_cons, ih]
      refine or_congr ?_ Iff.rfl
      rcases first with known | ⟨other, -, same, same'⟩ <;> omega

theorem map_filter_eq_of_forall₂ {α β : Type} {relation : α → α → Prop} {first second : List α}
    (each : List.Forall₂ relation first second) {keep keep' : α → Bool} {value value' : α → β}
    (same : ∀ left right, relation left right → keep left = keep' right ∧ value left = value' right) :
    (first.reverse.filter keep).map value = (second.reverse.filter keep').map value' := by
  have reversed := List.rel_reverse each
  generalize first.reverse = front at reversed ⊢
  generalize second.reverse = front' at reversed ⊢
  induction reversed with
  | nil => rfl
  | cons related others ih =>
      obtain ⟨keepEq, valueEq⟩ := same _ _ related
      simp only [List.filter_cons, keepEq]
      split
      · rw [List.map_cons, List.map_cons, valueEq, ih]
      · exact ih

theorem exists_mem_of_forall₂ {α : Type} {relation : α → α → Prop} {first second : List α}
    (each : List.Forall₂ relation first second) {left : α} (mem : left ∈ first) :
    ∃ right, right ∈ second ∧ relation left right := by
  induction each with
  | nil => cases mem
  | cons related others ih =>
      rcases List.mem_cons.mp mem with rfl | mem
      · exact ⟨_, List.mem_cons_self, related⟩
      · obtain ⟨right, isMem, related⟩ := ih mem
        exact ⟨right, List.mem_cons_of_mem _ isMem, related⟩

/-- The check of a file finds in the midst of a package what it finds there alone. -/
theorem addsFindings (between : BetweenFiles names known state) {packageName : String → String}
    {file : File} {after : CheckPoint}
    (outcome : Event.run packageName ((Node.file file).events .file) ⟨state, [], [], false⟩ = .ok after) :
    ∃ part, file.findings packageName names = .ok part ∧ after = ⟨after.state, [], [], false⟩ ∧
      BetweenFiles names known after.state ∧ AddsFindings known part state after.state := by
  have keeps := (Node.events_nested (.file file) .file (by simp)).keeps outcome
  rw [run_fileEvents] at outcome
  have between' : BetweenFiles names known { state with lenient := false } :=
    { between with }
  have points : TwinPoints ⟨known, state.nextId⟩ aloneNumbers 0 { state with lenient := false }
      (.alone names) ⟨{ state with lenient := false }, [], [], false⟩ { state := .alone names } :=
    ⟨between'.twins rfl, rfl, .nil, rfl⟩
  obtain ⟨alone, count, aloneOutcome, -, twins⟩ := points.run outcome
  obtain ⟨⟨nextIdEq, -⟩, -, ⟨reads, reads', used, used', eachRead⟩,
    ⟨added, added', locals, locals', eachLocal⟩, ⟨bound, bound', imports, imports', eachImport⟩, -, -,
    ⟨noted, found, found'⟩⟩ := twins.states
  have isUnread {object object' : Object}
      (made : TwinMade ⟨known, state.nextId⟩ aloneNumbers count object object') :
      (!after.state.used.contains object.id) = !alone.state.used.contains object'.id := by
    obtain ⟨offset, -, isId, isId'⟩ := made.ids
    have isRead := mem_reads_iff eachRead between.nextId (Nat.le_refl _) offset
    have notOld : state.nextId + offset ∉ state.used := fun mem => by
      have := between.used _ mem
      omega
    rw [Bool.eq_iff_iff]
    simp only [Bool.not_eq_true', List.contains_eq_mem, decide_eq_false_iff_not, used, used',
      CheckState.alone, List.append_nil, List.mem_append, isId, isId', ← isRead, notOld, or_false]
  have insideRun {first second : Nat}
      (twins : TwinIds ⟨known, state.nextId⟩ aloneNumbers count first second) :
      first < known ∨ state.nextId ≤ first ∧ first < after.state.nextId := by
    rcases twins with ⟨isKnown, -⟩ | ⟨offset, inside, rfl, -⟩
    · exact .inl isKnown
    · exact .inr ⟨Nat.le_add_right _ _, by rw [nextIdEq]; exact Nat.add_lt_add_left inside _⟩
  have insideMade {object object' : Object}
      (made : TwinMade ⟨known, state.nextId⟩ aloneNumbers count object object') :
      state.nextId ≤ object.id ∧ object.id < after.state.nextId := by
    obtain ⟨offset, inside, isId, -⟩ := made.ids
    rw [isId, nextIdEq]
    exact ⟨Nat.le_add_right _ _, Nat.add_lt_add_left inside _⟩
  have grows : state.nextId ≤ after.state.nextId := nextIdEq ▸ Nat.le_add_right _ _
  have readsInside : ∀ id ∈ reads, id < known ∨ state.nextId ≤ id ∧ id < after.state.nextId :=
    fun id mem => by
      obtain ⟨other, -, twins⟩ := exists_mem_of_forall₂ eachRead mem
      exact insideRun twins
  refine ⟨⟨alone.state.found.reverse, alone.state.unusedLocals, alone.state.unusedImports⟩, ?_, ?_,
    ?_, ?_⟩
  · rw [File.findings, aloneOutcome]
    rfl
  · obtain ⟨afterState, outerLabels, symbols, isFresh⟩ := after
    simp only [CheckPoint.mk.injEq, true_and]
    exact ⟨keeps.outerLabels, keeps.symbols rfl, keeps.isFresh rfl⟩
  · refine ⟨?_, between.predeclared, Nat.le_trans between.nextId grows, ?_, ?_⟩
    · rw [keeps.scopes rfl]
      exact between.scopes
    · intro id mem
      rw [used, List.mem_append] at mem
      rcases mem with mem | mem
      · have := readsInside id mem
        have := between.nextId
        omega
      · exact Nat.lt_of_lt_of_le (between.used id mem) grows
    · rw [keeps.labels rfl]
      exact between.labels
  · refine ⟨?_, grows, ⟨reads, used, fun id mem => (readsInside id mem).imp_right And.left⟩,
      ⟨added, locals, ?_, ?_⟩, ⟨bound, imports, ?_, ?_⟩⟩
    · rw [found, found', List.reverse_reverse, CheckState.alone, List.append_nil]
    · intro object mem
      obtain ⟨other, -, made⟩ := exists_mem_of_forall₂ eachLocal mem
      exact insideMade made
    · rw [CheckState.unusedLocals, CheckState.unusedLocals, locals', CheckState.alone,
        List.append_nil]
      exact map_filter_eq_of_forall₂ eachLocal fun object object' made =>
        ⟨isUnread made, by rw [made.name, made.pos]⟩
    · intro entry mem
      obtain ⟨other, -, made⟩ := exists_mem_of_forall₂ eachImport mem
      exact insideMade made.object
    · rw [CheckState.unusedImports, CheckState.unusedImports, imports', CheckState.alone,
        List.append_nil]
      refine map_filter_eq_of_forall₂ eachImport fun entry entry' made =>
        ⟨isUnread made.object, ?_⟩
      simp only [CheckState.unusedImport, made.spec, made.object.name]

end BetweenFiles

/-- What is found in a file depends on which names are known in the package, and on nothing else of
the other files. -/
theorem File.findings_congr {packageName : String → String} {names others : List String}
    {file : File} {part : FileFindings} (same : ∀ name, name ∈ names ↔ name ∈ others)
    (found : file.findings packageName names = .ok part) :
    file.findings packageName others = .ok part := by
  have between : BetweenFiles others Scope.outermost.objects.length (.alone names) := by
    refine ⟨⟨_, rfl, fun name => ?_, fun object mem => ?_⟩, Nat.le_refl _, Nat.le_refl _, ?_, rfl⟩
    · simp [← same, Scope.find?]
    · obtain ⟨name, -, rfl⟩ := List.mem_map.mp mem
      exact ⟨by show 0 < _; decide, by simp⟩
    · simp [CheckState.alone]
  unfold findings at found
  cases outcome : Event.run packageName ((Node.file file).events .file)
      { state := .alone names } with
  | error error =>
      rw [outcome] at found
      cases found
  | ok after =>
      rw [outcome] at found
      obtain rfl := Except.ok.inj found
      obtain ⟨part, isPart, -, -, adds⟩ := between.addsFindings outcome
      obtain ⟨added, locals, -, unusedLocals⟩ := adds.locals
      obtain ⟨bound, imports, -, unusedImports⟩ := adds.imports
      simp only [CheckState.alone, List.append_nil] at locals imports
      rw [← locals] at unusedLocals
      rw [← imports] at unusedImports
      rw [isPart]
      have noted : after.state.found.reverse = part.noted := by
        rw [adds.found]
        simp [CheckState.alone]
      show Except.ok part = Except.ok ⟨after.state.found.reverse, after.state.unusedLocals,
        after.state.unusedImports⟩
      rw [noted]
      exact congrArg Except.ok (congrArg₂ (FileFindings.mk part.noted) unusedLocals.symm
        unusedImports.symm)

/-! ### All files -/

namespace AddsFindings

variable {known : Nat} {first second : FileFindings} {old middle new : CheckState}

theorem refl (known : Nat) (state : CheckState) :
    AddsFindings known ⟨[], [], []⟩ state state where
  found := rfl
  nextId := Nat.le_refl _
  used := ⟨[], rfl, by simp⟩
  locals := ⟨[], rfl, by simp, rfl⟩
  imports := ⟨[], rfl, by simp, rfl⟩

/-- What is read later was not made before. -/
theorem contains_used (adds : AddsFindings known second middle new) {id : Nat}
    (isMade : known ≤ id) (isOld : id < middle.nextId) :
    new.used.contains id = middle.used.contains id := by
  obtain ⟨reads, used, areNew⟩ := adds.used
  have notRead : id ∉ reads := fun mem => by
    have := areNew id mem
    omega
  rw [Bool.eq_iff_iff]
  simp [used, notRead]

/-- Findings are added to those that were added before. -/
theorem trans (adds : AddsFindings known first old middle)
    (addsMore : AddsFindings known second middle new) (isOld : known ≤ old.nextId) :
    AddsFindings known (first.append second) old new where
  found := by
    rw [addsMore.found, adds.found]
    simp [FileFindings.append]
  nextId := Nat.le_trans adds.nextId addsMore.nextId
  used := by
    obtain ⟨reads, used, areNew⟩ := adds.used
    obtain ⟨others, othersUsed, othersAreNew⟩ := addsMore.used
    refine ⟨others ++ reads, by rw [othersUsed, used, List.append_assoc], fun id mem => ?_⟩
    rcases List.mem_append.mp mem with mem | mem
    · exact (othersAreNew id mem).imp_right (Nat.le_trans adds.nextId)
    · exact areNew id mem
  locals := by
    obtain ⟨added, locals, inside, unused⟩ := adds.locals
    obtain ⟨others, othersLocals, othersInside, othersUnused⟩ := addsMore.locals
    refine ⟨others ++ added, by rw [othersLocals, locals, List.append_assoc], ?_, ?_⟩
    · intro object mem
      rcases List.mem_append.mp mem with mem | mem
      · exact (othersInside object mem).imp_left (Nat.le_trans adds.nextId)
      · exact (inside object mem).imp_right (Nat.lt_of_lt_of_le · addsMore.nextId)
    · rw [FileFindings.append, ← unused, ← othersUnused]
      simp only [CheckState.unusedLocals, List.reverse_append, List.filter_append, List.map_append]
      congr 2
      refine List.filter_congr fun object mem => ?_
      obtain ⟨isMade, isBefore⟩ := inside object (List.mem_reverse.mp mem)
      rw [addsMore.contains_used (Nat.le_trans isOld isMade) isBefore]
  imports := by
    obtain ⟨added, imports, inside, unused⟩ := adds.imports
    obtain ⟨others, othersImports, othersInside, othersUnused⟩ := addsMore.imports
    refine ⟨others ++ added, by rw [othersImports, imports, List.append_assoc], ?_, ?_⟩
    · intro entry mem
      rcases List.mem_append.mp mem with mem | mem
      · exact (othersInside entry mem).imp_left (Nat.le_trans adds.nextId)
      · exact (inside entry mem).imp_right (Nat.lt_of_lt_of_le · addsMore.nextId)
    · rw [FileFindings.append, ← unused, ← othersUnused]
      simp only [CheckState.unusedImports, List.reverse_append, List.filter_append, List.map_append]
      congr 2
      refine List.filter_congr fun entry mem => ?_
      obtain ⟨isMade, isBefore⟩ := inside entry (List.mem_reverse.mp mem)
      rw [addsMore.contains_used (Nat.le_trans isOld isMade) isBefore]

end AddsFindings

/-- What is found in files of a package with the given names. -/
def FilesFindings (packageName : String → String) (names : List String) (files : List File)
    (parts : List FileFindings) : Prop :=
  List.Forall₂ (fun file part => File.findings packageName names file = .ok part) files parts

/-- The check of some files finds in each of them what it finds there alone. -/
theorem BetweenFiles.addsAll {names : List String} {known : Nat} {state : CheckState}
    (between : BetweenFiles names known state) {packageName : String → String}
    {files : List File} {after : CheckPoint}
    (outcome : Event.run packageName (files.flatMap fun file => (Node.file file).events .file)
      ⟨state, [], [], false⟩ = .ok after) :
    ∃ parts, FilesFindings packageName names files parts ∧
      AddsFindings known (.join parts) state after.state := by
  induction files generalizing state with
  | nil =>
      obtain rfl := Except.ok.inj outcome
      exact ⟨[], .nil, .refl known state⟩
  | cons file files ih =>
      rw [List.flatMap_cons] at outcome
      obtain ⟨middle, first, others⟩ := Event.exists_of_run_append outcome
      obtain ⟨part, found, middleEq, betweenNext, adds⟩ := between.addsFindings first
      rw [middleEq] at others
      obtain ⟨parts, founds, addsMore⟩ := ih betweenNext others
      exact ⟨part :: parts, .cons found founds, adds.trans addsMore between.nextId⟩

/-- All findings of a package, given those of its files. -/
def joinFindings (files : List File) (parts : List FileFindings) : List (Finding × Pos) :=
  redeclared [] (files.flatMap File.declarations) ++ (FileFindings.join parts).all

namespace PackageState

/-- No name is declared before the check of a package. -/
theorem start : PackageState [] {} where
  scopes := ⟨{ kind := "package" }, rfl, by simp [Scope.find?], by simp⟩
  nextId := Nat.le_refl _
  used := rfl
  locals := rfl
  imports := rfl
  labels := rfl

/-- When the names of a package are declared, its files can be checked. -/
theorem between {names : List String} {state : CheckState} (package : PackageState names state) :
    BetweenFiles names state.nextId state where
  scopes := package.scopes
  predeclared := package.nextId
  nextId := Nat.le_refl _
  used := by simp [package.used]
  labels := package.labels

end PackageState

theorem declaredNames_flatMap (files : List File) :
    declaredNames (files.flatMap File.declarations) = files.flatMap File.packageNames := by
  simp only [declaredNames, List.filter_flatMap, List.map_flatMap]
  rfl

/-- The findings of a package are those about its names and those of its files. -/
theorem exists_filesFindings {packageName : String → String} {files : List File}
    {findings : List (Finding × Pos)} (found : packageFindings packageName files = .ok findings) :
    ∃ parts, FilesFindings packageName (files.flatMap File.packageNames) files parts ∧
      findings = joinFindings files parts := by
  have declares : (files.flatMap fun file => (Node.file file).events .package) =
      declareEvents (files.flatMap File.declarations) := by
    simp [events_package, declareEvents, List.map_flatMap]
  rw [packageFindings_eq, packageEvents, declares] at found
  cases outcome : Event.run packageName (declareEvents (files.flatMap File.declarations) ++
      files.flatMap fun file => (Node.file file).events .file) {} with
  | error error =>
      rw [outcome] at found
      cases found
  | ok after =>
      rw [outcome] at found
      obtain rfl := Except.ok.inj found
      have notPackage : ∀ declaration ∈ files.flatMap File.declarations, declaration.2 ≠ .package :=
        fun declaration mem => by
          obtain ⟨file, -, mem⟩ := List.mem_flatMap.mp mem
          exact kind_ne_package_of_mem_declarations mem
      obtain ⟨middle, declared, package, foundEq⟩ := PackageState.start.run_declareEvents
        notPackage packageName [] [] false
      obtain ⟨_, firstRun, rest⟩ := Event.exists_of_run_append outcome
      obtain rfl := Except.ok.inj (declared.symm.trans firstRun)
      rw [List.nil_append, declaredNames_flatMap] at package
      obtain ⟨parts, founds, adds⟩ := package.between.addsAll rest
      refine ⟨parts, founds, ?_⟩
      obtain ⟨added, locals, -, unusedLocals⟩ := adds.locals
      obtain ⟨bound, imports, -, unusedImports⟩ := adds.imports
      rw [package.locals, List.append_nil] at locals
      rw [package.imports, List.append_nil] at imports
      rw [← locals] at unusedLocals
      rw [← imports] at unusedImports
      have noted : after.state.found.reverse =
          redeclared [] (files.flatMap File.declarations) ++ (FileFindings.join parts).noted := by
        rw [adds.found, foundEq]
        simp
      rw [joinFindings, FileFindings.all, ← unusedLocals, ← unusedImports]
      show after.state.found.reverse ++ after.state.unusedLocals ++ after.state.unusedImports = _
      rw [noted, List.append_assoc, List.append_assoc, List.append_assoc]

end GoMend
