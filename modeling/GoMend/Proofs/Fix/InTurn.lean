import GoMend.Proofs.Fix.Local
import GoMend.Proofs.Fix.Session

/-!
# Locating first and locating in turn

A pass locates all diagnostics before the first edit.  It could as well locate each of them in the
files as the edits before it have left them: an edit adds nodes that stand nowhere, or replaces the
name of an import, and so the nodes around a position at which a fix can do anything stay the same.
-/

namespace GoMend

namespace Node

variable {node new old middle : Node} {pos : Pos}

/-! ### The way to a position -/

/-- Whether a fix can change a node, or ends its search there. -/
def mattersToFix : Node → Bool
  | .stmt _ | .expr (.funcLit ..) | .decl (.func _) => true
  | _ => false

theorem withRead?_of_not_mattersToFix (added : Stmt) (noMatter : node.mattersToFix = false) :
    node.withRead? added = none := by
  cases node <;> first | rfl | cases noMatter

theorem withoutDefine?_of_not_mattersToFix (noMatter : node.mattersToFix = false) :
    node.withoutDefine? = none := by
  cases node <;> first | rfl | cases noMatter

theorem hidesVariables_of_not_mattersToFix (noMatter : node.mattersToFix = false) :
    node.hidesVariables = false := by
  unfold hidesVariables
  split
  · cases noMatter
  · cases noMatter
  · cases noMatter
  · rfl

/-- The addresses of the nodes around a position that matter to fixes, from the outermost one on. -/
def wayTo (pos : Pos) (node : Node) (start : Address) : List Address :=
  ((node.descend pos start).filter (·.node.mattersToFix)).map (·.address)

theorem wayTo_eq (pos : Pos) (node : Node) (start : Address) :
    node.wayTo pos start = (if node.mattersToFix then [start] else []) ++
      match node.children.find? (·.span.contains pos) with
      | none => []
      | some child => child.wayTo pos (start ++ [node.children.findIdx (·.span.contains pos)]) := by
  unfold wayTo
  rw [descend]
  split
  · next notFound =>
      rw [notFound]
      cases matters : node.mattersToFix <;> simp [matters]
  · next child isFound =>
      rw [isFound]
      cases matters : node.mattersToFix <;> simp [matters]

theorem wayTo_of_leaf (noMatter : node.mattersToFix = false) (noChild : node.children = [])
    (start : Address) : node.wayTo pos start = [] := by
  rw [wayTo_eq, noMatter, noChild]
  rfl

/-- The nodes around a position stand at their addresses. -/
theorem get?_of_mem_descend {located : Located} {start : Address}
    (mem : located ∈ node.descend pos start) :
    ∃ rest, located.address = start ++ rest ∧ node.get? rest = some located.node := by
  induction node using induction_children generalizing start with
  | step node ih =>
      rw [descend, List.mem_cons] at mem
      rcases mem with rfl | mem
      · exact ⟨[], by simp, rfl⟩
      · split at mem
        · cases mem
        · next child isFound =>
            have isChild : node.children[node.children.findIdx (·.span.contains pos)]? = some child := by
              rw [← List.find?_eq_getElem?_findIdx]
              exact isFound
            obtain ⟨rest, addressEq, found⟩ := ih child (List.mem_of_find?_eq_some isFound) mem
            refine ⟨node.children.findIdx (·.span.contains pos) :: rest, ?_, ?_⟩
            · rw [addressEq, List.append_assoc]
              rfl
            · rw [get?, isChild]
              exact found

/-! ### Nodes with the same ways -/

/-- A node that has taken the place of another one, so that the same nodes matter around every
position. -/
structure SameWays (new old : Node) : Prop where
  sort_eq : new.sort = old.sort
  span_eq : new.span = old.span
  kept : ∀ address inner, old.get? address = some inner →
    ∃ other, new.get? address = some other ∧ other.mattersToFix = inner.mattersToFix
  wayTo_eq : ∀ pos start, new.wayTo pos start = old.wayTo pos start

namespace SameWays

theorem refl (node : Node) : SameWays node node :=
  ⟨rfl, rfl, fun _ inner found => ⟨inner, found, rfl⟩, fun _ _ => rfl⟩

theorem trans (second : SameWays new middle) (first : SameWays middle old) : SameWays new old where
  sort_eq := second.sort_eq.trans first.sort_eq
  span_eq := second.span_eq.trans first.span_eq
  kept address inner found := by
    obtain ⟨between, isBetween, betweenMatters⟩ := first.kept address inner found
    obtain ⟨other, isOther, otherMatters⟩ := second.kept address between isBetween
    exact ⟨other, isOther, otherMatters.trans betweenMatters⟩
  wayTo_eq pos start := (second.wayTo_eq pos start).trans (first.wayTo_eq pos start)

theorem contains_eq (same : SameWays new old) (pos : Pos) :
    new.span.contains pos = old.span.contains pos := by
  rw [same.span_eq]

/-- A node that has got more children, which stand nowhere. -/
theorem of_append {added : List Node} (sortEq : new.sort = old.sort) (spanEq : new.span = old.span)
    (mattersEq : new.mattersToFix = old.mattersToFix)
    (childrenEq : new.children = old.children ++ added)
    (absent : ∀ child ∈ added, child.span = .absent) : SameWays new old where
  sort_eq := sortEq
  span_eq := spanEq
  kept address inner found := by
    cases address with
    | nil =>
        obtain rfl := Option.some.inj found
        exact ⟨new, rfl, mattersEq⟩
    | cons index rest =>
        refine ⟨inner, ?_, rfl⟩
        rw [get?, Option.bind_eq_some_iff] at found ⊢
        obtain ⟨child, isChild, found⟩ := found
        refine ⟨child, ?_, found⟩
        rw [childrenEq, List.getElem?_append_left (List.getElem?_eq_some_iff.mp isChild).1]
        exact isChild
  wayTo_eq pos start := by
    have notInAdded : added.find? (·.span.contains pos) = none := by
      rw [List.find?_eq_none]
      intro child mem
      rw [absent child mem]
      simp [Span.contains, Span.isPositioned, Span.absent]
    rw [Node.wayTo_eq, Node.wayTo_eq, mattersEq, childrenEq, List.find?_append, notInAdded,
      Option.or_none]
    cases isFound : old.children.find? (·.span.contains pos) with
    | none => rfl
    | some child =>
        have inside := List.findIdx_lt_length_of_exists
          ⟨child, List.mem_of_find?_eq_some isFound, List.find?_some isFound⟩
        simp only [List.findIdx_append, inside, if_true]

end SameWays

/-- The first child that holds a position stands at the same place among children of the same
ranges. -/
theorem find?_of_sameWays {first second : List Node} (each : List.Forall₂ SameWays first second)
    (pos : Pos) :
    Option.Rel SameWays (first.find? (·.span.contains pos)) (second.find? (·.span.contains pos)) ∧
      first.findIdx (·.span.contains pos) = second.findIdx (·.span.contains pos) := by
  induction each with
  | nil => exact ⟨.none, rfl⟩
  | @cons new old _ _ related others ih =>
      simp only [List.find?_cons, List.findIdx_cons, related.contains_eq]
      cases old.span.contains pos with
      | true => exact ⟨.some related, rfl⟩
      | false => exact ⟨ih.1, congrArg (· + 1) ih.2⟩

theorem Resembles.mattersToFix_eq (resembles : Resembles old new) :
    new.mattersToFix = old.mattersToFix := by
  cases resembles <;> rfl

/-- Nodes of one form have the same ways when what stands in the same places has. -/
theorem Congruence.sameWays : Congruence SameWays where
  refl := .refl
  sort_eq := SameWays.sort_eq
  parts {new old} resembles each := by
    refine ⟨resembles.sort_eq, resembles.span_eq, fun address inner found => ?_, fun pos start => ?_⟩
    · cases address with
      | nil =>
          obtain rfl := Option.some.inj found
          exact ⟨new, rfl, resembles.mattersToFix_eq⟩
      | cons index rest =>
          rw [get?, Option.bind_eq_some_iff] at found
          obtain ⟨child, isChild, found⟩ := found
          obtain ⟨inside, rfl⟩ := List.getElem?_eq_some_iff.mp isChild
          have isInside : index < new.children.length := each.length_eq ▸ inside
          obtain ⟨other, isOther, matters⟩ := (each.get isInside inside).kept rest inner found
          refine ⟨other, ?_, matters⟩
          rw [get?, List.getElem?_eq_getElem isInside]
          exact isOther
    · obtain ⟨related, indexEq⟩ := find?_of_sameWays each pos
      rw [wayTo_eq, wayTo_eq, resembles.mattersToFix_eq, indexEq]
      generalize new.children.find? (·.span.contains pos) = first at related ⊢
      generalize old.children.find? (·.span.contains pos) = second at related ⊢
      cases related with
      | none => rfl
      | some same => exact congrArg (_ ++ ·) (same.wayTo_eq pos _)

/-! ### The places of fixes -/

/-- A statement that has got one more statement. -/
theorem SameWays.append {step changed : Stmt} {name : String}
    (appends : step.append? (.discardRead name) = some changed) :
    SameWays (.stmt changed) (.stmt step) := by
  refine Congruence.sameWays.append (fun step changed isOwner appends => ?_)
    (fun step changed noBody appends => ?_) appends
  · obtain ⟨sortEq, -, childrenEq⟩ := children_append isOwner appends
    refine .of_append sortEq ?_ rfl childrenEq ?_
    · cases step with
      | block | caseClause | commClause =>
          obtain rfl := Option.some.inj appends
          rfl
      | _ => cases isOwner
    · exact List.forall_mem_singleton.mpr rfl
  · cases step with
    | loop span init cond post body =>
        obtain rfl : body = none := by simpa [Stmt.hasBody] using noBody
        obtain rfl := Option.some.inj appends
        have childrenEq : (Node.stmt (.loop span init cond post
            (some (Block.missing.append (.discardRead name))))).children =
            (Node.stmt (.loop span init cond post none)).children ++
              [block (Block.missing.append (.discardRead name))] := by
          simp [children, stmtChildren]
        exact .of_append rfl rfl rfl childrenEq (List.forall_mem_singleton.mpr rfl)
    | range span key value tok operand body tokPos =>
        obtain rfl : body = none := by simpa [Stmt.hasBody] using noBody
        obtain rfl := Option.some.inj appends
        have childrenEq : (Node.stmt (.range span key value tok operand
            (some (Block.missing.append (.discardRead name))) tokPos)).children =
            (Node.stmt (.range span key value tok operand none tokPos)).children ++
              [block (Block.missing.append (.discardRead name))] := by
          simp [children, stmtChildren]
        exact .of_append rfl rfl rfl childrenEq (List.forall_mem_singleton.mpr rfl)
    | _ => cases noBody

/-- A statement whose `:=` was replaced. -/
theorem SameWays.withoutDefine {step changed : Stmt} (replaced : step.withoutDefine? = some changed) :
    SameWays (.stmt changed) (.stmt step) := by
  obtain ⟨_, _, _, _, rfl, rfl⟩ | ⟨_, _, _, _, _, _, rfl, rfl⟩ :=
    Stmt.exists_of_withoutDefine? replaced
  · exact .of_append rfl rfl rfl (List.append_nil _).symm (by simp)
  · exact .of_append rfl rfl rfl (List.append_nil _).symm (by simp)

/-- Nothing around the position of an import matters to fixes. -/
theorem wayTo_importSpec (spec : ImportSpec) (pos : Pos) (start : Address) :
    (Node.spec (.importSpec spec)).wayTo pos start = [] := by
  rw [wayTo_eq]
  cases isFound : (Node.spec (.importSpec spec)).children.find? (·.span.contains pos) with
  | none => rfl
  | some child =>
      have mem := List.mem_of_find?_eq_some isFound
      simp only [children, specChildren, List.mem_append, List.mem_map, List.mem_singleton] at mem
      rcases mem with ⟨name, -, rfl⟩ | rfl
      · exact wayTo_of_leaf rfl rfl _
      · exact wayTo_of_leaf rfl rfl _

/-- An import that was bound to the blank name. -/
theorem SameWays.blanked (spec : ImportSpec) :
    SameWays (.spec (.importSpec { spec with name := some { name := "_" } }))
      (.spec (.importSpec spec)) where
  sort_eq := rfl
  span_eq := rfl
  wayTo_eq pos start := by rw [wayTo_importSpec, wayTo_importSpec]
  kept address inner found := by
    cases address with
    | nil =>
        obtain rfl := Option.some.inj found
        exact ⟨_, rfl, rfl⟩
    | cons index rest =>
        rw [get?, Option.bind_eq_some_iff] at found
        obtain ⟨child, isChild, found⟩ := found
        have isLeaf : child.children = [] ∧ child.mattersToFix = false := by
          have mem := List.mem_of_getElem? isChild
          simp only [children, specChildren, List.mem_append, List.mem_map, List.mem_singleton] at mem
          rcases mem with ⟨name, -, rfl⟩ | rfl
          · exact ⟨rfl, rfl⟩
          · exact ⟨rfl, rfl⟩
        have restEq : rest = [] := by
          cases rest with
          | nil => rfl
          | cons next others => simp [get?, isLeaf.1] at found
        subst restEq
        obtain rfl := Option.some.inj found
        have inside := (List.getElem?_eq_some_iff.mp isChild).1
        have atMost : index < 2 := by
          refine Nat.lt_of_lt_of_le inside ?_
          cases spec.name <;> simp [children, specChildren]
        obtain rfl | rfl : index = 0 ∨ index = 1 := by lia
        · exact ⟨ident { name := "_" }, rfl, isLeaf.2.symm⟩
        · exact ⟨lit spec.path, rfl, isLeaf.2.symm⟩

end Node

open Node

/-! ### Files -/

namespace File

variable {new old file edited : File} {edit : Edit}

theorem sameWays_of_mend {shape : Shape} {chain : List Address}
    (outcome : shape.mend chain file = .ok (edit, edited)) :
    SameWays (.file edited) (.file file) := by
  cases shape with
  | unusedVariable name =>
      refine Congruence.sameWays.addReadAnywhere ?_ ?_ outcome
      · exact fun step changed _ appends => .append appends
      · exact fun step changed _ appends => .append appends
  | unusedImport path => exact Congruence.sameWays.blankImport .blanked outcome
  | noNewVariables =>
      exact Congruence.sameWays.replaceDefine (fun step changed => .withoutDefine) outcome

/-- A read is added at one of the nodes that matter to fixes. -/
theorem addRead_filter (name : String) (file : File) (chain : List Address) :
    file.addRead name (chain.filter fun address =>
      ((Node.file file).get? address).any (·.mattersToFix)) = file.addRead name chain := by
  induction chain with
  | nil => rfl
  | cons address outer ih =>
      rw [List.filter_cons, addRead]
      cases found : (Node.file file).get? address with
      | none => exact ih
      | some inner =>
          cases matters : inner.mattersToFix with
          | true =>
              simp only [Option.any_some, matters, if_true]
              rw [addRead, found, ih]
          | false =>
              simp only [Option.any_some, matters, Bool.false_eq_true, if_false,
                hidesVariables_of_not_mattersToFix matters, withRead?_of_not_mattersToFix _ matters]
              exact ih

/-- A `:=` is replaced at one of the nodes that matter to fixes. -/
theorem replaceDefine_filter (file : File) (chain : List Address) :
    file.replaceDefine (chain.filter fun address =>
      ((Node.file file).get? address).any (·.mattersToFix)) = file.replaceDefine chain := by
  induction chain with
  | nil => rfl
  | cons address outer ih =>
      rw [List.filter_cons, replaceDefine]
      cases found : (Node.file file).get? address with
      | none => exact ih
      | some inner =>
          cases matters : inner.mattersToFix with
          | true =>
              simp only [Option.any_some, matters, if_true]
              rw [replaceDefine, found, ih]
          | false =>
              simp only [Option.any_some, matters, Bool.false_eq_true, if_false,
                withoutDefine?_of_not_mattersToFix matters]
              exact ih

/-- The nodes around a position in an older file that matter in the newer one. -/
theorem filter_enclosing (same : SameWays (.file new) (.file old)) (pos : Pos) :
    ((old.enclosing pos).map (·.address)).filter (fun address =>
        ((Node.file new).get? address).any (·.mattersToFix)) =
      ((Node.file new).wayTo pos []).reverse := by
  rw [same.wayTo_eq, wayTo, enclosing, List.map_reverse, List.filter_reverse, List.filter_map]
  refine congrArg (List.reverse <| List.map _ ·) (List.filter_congr fun located mem => ?_)
  obtain ⟨rest, addressEq, found⟩ := get?_of_mem_descend mem
  obtain ⟨other, isOther, matters⟩ := same.kept rest _ found
  rw [List.nil_append] at addressEq
  simp only [Function.comp_apply, addressEq, isOther, Option.any_some, matters]

theorem contains_enclosing (file : File) (pos : Pos) :
    ((file.enclosing pos).map (·.address)).contains [] = true := by
  rw [List.contains_iff_mem, enclosing, List.map_reverse, List.mem_reverse, descend]
  exact List.mem_cons_self

/-- A fix finds its place along the nodes around a position as they were or as they are. -/
theorem mend_enclosing (same : SameWays (.file new) (.file old)) (shape : Shape) (pos : Pos) :
    shape.mend ((old.enclosing pos).map (·.address)) new =
      shape.mend ((new.enclosing pos).map (·.address)) new := by
  have filtered := (filter_enclosing same pos).trans (filter_enclosing (.refl _) pos).symm
  cases shape with
  | unusedVariable name =>
      show new.addRead name _ = new.addRead name _
      rw [← addRead_filter, filtered, addRead_filter]
  | unusedImport path =>
      show new.blankImport path _ = new.blankImport path _
      rw [blankImport, blankImport, contains_enclosing, contains_enclosing]
  | noNewVariables =>
      show new.replaceDefine _ = new.replaceDefine _
      rw [← replaceDefine_filter, filtered, replaceDefine_filter]

theorem owns_eq (same : SameWays (.file new) (.file old)) (pos : Pos) :
    new.owns pos = old.owns pos := by
  have spanEq : new.span = old.span := same.span_eq
  rw [owns, owns, spanEq]

end File

/-! ### Passes -/

/-- Files that have taken the places of others, so that fixes find the same places. -/
def FilesMended (new old : List File) : Prop :=
  List.Forall₂ (fun new old => SameWays (.file new) (.file old)) new old

namespace FilesMended

variable {new old : List File}

theorem refl (files : List File) : FilesMended files files :=
  List.forall₂_same.mpr fun file _ => .refl (.file file)

theorem findUnit?_eq (mended : FilesMended new old) (pos : Pos) :
    findUnit? new pos = findUnit? old pos := by
  unfold findUnit?
  induction mended with
  | nil => rfl
  | cons same others ih => rw [List.findIdx?_cons, List.findIdx?_cons, File.owns_eq same, ih]

theorem set {unit : Nat} {file edited : File} (mended : FilesMended new old)
    (isFile : new[unit]? = some file) (same : SameWays (.file edited) (.file file)) :
    FilesMended (new.set unit edited) old := by
  induction mended generalizing unit with
  | nil => cases isFile
  | cons first others ih =>
      cases unit with
      | zero =>
          obtain rfl := Option.some.inj isFile
          exact .cons (same.trans first) others
      | succ unit => exact .cons first (ih isFile)

end FilesMended

/-- Locate a diagnostic in the files as they are now, and mend it at once. -/
def Progress.mendNext (registry : FixerRegistry) (set : FileSet) (progress : Progress)
    (diagnostic : Diagnostic) : Progress :=
  match Triage.of registry set progress.files diagnostic with
  | .unhandled problem => { progress with unhandled := progress.unhandled ++ [problem] }
  | .pending fix => fix.apply progress

/-- Mend the diagnostics of a pass, each of them located when its turn comes. -/
def mendInTurn (registry : FixerRegistry) (set : FileSet) (files : List File)
    (diagnostics : List Diagnostic) : Progress :=
  diagnostics.foldl (Progress.mendNext registry set) { files }

/-- The fixers of a registry mend shapes in the ways that there are. -/
theorem FixerRegistry.mend_of_get? {registry : FixerRegistry} {fixer : Fixer} {fixId : String}
    (builtin : ∀ fixer ∈ registry.fixers, fixer ∈ Fixer.builtin)
    (isFixer : registry.get? fixId = some fixer) : fixer.mend = Shape.mend :=
  Fixer.mend_of_builtin (builtin fixer (List.mem_of_find?_eq_some isFixer))

namespace PendingFix

variable {progress other : Progress} {fix : PendingFix}

/-- A fix that is applied after the same fixes changes the same, and leaves its own diagnostic or
nothing. -/
theorem apply_of_files_eq (filesEq : progress.files = other.files) (fix : PendingFix) :
    (fix.apply progress).files = (fix.apply other).files ∧
      ∃ left, (fix.apply progress).unhandled = progress.unhandled ++ left ∧
        (fix.apply other).unhandled = other.unhandled ++ left := by
  unfold apply
  rw [filesEq]
  split
  · exact ⟨filesEq, [], by simp, by simp⟩
  · split
    · exact ⟨rfl, [], by simp, by simp⟩
    · exact ⟨rfl, [.unmended fix.diagnostic], rfl, rfl⟩

theorem apply_filesMended {files : List File} (mendEq : fix.fixer.mend = Shape.mend)
    (mended : FilesMended progress.files files) : FilesMended (fix.apply progress).files files := by
  unfold apply
  split
  · exact mended
  · next file isFile =>
      split
      · next edit edited outcome =>
          rw [mendEq] at outcome
          exact mended.set isFile (File.sameWays_of_mend outcome)
      · exact mended

end PendingFix

/-- A diagnostic is located in mended files as it was before: there is the same problem with it, or
a fix that does the same. -/
theorem Triage.of_filesMended {registry : FixerRegistry} {files : List File} {progress : Progress}
    (builtin : ∀ fixer ∈ registry.fixers, fixer ∈ Fixer.builtin)
    (mended : FilesMended progress.files files) (set : FileSet) (diagnostic : Diagnostic) :
    (∃ problem, Triage.of registry set files diagnostic = .unhandled problem ∧
        Triage.of registry set progress.files diagnostic = .unhandled problem) ∨
      ∃ fix again, Triage.of registry set files diagnostic = .pending fix ∧
        Triage.of registry set progress.files diagnostic = .pending again ∧
        fix.fixer.mend = Shape.mend ∧ again.apply progress = fix.apply progress := by
  unfold Triage.of
  rw [mended.findUnit?_eq]
  cases diagnostic.shape? with
  | none => exact .inl ⟨_, rfl, rfl⟩
  | some shape =>
      cases findUnit? files diagnostic.pos with
      | none => exact .inl ⟨_, rfl, rfl⟩
      | some unit =>
          dsimp only
          by_cases inside : unit < files.length
          · have isInside : unit < progress.files.length := mended.length_eq ▸ inside
            have same : SameWays (.file progress.files[unit]) (.file files[unit]) :=
              mended.get isInside inside
            rw [List.getElem?_eq_getElem inside, List.getElem?_eq_getElem isInside]
            cases isFixer : registry.get? shape.fixId with
            | none => exact .inl ⟨_, rfl, rfl⟩
            | some fixer =>
                have mendEq := FixerRegistry.mend_of_get? builtin isFixer
                refine .inr ⟨_, _, rfl, rfl, mendEq, ?_⟩
                simp only [PendingFix.apply, List.getElem?_eq_getElem isInside, mendEq]
                rw [← File.mend_enclosing same]
          · have notInside : ¬unit < progress.files.length := mended.length_eq ▸ inside
            rw [List.getElem?_eq_none (Nat.le_of_not_lt inside),
              List.getElem?_eq_none (Nat.le_of_not_lt notInside)]
            exact .inl ⟨_, rfl, rfl⟩

/-- Diagnostics that are mended in turn, beside those that were all located before. -/
theorem foldl_mendNext {registry : FixerRegistry} {set : FileSet} {files : List File}
    (builtin : ∀ fixer ∈ registry.fixers, fixer ∈ Fixer.builtin) (diagnostics : List Diagnostic)
    {progress other : Progress} (mended : FilesMended progress.files files)
    (filesEq : progress.files = other.files)
    (unhandled : (progress.unhandled ++
      (diagnostics.map (Triage.of registry set files)).filterMap Triage.problem?).Perm other.unhandled) :
    let fixes := (diagnostics.map (Triage.of registry set files)).filterMap Triage.fix?
    (diagnostics.foldl (Progress.mendNext registry set) progress).files =
        (fixes.foldl PendingFix.apply other).files ∧
      (diagnostics.foldl (Progress.mendNext registry set) progress).unhandled.Perm
        (fixes.foldl PendingFix.apply other).unhandled := by
  intro fixes
  subst fixes
  induction diagnostics generalizing progress other with
  | nil => exact ⟨filesEq, by simpa using unhandled⟩
  | cons diagnostic diagnostics ih =>
      simp only [List.map_cons, List.foldl_cons] at unhandled ⊢
      rcases Triage.of_filesMended builtin mended set diagnostic with
        ⟨problem, isProblem, isProblem'⟩ | ⟨fix, again, isFix, isAgain, mendEq, applied⟩
      · rw [isProblem] at unhandled ⊢
        rw [Progress.mendNext, isProblem']
        simp only [List.filterMap_cons, Triage.problem?, Triage.fix?] at unhandled ⊢
        apply @ih { progress with unhandled := progress.unhandled ++ [problem] } other mended filesEq
        simpa using unhandled
      · rw [isFix] at unhandled ⊢
        rw [Progress.mendNext, isAgain]
        dsimp only
        rw [applied]
        simp only [List.filterMap_cons, Triage.problem?, Triage.fix?, List.foldl_cons]
          at unhandled ⊢
        obtain ⟨sameFiles, left, leftEq, leftEq'⟩ := PendingFix.apply_of_files_eq filesEq fix
        apply ih (PendingFix.apply_filesMended mendEq mended) sameFiles
        rw [leftEq, leftEq']
        -- What the fix leaves stands behind the later problems in one list, before them in the other.
        apply List.Perm.trans _ (unhandled.append_right left)
        rw [List.append_assoc, List.append_assoc]
        exact List.perm_append_comm.append_left _

/-- A pass that locates all diagnostics before the first edit leaves the same files as one that
locates each of them when its turn comes, and the same problems up to their order. -/
theorem runPass_inTurn {checker : Checker} {registry : FixerRegistry} (set : FileSet) {call : Nat}
    {files : List File} {diagnostics : List Diagnostic}
    (builtin : ∀ fixer ∈ registry.fixers, fixer ∈ Fixer.builtin)
    (answer : checker.check call files = .ok diagnostics) :
    ∃ result, runPass checker registry set call files = .ok result ∧
      result.files = (mendInTurn registry set files diagnostics).files ∧
      result.unhandled.Perm (mendInTurn registry set files diagnostics).unhandled := by
  obtain ⟨filesEq, unhandled⟩ := @foldl_mendNext registry set files builtin diagnostics { files }
    { files, unhandled :=
      (diagnostics.map (Triage.of registry set files)).filterMap Triage.problem? }
    (.refl files) rfl (.refl _)
  rw [runPass, answer]
  exact ⟨_, rfl, filesEq.symm, unhandled.symm⟩

/-- Four diagnostics of the sample: the second fix for a `:=` fails, and there is none for the last
message. -/
def sampleReports : List Diagnostic :=
  [⟨"no new variables on left side of :=", 31⟩, ⟨"no new variables on left side of :=", 31⟩,
    ⟨"x declared but not used", 23⟩, ⟨"undefined: y", 23⟩]

theorem runPass_inTurn_sample :
    (∀ fixer ∈ FixerRegistry.standard.fixers, fixer ∈ Fixer.builtin) ∧
      (Checker.mk none fun _ _ => .ok sampleReports).check 0 [sampleFile] = .ok sampleReports ∧
      ∃ result, runPass (Checker.mk none fun _ _ => .ok sampleReports) .standard .empty 0
          [sampleFile] = .ok result ∧
        result.files = (mendInTurn .standard .empty [sampleFile] sampleReports).files ∧
        result.unhandled.Perm
          (mendInTurn .standard .empty [sampleFile] sampleReports).unhandled :=
  ⟨fun _ mem => mem, rfl, runPass_inTurn .empty (fun _ mem => mem) rfl⟩

end GoMend
