import GoMend.Proofs.Check.DiscardRead
import GoMend.Proofs.Check.Ledger
import GoMend.Proofs.Diagnostic.Order
import GoMend.Proofs.Fix.Sources
import GoMend.Proofs.Position

/-!
# Diagnostics stand at what they are about

In a package that was read from sources, the position of a diagnostic is that of the token which the
diagnostic is about: the name, the path of an import or the `:=`.  No diagnostic is reported twice.
-/

namespace GoMend

open PlanStep

/-! ### What stands at the anchor of an event -/

/-- A lexeme at a position has a certain text, which for an operator is that of its token. -/
def Spells (lexemes : List Lexeme) (word : String) (pos : Pos) : Prop :=
  ∃ token text, ⟨token, text, pos⟩ ∈ lexemes ∧ token ≠ .semicolon ∧ token ≠ .endOfFile ∧
    (text = word ∨ token.isOperator ∧ token.text = word)

/-- What is known of a node that is visited in some way: the token of a guard is a `:=`. -/
def Mode.Signed (lexemes : List Lexeme) : Mode → Node → Prop
  | .symbol tokPos, _ => Spells lexemes ":=" tokPos
  | .guard, .stmt (.assign _ _ tok _ _) => tok = .define
  | _, _ => True

namespace Node

variable {lexemes : List Lexeme} {mode visited : Mode} {node child : Node} {happens : Event}
  {word : String} {pos : Pos}

theorem spells_of_ident {name : Ident} (written : (ident name).TokenWritten lexemes) :
    Spells lexemes name.name name.span.start := by
  obtain isLexeme | ⟨isPoint, text, isLexeme⟩ := written
  · exact ⟨.ident, name.name, isLexeme, by decide, by decide, .inl rfl⟩
  · exact ⟨.period, text, isLexeme, by decide, by decide, .inr ⟨rfl, isPoint.symm⟩⟩

theorem spells_of_define {text : String} (isLexeme : ⟨.define, text, pos⟩ ∈ lexemes) :
    Spells lexemes ":=" pos :=
  ⟨.define, text, isLexeme, by decide, by decide, .inr ⟨rfl, rfl⟩⟩

/-- An import stands at its name, or else at its path. -/
theorem spells_of_import {item : ImportSpec}
    (written : ∀ child ∈ (Node.spec (.importSpec item)).children, child.TokenWritten lexemes)
    (token : (Node.spec (.importSpec item)).TokenWritten lexemes) :
    Spells lexemes ((item.name.map (·.name)).getD item.path.value) item.span.start := by
  obtain ⟨isString, startEq⟩ := token
  cases isNamed : item.name with
  | none =>
      have isLexeme := (written (lit item.path) (by simp [children, specChildren])).2
      rw [startEq, isNamed]
      exact ⟨item.path.kind, item.path.value, isLexeme, by simp [isString], by simp [isString], .inl rfl⟩
  | some name =>
      have isIdent := written (ident name) (by simp [children, specChildren, isNamed])
      rw [startEq, isNamed]
      exact spells_of_ident isIdent

theorem spells_of_namePlan {name : Ident} (written : (ident name).TokenWritten lexemes)
    (signed : mode.Signed lexemes (ident name)) (isEvent : event happens ∈ namePlan mode name)
    (isAnchor : happens.anchor? = some pos) (isSubject : happens.subject? = some word) :
    Spells lexemes word pos := by
  have isName := spells_of_ident written
  unfold namePlan at isEvent
  split at isEvent
  case h_7 tokPos name =>
    obtain rfl := PlanStep.event.inj (List.mem_singleton.mp isEvent)
    simp only [Event.anchor?, Event.subject?, Option.some.injEq] at isAnchor isSubject
    split at isAnchor
    · next isBlank =>
      rw [if_pos isBlank] at isSubject
      exact isAnchor ▸ isSubject ▸ signed
    · next notBlank =>
      rw [if_neg notBlank] at isSubject
      exact isAnchor ▸ isSubject ▸ isName
  all_goals
    (try split at isEvent) <;> simp at isEvent <;> subst isEvent <;>
      simp only [Event.anchor?, Event.subject?, Option.some.injEq, reduceCtorEq] at isAnchor isSubject <;>
      exact isAnchor ▸ isSubject ▸ isName

/-- What a statement reports itself is that a `:=` has no new names. -/
theorem eq_endDefine_of_stmtPlan {step : Stmt} (isEvent : event happens ∈ stmtPlan step)
    (isAnchor : happens.anchor? = some pos) : happens = .endDefine pos := by
  cases step with
  | assign span lhs tok rhs tokPos =>
      simp only [stmtPlan] at isEvent
      split at isEvent
      · simp at isEvent
        subst isEvent
        exact congrArg _ (Option.some.inj isAnchor)
      · split at isEvent <;> simp at isEvent
  | range span key value tok operand body tokPos =>
      simp only [stmtPlan] at isEvent
      split at isEvent
      · simp at isEvent
        obtain rfl | rfl | rfl := isEvent <;> cases isAnchor
        rfl
      · split at isEvent <;> simp at isEvent <;> obtain rfl | rfl := isEvent <;> cases isAnchor
  | _ =>
      simp [stmtPlan] at isEvent <;> grind -ring -linarith [Event.anchor?]

theorem spells_of_stmtPlan {step : Stmt} (written : (stmt step).TokenWritten lexemes)
    (isEvent : event happens ∈ stmtPlan step) (isAnchor : happens.anchor? = some pos)
    (isSubject : happens.subject? = some word) : Spells lexemes word pos := by
  obtain rfl := eq_endDefine_of_stmtPlan isEvent isAnchor
  obtain rfl := Option.some.inj isSubject
  have defines := (event_mem_stmtPlan isEvent).2 pos rfl
  unfold Stmt.defineAt? at defines
  split at defines
  · obtain rfl := Option.some.inj defines
    obtain ⟨text, isLexeme⟩ := written
    exact spells_of_define isLexeme
  · obtain rfl := Option.some.inj defines
    obtain ⟨text, isLexeme⟩ := written
    exact spells_of_define isLexeme
  · cases defines

/-- What happens at a node stands at the token that it is about. -/
theorem spells_of_plan (written : node.Written lexemes) (signed : mode.Signed lexemes node)
    (isEvent : event happens ∈ node.plan mode) (isAnchor : happens.anchor? = some pos)
    (isSubject : happens.subject? = some word) : Spells lexemes word pos := by
  unfold plan at isEvent
  split at isEvent
  case h_1 => exact spells_of_namePlan written.token signed isEvent isAnchor isSubject
  case h_7 =>
    obtain rfl := PlanStep.event.inj (List.mem_singleton.mp isEvent)
    cases isSubject
  case h_8 =>
    obtain rfl := PlanStep.event.inj (List.mem_singleton.mp isEvent)
    obtain rfl := Option.some.inj isAnchor
    obtain rfl := Option.some.inj isSubject
    exact signed
  case h_17 => exact spells_of_stmtPlan written.token isEvent isAnchor isSubject
  case h_19 => exact spells_of_stmtPlan written.token isEvent isAnchor isSubject
  case h_36 =>
    obtain rfl := PlanStep.event.inj (List.mem_singleton.mp isEvent)
    obtain rfl := Option.some.inj isAnchor
    obtain rfl := Option.some.inj isSubject
    exact spells_of_import (fun child isChild => (written.child isChild).token) written.token
  all_goals first
    | (obtain rfl | rfl := event_mem_exprPlan isEvent <;> cases isAnchor)
    | (simp at isEvent; done)
    | (simp at isEvent; grind -ring -linarith [Event.anchor?])

/-! ### What stands at the anchors of a tree -/

theorem notGuard_exprPlan {isTarget isElement : Bool} {value : Expr} {index : Nat} :
    visit .guard index ∉ exprPlan isTarget isElement value := by
  intro isVisit
  cases value <;> cases isTarget <;> cases isElement <;> simp [exprPlan] at isVisit

theorem typeSwitch_of_stmtPlan {step : Stmt} {index : Nat} (isVisit : visit .guard index ∈ stmtPlan step) :
    ∃ span init guard body, step = .typeSwitch span init guard body ∧ index = init.toList.length := by
  cases step with
  | typeSwitch span init guard body =>
      refine ⟨span, init, guard, body, rfl, ?_⟩
      simpa [stmtPlan, visit_mem_visits] using isVisit
  | _ => simp [stmtPlan] at isVisit <;> grind -ring -linarith [visit_mem_visits]

/-- A guard is visited in a type switch only. -/
theorem typeSwitch_of_visit {index : Nat} (isVisit : visit .guard index ∈ node.plan mode) :
    ∃ span init guard body, node = .stmt (.typeSwitch span init guard body) ∧
      index = init.toList.length := by
  unfold plan at isVisit
  split at isVisit
  case h_1 => exact absurd isVisit (visit_notMem_namePlan _ _ _ _)
  case h_17 =>
    obtain ⟨span, init, guard, body, rfl, same⟩ := typeSwitch_of_stmtPlan isVisit
    exact ⟨span, init, guard, body, rfl, same⟩
  case h_19 =>
    obtain ⟨span, init, guard, body, rfl, same⟩ := typeSwitch_of_stmtPlan isVisit
    exact ⟨span, init, guard, body, rfl, same⟩
  all_goals first
    | exact absurd isVisit notGuard_exprPlan
    | (simp at isVisit; done)
    | (simp at isVisit; grind -ring -linarith [visit_mem_visits])

/-- What has to be known of a child is known of its parent. -/
theorem signed_of_visit {index : Nat} (written : node.Written lexemes) (signed : mode.Signed lexemes node)
    (isVisit : visit visited index ∈ node.plan mode) (isChild : node.children[index]? = some child) :
    visited.Signed lexemes child := by
  unfold Mode.Signed
  split
  · obtain ⟨rfl, -, span, lhs, tok, rhs, rfl⟩ := token_of_symbol isVisit
    obtain rfl : tok = .define := signed
    obtain ⟨text, isLexeme⟩ := written.token
    exact spells_of_define isLexeme
  · rename_i lhs tok rhs tokPos
    obtain ⟨span, init, guard, body, rfl, rfl⟩ := typeSwitch_of_visit isVisit
    obtain rfl : guard = .assign _ lhs tok rhs tokPos := by
      simpa [children, stmtChildren] using isChild
    exact written.token
  · trivial

/-- Every event of a tree that was read stands at the token that it is about. -/
theorem spells_of_event (written : node.Written lexemes) (signed : mode.Signed lexemes node)
    (isEvent : happens ∈ node.events mode) (isAnchor : happens.anchor? = some pos)
    (isSubject : happens.subject? = some word) : Spells lexemes word pos := by
  induction node using induction_children generalizing mode with
  | _ node ih =>
      rw [events_eq, List.mem_flatMap] at isEvent
      obtain ⟨planned, isPlanned, isEvent⟩ := isEvent
      cases planned with
      | event other =>
          obtain rfl : happens = other := by simpa using isEvent
          exact spells_of_plan written signed isPlanned isAnchor isSubject
      | visit visited index =>
          rw [events_visit] at isEvent
          cases isChild : node.children[index]? with
          | none => simp [isChild] at isEvent
          | some child =>
              simp only [isChild, Option.elim_some] at isEvent
              have isMember := List.mem_of_getElem? isChild
              exact ih child isMember (written.child isMember)
                (signed_of_visit written signed isPlanned isChild) isEvent

end Node

/-! ### Packages -/

/-- Files of one package that were read from texts, in any order. -/
structure LegiblePackage (files : List File) : Prop where
  legible : ∀ file ∈ files, ∃ lexemes, (Node.file file).Legible lexemes
  apart : files.Pairwise fun first second =>
    first.span.stop ≤ second.span.start ∨ second.span.stop ≤ first.span.start

namespace LegiblePackage

variable {files : List File} {unit unit' : Nat} {first second : File} {mode mode' : Mode} {pos : Pos}

theorem bounds_of_anchor (package : LegiblePackage files) {file : File} (isFile : file ∈ files)
    (notSymbol : ∀ tokPos, mode ≠ .symbol tokPos)
    (mem : pos ∈ anchors ((Node.file file).events mode)) :
    file.span.start ≤ pos ∧ pos < file.span.stop := by
  obtain ⟨lexemes, legible⟩ := package.legible file isFile
  have isSite := (Node.mem_sites_of_anchor legible mem).resolve_right (notSymbol pos)
  exact (Node.span_contains_iff.mp (legible.contains_of_site isSite)).2

/-- Only one file of a package reports at a position. -/
theorem unit_unique (package : LegiblePackage files) (isFirst : files[unit]? = some first)
    (isSecond : files[unit']? = some second)
    (inFirst : pos ∈ anchors ((Node.file first).events mode))
    (inSecond : pos ∈ anchors ((Node.file second).events mode'))
    (notSymbol : ∀ tokPos, mode ≠ .symbol tokPos) (notSymbol' : ∀ tokPos, mode' ≠ .symbol tokPos) :
    unit = unit' := by
  obtain ⟨firstLe, firstLt⟩ :=
    package.bounds_of_anchor (List.mem_of_getElem? isFirst) notSymbol inFirst
  obtain ⟨secondLe, secondLt⟩ :=
    package.bounds_of_anchor (List.mem_of_getElem? isSecond) notSymbol' inSecond
  obtain ⟨firstInside, rfl⟩ := List.getElem?_eq_some_iff.mp isFirst
  obtain ⟨secondInside, rfl⟩ := List.getElem?_eq_some_iff.mp isSecond
  have apart := List.pairwise_iff_getElem.mp package.apart
  obtain before | same | after := Nat.lt_trichotomy unit unit'
  · have apart := apart _ _ firstInside secondInside before
    lia
  · exact same
  · have apart := apart _ _ secondInside firstInside after
    lia

theorem nodup_anchors_flatMap (package : LegiblePackage files) (notSymbol : ∀ tokPos, mode ≠ .symbol tokPos) :
    (anchors (files.flatMap fun file => (Node.file file).events mode)).Nodup := by
  rw [anchors_flatMap, List.nodup_flatMap]
  refine ⟨fun file isFile => ?_, List.pairwise_iff_getElem.mpr ?_⟩
  · obtain ⟨lexemes, legible⟩ := package.legible file isFile
    exact Node.nodup_anchors legible
  · intro unit unit' inside inside' before pos inFirst inSecond
    exact absurd (package.unit_unique (List.getElem?_eq_getElem inside) (List.getElem?_eq_getElem inside')
      inFirst inSecond notSymbol notSymbol) (Nat.ne_of_lt before)

/-- No two events of a package that was read are reported at the same position. -/
theorem nodup_anchors (package : LegiblePackage files) : (anchors (packageEvents files)).Nodup := by
  rw [packageEvents, anchors_append, List.nodup_append]
  have notSymbol (mode : Mode) (isDeclaring : mode = .package ∨ mode = .file) :
      ∀ tokPos, mode ≠ .symbol tokPos := by
    rintro tokPos rfl
    rcases isDeclaring with same | same <;> cases same
  refine ⟨package.nodup_anchors_flatMap (notSymbol _ (.inl rfl)),
    package.nodup_anchors_flatMap (notSymbol _ (.inr rfl)), ?_⟩
  rintro pos inPackage _ inFile rfl
  rw [anchors_flatMap, List.mem_flatMap] at inPackage inFile
  obtain ⟨first, isFirst, inPackage⟩ := inPackage
  obtain ⟨second, isSecond, inFile⟩ := inFile
  obtain ⟨lexemes, legible⟩ := package.legible first isFirst
  obtain ⟨unit, isFirst⟩ := List.getElem?_of_mem isFirst
  obtain ⟨unit', isSecond⟩ := List.getElem?_of_mem isSecond
  obtain rfl := package.unit_unique isFirst isSecond inPackage inFile (notSymbol _ (.inl rfl))
    (notSymbol _ (.inr rfl))
  obtain rfl := Option.some.inj (isFirst.symm.trans isSecond)
  have beside : Mode.file.isBeside .package := rfl
  exact Node.anchors_disjoint_of_isBeside legible beside inFile inPackage

/-- The check of a package that was read comes to its end. -/
theorem exists_run (package : LegiblePackage files) (packageName : String → String) :
    ∃ after, Event.run packageName (packageEvents files) {} = .ok after := by
  refine Event.exists_run packageName (fun happens isEvent => ?_) {}
  rw [packageEvents, List.mem_append, List.mem_flatMap, List.mem_flatMap] at isEvent
  obtain ⟨file, isFile, isEvent⟩ | ⟨file, isFile, isEvent⟩ := isEvent
  all_goals
    obtain ⟨lexemes, legible⟩ := package.legible file isFile
    obtain ⟨role, sound⟩ := legible.sound
    exact (Node.events_fit sound rfl happens isEvent).succeeds

end LegiblePackage

/-! ### Sources -/

/-- A token with a certain text stands at a position of a source. -/
def Source.HasTokenAt (set : FileSet) (source : Source) (word : String) (pos : Pos) : Prop :=
  ∃ base offset : Nat, ∃ scan token,
    set.file? pos = some (.ofText source.name base source.text) ∧ pos = base + offset ∧
      Scan.ofText base source.text = .ok scan ∧ ⟨token, word, pos⟩ ∈ scan.lexemes ∧
        word.toList <+: source.text.toList.drop offset

/-- A source of a set with the tree that was read from it. -/
structure Source.Gives (set : FileSet) (source : Source) (file : File) : Prop where
  isMember : source.isMember
  legible : ∃ base : Nat, ∃ scan, Scan.ofText base source.text = .ok scan ∧
    (Node.file file).Legible scan.lexemes ∧
      ∀ offset : Nat, offset ≤ source.text.length →
        set.file? (base + offset) = some (.ofText source.name base source.text)

section

variable {set final : FileSet} {sources : List Source} {entries : List (Option File)} {file : File}
  {word : String} {pos : Pos}

theorem file?_of_readSources {owner : SourceFile}
    (outcome : readSources set sources = .ok (final, entries)) (owns : set.file? pos = some owner) :
    final.file? pos = some owner := by
  induction sources generalizing set entries with
  | nil =>
      obtain ⟨rfl, rfl⟩ := Prod.mk.inj (Except.ok.inj outcome)
      exact owns
  | cons source sources ih =>
      obtain ⟨entry, others, -, rest, rfl⟩ := readSources_cons_eq_ok.mp outcome
      exact ih rest (set.file?_add_of_some source.name source.text owns)

/-- The tree of a text is legible. -/
theorem legible_of_parse {name text : String} (parsed : (File.parse set name text).2 = .ok file) :
    ∃ scan, Scan.ofText set.nextBase text = .ok scan ∧ (Node.file file).Legible scan.lexemes := by
  obtain ⟨sound, -, clear, scan, scanned, drawn, -⟩ :=
    @File.ofText_sound (.ofText name set.nextBase text) text file set.nextBase_pos rfl parsed
  refine ⟨scan, scanned, ⟨fun lexeme isLexeme isIdent => ?_, ⟨_, sound⟩, clear, drawn.written⟩⟩
  obtain ⟨-, offset, -, posEq, -⟩ :=
    Scan.stands_of_mem scanned isLexeme (by simp [isIdent]) (by simp [isIdent])
  have positive := set.nextBase_pos
  simp only [SourceFile.ofText] at posEq
  lia

/-- Every file that was read is given by one of the sources. -/
theorem exists_source_of_readSources (tidy : set.IsTidy)
    (outcome : readSources set sources = .ok (final, entries)) (isFile : file ∈ entries.reduceOption) :
    ∃ source ∈ sources, source.Gives final file := by
  induction sources generalizing set entries with
  | nil =>
      obtain ⟨rfl, rfl⟩ := Prod.mk.inj (Except.ok.inj outcome)
      cases isFile
  | cons source sources ih =>
      obtain ⟨entry, others, isRead, rest, rfl⟩ := readSources_cons_eq_ok.mp outcome
      rw [List.reduceOption_mem_iff, List.mem_cons, ← List.reduceOption_mem_iff] at isFile
      obtain rfl | isLater := isFile
      · obtain ⟨isMember, parsed⟩ := Source.read_eq_some.mp isRead
        obtain ⟨scan, scanned, legible⟩ := legible_of_parse parsed
        refine ⟨source, List.mem_cons_self, isMember, _, scan, scanned, legible, fun offset inside => ?_⟩
        exact file?_of_readSources rest
          (set.file?_add_of_mem tidy source.name source.text (by lia) (by lia))
      · obtain ⟨other, isOther, gives⟩ := ih (tidy.add _ _) rest isLater
        exact ⟨other, List.mem_cons_of_mem _ isOther, gives⟩

/-- What is spelled at a position of a tree stands there in its source. -/
theorem Source.Gives.hasTokenAt {source : Source} {mode : Mode} {happens : Event}
    (gives : source.Gives set file) (isEvent : happens ∈ (Node.file file).events mode)
    (signed : ∀ lexemes, mode.Signed lexemes (.file file))
    (isAnchor : happens.anchor? = some pos) (isSubject : happens.subject? = some word) :
    source.HasTokenAt set word pos := by
  obtain ⟨base, scan, scanned, legible, owns⟩ := gives.legible
  obtain ⟨token, text, isLexeme, notSemicolon, notEnd, textEq⟩ :=
    Node.spells_of_event legible.written (signed _) isEvent isAnchor isSubject
  obtain ⟨ofOperator, offset, inside, posEq, begins⟩ :=
    Scan.stands_of_mem scanned isLexeme notSemicolon notEnd
  obtain rfl : text = word := by
    obtain same | ⟨isOperator, same⟩ := textEq
    · exact same
    · exact (ofOperator isOperator).trans same
  simp only at posEq begins
  subst posEq
  exact ⟨base, offset, scan, token, owns offset (Nat.le_of_lt inside), rfl, scanned, isLexeme, begins⟩

/-- Sources that were read into an empty set give a package, whichever files of it are taken. -/
theorem LegiblePackage.of_readSources {files : List File}
    (outcome : readSources .empty sources = .ok (set, entries))
    (isPackage : List.Subperm files entries.reduceOption) : LegiblePackage files where
  legible file isFile := by
    obtain ⟨source, -, gives⟩ :=
      exists_source_of_readSources FileSet.isTidy_empty outcome (isPackage.subset isFile)
    obtain ⟨base, scan, -, legible, -⟩ := gives.legible
    exact ⟨_, legible⟩
  apart := by
    have isRead := ReadInto.of_readSources .nothing outcome
    rw [List.nil_append] at isRead
    obtain ⟨kept, perm, sublist⟩ := isPackage
    have inOrder := isRead.soundPackage.1.apart.sublist sublist
    exact (perm.pairwise_iff Or.symm).mp (inOrder.imp .inl)

end

/-- The check of a package that was read from sources comes to its end, whichever files of it are
taken and in whichever order.  It reports no diagnostic twice and all of them by position, and where
a diagnostic stands there is the token that it is about.  Only a name that an import without a name
redeclares does not stand there. -/
theorem checkPackage_anchored {sources : List Source} {set : FileSet} {entries : List (Option File)}
    {files : List File} (packageName : String → String)
    (outcome : readSources .empty sources = .ok (set, entries))
    (isPackage : List.Subperm files entries.reduceOption) :
    ∃ findings diagnostics, packageFindings packageName files = .ok findings ∧
      checkPackage packageName files = .ok diagnostics ∧
      diagnostics.Perm (findings.map toDiagnostic) ∧ diagnostics.Nodup ∧
      Diagnostic.IsSorted diagnostics ∧
      ∀ entry ∈ findings, ∀ word, entry.1.subject? = some word →
        (∃ source ∈ sources, source.isMember ∧ source.HasTokenAt set word entry.2) ∨
          entry.1 = .redeclared word ∧ ∃ file ∈ files, ∃ spec ∈ file.imports,
            spec.name = none ∧ spec.span.start = entry.2 := by
  have package := LegiblePackage.of_readSources outcome isPackage
  obtain ⟨after, run⟩ := package.exists_run packageName
  have accounts := (Accounts.of_run package.nodup_anchors run).of_subperm after.subperm_findings
  have perm : (Diagnostic.sorted (after.state.findings.map toDiagnostic)).Perm
      (after.state.findings.map toDiagnostic) := List.mergeSort_perm _ _
  refine ⟨after.state.findings, _, by rw [packageFindings_eq, run]; rfl, checkPackage_of_run run, perm,
    perm.nodup_iff.mpr accounts.nodup, Diagnostic.isSorted_sorted _, ?_⟩
  intro entry isEntry word isSubject
  obtain ⟨happens, isEvent, isAnchor, reports⟩ := accounts.isOf entry isEntry
  have standsAt (subjectEq : happens.subject? = some word) :
      ∃ source ∈ sources, source.isMember ∧ source.HasTokenAt set word entry.2 := by
    rw [packageEvents, List.mem_append, List.mem_flatMap, List.mem_flatMap] at isEvent
    obtain ⟨file, isFile, isEvent⟩ | ⟨file, isFile, isEvent⟩ := isEvent
    all_goals
      obtain ⟨source, isSource, gives⟩ :=
        exists_source_of_readSources FileSet.isTidy_empty outcome (isPackage.subset isFile)
      exact ⟨source, isSource, gives.isMember,
        gives.hasTokenAt isEvent (fun _ => trivial) isAnchor subjectEq⟩
  obtain none | same | ⟨name, spec, isRedeclared, rfl, unnamed⟩ := reports
  · exact absurd (none.symm.trans isSubject).symm (Option.some_ne_none _)
  · exact .inl (standsAt (same.symm.trans isSubject))
  · obtain ⟨file, isFile, isImport⟩ := exists_file_of_bind isEvent
    rw [isRedeclared] at isSubject
    obtain rfl := Option.some.inj isSubject
    exact .inr ⟨isRedeclared, file, isFile, spec, isImport, unnamed, Option.some.inj isAnchor⟩

/-- The sample as the only source of a package. -/
def sampleSources : List Source :=
  [⟨"a.go", sampleText, true⟩]

theorem checkPackage_anchored_sample :
    readSources .empty sampleSources =
        .ok ((FileSet.empty.add "a.go" sampleText).1, [some sampleFile]) ∧
      ∃ findings diagnostics, packageFindings id [sampleFile] = .ok findings ∧
        checkPackage id [sampleFile] = .ok diagnostics ∧
        diagnostics.Perm (findings.map toDiagnostic) ∧ diagnostics.Nodup ∧
        Diagnostic.IsSorted diagnostics ∧
        ∀ entry ∈ findings, ∀ word, entry.1.subject? = some word →
          (∃ source ∈ sampleSources, source.isMember ∧
            source.HasTokenAt (FileSet.empty.add "a.go" sampleText).1 word entry.2) ∨
          entry.1 = .redeclared word ∧ ∃ file ∈ [sampleFile], ∃ spec ∈ file.imports,
            spec.name = none ∧ spec.span.start = entry.2 := by
  have outcome : readSources .empty sampleSources =
      .ok ((FileSet.empty.add "a.go" sampleText).1, [some sampleFile]) :=
    readSources_cons_eq_ok.mpr
      ⟨some sampleFile, [], Source.read_eq_some.mpr ⟨rfl, parse_sampleText⟩, rfl, rfl⟩
  exact ⟨outcome, checkPackage_anchored id outcome (.refl _)⟩

end GoMend
