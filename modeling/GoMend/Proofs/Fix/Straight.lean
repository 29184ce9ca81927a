import GoMend.Proofs.Fix.Local
import GoMend.Proofs.Fix.Search
import GoMend.Proofs.Tree.Written

/-!
# Where mended trees ask for comments

A file that was mended, or whose fixes were taken back, asks for comments only where the file that was
read does.  What fixes add has no position and asks nowhere.  When a discard read is removed, the
statement above it ends where the read ended, and what opens its list begins where the read began.
So the order in which a type assertion asks for comments stays what it was.
-/

namespace GoMend

open Node

namespace Node

variable {new old : Node}

/-- A node in the place of another one that asks for comments nowhere else, and is straight if the
other one was. -/
structure AsksWithin (new old : Node) : Prop where
  queries_subset : new.queries ⊆ old.queries
  straight : Straight old → Straight new

theorem AsksWithin.refl (node : Node) : AsksWithin node node :=
  ⟨List.Subset.refl _, id⟩

theorem AsksWithin.trans {middle : Node} (second : AsksWithin new middle) (first : AsksWithin middle old) :
    AsksWithin new old :=
  ⟨List.Subset.trans second.queries_subset first.queries_subset, second.straight ∘ first.straight⟩

/-- A node of another kind than a type assertion. -/
theorem AsksWithin.of_children (notAssertion : new.isAssertion = false)
    (own : new.ownQueries ⊆ old.queries) (below : new.children.flatMap queries ⊆ old.queries)
    (children : Straight old → ∀ child ∈ new.children, Straight child) : AsksWithin new old where
  queries_subset := by
    rw [queries_eq]
    exact List.append_subset.mpr ⟨own, below⟩
  straight straight := by
    refine .node (fun isAssertion => ?_) (children straight)
    exact absurd (notAssertion.symm.trans isAssertion) Bool.false_ne_true

/-- Nodes with the same range ask at the same places if they ask in the same way. -/
theorem ownQueries_congr (spanEq : new.span = old.span) (asksEq : new.asksAtStop = old.asksAtStop)
    (emptyEq : new.isEmptyStmt = old.isEmptyStmt) : new.ownQueries = old.ownQueries := by
  simp [ownQueries, isPositioned, spanEq, asksEq, emptyEq]

namespace Resembles

theorem ownQueries_eq (resembles : Resembles old new) : new.ownQueries = old.ownQueries := by
  refine ownQueries_congr resembles.span_eq ?_ ?_
  · cases resembles <;> rfl
  · cases resembles <;> rfl

theorem isAssertion_eq (resembles : Resembles old new) : new.isAssertion = old.isAssertion := by
  cases resembles <;> rfl

end Resembles

/-- What stands in the same places asks for comments in the same order. -/
theorem pairwise_asksBefore {news olds : List Node} (within : List.Forall₂ AsksWithin news olds)
    (inOrder : olds.Pairwise AsksBefore) : news.Pairwise AsksBefore := by
  refine List.pairwise_iff_getElem.mpr fun index later isNew isLater before => ?_
  have isOld := within.length_eq ▸ isNew
  have isOldLater := within.length_eq ▸ isLater
  intro pos isQuery pos' isQuery'
  exact List.pairwise_iff_getElem.mp inOrder index later isOld isOldLater before pos
    ((within.get isNew isOld).queries_subset isQuery) pos'
    ((within.get isLater isOldLater).queries_subset isQuery')

/-- Nodes of one form ask within each other when what stands in the same places does. -/
theorem Congruence.asksWithin :
    Congruence fun new old => new.sort = old.sort ∧ AsksWithin new old where
  refl node := ⟨rfl, .refl node⟩
  sort_eq := And.left
  parts {new old} resembles related := by
    have within : List.Forall₂ AsksWithin new.children old.children := related.imp fun _ _ => And.right
    have isOld {index : Nat} (isNew : index < new.children.length) : index < old.children.length :=
      within.length_eq ▸ isNew
    refine ⟨resembles.sort_eq, ?_, fun straight => .node ?_ fun child isChild => ?_⟩
    · rw [queries_eq, queries_eq, resembles.ownQueries_eq]
      refine List.append_subset.mpr ⟨List.subset_append_left _ _, fun pos isQuery => ?_⟩
      obtain ⟨child, isChild, isQuery⟩ := List.mem_flatMap.mp isQuery
      obtain ⟨index, isNew, rfl⟩ := List.getElem_of_mem isChild
      exact List.mem_append_right _ (List.mem_flatMap.mpr ⟨_, List.getElem_mem (isOld isNew),
        (within.get isNew (isOld isNew)).queries_subset isQuery⟩)
    · rw [resembles.isAssertion_eq]
      exact fun isAssertion => pairwise_asksBefore within (straight.inOrder isAssertion)
    · obtain ⟨index, isNew, rfl⟩ := List.getElem_of_mem isChild
      exact (within.get isNew (isOld isNew)).straight
        (straight.child (List.getElem_mem (isOld isNew)))

/-! ### What fixes add -/

/-- What asks for comments nowhere. -/
structure Mute (node : Node) : Prop where
  queries_eq_nil : node.queries = []
  straight : Straight node

/-- A node without a position is mute if its children are. -/
theorem Mute.of_unread {node : Node} (unread : node.isPositioned = false)
    (notAssertion : node.isAssertion = false) (children : ∀ child ∈ node.children, Mute child) :
    Mute node where
  queries_eq_nil := queries_of_unread unread fun child isChild => (children child isChild).queries_eq_nil
  straight := by
    refine .node (fun isAssertion => ?_) fun child isChild => (children child isChild).straight
    exact absurd (notAssertion.symm.trans isAssertion) Bool.false_ne_true

theorem mute_ident {name : Ident} (unread : name.span = .absent) : Mute (ident name) :=
  .of_unread (by simp [isPositioned, ident, span, Expr.span, unread, Span.absent, Span.isPositioned])
    rfl (by rintro _ ⟨⟩)

theorem mute_discardRead (name : String) : Mute (stmt (.discardRead name)) :=
  .of_unread rfl rfl (List.forall_mem_cons.mpr
    ⟨mute_ident rfl, List.forall_mem_singleton.mpr (mute_ident rfl)⟩)

/-- The body that a loop gets with its first discard read. -/
theorem mute_missing (name : String) : Mute (block (Block.missing.append (.discardRead name))) :=
  .of_unread rfl rfl (List.forall_mem_singleton.mpr (mute_discardRead name))

/-- A node that got one more child, which is mute. -/
theorem AsksWithin.of_append {added : Node} (notAssertion : new.isAssertion = false)
    (ownEq : new.ownQueries = old.ownQueries) (childrenEq : new.children = old.children ++ [added])
    (mute : Mute added) : AsksWithin new old := by
  refine .of_children notAssertion ?_ ?_ fun straight => ?_
  · rw [ownEq, queries_eq]
    exact List.subset_append_left _ _
  · rw [childrenEq, List.flatMap_append, List.flatMap_singleton, mute.queries_eq_nil, List.append_nil,
      queries_eq old]
    exact List.subset_append_right _ _
  · rw [childrenEq]
    exact List.forall_mem_append.mpr
      ⟨fun _ => straight.child, List.forall_mem_singleton.mpr mute.straight⟩

/-- A list of statements that got a discard read. -/
theorem asksWithin_append {name : String} {step changed : Stmt}
    (isOwner : (stmt step).ownStmts?.isSome)
    (appends : step.append? (.discardRead name) = some changed) :
    (stmt changed).sort = (stmt step).sort ∧ AsksWithin (stmt changed) (stmt step) := by
  obtain ⟨sortEq, -, childrenEq⟩ := children_append isOwner appends
  refine ⟨sortEq, .of_append rfl ?_ childrenEq (mute_discardRead name)⟩
  cases step with
  | block body | caseClause span exprs body colon | commClause span comm body colon =>
      obtain rfl := Option.some.inj appends
      rfl
  | _ => cases isOwner

/-- A loop that got a body with a discard read. -/
theorem asksWithin_appendMissing {name : String} {step changed : Stmt} (noBody : step.hasBody = false)
    (appends : step.append? (.discardRead name) = some changed) :
    (stmt changed).sort = (stmt step).sort ∧ AsksWithin (stmt changed) (stmt step) := by
  cases step with
  | loop span init cond post body | range span key value tok operand body tokPos =>
      obtain rfl : body = none := by simpa [Stmt.hasBody] using noBody
      obtain rfl := Option.some.inj appends
      refine ⟨rfl, .of_append rfl rfl ?_ (mute_missing name)⟩
      simp [children, stmtChildren]
  | _ => cases noBody

/-- A statement in which a `:=` was replaced. -/
theorem asksWithin_withoutDefine {step changed : Stmt} (replaced : step.withoutDefine? = some changed) :
    (stmt changed).sort = (stmt step).sort ∧ AsksWithin (stmt changed) (stmt step) := by
  have same {new old : Stmt} (ownEq : (stmt new).ownQueries = (stmt old).ownQueries)
      (childrenEq : (stmt new).children = (stmt old).children) :
      AsksWithin (stmt new) (stmt old) := by
    refine .of_children rfl ?_ ?_ fun straight => childrenEq ▸ fun _ => straight.child
    · rw [ownEq, queries_eq]
      exact List.subset_append_left _ _
    · rw [childrenEq, queries_eq]
      exact List.subset_append_right _ _
  unfold Stmt.withoutDefine? at replaced
  split at replaced
  · obtain rfl := Option.some.inj replaced
    exact ⟨rfl, same rfl rfl⟩
  · obtain rfl := Option.some.inj replaced
    exact ⟨rfl, same rfl rfl⟩
  · cases replaced

/-- An import that got the blank name or lost its name. -/
theorem asksWithin_importSpec (spec : ImportSpec) (name : Option Ident)
    (unread : ∀ given ∈ name.toList, given.span = .absent) :
    (Node.spec (.importSpec { spec with name })).sort = (Node.spec (.importSpec spec)).sort ∧
      AsksWithin (.spec (.importSpec { spec with name })) (.spec (.importSpec spec)) := by
  have names : ∀ child ∈ name.toList.map ident, Mute child :=
    List.forall_mem_map.mpr fun given isGiven => mute_ident (unread given isGiven)
  have isPath : lit spec.path ∈ (Node.spec (.importSpec spec)).children :=
    List.mem_append_right _ (List.mem_singleton_self _)
  refine ⟨rfl, .of_children rfl ?_ ?_ fun straight => ?_⟩
  · rw [queries_eq (.spec (.importSpec spec))]
    exact List.subset_append_left _ _
  · intro pos isQuery
    obtain ⟨child, isChild, isQuery⟩ := List.mem_flatMap.mp isQuery
    obtain isName | isRest := List.mem_append.mp isChild
    · rw [(names child isName).queries_eq_nil] at isQuery
      cases isQuery
    · obtain rfl := List.mem_singleton.mp isRest
      exact mem_queries_of_child isPath isQuery
  · exact List.forall_mem_append.mpr ⟨fun child isName => (names child isName).straight,
      List.forall_mem_singleton.mpr (straight.child isPath)⟩

/-! ### Lists without discard reads -/

/-- Where the statements of a list ask for comments. -/
def listQueries (stmts : List Stmt) : List Pos :=
  (stmts.map stmt).flatMap queries

theorem listQueries_append (first second : List Stmt) :
    listQueries (first ++ second) = listQueries first ++ listQueries second := by
  simp [listQueries]

theorem listQueries_cons (step : Stmt) (stmts : List Stmt) :
    listQueries (step :: stmts) = (stmt step).queries ++ listQueries stmts :=
  rfl

/-- Where a discard read that was read from a file begins and ends. -/
theorem queries_of_isDiscardRead {step : Stmt} (isRead : step.isDiscardRead)
    (positioned : step.span.isPositioned) :
    step.span.start ∈ (stmt step).queries ∧ step.span.stop - 1 ∈ (stmt step).queries := by
  unfold Stmt.isDiscardRead at isRead
  split at isRead
  · exact ⟨start_mem_queries positioned rfl, stop_mem_queries positioned rfl⟩
  · cases isRead

/-- A statement that takes over the lines of a removed one asks where one of the two does. -/
theorem asksWithin_takeOver (comments : List Comment) (last : Stmt) (removed : Span) :
    (Straight (stmt last) → Straight (stmt (last.takeOver comments removed))) ∧
      (stmt (last.takeOver comments removed)).queries ⊆
        (stmt last).queries ++ [removed.stop - 1] := by
  unfold Stmt.takeOver
  split
  · generalize isStop : max last.span.stop removed.stop = stop
    have stops : stop = last.span.stop ∨ stop = removed.stop := by lia
    have spanEq : (stmt (last.withStop stop)).span = ⟨last.span.start, stop⟩ :=
      last.span_withStop stop
    have asksEq : (stmt (last.withStop stop)).asksAtStop = (stmt last).asksAtStop := by
      cases last <;> rfl
    have emptyEq : (stmt (last.withStop stop)).isEmptyStmt = (stmt last).isEmptyStmt := by
      cases last <;> rfl
    have positionedEq := last.isPositioned_withStop stop
    refine ⟨fun straight => .node (by rintro ⟨⟩) ?_, ?_⟩
    · rw [last.children_withStop]
      exact fun _ => straight.child
    rw [queries_eq, queries_eq, last.children_withStop]
    refine List.append_subset.mpr ⟨fun pos isQuery => ?_, fun pos isQuery => by simp [isQuery]⟩
    unfold ownQueries at isQuery ⊢
    rw [positionedEq, asksEq, emptyEq, spanEq] at isQuery
    split at isQuery
    · next asks =>
      rw [if_pos asks]
      obtain rfl | isQuery := List.mem_cons.mp isQuery
      · simp [span]
      · split at isQuery
        · next asksAtStop =>
          rw [if_pos asksAtStop]
          obtain rfl := List.mem_singleton.mp isQuery
          obtain rfl | rfl := stops <;> simp [span]
        · cases isQuery
    · cases isQuery
  · exact ⟨id, List.subset_append_left _ _⟩

/-- A list without discard reads: straight statements that ask for comments nowhere else, and an
opening that stays or moves to where a removed statement asked. -/
structure Pruned (opening : Pos) (stmts : List Stmt) (rest : Pos × List Stmt) : Prop where
  straight : (∀ step ∈ stmts, Straight (stmt step)) → ∀ step ∈ rest.2, Straight (stmt step)
  subset : listQueries rest.2 ⊆ listQueries stmts
  opens : rest.1 = opening ∨ rest.1 ∈ listQueries stmts
  unread : opening = noPos → rest.1 = noPos

theorem Pruned.mono {opening : Pos} {stmts others : List Stmt} {rest : Pos × List Stmt}
    (pruned : Pruned opening stmts rest)
    (straight : (∀ step ∈ others, Straight (stmt step)) → ∀ step ∈ stmts, Straight (stmt step))
    (subset : listQueries stmts ⊆ listQueries others) : Pruned opening others rest where
  straight := pruned.straight ∘ straight
  subset := List.Subset.trans pruned.subset subset
  opens := pruned.opens.imp_right fun isQuery => subset isQuery
  unread := pruned.unread

theorem withoutReads_pruned (comments : List Comment) (opening : Pos) (kept rest : List Stmt) :
    Pruned opening (kept.reverse ++ rest) (GoMend.withoutReads comments opening kept rest) := by
  induction rest generalizing opening kept with
  | nil => exact ⟨by simp [GoMend.withoutReads], by simp [GoMend.withoutReads], .inl rfl, id⟩
  | cons step rest ih =>
      have sublist : (kept.reverse ++ rest).Sublist (kept.reverse ++ step :: rest) :=
        (List.sublist_cons_self step rest).append_left _
      have fewer : listQueries (kept.reverse ++ rest) ⊆ listQueries (kept.reverse ++ step :: rest) :=
        ((sublist.map stmt).flatMap queries).subset
      unfold GoMend.withoutReads
      split
      · have sameList : (step :: kept).reverse ++ rest = kept.reverse ++ step :: rest := by simp
        exact sameList ▸ ih opening (step :: kept)
      next isRead =>
      split
      · exact (ih opening kept).mono (fun all step isStep => all step (sublist.subset isStep)) fewer
      · next isPositioned =>
          have positioned : step.span.isPositioned := by simpa using isPositioned
          obtain ⟨startQuery, stopQuery⟩ := queries_of_isDiscardRead (by simpa using isRead) positioned
          cases kept with
          | nil =>
              have pruned := ih (moveOpening comments opening step.span) []
              refine ⟨fun all => pruned.straight fun other isOther =>
                all other (sublist.subset isOther), List.Subset.trans pruned.subset fewer, ?_,
                fun isNoPos => pruned.unread (by simp [moveOpening, isNoPos])⟩
              obtain same | isQuery := pruned.opens
              · obtain stays | moves := moveOpening_eq comments opening step.span
                · exact .inl (same.trans stays)
                · exact .inr (List.mem_append_left _ (same.trans moves ▸ startQuery))
              · exact .inr (fewer isQuery)
          | cons last earlier =>
              have pruned := ih opening (last.takeOver comments step.span :: earlier)
              obtain ⟨straight, queries⟩ := asksWithin_takeOver comments last step.span
              refine pruned.mono (fun all => ?_) ?_
              · simp only [List.reverse_cons, List.append_assoc, List.singleton_append,
                  List.forall_mem_append, List.forall_mem_cons] at all ⊢
                exact ⟨all.1, straight all.2.1, all.2.2.2⟩
              · simp only [List.reverse_cons, List.append_assoc, List.singleton_append,
                  listQueries_append, listQueries_cons]
                refine List.append_subset.mpr ⟨List.subset_append_left _ _,
                  List.subset_append_of_subset_right _ (List.append_subset.mpr
                    ⟨fun pos isQuery => ?_, fun pos isQuery => by simp [isQuery]⟩)⟩
                obtain isLast | isStop := List.mem_append.mp (queries isQuery)
                · exact List.mem_append_left _ isLast
                · obtain rfl := List.mem_singleton.mp isStop
                  exact List.mem_append_right _ (List.mem_append_left _ stopQuery)

/-- A node with a list of statements as its last children, from which discard reads were removed. -/
theorem AsksWithin.of_pruned {heads : List Node} {stmts : List Stmt} {opening : Pos}
    {rest : Pos × List Stmt} (notAssertion : new.isAssertion = false)
    (oldChildren : old.children = heads ++ stmts.map stmt)
    (newChildren : new.children = heads ++ rest.2.map stmt)
    (own : new.ownQueries ⊆ old.queries) (pruned : Pruned opening stmts rest) : AsksWithin new old := by
  refine .of_children notAssertion own ?_ fun straight => ?_
  · rw [newChildren, queries_eq, oldChildren, List.flatMap_append, List.flatMap_append]
    exact List.subset_append_of_subset_right _ (List.append_subset.mpr
      ⟨List.subset_append_left _ _, List.subset_append_of_subset_right _ pruned.subset⟩)
  · have olds : ∀ child ∈ heads ++ stmts.map stmt, Straight child :=
      oldChildren ▸ fun _ => straight.child
    obtain ⟨headsStraight, stmtsStraight⟩ := List.forall_mem_append.mp olds
    rw [newChildren]
    exact List.forall_mem_append.mpr ⟨headsStraight, List.forall_mem_map.mpr
      (pruned.straight (List.forall_mem_map.mp stmtsStraight))⟩

/-- A block that is opened where it was, or where a statement of its list asked. -/
theorem ownQueries_of_opening {body : Block} {start : Pos} {stmts : List Stmt}
    (opens : start = body.span.start ∨ start ∈ listQueries body.stmts)
    (unread : body.span.start = noPos → start = noPos) :
    (stmt (.block ⟨{ body.span with start }, stmts⟩)).ownQueries ⊆ (stmt (.block body)).queries := by
  intro pos isQuery
  unfold ownQueries at isQuery
  split at isQuery
  · next asks =>
    have isPos : start ≠ noPos := by
      simpa [isPositioned, span, Stmt.span, Span.isPositioned, isEmptyStmt, Layout.isEmptyStmt]
        using asks
    have positioned : (stmt (.block body)).isPositioned := bne_iff_ne.mpr (mt unread isPos)
    obtain rfl | isStop := List.mem_cons.mp isQuery
    · obtain rfl | isQuery := opens
      · exact start_mem_queries positioned rfl
      · exact mem_queries.mpr (.inr isQuery)
    · obtain rfl := List.mem_singleton.mp isStop
      exact stop_mem_queries positioned rfl
  · cases isQuery

/-- A node without the discard reads of its list. -/
theorem asksWithin_withoutReads (comments : List Comment) (node : Node) :
    AsksWithin (node.withoutReads comments) node := by
  unfold withoutReads
  split
  · next body =>
      have pruned := withoutReads_pruned comments body.span.start [] body.stmts
      exact @AsksWithin.of_pruned _ _ [] _ _ _ rfl rfl rfl
        (ownQueries_of_opening pruned.opens pruned.unread) pruned
  · next span exprs body colon =>
      have pruned := withoutReads_pruned comments colon [] body
      refine .of_pruned rfl rfl rfl ?_ pruned
      rw [queries_eq (.stmt (.caseClause span exprs body colon))]
      exact List.subset_append_left _ _
  · next span comm body colon =>
      have pruned := withoutReads_pruned comments colon [] body
      refine .of_pruned rfl rfl rfl ?_ pruned
      rw [queries_eq (.stmt (.commClause span comm body colon))]
      exact List.subset_append_left _ _
  · exact .refl _

/-- A tree without its discard reads. -/
theorem asksWithin_changeAll (comments : List Comment) (node : Node) :
    AsksWithin (node.changeAll (withoutReads comments)) node := by
  induction node using induction_children with
  | step node ih =>
      have keepsSort := sort_withoutReads comments
      obtain ⟨resembles, childrenEq⟩ :=
        withChildren_resembles (map_sort_changeAll keepsSort node.children)
      rw [changeAll_eq]
      refine (asksWithin_withoutReads comments _).trans (Congruence.asksWithin.parts resembles ?_).2
      rw [childrenEq, List.forall₂_map_left_iff]
      exact List.forall₂_same.mpr fun child isChild =>
        ⟨sort_changeAll keepsSort child, ih child isChild⟩

end Node

/-! ### Files -/

namespace File

variable {file edited : File}

/-- A file that a fix changed. -/
theorem asksWithin_mend {shape : Shape} {chain : List Address} {edit : Edit}
    (outcome : shape.mend chain file = .ok (edit, edited)) :
    AsksWithin (.file edited) (.file file) := by
  have within := Node.Congruence.asksWithin
  cases shape with
  | unusedVariable name =>
      exact (within.toClimbs.addReadAnywhere (fun step changed => asksWithin_append)
        (fun step changed => asksWithin_appendMissing) outcome).2
  | unusedImport path =>
      refine (within.blankImport (fun spec => asksWithin_importSpec spec _ ?_) outcome).2
      exact List.forall_mem_singleton.mpr rfl
  | noNewVariables =>
      exact (within.toClimbs.replaceDefine (fun step changed => asksWithin_withoutDefine) outcome).2

/-- A file whose fixes were taken back. -/
theorem asksWithin_reverted (keep : List String) (file : File) :
    AsksWithin (.file (file.reverted keep)) (.file file) := by
  have within := Node.Congruence.asksWithin
  have stripped := asksWithin_changeAll file.comments (.file file)
  rw [changeAll_withoutReads] at stripped
  rw [reverted_eq]
  exact (within.restored fun spec => asksWithin_importSpec spec none (by rintro _ ⟨⟩)).2.trans stripped

end File

theorem Mended.asksWithin {file edited : File} (mended : Mended file edited) :
    AsksWithin (.file edited) (.file file) := by
  induction mended with
  | nothing => exact .refl _
  | mend before isShape outcome ih => exact (File.asksWithin_mend outcome).trans ih

theorem ReadInto.straight {set : FileSet} {files : List File} (isRead : ReadInto set files) :
    ∀ file ∈ files, (Node.file file).Straight := by
  induction isRead with
  | nothing => simp
  | @file set files name text file before outcome ih =>
      obtain ⟨-, -, -, _, -, drawn, -⟩ := @File.ofText_sound (.ofText name set.nextBase text) text
        file set.nextBase_pos rfl outcome
      exact List.forall_mem_append.mpr ⟨ih, List.forall_mem_singleton.mpr drawn.straight⟩
  | other name text before ih => exact ih

/-- However often files that were read are mended and their fixes are taken back, they stay
straight. -/
theorem Reachable.straight {set : FileSet} {files : List File} (reachable : Reachable set files) :
    ∀ file ∈ files, (Node.file file).Straight := by
  induction reachable with
  | read isRead => exact isRead.straight
  | fixed progress before checked pending ih =>
      have mended := @PendingFix.foldl_mended progress.files _ progress (fun fix isFix => by
        obtain ⟨diagnostic, -, isPending⟩ := pending fix isFix
        exact Triage.mends_of_pending isPending) (List.forall₂_same.mpr fun _ _ => .nothing)
      intro file isFile
      obtain ⟨index, isNew, rfl⟩ := List.getElem_of_mem isFile
      have isOld := mended.length_eq ▸ isNew
      exact (mended.get isOld isNew).asksWithin.straight (ih _ (List.getElem_mem isOld))
  | reverted keep before ih =>
      refine List.forall_mem_map.mpr fun file isFile => ?_
      exact (File.asksWithin_reverted keep file).straight (ih file isFile)

end GoMend
