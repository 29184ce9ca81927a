import GoMend.Proofs.Fix.Erasure
import GoMend.Proofs.Tree.Clear

/-!
# Searches in mended trees

Fixes and taking them back leave a tree clear.  A fix adds nodes without positions, or changes a
token or the name of an import.  When discard reads are removed, the range of a statement grows only
over what is removed, and the opening of a list moves only to where a removed statement began.  So a
search still finds every node that was read, from the position where it begins.
-/

namespace GoMend

open Node

namespace Node

variable {new old middle : Node}

/-- A clear node in the place of another one that needs no more room, and in which nothing begins
that did not begin in the other one. -/
structure Trims (new old : Node) : Prop where
  clear : Clear new
  isPositioned_eq : new.isPositioned = old.isPositioned
  span_within : new.span.Within old.span
  solid : old.isSolid → new.isSolid
  starts_subset : new.starts ⊆ old.starts

namespace Trims

theorem refl (clear : Clear old) : Trims old old :=
  ⟨clear, rfl, .refl _, id, List.Subset.refl _⟩

theorem trans (second : Trims new middle) (first : Trims middle old) : Trims new old where
  clear := second.clear
  isPositioned_eq := second.isPositioned_eq.trans first.isPositioned_eq
  span_within := ⟨Int.le_trans first.span_within.1 second.span_within.1,
    Int.le_trans second.span_within.2 first.span_within.2⟩
  solid isSolid := second.solid (first.solid isSolid)
  starts_subset := List.Subset.trans second.starts_subset first.starts_subset

theorem contains (trims : Trims new old) {pos : Pos} (contains : new.span.contains pos) :
    old.span.contains pos := by
  obtain ⟨positioned, startLe, ltStop⟩ := span_contains_iff.mp contains
  exact span_contains_iff.mpr ⟨trims.isPositioned_eq ▸ positioned,
    Int.le_trans trims.span_within.1 startLe, Int.lt_of_lt_of_le ltStop trims.span_within.2⟩

theorem before {first first' second second' : Node} (firstTrims : Trims first' first)
    (secondTrims : Trims second' second) (before : Before first second) : Before first' second' :=
  fun pos isStart =>
    Int.le_trans firstTrims.span_within.2 (before pos (secondTrims.starts_subset isStart))

theorem misses {first first' second second' : Node} (firstTrims : Trims first' first)
    (secondTrims : Trims second' second) (misses : Misses first second) : Misses first' second' := by
  intro pos isStart
  refine Bool.eq_false_iff.mpr fun contains => ?_
  exact Bool.eq_false_iff.mp (misses pos (secondTrims.starts_subset isStart))
    (firstTrims.contains contains)

/-- What holds of every two nodes in order still holds when all need no more room. -/
theorem pairwise {related : Node → Node → Prop} {news olds : List Node}
    (keeps : ∀ {first first' second second' : Node}, Trims first' first → Trims second' second →
      related first second → related first' second')
    (trims : List.Forall₂ Trims news olds) (apart : olds.Pairwise related) :
    news.Pairwise related := by
  induction trims with
  | nil => exact .nil
  | @cons new old news olds first others ih =>
      obtain ⟨firstRelated, othersRelated⟩ := List.pairwise_cons.mp apart
      refine List.pairwise_cons.mpr ⟨fun node isNode => ?_, ih othersRelated⟩
      obtain ⟨index, inside, rfl⟩ := List.getElem_of_mem isNode
      have isOld : index < olds.length := others.length_eq ▸ inside
      exact keeps first (others.get inside isOld) (firstRelated _ (List.getElem_mem isOld))

theorem flatMap_starts {news olds : List Node} (trims : List.Forall₂ Trims news olds) :
    news.flatMap starts ⊆ olds.flatMap starts := by
  intro pos mem
  obtain ⟨node, isNode, isStart⟩ := List.mem_flatMap.mp mem
  obtain ⟨index, inside, rfl⟩ := List.getElem_of_mem isNode
  have isOld : index < olds.length := trims.length_eq ▸ inside
  exact List.mem_flatMap.mpr
    ⟨_, List.getElem_mem isOld, (trims.get inside isOld).starts_subset isStart⟩

end Trims

theorem isSolid_congr (spanEq : new.span = old.span) : new.isSolid = old.isSolid := by
  simp [isSolid, isPositioned, spanEq]

/-- A node with the range of another one begins nothing else than what begins in its children. -/
theorem starts_subset_of_children (spanEq : new.span = old.span)
    (subset : new.children.flatMap starts ⊆ old.children.flatMap starts) :
    new.starts ⊆ old.starts := by
  rw [starts_eq, starts_eq, isSolid_congr spanEq, spanEq]
  exact List.append_subset.mpr ⟨List.subset_append_left _ _,
    List.subset_append_of_subset_right _ subset⟩

/-- A node with the range of another one, whose children and statements need no more room. -/
theorem Trims.of_children (clear : Clear old) (spanEq : new.span = old.span)
    (children : List.Forall₂ Trims new.children old.children)
    (own : List.Forall₂ (fun step own => Trims (stmt step) (stmt own)) (new.ownStmts?.getD [])
      (old.ownStmts?.getD [])) : Trims new old := by
  have clearAt := clear.clearAt
  have subset := starts_subset_of_children spanEq (flatMap_starts children)
  refine ⟨.node ⟨?_, ?_, ?_, ?_⟩ ?_, by rw [isPositioned, isPositioned, spanEq], spanEq ▸ .refl _,
    (isSolid_congr spanEq ▸ ·), subset⟩
  · rw [spanEq]
    exact fun pos isStart => clearAt.holds pos (subset isStart)
  · exact pairwise misses children clearAt.misses
  · have ownNodes := List.forall₂_map_left_iff.mpr (List.forall₂_map_right_iff.mpr own)
    exact pairwise before ownNodes clearAt.lined
  · intro step isOwn positioned
    obtain ⟨index, inside, rfl⟩ := List.getElem_of_mem isOwn
    have isOld := own.length_eq ▸ inside
    have trims : Trims _ _ := own.get inside isOld
    exact trims.solid
      (clearAt.roomy _ (List.getElem_mem isOld) (trims.isPositioned_eq ▸ positioned))
  · intro child isChild
    obtain ⟨index, inside, rfl⟩ := List.getElem_of_mem isChild
    exact (children.get inside (children.length_eq ▸ inside)).clear

/-- Clear nodes of one form need no more room when what stands in the same places does not. -/
theorem Congruence.trims :
    Congruence fun new old => new.sort = old.sort ∧ (Clear old → Trims new old) where
  refl _ := ⟨rfl, .refl⟩
  sort_eq := And.left
  parts {new old} resembles related := by
    refine ⟨resembles.sort_eq, fun clear => ?_⟩
    have children : List.Forall₂ Trims new.children old.children :=
      List.forall₂_iff_get.mpr ⟨related.length_eq, fun index isNew isOld =>
        (related.get isNew isOld).2 (clear.child (List.getElem_mem isOld))⟩
    exact .of_children clear resembles.span_eq children (resembles.relates_own children)

/-! ### What fixes add -/

/-- A node that got one more child in which nothing begins. -/
theorem Trims.of_append {added : Node} {steps : List Stmt} (clear : Clear old)
    (spanEq : new.span = old.span) (childrenEq : new.children = old.children ++ [added])
    (addedClear : Clear added) (silent : added.starts = [])
    (ownEq : new.ownStmts?.getD [] = old.ownStmts?.getD [] ++ steps)
    (stepsSilent : ∀ step ∈ steps, (stmt step).starts = [] ∧ (stmt step).isPositioned = false) :
    Trims new old := by
  have clearAt := clear.clearAt
  have startsEq : new.children.flatMap starts = old.children.flatMap starts := by
    rw [childrenEq, List.flatMap_append, List.flatMap_singleton, silent, List.append_nil]
  have subset := starts_subset_of_children spanEq (startsEq ▸ List.Subset.refl _)
  refine ⟨.node ⟨?_, ?_, ?_, ?_⟩ ?_, by rw [isPositioned, isPositioned, spanEq], spanEq ▸ .refl _,
    (isSolid_congr spanEq ▸ ·), subset⟩
  · rw [spanEq]
    exact fun pos isStart => clearAt.holds pos (subset isStart)
  · rw [childrenEq]
    refine List.pairwise_append.mpr ⟨clearAt.misses, List.pairwise_singleton .., ?_⟩
    intro child _ other isAdded pos isStart
    obtain rfl := List.mem_singleton.mp isAdded
    rw [silent] at isStart
    cases isStart
  · rw [ownEq, List.map_append]
    have beforeStep : ∀ first, ∀ second ∈ steps.map stmt, Before first second := by
      intro first second isSecond pos isStart
      obtain ⟨step, isStep, rfl⟩ := List.mem_map.mp isSecond
      rw [(stepsSilent step isStep).1] at isStart
      cases isStart
    exact List.pairwise_append.mpr ⟨clearAt.lined,
      List.pairwise_of_forall_mem_list fun first _ => beforeStep first,
      fun first _ => beforeStep first⟩
  · rw [ownEq]
    refine List.forall_mem_append.mpr ⟨clearAt.roomy, fun step isStep positioned => ?_⟩
    exact absurd (positioned.symm.trans (stepsSilent step isStep).2) Bool.false_ne_true.symm
  · rw [childrenEq]
    exact List.forall_mem_append.mpr ⟨fun _ => clear.child, List.forall_mem_singleton.mpr addedClear⟩

theorem silent_discardRead (name : String) :
    (stmt (.discardRead name)).starts = [] ∧ (stmt (.discardRead name)).Clear := by
  have leaf (name : String) : (ident { name }).starts = [] ∧ (ident { name }).Clear :=
    ⟨starts_of_empty (Int.le_refl _) rfl, .of_empty (Int.le_refl _) rfl rfl⟩
  have silent : (stmt (.discardRead name)).starts = [] := by
    rw [starts_eq]
    show [] ++ ((ident { name := "_" }).starts ++ ((ident { name }).starts ++ [])) = []
    rw [(leaf "_").1, (leaf name).1]
    rfl
  refine ⟨silent, .of_silent silent ?_ (by rintro _ ⟨⟩)⟩
  exact List.forall_mem_cons.mpr ⟨(leaf "_").2, List.forall_mem_singleton.mpr (leaf name).2⟩

/-- The body that a loop gets with its first discard read. -/
theorem silent_missing (name : String) :
    (block (Block.missing.append (.discardRead name))).starts = [] ∧
      (block (Block.missing.append (.discardRead name))).Clear := by
  obtain ⟨readSilent, readClear⟩ := silent_discardRead name
  have silent : (block (Block.missing.append (.discardRead name))).starts = [] := by
    rw [starts_eq]
    show [] ++ ((stmt (.discardRead name)).starts ++ []) = []
    rw [readSilent]
    rfl
  refine ⟨silent, .of_silent silent ?_ ?_⟩
  · exact List.forall_mem_singleton.mpr readClear
  · exact List.forall_mem_singleton.mpr rfl

/-- A list of statements that got a discard read. -/
theorem trims_append {name : String} {step changed : Stmt} (isOwner : (stmt step).ownStmts?.isSome)
    (appends : step.append? (.discardRead name) = some changed) :
    (stmt changed).sort = (stmt step).sort ∧
      (Clear (stmt step) → Trims (stmt changed) (stmt step)) := by
  obtain ⟨sortEq, -, childrenEq⟩ := children_append isOwner appends
  obtain ⟨silent, readClear⟩ := silent_discardRead name
  refine ⟨sortEq, fun clear => ?_⟩
  have readSilent : ∀ added ∈ [Stmt.discardRead name],
      (stmt added).starts = [] ∧ (stmt added).isPositioned = false :=
    List.forall_mem_singleton.mpr ⟨silent, rfl⟩
  cases step with
  | block body | caseClause span exprs body colon | commClause span comm body colon =>
      obtain rfl := Option.some.inj appends
      exact .of_append clear rfl childrenEq readClear silent rfl readSilent
  | _ => cases isOwner

/-- A loop that got a body with a discard read. -/
theorem trims_appendMissing {name : String} {step changed : Stmt} (noBody : step.hasBody = false)
    (appends : step.append? (.discardRead name) = some changed) :
    (stmt changed).sort = (stmt step).sort ∧
      (Clear (stmt step) → Trims (stmt changed) (stmt step)) := by
  obtain ⟨silent, bodyClear⟩ := silent_missing name
  cases step with
  | loop span init cond post body | range span key value tok operand body tokPos =>
      obtain rfl : body = none := by simpa [Stmt.hasBody] using noBody
      obtain rfl := Option.some.inj appends
      refine ⟨rfl, fun clear => @Trims.of_append _ _ _ [] clear rfl ?_ bodyClear silent rfl (by simp)⟩
      simp [children, stmtChildren]
  | _ => cases noBody

/-- A statement in which a `:=` was replaced. -/
theorem trims_withoutDefine {step changed : Stmt} (replaced : step.withoutDefine? = some changed) :
    (stmt changed).sort = (stmt step).sort ∧
      (Clear (stmt step) → Trims (stmt changed) (stmt step)) := by
  have unchanged {node : Node} (clear : Clear node) : List.Forall₂ Trims node.children node.children :=
    List.forall₂_same.mpr fun child isChild => .refl (clear.child isChild)
  obtain ⟨_, _, _, _, rfl, rfl⟩ | ⟨_, _, _, _, _, _, rfl, rfl⟩ :=
    Stmt.exists_of_withoutDefine? replaced
  · exact ⟨rfl, fun clear => .of_children clear rfl (unchanged clear :) .nil⟩
  · exact ⟨rfl, fun clear => .of_children clear rfl (unchanged clear :) .nil⟩

/-! ### Lists without discard reads -/

/-- Where the statements of a list begin, and everything below them. -/
def listStarts (stmts : List Stmt) : List Pos :=
  (stmts.map stmt).flatMap starts

theorem listStarts_append (first second : List Stmt) :
    listStarts (first ++ second) = listStarts first ++ listStarts second := by
  simp [listStarts]

theorem listStarts_cons (step : Stmt) (stmts : List Stmt) :
    listStarts (step :: stmts) = (stmt step).starts ++ listStarts stmts :=
  rfl

/-- Clear statements one after the other. -/
structure ClearList (stmts : List Stmt) : Prop where
  clear : ∀ step ∈ stmts, Clear (stmt step)
  lined : (stmts.map stmt).Pairwise Before
  roomy : ∀ step ∈ stmts, (stmt step).isPositioned → (stmt step).isSolid

theorem ClearList.sublist {part stmts : List Stmt} (list : ClearList stmts)
    (sublist : part.Sublist stmts) : ClearList part where
  clear step isStep := list.clear step (sublist.subset isStep)
  lined := list.lined.sublist (sublist.map stmt)
  roomy step isStep := list.roomy step (sublist.subset isStep)

/-- What follows a statement begins after it. -/
theorem ClearList.before {step : Stmt} {rest : List Stmt} (list : ClearList (step :: rest)) {pos : Pos}
    (isStart : pos ∈ listStarts rest) : step.span.stop ≤ pos := by
  obtain ⟨node, isNode, isStart⟩ := List.mem_flatMap.mp isStart
  exact (List.pairwise_cons.mp list.lined).1 node isNode pos isStart

/-- A clear statement that was read stays clear with more lines, and nothing else begins in it. -/
theorem Clear.withStop {step : Stmt} {stop : Pos} (clear : Clear (stmt step))
    (solid : (stmt step).isSolid) (stopLe : step.span.stop ≤ stop) :
    Clear (stmt (step.withStop stop)) ∧ (stmt (step.withStop stop)).isSolid ∧
      (stmt (step.withStop stop)).starts = (stmt step).starts := by
  have clearAt := clear.clearAt
  have spanEq : (stmt (step.withStop stop)).span = ⟨step.span.start, stop⟩ := step.span_withStop stop
  have childrenEq := step.children_withStop stop
  have ownEq := (lists_withStop step stop).1
  obtain ⟨positioned, room⟩ := isSolid_iff.mp solid
  have newSolid : (stmt (step.withStop stop)).isSolid := by
    refine isSolid_iff.mpr ⟨(step.isPositioned_withStop stop).trans positioned, ?_⟩
    rw [spanEq]
    exact Int.lt_of_lt_of_le room stopLe
  have startsEq : (stmt (step.withStop stop)).starts = (stmt step).starts := by
    rw [starts_eq, starts_eq, if_pos newSolid, if_pos solid, childrenEq, spanEq]
    rfl
  refine ⟨.node ⟨?_, ?_, ?_, ?_⟩ ?_, newSolid, startsEq⟩
  · intro pos isStart
    obtain ⟨-, startLe, ltStop⟩ := span_contains_iff.mp (clearAt.holds pos (startsEq ▸ isStart))
    rw [span_contains_iff, spanEq]
    exact ⟨(isSolid_iff.mp newSolid).1, startLe, Int.lt_of_lt_of_le ltStop stopLe⟩
  · exact childrenEq ▸ clearAt.misses
  · exact ownEq ▸ clearAt.lined
  · exact ownEq ▸ clearAt.roomy
  · exact childrenEq ▸ fun _ => clear.child

/-- A statement takes over the lines of a removed one after it. -/
theorem ClearList.takeOver (comments : List Comment) {before rest : List Stmt} {last removed : Stmt}
    (list : ClearList (before ++ last :: removed :: rest)) :
    ClearList (before ++ last.takeOver comments removed.span :: rest) ∧
      (stmt (last.takeOver comments removed.span)).starts = (stmt last).starts := by
  have behind : ClearList (removed :: rest) :=
    list.sublist ((List.sublist_cons_self ..).trans (List.sublist_append_right ..))
  have withoutRemoved : ClearList (before ++ last :: rest) :=
    list.sublist (((List.sublist_cons_self ..).cons_cons last).append_left before)
  unfold Stmt.takeOver
  split
  · next takes =>
      have positioned : (stmt last).isPositioned := (Bool.and_eq_true_iff.mp takes).1
      obtain ⟨beforeClear, restClear⟩ := List.forall_mem_append.mp withoutRemoved.clear
      obtain ⟨lastClear, restClear⟩ := List.forall_mem_cons.mp restClear
      obtain ⟨beforeRoomy, restRoomy⟩ := List.forall_mem_append.mp withoutRemoved.roomy
      obtain ⟨lastRoomy, restRoomy⟩ := List.forall_mem_cons.mp restRoomy
      obtain ⟨clear, solid, startsEq⟩ :=
        lastClear.withStop (lastRoomy positioned) (Int.le_max_left last.span.stop removed.span.stop)
      refine ⟨⟨List.forall_mem_append.mpr ⟨beforeClear, List.forall_mem_cons.mpr ⟨clear, restClear⟩⟩,
        ?_, List.forall_mem_append.mpr
          ⟨beforeRoomy, List.forall_mem_cons.mpr ⟨fun _ => solid, restRoomy⟩⟩⟩, startsEq⟩
      have lined := withoutRemoved.lined
      rw [List.map_append, List.map_cons, List.pairwise_append, List.pairwise_cons] at lined ⊢
      obtain ⟨beforeLined, ⟨lastBefore, restLined⟩, apart⟩ := lined
      refine ⟨beforeLined, ⟨fun node isNode pos isStart => ?_, restLined⟩,
        fun first isFirst second isSecond => ?_⟩
      · have removedLe := behind.before (List.mem_flatMap.mpr ⟨node, isNode, isStart⟩)
        have lastLe : last.span.stop ≤ pos := lastBefore node isNode pos isStart
        simp only [span, last.span_withStop]
        exact Int.max_le.mpr ⟨lastLe, removedLe⟩
      · obtain rfl | isSecond := List.mem_cons.mp isSecond
        · exact fun pos isStart => apart first isFirst _ List.mem_cons_self pos (startsEq ▸ isStart)
        · exact apart first isFirst second (List.mem_cons_of_mem _ isSecond)
  · exact ⟨withoutRemoved, rfl⟩

/-- A list without discard reads: clear statements in which nothing else begins, and an opening that
stays or moves to where a removed statement began. -/
structure Cut (opening : Pos) (stmts : List Stmt) (rest : Pos × List Stmt) : Prop where
  list : ClearList rest.2
  subset : listStarts rest.2 ⊆ listStarts stmts
  opens : rest.1 = opening ∨
    rest.1 ≠ noPos ∧ rest.1 ∈ listStarts stmts ∧ ∀ pos ∈ listStarts rest.2, rest.1 ≤ pos

theorem Cut.mono {opening : Pos} {stmts others : List Stmt} {rest : Pos × List Stmt}
    (cut : Cut opening stmts rest) (subset : listStarts stmts ⊆ listStarts others) :
    Cut opening others rest where
  list := cut.list
  subset := List.Subset.trans cut.subset subset
  opens := cut.opens.imp_right fun ⟨isPos, isStart, le⟩ => ⟨isPos, subset isStart, le⟩

theorem withoutReads_cut (comments : List Comment) {kept rest : List Stmt}
    (list : ClearList (kept.reverse ++ rest)) (opening : Pos) :
    Cut opening (kept.reverse ++ rest) (GoMend.withoutReads comments opening kept rest) := by
  induction rest generalizing opening kept with
  | nil => exact ⟨by simpa [GoMend.withoutReads] using list, by simp [GoMend.withoutReads], .inl rfl⟩
  | cons step rest ih =>
      have withoutStep : (kept.reverse ++ rest).Sublist (kept.reverse ++ step :: rest) :=
        (List.sublist_cons_self step rest).append_left _
      have fewer : listStarts (kept.reverse ++ rest) ⊆ listStarts (kept.reverse ++ step :: rest) := by
        rw [listStarts_append, listStarts_append, listStarts_cons]
        exact List.append_subset.mpr ⟨List.subset_append_left _ _,
          List.subset_append_of_subset_right _ (List.subset_append_right _ _)⟩
      unfold GoMend.withoutReads
      split
      · have sameList : (step :: kept).reverse ++ rest = kept.reverse ++ step :: rest := by simp
        rw [← sameList] at list ⊢
        exact ih list opening
      split
      · exact (ih (list.sublist withoutStep) opening).mono fewer
      · next isPositioned =>
          have positioned : step.span.isPositioned := by simpa using isPositioned
          have solid := list.roomy step (by simp) positioned
          cases kept with
          | nil =>
              have cut := ih (list.sublist withoutStep) (moveOpening comments opening step.span)
              refine ⟨cut.list, List.Subset.trans cut.subset fewer, ?_⟩
              obtain same | ⟨isPos, isStart, le⟩ := cut.opens
              · obtain stays | moves := moveOpening_eq comments opening step.span
                · exact .inl (same.trans stays)
                · have startEq := same.trans moves
                  refine .inr ⟨fun isNoPos => ?_, ?_, fun pos isStart => ?_⟩
                  · simp [Span.isPositioned, ← startEq, isNoPos] at positioned
                  · exact List.mem_append_left _ (startEq ▸ mem_starts_self solid)
                  · rw [startEq]
                    exact Int.le_trans (Int.le_of_lt (isSolid_iff.mp solid).2)
                      (list.before (cut.subset isStart))
              · exact .inr ⟨isPos, fewer isStart, le⟩
          | cons last earlier =>
              rw [List.reverse_cons, List.append_assoc, List.singleton_append] at list ⊢
              obtain ⟨newList, startsEq⟩ := list.takeOver comments
              have newEq : (last.takeOver comments step.span :: earlier).reverse ++ rest =
                  earlier.reverse ++ last.takeOver comments step.span :: rest := by
                simp
              rw [← newEq] at newList
              refine (ih newList opening).mono ?_
              rw [newEq]
              simp only [listStarts_append, listStarts_cons, startsEq]
              exact List.append_subset.mpr ⟨List.subset_append_left _ _,
                List.subset_append_of_subset_right _ (List.append_subset.mpr
                  ⟨List.subset_append_left _ _, List.subset_append_of_subset_right _
                    (List.subset_append_right _ _)⟩)⟩

/-- A node with a list of statements as its last children, from which discard reads were removed. -/
theorem Trims.of_cut {heads : List Node} {stmts news : List Stmt} (clear : Clear old)
    (oldChildren : old.children = heads ++ stmts.map stmt)
    (newChildren : new.children = heads ++ news.map stmt) (newOwn : new.ownStmts? = some news)
    (stopEq : new.span.stop = old.span.stop) (list : ClearList news)
    (subset : listStarts news ⊆ listStarts stmts)
    (opens : new.span.start = old.span.start ∨ new.span.start ≠ noPos ∧
      new.span.start ∈ listStarts stmts ∧ ∀ pos ∈ new.children.flatMap starts, new.span.start ≤ pos) :
    Trims new old := by
  have clearAt := clear.clearAt
  have fewer : new.children.flatMap starts ⊆ old.children.flatMap starts := by
    rw [newChildren, oldChildren, List.flatMap_append, List.flatMap_append]
    exact List.append_subset.mpr ⟨List.subset_append_left _ _,
      List.subset_append_of_subset_right _ subset⟩
  have below : ∀ pos ∈ old.children.flatMap starts,
      old.isPositioned ∧ old.span.start ≤ pos ∧ pos < old.span.stop := by
    intro pos isStart
    obtain ⟨child, isChild, isStart⟩ := List.mem_flatMap.mp isStart
    exact span_contains_iff.mp (clearAt.holds pos (mem_starts_of_child isChild isStart))
  have moved : new.isPositioned = old.isPositioned ∧ old.span.start ≤ new.span.start ∧
      (old.isSolid → new.isSolid) ∧ new.starts ⊆ old.starts ∧
      ∀ pos ∈ new.children.flatMap starts, new.span.start ≤ pos := by
    obtain startEq | ⟨isPos, isStart, le⟩ := opens
    · have spanEq : new.span = old.span := congrArg₂ Span.mk startEq stopEq
      exact ⟨by rw [isPositioned, isPositioned, spanEq], Int.le_of_eq startEq.symm,
        (isSolid_congr spanEq ▸ ·), starts_subset_of_children spanEq fewer,
        fun pos isStart => startEq ▸ (below pos (fewer isStart)).2.1⟩
    · have inOld : new.span.start ∈ old.children.flatMap starts := by
        rw [oldChildren, List.flatMap_append]
        exact List.mem_append_right _ isStart
      obtain ⟨positioned, startLe, ltStop⟩ := below _ inOld
      have newPositioned : new.isPositioned := by simpa [isPositioned, Span.isPositioned] using isPos
      have solid : new.isSolid := isSolid_iff.mpr ⟨newPositioned, stopEq ▸ ltStop⟩
      refine ⟨newPositioned.trans positioned.symm, startLe, fun _ => solid, ?_, le⟩
      rw [starts_eq, starts_eq, if_pos solid]
      exact List.append_subset.mpr
        ⟨List.cons_subset.mpr ⟨List.mem_append_right _ inOld, List.nil_subset _⟩,
          List.subset_append_of_subset_right _ fewer⟩
  obtain ⟨positionedEq, startLe, solid, startsSubset, behind⟩ := moved
  refine ⟨.node ⟨?_, ?_, ?_, ?_⟩ ?_, positionedEq, ⟨startLe, Int.le_of_eq stopEq⟩, solid, startsSubset⟩
  · intro pos isStart
    obtain ⟨newSolid, rfl⟩ | inChild := mem_starts isStart
    · exact span_contains_iff.mpr
        ⟨(isSolid_iff.mp newSolid).1, Int.le_refl _, (isSolid_iff.mp newSolid).2⟩
    · obtain ⟨positioned, -, ltStop⟩ := below pos (fewer inChild)
      exact span_contains_iff.mpr
        ⟨positionedEq.trans positioned, behind pos inChild, stopEq ▸ ltStop⟩
  · have misses := clearAt.misses
    rw [oldChildren, List.pairwise_append] at misses
    rw [newChildren, List.pairwise_append]
    refine ⟨misses.1, list.lined.imp Before.misses, fun head isHead step isStep pos isStart => ?_⟩
    obtain ⟨other, isOther, isStart⟩ :=
      List.mem_flatMap.mp (subset (List.mem_flatMap.mpr ⟨step, isStep, isStart⟩))
    exact misses.2.2 head isHead other isOther pos isStart
  · exact newOwn ▸ list.lined
  · exact newOwn ▸ list.roomy
  · rw [newChildren]
    refine List.forall_mem_append.mpr ⟨fun child isHead => clear.child ?_, ?_⟩
    · exact oldChildren ▸ List.mem_append_left _ isHead
    · exact List.forall_mem_map.mpr list.clear

/-- The list of statements of a clear node is clear. -/
theorem ClearList.of_own {stmts : List Stmt} (clear : Clear old) (own : old.ownStmts? = some stmts) :
    ClearList stmts := by
  have clearAt := clear.clearAt
  have lined := clearAt.lined
  have roomy := clearAt.roomy
  have sublist := old.ownStmts_sublist
  rw [own] at lined roomy sublist
  exact ⟨fun step isStep => clear.child (sublist.subset (List.mem_map_of_mem isStep)), lined, roomy⟩

/-- A clear node without the discard reads of its list needs no more room. -/
theorem trims_withoutReads (comments : List Comment) {node : Node} (clear : Clear node) :
    Trims (node.withoutReads comments) node := by
  unfold withoutReads
  split
  · next body =>
      have list : ClearList body.stmts := .of_own clear rfl
      have cut := @withoutReads_cut comments [] _ list body.span.start
      exact @Trims.of_cut _ _ [] _ _ clear rfl rfl rfl rfl cut.list cut.subset cut.opens
  · next span exprs body colon =>
      have list : ClearList body := .of_own clear rfl
      have cut := @withoutReads_cut comments [] _ list colon
      exact .of_cut clear rfl rfl rfl rfl cut.list cut.subset (.inl rfl)
  · next span comm body colon =>
      have list : ClearList body := .of_own clear rfl
      have cut := @withoutReads_cut comments [] _ list colon
      exact .of_cut clear rfl rfl rfl rfl cut.list cut.subset (.inl rfl)
  · exact .refl clear

/-- A clear tree without its discard reads needs no more room. -/
theorem trims_changeAll (comments : List Comment) (node : Node) (clear : Clear node) :
    Trims (node.changeAll (withoutReads comments)) node := by
  induction node using induction_children with
  | step node ih =>
      have same := map_sort_changeAll (sort_withoutReads comments) node.children
      obtain ⟨resembles, childrenEq⟩ := withChildren_resembles same
      rw [changeAll_eq]
      have children : List.Forall₂ Trims
          (node.withChildren (node.children.map (changeAll (withoutReads comments)))).children
          node.children := by
        rw [childrenEq, List.forall₂_map_left_iff]
        exact List.forall₂_same.mpr fun child isChild => ih child isChild (clear.child isChild)
      have below : Trims _ node :=
        .of_children clear resembles.span_eq children (resembles.relates_own children)
      exact (trims_withoutReads comments below.clear).trans below

end Node

/-! ### Imports -/

namespace Node

variable {new old : Node}

/-- A node whose first children were replaced by names without positions. -/
theorem Trims.of_heads {heads tail : List Node} {names : List Ident} (clear : Clear old)
    (spanEq : new.span = old.span) (oldChildren : old.children = heads ++ tail)
    (newChildren : new.children = names.map ident ++ tail)
    (unread : ∀ name ∈ names, name.span = .absent) (noList : new.ownStmts? = none) :
    Trims new old := by
  have clearAt := clear.clearAt
  have leaf : ∀ name ∈ names, (ident name).starts = [] ∧ (ident name).Clear := by
    intro name isName
    have noRoom : (ident name).span.stop ≤ (ident name).span.start :=
      Int.le_of_eq (by simp [ident, span, Expr.span, unread name isName, Span.absent])
    exact ⟨starts_of_empty noRoom rfl, .of_empty noRoom rfl rfl⟩
  have silent : (names.map ident).flatMap starts = [] := by
    rw [List.flatMap_map]
    exact List.flatMap_eq_nil_iff.mpr fun name isName => (leaf name isName).1
  have fewer : new.children.flatMap starts ⊆ old.children.flatMap starts := by
    rw [newChildren, oldChildren, List.flatMap_append, List.flatMap_append, silent]
    exact List.subset_append_right _ _
  have subset := starts_subset_of_children spanEq fewer
  refine ⟨.node ⟨?_, ?_, by simp [noList], by simp [noList]⟩ ?_,
    by rw [isPositioned, isPositioned, spanEq], spanEq ▸ .refl _, (isSolid_congr spanEq ▸ ·), subset⟩
  · rw [spanEq]
    exact fun pos isStart => clearAt.holds pos (subset isStart)
  · have misses := clearAt.misses
    rw [oldChildren, List.pairwise_append] at misses
    rw [newChildren]
    have nameMisses : ∀ name ∈ names, ∀ other, Misses (ident name) other := by
      intro name isName other pos _
      simp [ident, span, Expr.span, unread name isName, Span.contains, Span.isPositioned, Span.absent]
    refine List.pairwise_append.mpr ⟨?_, misses.2.1, ?_⟩
    · exact List.pairwise_of_forall_mem_list
        (List.forall_mem_map.mpr fun name isName other _ => nameMisses name isName other)
    · exact List.forall_mem_map.mpr fun name isName other _ => nameMisses name isName other
  · rw [newChildren]
    refine List.forall_mem_append.mpr
      ⟨List.forall_mem_map.mpr fun name isName => (leaf name isName).2, fun child isTail => ?_⟩
    exact clear.child (oldChildren ▸ List.mem_append_right _ isTail)

/-- An import that got the blank name or lost its name. -/
theorem trims_importSpec (spec : ImportSpec) (name : Option Ident)
    (unread : ∀ given ∈ name.toList, given.span = .absent) :
    (Node.spec (.importSpec { spec with name })).sort = (Node.spec (.importSpec spec)).sort ∧
      (Clear (.spec (.importSpec spec)) →
        Trims (.spec (.importSpec { spec with name })) (.spec (.importSpec spec))) :=
  ⟨rfl, fun clear => .of_heads clear rfl rfl rfl unread rfl⟩

end Node

/-! ### Files -/

variable {file edited : File}

/-- A file that was mended, or whose fixes were taken back, any number of times. -/
inductive Rewritten (file : File) : File → Prop
  | nothing : Rewritten file file
  | mend {shape : Shape} {chain : List Address} {middle edited : File} {edit : Edit}
      (before : Rewritten file middle) (outcome : shape.mend chain middle = .ok (edit, edited)) :
      Rewritten file edited
  | reverted {middle : File} (keep : List String) (before : Rewritten file middle) :
      Rewritten file (middle.reverted keep)

namespace File

/-- A clear file stays clear when a fix changes it. -/
theorem clear_mend {shape : Shape} {chain : List Address} {edit : Edit}
    (outcome : shape.mend chain file = .ok (edit, edited)) (clear : (Node.file file).Clear) :
    (Node.file edited).Clear := by
  have trims := Node.Congruence.trims
  suffices related : (Node.file edited).sort = (Node.file file).sort ∧
      ((Node.file file).Clear → Trims (.file edited) (.file file)) from (related.2 clear).clear
  cases shape with
  | unusedVariable name =>
      refine trims.toClimbs.addReadAnywhere (fun step changed isOwner appends => ?_)
        (fun step changed noBody appends => ?_) outcome
      · exact trims_append isOwner appends
      · exact trims_appendMissing noBody appends
  | unusedImport path =>
      refine trims.blankImport (fun spec => trims_importSpec spec _ ?_) outcome
      exact List.forall_mem_singleton.mpr rfl
  | noNewVariables =>
      exact trims.toClimbs.replaceDefine (fun step changed => trims_withoutDefine) outcome

/-- A clear file stays clear when its fixes are taken back. -/
theorem clear_reverted (keep : List String) (clear : (Node.file file).Clear) :
    (Node.file (file.reverted keep)).Clear := by
  have trims := Node.Congruence.trims
  have stripped := (trims_changeAll file.comments (.file file) clear).clear
  rw [changeAll_withoutReads] at stripped
  rw [reverted_eq]
  have atSpec (item : Spec) : (Node.spec (item.restored keep)).sort = (Node.spec item).sort ∧
      ((Node.spec item).Clear → Trims (.spec (item.restored keep)) (.spec item)) := by
    cases item with
    | importSpec spec =>
        simp only [Spec.restored, ImportSpec.restored]
        split
        · exact trims_importSpec spec none (by rintro _ ⟨⟩)
        · exact trims.refl _
    | _ => exact trims.refl _
  have atDecl (item : Decl) : (Node.decl (item.restored keep)).sort = (Node.decl item).sort ∧
      ((Node.decl item).Clear → Trims (.decl (item.restored keep)) (.decl item)) := by
    cases item with
    | func item => exact trims.refl _
    | gen item =>
        obtain ⟨span, tok, specs, grouped⟩ := item
        exact trims.genDecl (List.forall₂_map_left_iff.mpr
          (List.forall₂_same.mpr fun item _ => atSpec item))
  exact ((trims.withDecls (List.forall₂_map_left_iff.mpr
    (List.forall₂_same.mpr fun item _ => atDecl item))).2 stripped).clear

end File

theorem Rewritten.clear (rewritten : Rewritten file edited) (clear : (Node.file file).Clear) :
    (Node.file edited).Clear := by
  induction rewritten with
  | nothing => exact clear
  | mend before outcome ih => exact File.clear_mend outcome ih
  | reverted keep before ih => exact File.clear_reverted keep ih

/-! ### Searches -/

/-- What a search for a position goes through: the node where it sets out, and from there one child
after the other that holds the position, down to a node of which no child does. -/
structure IsDescent (pos : Pos) (node : Node) (address : Address) (chain : List Located) : Prop where
  head : chain.head? = some ⟨node, address⟩
  steps : chain.IsChain fun outer inner => ∃ index,
    outer.node.children[index]? = some inner.node ∧ inner.address = outer.address ++ [index]
  contains : ∀ located ∈ chain.tail, located.node.span.contains pos
  innermost : ∀ located ∈ chain.getLast?, ∀ child ∈ located.node.children,
    child.span.contains pos = false

theorem Node.isDescent_descend (pos : Pos) (node : Node) (address : Address) :
    IsDescent pos node address (node.descend pos address) := by
  induction node using induction_children generalizing address with
  | step node ih =>
      rw [descend]
      split
      · next notFound =>
          refine ⟨rfl, .singleton _, by rintro _ ⟨⟩, ?_⟩
          rintro located ⟨⟩
          simpa using List.find?_eq_none.mp notFound
      · next child isFound =>
          obtain ⟨contains, index, inside, rfl, earlier⟩ := List.find?_eq_some_iff_getElem.mp isFound
          have indexEq : node.children.findIdx (·.span.contains pos) = index :=
            (List.findIdx_eq inside).mpr ⟨contains, by simpa using earlier⟩
          have below := ih _ (List.getElem_mem inside) (address ++ [index])
          rw [indexEq]
          cases chainEq : descend pos node.children[index] (address ++ [index]) with
          | nil => exact absurd (chainEq ▸ below.head) nofun
          | cons inner chain =>
              rw [chainEq] at below
              obtain rfl := Option.some.inj below.head
              exact ⟨rfl, .cons_cons ⟨index, List.getElem?_eq_getElem inside, rfl⟩ below.steps,
                List.forall_mem_cons.mpr ⟨contains, below.contains⟩, below.innermost⟩

/-- The nodes around a position: a node of which no child holds the position, and from there one
parent after the other up to the file.  All of them hold the position, except perhaps the file. -/
structure Encloses (file : File) (pos : Pos) (chain : List Located) : Prop where
  innermost : ∀ located ∈ chain.head?, ∀ child ∈ located.node.children,
    child.span.contains pos = false
  steps : chain.IsChain fun inner outer => ∃ index,
    outer.node.children[index]? = some inner.node ∧ inner.address = outer.address ++ [index]
  contains : ∀ located ∈ chain.dropLast, located.node.span.contains pos
  root : chain.getLast? = some ⟨.file file, []⟩

theorem File.encloses_enclosing (file : File) (pos : Pos) :
    Encloses file pos (file.enclosing pos) := by
  have descent := isDescent_descend pos (.file file) []
  refine ⟨?_, List.isChain_reverse.mpr descent.steps, ?_, ?_⟩
  · rw [enclosing, List.head?_reverse]
    exact descent.innermost
  · rw [enclosing, List.dropLast_reverse]
    exact fun located isMember => descent.contains located (List.mem_reverse.mp isMember)
  · rw [enclosing, List.getLast?_reverse]
    exact descent.head

/-- However often a file that was read is mended and its fixes are taken back, a search finds every
node that was read and takes up room from the position where it begins, and goes from the file
through one child after the other as far as one holds the position. -/
theorem Rewritten.mem_enclosing {set : FileSet} {name text : String} {file edited : File}
    (parsed : (File.parse set name text).2 = .ok file) (rewritten : Rewritten file edited) :
    (∀ node address, (Node.file edited).get? address = some node → node.span.isPositioned →
      node.span.start < node.span.stop → ⟨node, address⟩ ∈ edited.enclosing node.span.start) ∧
    ∀ pos, Encloses edited pos (edited.enclosing pos) := by
  refine ⟨fun node address found positioned room => ?_, edited.encloses_enclosing⟩
  obtain ⟨-, -, clear, -⟩ := @File.ofText_sound (.ofText name set.nextBase text) text file
    set.nextBase_pos rfl parsed
  have solid : node.isSolid := isSolid_iff.mpr ⟨positioned, room⟩
  exact List.mem_reverse.mpr ((rewritten.clear clear).mem_descend found solid [])

theorem Rewritten.mem_enclosing_sample :
    ∃ edit edited, Shape.noNewVariables.mend [[1, 2, 1]] sampleFile = .ok (edit, edited) ∧
      ⟨.ident ⟨⟨31, 32⟩, "x"⟩, [1, 2, 1, 0]⟩ ∈ edited.enclosing 31 ∧
      ∀ pos, Encloses edited pos (edited.enclosing pos) := by
  refine ⟨_, _, rfl, ?_⟩
  have found := Rewritten.mem_enclosing parse_sampleText
    (@Rewritten.mend _ .noNewVariables [[1, 2, 1]] _ _ _ .nothing rfl)
  exact ⟨found.1 (.ident ⟨⟨31, 32⟩, "x"⟩) [1, 2, 1, 0] rfl rfl (by decide), found.2⟩

end GoMend
