import GoMend.Fix.Revert
import GoMend.Proofs.Tree.Congruence

/-!
# Taking fixes back keeps trees sound

A removed statement gives its lines to the statement above it, or to what opens its list.  Either
way the places that remain stand in the ranges around them, in the order in which they were read.
-/

namespace GoMend

/-! ### Statements with more lines -/

namespace Stmt

variable (step : Stmt) (stop : Pos)

theorem span_withStop : (step.withStop stop).span = { step.span with stop } := by
  cases step <;> rfl

theorem children_withStop :
    (Node.stmt (step.withStop stop)).children = (Node.stmt step).children := by
  cases step <;> rfl

theorem parts_withStop (role : Role) :
    (Node.stmt (step.withStop stop)).parts role = (Node.stmt step).parts role := by
  cases step <;> rfl

theorem token?_withStop : (Node.stmt (step.withStop stop)).token? = (Node.stmt step).token? := by
  cases step with
  | range span key value tok operand body tokPos => cases tok <;> rfl
  | _ => rfl

theorem opener?_withStop :
    (Node.stmt (step.withStop stop)).opener? = (Node.stmt step).opener? := by
  cases step with
  | assign span lhs tok rhs tokPos => cases lhs <;> rfl
  | _ => rfl

theorem admits_withStop (role : Role) :
    role.admits (.stmt (step.withStop stop)) = role.admits (.stmt step) := by
  cases step <;> cases role <;> rfl

theorem isPositioned_withStop :
    (Node.stmt (step.withStop stop)).isPositioned = (Node.stmt step).isPositioned := by
  simp [Node.isPositioned, Node.span, span_withStop, Span.isPositioned]

theorem places_withStop : (Node.stmt (step.withStop stop)).places = (Node.stmt step).places := by
  have positionedEq := isPositioned_withStop step stop
  cases positioned : (Node.stmt step).isPositioned with
  | false => rw [Node.places_eq_nil positioned, Node.places_eq_nil (positionedEq.trans positioned)]
  | true =>
      rw [Node.places_eq positioned, Node.places_eq (positionedEq.trans positioned),
        token?_withStop, children_withStop]

end Stmt

/-- A statement that was read stays sound with more lines. -/
theorem Sound.withStop {role : Role} {step : Stmt} {stop : Pos} (sound : Sound role (.stmt step))
    (positioned : step.span.isPositioned) (stopLe : step.span.stop ≤ stop) :
    Sound role (.stmt (step.withStop stop)) := by
  obtain ⟨stands, parts⟩ := sound.of_isPositioned positioned
  have spanEq : (Node.stmt (step.withStop stop)).span = { step.span with stop } :=
    step.span_withStop stop
  refine .placed ⟨?_, ?_, ?_, ?_, ?_, ?_, ?_⟩ ?_
  · rw [step.admits_withStop]
    exact stands.admitted
  · rw [spanEq]
    exact stands.positive
  · intro pos mem
    rw [step.places_withStop] at mem
    obtain ⟨startLe, ltStop⟩ := stands.holds pos mem
    rw [spanEq]
    exact ⟨startLe, Int.lt_of_lt_of_le ltStop stopLe⟩
  · intro count pos token
    rw [step.token?_withStop] at token
    rw [step.children_withStop]
    exact stands.tokenBetween count pos token
  · rw [step.children_withStop]
    exact stands.apart
  · exact fun _ => nofun
  · intro first isFirst
    rw [step.opener?_withStop] at isFirst
    rw [spanEq]
    exact stands.opens first isFirst
  · rw [step.parts_withStop]
    exact parts

/-! ### Lists of statements -/

/-- A discard read that was read from a text begins with a name. -/
theorem Sound.start_mem_places {role : Role} {step : Stmt} (sound : Sound role (.stmt step))
    (positioned : step.span.isPositioned) (isRead : step.isDiscardRead) :
    step.span.start ∈ (Node.stmt step).places := by
  obtain ⟨stands, -⟩ := sound.of_isPositioned positioned
  unfold Stmt.isDiscardRead at isRead
  split at isRead
  · next span left right tokPos =>
      have startEq : left.span.start = span.start := stands.opens _ rfl
      have leftPositioned : (Node.ident left).isPositioned := by
        refine Node.isPositioned_of_pos ?_
        show 0 < left.span.start
        rw [startEq]
        exact stands.positive
      refine Node.mem_places_of_child positioned (List.mem_cons_self : Node.ident left ∈ _) ?_
      rw [Node.places_eq leftPositioned]
      simp [Node.token?, Node.ident, startEq, Stmt.span]
  · cases isRead

/-- Sound statements behind a position, one after the other. -/
structure Lined (member : Role) (low : Pos) (stmts : List Stmt) : Prop where
  sound : ∀ step ∈ stmts, Sound member (.stmt step)
  apart : (stmts.map Node.stmt).Pairwise Node.Precedes
  low_le : ∀ step ∈ stmts, ∀ pos ∈ (Node.stmt step).places, low ≤ pos

namespace Lined

variable {member : Role} {low : Pos} {before after stmts : List Stmt} {step removed : Stmt}

theorem sublist {fewer : List Stmt} (lined : Lined member low stmts)
    (sublist : fewer.Sublist stmts) : Lined member low fewer where
  sound step mem := lined.sound step (sublist.subset mem)
  apart := lined.apart.sublist (sublist.map _)
  low_le step mem := lined.low_le step (sublist.subset mem)

/-- The statements behind a discard read stand behind its beginning. -/
theorem behind (lined : Lined member low (removed :: after)) (positioned : removed.span.isPositioned)
    (isRead : removed.isDiscardRead) :
    low ≤ removed.span.start ∧ Lined member removed.span.start after := by
  have sound := lined.sound removed List.mem_cons_self
  have isPlace := sound.start_mem_places positioned isRead
  refine ⟨lined.low_le removed List.mem_cons_self _ isPlace, ?_⟩
  refine { lined.sublist (List.sublist_cons_self ..) with low_le := fun step mem pos place => ?_ }
  have stopLe := (List.pairwise_cons.mp lined.apart).1 _ (List.mem_map_of_mem mem) pos place
  exact Int.le_of_lt (Int.lt_of_lt_of_le (sound.holds isPlace).2.2 stopLe)

/-- A statement can get the lines of the one after it. -/
theorem takeOver (comments : List Comment)
    (lined : Lined member low (before ++ step :: removed :: after)) :
    Lined member low (before ++ step.takeOver comments removed.span :: after) := by
  unfold Stmt.takeOver
  split
  · next takes =>
      have positioned : step.span.isPositioned := (Bool.and_eq_true _ _ ▸ takes).1
      have placesEq := step.places_withStop (max step.span.stop removed.span.stop)
      obtain ⟨soundBefore, soundRest⟩ := List.forall_mem_append.mp lined.sound
      obtain ⟨soundStep, soundRest⟩ := List.forall_mem_cons.mp soundRest
      obtain ⟨lowBefore, lowRest⟩ := List.forall_mem_append.mp lined.low_le
      obtain ⟨lowStep, lowRest⟩ := List.forall_mem_cons.mp lowRest
      have apart := lined.apart
      simp only [List.map_append, List.map_cons, List.pairwise_append, List.pairwise_cons,
        List.forall_mem_cons] at apart
      obtain ⟨apartBefore, ⟨⟨-, stepFirst⟩, removedFirst, apartAfter⟩, acrossBefore⟩ := apart
      refine ⟨?_, ?_, ?_⟩
      · refine List.forall_mem_append.mpr ⟨soundBefore, List.forall_mem_cons.mpr ⟨?_, ?_⟩⟩
        · exact soundStep.withStop positioned (Int.le_max_left ..)
        · exact (List.forall_mem_cons.mp soundRest).2
      · simp only [List.map_append, List.map_cons, List.pairwise_append, List.pairwise_cons,
          List.forall_mem_cons]
        refine ⟨apartBefore, ⟨?_, apartAfter⟩, fun node mem => ?_⟩
        · intro node mem pos place
          have stopEq : (Node.stmt (step.withStop (max step.span.stop removed.span.stop))).span.stop =
              max step.span.stop removed.span.stop :=
            congrArg Span.stop (step.span_withStop _)
          rw [stopEq]
          exact Int.max_le.mpr ⟨stepFirst node mem pos place, removedFirst node mem pos place⟩
        · obtain ⟨precedesStep, -, precedesAfter⟩ := acrossBefore node mem
          refine ⟨?_, precedesAfter⟩
          rw [Node.Precedes, placesEq]
          exact precedesStep
      · refine List.forall_mem_append.mpr ⟨lowBefore, List.forall_mem_cons.mpr ⟨?_, ?_⟩⟩
        · rw [placesEq]
          exact lowStep
        · exact (List.forall_mem_cons.mp lowRest).2
  · exact lined.sublist (.append (.refl before) (.cons_cons step (List.sublist_cons_self ..)))

end Lined

/-- The places of statements. -/
def stmtPlaces (stmts : List Stmt) : List Pos :=
  (stmts.map Node.stmt).flatMap Node.places

theorem stmtPlaces_subset {fewer stmts : List Stmt} (sublist : fewer.Sublist stmts) :
    stmtPlaces fewer ⊆ stmtPlaces stmts := by
  intro pos mem
  obtain ⟨node, isNode, place⟩ := List.mem_flatMap.mp mem
  exact List.mem_flatMap.mpr ⟨node, (sublist.map _).subset isNode, place⟩

theorem places_takeOver (comments : List Comment) (removed : Span) (step : Stmt) :
    (Node.stmt (step.takeOver comments removed)).places = (Node.stmt step).places := by
  unfold Stmt.takeOver
  split
  · exact step.places_withStop _
  · rfl

/-- What remains of a list of statements without some of them, with the opening of the list. -/
structure Trimmed (member : Role) (low opening : Pos) (stmts : List Stmt)
    (result : Pos × List Stmt) : Prop where
  lined : Lined member low result.2
  subset : stmtPlaces result.2 ⊆ stmtPlaces stmts
  opens : result.1 = opening ∨ low ≤ result.1 ∧ Lined member result.1 result.2

theorem Trimmed.of_sublist {member : Role} {low opening : Pos} {fewer stmts : List Stmt}
    {result : Pos × List Stmt} (trimmed : Trimmed member low opening fewer result)
    (sublist : fewer.Sublist stmts) : Trimmed member low opening stmts result :=
  { trimmed with subset := List.Subset.trans trimmed.subset (stmtPlaces_subset sublist) }

theorem moveOpening_eq (comments : List Comment) (opening : Pos) (removed : Span) :
    moveOpening comments opening removed = opening ∨
      moveOpening comments opening removed = removed.start := by
  unfold moveOpening
  split
  · exact .inr rfl
  · exact .inl rfl

/-- Removing discard reads keeps the order of statements.  The opening of the list moves only over
statements that are removed. -/
theorem withoutReads_trimmed (comments : List Comment) (opening : Pos) {member : Role} {low : Pos}
    {kept rest : List Stmt} (lined : Lined member low (kept.reverse ++ rest)) :
    Trimmed member low opening (kept.reverse ++ rest) (withoutReads comments opening kept rest) := by
  induction rest generalizing low opening kept with
  | nil =>
      rw [List.append_nil] at lined ⊢
      exact ⟨lined, List.Subset.refl _, .inl rfl⟩
  | cons step rest ih =>
      have fewer : (kept.reverse ++ rest).Sublist (kept.reverse ++ step :: rest) :=
        .append (.refl _) (List.sublist_cons_self ..)
      unfold withoutReads
      split
      · have pushed : kept.reverse ++ step :: rest = (step :: kept).reverse ++ rest := by simp
        rw [pushed] at lined ⊢
        exact ih opening lined
      · next isRead =>
        have isRead : step.isDiscardRead := by simpa using isRead
        split
        · exact (ih opening (lined.sublist fewer)).of_sublist fewer
        · next positioned =>
          have positioned : step.span.isPositioned := by simpa using positioned
          cases kept with
          | nil =>
              obtain ⟨lowLe, behind⟩ := Lined.behind lined positioned isRead
              dsimp only
              obtain openingEq | openingEq := moveOpening_eq comments opening step.span
              · rw [openingEq]
                exact (ih opening (lined.sublist fewer)).of_sublist fewer
              · rw [openingEq]
                have trimmed := ih step.span.start (lined.sublist fewer)
                have behind : Lined member step.span.start (([] : List Stmt).reverse ++ rest) := behind
                have linedBehind := (ih step.span.start behind).lined
                refine { trimmed.of_sublist fewer with opens := .inr ?_ }
                obtain same | moved := trimmed.opens
                · rw [same]
                  exact ⟨lowLe, linedBehind⟩
                · exact moved
          | cons last earlier =>
              have listEq (last : Stmt) (rest : List Stmt) :
                  (last :: earlier).reverse ++ rest = earlier.reverse ++ last :: rest := by simp
              rw [listEq] at lined ⊢
              have taken := lined.takeOver comments
              rw [← listEq] at taken
              have trimmed := ih opening taken
              refine { trimmed with subset := List.Subset.trans trimmed.subset ?_ }
              rw [listEq]
              simp only [stmtPlaces, List.map_append, List.map_cons, List.flatMap_append,
                List.flatMap_cons, places_takeOver]
              grind

theorem Lined.trimmed {member : Role} {low : Pos} {stmts : List Stmt}
    (lined : Lined member low stmts) (comments : List Comment) (opening : Pos) :
    Trimmed member low opening stmts (withoutReads comments opening [] stmts) := by
  have lined : Lined member low (([] : List Stmt).reverse ++ stmts) := lined
  exact withoutReads_trimmed comments opening lined

/-! ### Nodes without discard reads -/

namespace Node

variable {role : Role}

/-- A node that holds other statements than before is sound, when they stand in its range. -/
theorem sound_of_lined {old new : Node} {heads : List (Role × Node)} {member : Role}
    {stmts stmts' : List Stmt} (sound : Sound role old) (positioned : old.isPositioned)
    (oldParts : old.parts role = heads ++ stmts.map fun step => (member, Node.stmt step))
    (newParts : new.parts role = heads ++ stmts'.map fun step => (member, Node.stmt step))
    (noToken : new.token? = none) (notNested : new.nested = []) (admitted : role.admits new)
    (sortEq : new.sort = old.sort) (stopEq : new.span.stop = old.span.stop)
    (startLe : old.span.start ≤ new.span.start)
    (startEq : heads = [] ∧ old.sort = .block ∨ new.span.start = old.span.start)
    (lined : Lined member new.span.start stmts') (subset : stmtPlaces stmts' ⊆ stmtPlaces stmts) :
    Sound role new ∧ Shrinks new old := by
  obtain ⟨stands, parts⟩ := sound.of_isPositioned positioned
  have positive := stands.positive
  have newPositioned : new.isPositioned := isPositioned_of_pos (by lia)
  have oldChildren : old.children = heads.map Prod.snd ++ stmts.map Node.stmt := by
    rw [← map_snd_parts role, oldParts]
    simp [Function.comp_def]
  have newChildren : new.children = heads.map Prod.snd ++ stmts'.map Node.stmt := by
    rw [← map_snd_parts role, newParts]
    simp [Function.comp_def]
  have placesSubset : new.places ⊆ old.places := by
    rw [places_eq positioned, places_eq newPositioned, noToken, oldChildren, newChildren,
      List.flatMap_append, List.flatMap_append]
    refine List.append_subset.mpr ⟨List.nil_subset _, List.append_subset.mpr ⟨?_, ?_⟩⟩
    · exact List.subset_append_of_subset_right _ (List.subset_append_left ..)
    · exact List.subset_append_of_subset_right _ (List.subset_append_of_subset_right _ subset)
  have holds : ∀ pos ∈ new.places, new.span.start ≤ pos ∧ pos < new.span.stop := by
    intro pos mem
    obtain ⟨oldStart, ltStop⟩ := stands.holds pos (placesSubset mem)
    refine ⟨?_, stopEq ▸ ltStop⟩
    obtain ⟨rfl, -⟩ | startEq := startEq
    · obtain ⟨child, isChild, place⟩ := mem_places_of_noToken noToken mem
      rw [newChildren, List.map_nil, List.nil_append] at isChild
      obtain ⟨step, isStep, rfl⟩ := List.mem_map.mp isChild
      exact lined.low_le step isStep pos place
    · exact startEq ▸ oldStart
  have apart : new.children.Pairwise Precedes := by
    have oldApart := stands.apart
    rw [oldChildren, List.pairwise_append] at oldApart
    rw [newChildren, List.pairwise_append]
    refine ⟨oldApart.1, lined.apart, fun head isHead step isStep pos place => ?_⟩
    obtain ⟨oldStep, isOld, place⟩ :=
      List.mem_flatMap.mp (subset (List.mem_flatMap.mpr ⟨step, isStep, place⟩))
    exact oldApart.2.2 head isHead oldStep isOld pos place
  refine ⟨.placed ⟨admitted, by lia, holds, ?_, apart, ?_, ?_⟩ ?_, sortEq, ?_, ?_, placesSubset, ?_⟩
  · intro count pos token
    rw [noToken] at token
    exact absurd token.symm (Option.some_ne_none _)
  · simp [notNested]
  · simp [opener?_eq_none noToken]
  · rw [oldParts] at parts
    rw [newParts]
    refine List.forall_mem_append.mpr ⟨(List.forall_mem_append.mp parts).1, ?_⟩
    simpa using lined.sound
  · rw [newPositioned, positioned]
  · exact ⟨startLe, Int.le_of_eq stopEq⟩
  · intro notBlock
    exact startEq.resolve_left fun isBlock => notBlock isBlock.2

/-- The statements that a sound node holds stand in its range one after the other. -/
theorem Stands.lined {node : Node} {heads : List (Role × Node)} {member : Role} {stmts : List Stmt}
    (stands : node.Stands role) (sound : ∀ part ∈ node.parts role, Sound part.1 part.2)
    (partsEq : node.parts role = heads ++ stmts.map fun step => (member, Node.stmt step)) :
    Lined member node.span.start stmts := by
  have childrenEq : node.children = heads.map Prod.snd ++ stmts.map Node.stmt := by
    rw [← map_snd_parts role, partsEq]
    simp [Function.comp_def]
  have apart := stands.apart
  rw [childrenEq, List.pairwise_append] at apart
  refine ⟨?_, apart.2.1, fun step isStep pos place => ?_⟩
  · rw [partsEq] at sound
    simpa using (List.forall_mem_append.mp sound).2
  · refine (stands.holds pos ?_).1
    rw [places_eq (isPositioned_of_pos stands.positive), childrenEq]
    refine List.mem_append_right _ (List.mem_flatMap.mpr ⟨.stmt step, ?_, place⟩)
    exact List.mem_append_right _ (List.mem_map_of_mem isStep)

/-- A sound node that was read stays sound without its discard reads. -/
theorem withoutReads_sound (comments : List Comment) {node : Node} (sound : Sound role node)
    (positioned : node.isPositioned) :
    Sound role (node.withoutReads comments) ∧ Shrinks (node.withoutReads comments) node := by
  obtain ⟨stands, parts⟩ := sound.of_isPositioned positioned
  unfold withoutReads
  split
  · next body =>
      have partsEq (body : Block) : (Node.stmt (.block body)).parts role =
          [] ++ body.stmts.map fun step => (role.member, .stmt step) := rfl
      have lined := stands.lined parts (partsEq body)
      have trimmed := lined.trimmed comments body.span.start
      have starts : body.span.start ≤ (GoMend.withoutReads comments body.span.start [] body.stmts).1 ∧
          Lined role.member (GoMend.withoutReads comments body.span.start [] body.stmts).1
            (GoMend.withoutReads comments body.span.start [] body.stmts).2 := by
        obtain same | moved := trimmed.opens
        · rw [same]
          exact ⟨Int.le_refl _, trimmed.lined⟩
        · exact moved
      have admitted := stands.admitted
      refine sound_of_lined sound positioned (partsEq body) (partsEq _) rfl rfl ?_ rfl rfl starts.1
        (.inl ⟨rfl, rfl⟩) starts.2 trimmed.subset
      cases role <;> exact admitted
  · next span exprs body colon =>
      have partsEq (body : List Stmt) (colon : Pos) :
          (Node.stmt (.caseClause span exprs body colon)).parts role =
            (exprs.getD []).map (fun value => (Role.plain, Node.expr value)) ++
              body.map fun step => (Role.stmt, Node.stmt step) := rfl
      have lined := stands.lined parts (partsEq body colon)
      have trimmed := lined.trimmed comments colon
      have admitted := stands.admitted
      refine sound_of_lined sound positioned (partsEq body colon) (partsEq _ _) rfl rfl ?_ rfl rfl
        (Int.le_refl _) (.inr rfl) trimmed.lined trimmed.subset
      cases role <;> exact admitted
  · next span comm body colon =>
      have partsEq (body : List Stmt) (colon : Pos) :
          (Node.stmt (.commClause span comm body colon)).parts role =
            comm.toList.map (fun step => (Role.simple, Node.stmt step)) ++
              body.map fun step => (Role.stmt, Node.stmt step) := rfl
      have lined := stands.lined parts (partsEq body colon)
      have trimmed := lined.trimmed comments colon
      have admitted := stands.admitted
      refine sound_of_lined sound positioned (partsEq body colon) (partsEq _ _) rfl rfl ?_ rfl rfl
        (Int.le_refl _) (.inr rfl) trimmed.lined trimmed.subset
      cases role <;> exact admitted
  · exact ⟨sound, .refl _⟩

/-- A sound tree stays sound without discard reads. -/
theorem changeAll_sound (comments : List Comment) {node : Node} (sound : Sound role node) :
    Sound role (node.changeAll (withoutReads comments)) ∧
      Shrinks (node.changeAll (withoutReads comments)) node := by
  induction sound with
  | @placed role node stands parts ih =>
      have positioned := isPositioned_of_pos stands.positive
      have refills : Refills (node.children.map (changeAll (withoutReads comments)))
          (node.parts role) := by
        rw [← map_snd_parts role, List.map_map, Refills, List.forall₂_map_left_iff]
        exact List.forall₂_same.mpr fun part isPart => (ih part isPart).symm
      obtain ⟨refilled, shrinks⟩ := refills.withChildren (.placed stands parts) positioned
      obtain ⟨changed, shrinksMore⟩ :=
        withoutReads_sound comments refilled (shrinks.isPositioned_eq.trans positioned)
      rw [changeAll_eq]
      exact ⟨changed, shrinksMore.trans shrinks⟩
  | read name isWord =>
      rw [changeAll_discardRead fun _ => rfl]
      exact ⟨.read name isWord, .refl _⟩
  | blank =>
      rw [changeAll_ident]
      exact ⟨.blank, .refl _⟩

end Node

/-! ### Restored imports -/

section Restored

variable {keep : List String}

theorem ImportSpec.restored_sound {spec : ImportSpec}
    (sound : Sound .plain (.spec (.importSpec spec))) :
    Sound .plain (.spec (.importSpec (spec.restored keep))) ∧
      Node.Shrinks (.spec (.importSpec (spec.restored keep))) (.spec (.importSpec spec)) := by
  unfold restored
  split
  · have positioned : (Node.spec (.importSpec spec)).isPositioned := by
      cases sound with
      | placed stands => exact Node.isPositioned_of_pos stands.positive
    obtain ⟨stands, parts⟩ := sound.of_isPositioned positioned
    have fewer : (Node.spec (.importSpec { spec with name := none })).children.Sublist
        (Node.spec (.importSpec spec)).children :=
      List.sublist_append_right ..
    have positioned' : (Node.spec (.importSpec { spec with name := none })).isPositioned :=
      positioned
    have subset : (Node.spec (.importSpec { spec with name := none })).places ⊆
        (Node.spec (.importSpec spec)).places := by
      intro pos mem
      obtain ⟨child, isChild, place⟩ := Node.mem_places_of_noToken rfl mem
      exact Node.mem_places_of_child positioned (fewer.subset isChild) place
    refine ⟨.placed ⟨rfl, stands.positive, fun pos mem => stands.holds pos (subset mem), nofun,
      stands.apart.sublist fewer, nofun, nofun⟩ fun part isPart => ?_, rfl, rfl, .refl _, subset,
      fun _ => rfl⟩
    exact parts part ((fewer.map _).subset isPart)
  · exact ⟨sound, .refl _⟩

theorem Spec.restored_sound {item : Spec} (sound : Sound .plain (.spec item)) :
    Sound .plain (.spec (item.restored keep)) ∧
      Node.Shrinks (.spec (item.restored keep)) (.spec item) := by
  cases item with
  | importSpec spec => exact spec.restored_sound sound
  | _ => exact ⟨sound, .refl _⟩

theorem Decl.restored_sound {item : Decl} (sound : Sound .plain (.decl item)) :
    Sound .plain (.decl (item.restored keep)) ∧
      Node.Shrinks (.decl (item.restored keep)) (.decl item) := by
  cases item with
  | func decl => exact ⟨sound, .refl _⟩
  | gen decl =>
      refine sound.withSpecs ?_
      rw [List.forall₂_map_left_iff]
      refine List.forall₂_same.mpr fun item isItem => ?_
      exact (Spec.restored_sound (sound.spec isItem)).symm

end Restored

/-- A sound file stays sound when fixes are taken back. -/
theorem File.reverted_sound {file : File} (keep : List String) (sound : Sound .plain (.file file)) :
    Sound .plain (.file (file.reverted keep)) ∧
      Node.Shrinks (.file (file.reverted keep)) (.file file) := by
  obtain ⟨stripped, shrinks⟩ := Node.changeAll_sound file.comments sound
  obtain ⟨source, isSource⟩ := Node.exists_file_of_sort shrinks.sort_eq
  have sourceEq : file.changeAll (Node.withoutReads file.comments) = source := by
    rw [File.changeAll, isSource]
    rfl
  rw [isSource] at stripped shrinks
  have restored : Sound .plain (.file { source with decls := source.decls.map (Decl.restored keep) }) ∧
      Node.Shrinks (.file { source with decls := source.decls.map (Decl.restored keep) })
        (.file source) := by
    refine stripped.withDecls ?_
    rw [List.forall₂_map_left_iff]
    refine List.forall₂_same.mpr fun item isItem => ?_
    exact (Decl.restored_sound (stripped.decl isItem)).symm
  rw [File.reverted, sourceEq]
  exact ⟨restored.1, restored.2.trans shrinks⟩

end GoMend
