import GoMend.Proofs.Tree.Congruence

/-!
# The statements of a tree

The statements of a tree are those of all its lists, in the order of a walk.  A statement that
assigns a name to a name can come into a tree in three ways: it was there, it is an added discard
read, or its `:=` was replaced.
-/

namespace GoMend

namespace Node

/-! ### Walks -/

theorem walkStack_append (first second : List Node) :
    walkStack (first ++ second) = walkStack first ++ walkStack second := by
  fun_induction walkStack first with
  | case1 => rfl
  | case2 node stack ih =>
      rw [List.cons_append, walkStack, ← List.append_assoc, ih]
      rfl

theorem walkStack_eq (nodes : List Node) : walkStack nodes = nodes.flatMap walk := by
  induction nodes with
  | nil => simp [walkStack]
  | cons node nodes ih =>
      rw [← List.singleton_append, walkStack_append, ih]
      rfl

/-- A walk visits a node and then walks through its children. -/
theorem walk_eq (node : Node) : node.walk = node :: node.children.flatMap walk := by
  rw [walk, walkStack, List.append_nil, walkStack_eq]

/-- The lists of statements of a tree. -/
def lists (node : Node) : List (List Stmt) :=
  node.stmtLists.map Prod.snd

/-- The lists of a node are its own one and those of its children. -/
theorem lists_eq (node : Node) :
    node.lists = node.ownStmts?.toList ++ node.children.flatMap lists := by
  have each (node : Node) : node.lists = node.walk.flatMap fun owner => owner.ownStmts?.toList := by
    rw [lists, stmtLists, List.filterMap_eq_flatMap_toList, List.map_flatMap]
    refine List.flatMap_congr fun owner _ => ?_
    cases owner.ownStmts? <;> rfl
  rw [each, walk_eq, List.flatMap_cons, List.flatMap_assoc]
  exact congrArg _ (List.flatMap_congr fun child _ => (each child).symm)

/-- The statements in the lists of a tree. -/
def statements (node : Node) : List Stmt :=
  node.stmtLists.flatMap Prod.snd

theorem statements_eq_flatten (node : Node) : node.statements = node.lists.flatten :=
  List.flatMap_def

/-- The statements of a node are those of its own list and those of its children. -/
theorem statements_eq (node : Node) :
    node.statements = node.ownStmts?.getD [] ++ node.children.flatMap statements := by
  have below : (node.children.flatMap lists).flatten = node.children.flatMap statements := by
    rw [List.flatten_eq_flatMap, List.flatMap_assoc]
    exact List.flatMap_congr fun child _ =>
      List.flatten_eq_flatMap.symm.trans child.statements_eq_flatten.symm
  rw [statements_eq_flatten, lists_eq, List.flatten_append, below]
  cases node.ownStmts? <;> simp

theorem lists_ident (name : Ident) : (ident name).lists = [] := by
  rw [lists_eq]
  rfl

theorem lists_lit (literal : BasicLit) : (lit literal).lists = [] := by
  rw [lists_eq]
  rfl

/-- There is no list below an assignment of a name to a name. -/
theorem lists_copy (span : Span) (left right : Ident) (tok : Token) (tokPos : Pos) :
    (Node.stmt (.assign span [.ident left] tok [.ident right] tokPos)).lists = [] := by
  have childrenEq : (Node.stmt (.assign span [.ident left] tok [.ident right] tokPos)).children =
      [ident left, ident right] := rfl
  rw [lists_eq, childrenEq]
  simp [lists_ident, ownStmts?]

theorem lists_importSpec (spec : ImportSpec) : (Node.spec (.importSpec spec)).lists = [] := by
  rw [lists_eq]
  cases isName : spec.name <;>
    simp [ownStmts?, children, specChildren, isName, lists_ident, lists_lit]

theorem statements_discardRead (name : String) :
    (Node.stmt (.discardRead name)).statements = [] := by
  rw [statements_eq_flatten, Stmt.discardRead, lists_copy]
  rfl

theorem statements_importSpec (spec : ImportSpec) :
    (Node.spec (.importSpec spec)).statements = [] := by
  rw [statements_eq_flatten, lists_importSpec]
  rfl

theorem Resembles.isSome_ownStmts? {new old : Node} (resembles : Resembles old new) :
    new.ownStmts?.isSome = old.ownStmts?.isSome := by
  cases resembles <;> rfl

/-- The statements of the lists of related nodes are related. -/
theorem Resembles.relates_own {related : Node → Node → Prop} {new old : Node}
    (resembles : Resembles old new) (allRelated : List.Forall₂ related new.children old.children) :
    List.Forall₂ (fun step own => related (.stmt step) (.stmt own)) (new.ownStmts?.getD [])
      (old.ownStmts?.getD []) := by
  have behind {heads heads' : List Node} {stmts olds : List Stmt}
      (same : heads.length = heads'.length)
      (allRelated : List.Forall₂ related (heads ++ stmts.map stmt) (heads' ++ olds.map stmt)) :
      List.Forall₂ (fun step own => related (.stmt step) (.stmt own)) stmts olds := by
    have behind := List.forall₂_drop_append _ _ _ allRelated
    rwa [← same, List.drop_left, List.forall₂_map_left_iff, List.forall₂_map_right_iff] at behind
  cases resembles with
  | block span same | defaultClause span colon same =>
      exact behind (rfl : ([] : List Node).length = ([] : List Node).length) allRelated
  | caseClause span colon sameExprs sameBody => exact behind (by simpa using sameExprs) allRelated
  | @commClause span comm comm' body body' colon sameComm sameBody =>
      refine behind ?_ allRelated
      cases comm <;> cases comm' <;> first | rfl | cases sameComm
  | _ => exact .nil

end Node

/-! ### Copies -/

namespace Stmt

/-- Whether a statement assigns a name to a name. -/
def isCopy : Stmt → Bool
  | .assign _ [.ident _] _ [.ident _] _ => true
  | _ => false

/-- The ways in which a statement may have come from others. -/
inductive StemsFrom (olds : List Stmt) : Stmt → Prop
  | kept {step : Stmt} (isOld : step ∈ olds) : StemsFrom olds step
  | added (name : String) : StemsFrom olds (.discardRead name)
  | replaced {own step : Stmt} (isOld : own ∈ olds) (replaces : own.withoutDefine? = some step) :
      StemsFrom olds step

theorem StemsFrom.mono {olds more : List Stmt} {step : Stmt} (stems : StemsFrom olds step)
    (subset : olds ⊆ more) : StemsFrom more step := by
  cases stems with
  | kept isOld => exact .kept (subset isOld)
  | added name => exact .added name
  | replaced isOld replaces => exact .replaced (subset isOld) replaces

/-- What may become of a statement: it is kept, or it loses its `:=`. -/
def Becomes (news : List Stmt) (own : Stmt) : Prop :=
  own ∈ news ∨ ∃ step ∈ news, own.withoutDefine? = some step

theorem Becomes.mono {news more : List Stmt} {own : Stmt} (becomes : Becomes news own)
    (subset : news ⊆ more) : Becomes more own :=
  becomes.imp (fun isNew => subset isNew) fun ⟨step, isNew, replaces⟩ =>
    ⟨step, subset isNew, replaces⟩

theorem isCopy_of_isDiscardRead {step : Stmt} (isRead : step.isDiscardRead) : step.isCopy := by
  unfold isDiscardRead at isRead
  split at isRead
  · rfl
  · cases isRead

theorem isCopy_of_withoutDefine? {step own : Stmt} (isCopy : step.isCopy)
    (replaces : own.withoutDefine? = some step) : own.isCopy := by
  obtain ⟨span, lhs, rhs, tokPos, rfl, rfl⟩ | ⟨_, _, _, _, _, _, rfl, rfl⟩ :=
    exists_of_withoutDefine? replaces
  · unfold Stmt.isCopy at isCopy
    split at isCopy
    · next isAssign =>
        cases isAssign
        rfl
    · cases isCopy
  · cases isCopy

theorem isCopy_withoutDefine? {step own : Stmt} (isCopy : own.isCopy)
    (replaces : own.withoutDefine? = some step) : step.isCopy := by
  unfold Stmt.isCopy at isCopy
  split at isCopy
  · next span left tok right pos =>
      cases tok <;> cases replaces
      rfl
  · cases isCopy

/-- A `:=` that was replaced is none any more. -/
theorem withoutDefine?_of_withoutDefine? {step own : Stmt}
    (replaces : own.withoutDefine? = some step) : step.withoutDefine? = none := by
  obtain ⟨_, _, _, _, rfl, rfl⟩ | ⟨_, _, _, _, _, _, rfl, rfl⟩ := exists_of_withoutDefine? replaces
  · rfl
  · rfl

end Stmt

namespace Node

/-- Where the copies of a tree come from, seen from another tree. -/
structure CopiesCome (Comes : List Stmt → Stmt → Prop) (node source : Node) : Prop where
  sort_eq : node.sort = source.sort
  ident_eq : ∀ name, node = ident name → source = ident name
  atRoot : ∀ step, node = .stmt step → step.isCopy → ∃ own, source = .stmt own ∧ Comes [own] step
  below : ∀ step ∈ node.statements, step.isCopy → Comes source.statements step

namespace CopiesCome

variable {Comes : List Stmt → Stmt → Prop} {node source : Node}

/-- Nodes that have no copies at their roots. -/
theorem of_below (sortEq : node.sort = source.sort) (notIdent : node.sort ≠ .ident)
    (notCopy : ∀ step, node = .stmt step → step.isCopy = false)
    (below : ∀ step ∈ node.statements, step.isCopy → Comes source.statements step) :
    CopiesCome Comes node source where
  sort_eq := sortEq
  ident_eq := by
    rintro name rfl
    exact absurd rfl notIdent
  atRoot := by
    rintro step rfl isCopy
    rw [notCopy step rfl] at isCopy
    cases isCopy
  below := below

variable (kept : ∀ {olds step}, step ∈ olds → Comes olds step)

include kept

theorem refl (node : Node) : CopiesCome Comes node node where
  sort_eq := rfl
  ident_eq _ := id
  atRoot step isStep _ := ⟨step, isStep, kept List.mem_cons_self⟩
  below _ isStep _ := kept isStep

/-- The copies of a node come from a node that resembles it if those of its children do. -/
theorem parts (mono : ∀ {olds more step}, Comes olds step → olds ⊆ more → Comes more step)
    (resembles : Resembles source node)
    (related : List.Forall₂ (CopiesCome Comes) node.children source.children) :
    CopiesCome Comes node source := by
  refine ⟨resembles.sort_eq, ?_, ?_, fun step isStep isCopy => ?_⟩
  · rintro name rfl
    cases resembles
    rfl
  · rintro step rfl isCopy
    unfold Stmt.isCopy at isCopy
    split at isCopy
    · next span left tok right pos =>
        cases resembles with
        | @assign _ lhs _ _ rhs _ _ sameLeft sameRight =>
            obtain ⟨first, rfl⟩ := List.length_eq_one_iff.mp sameLeft.symm
            obtain ⟨second, rfl⟩ := List.length_eq_one_iff.mp sameRight.symm
            obtain ⟨atFirst, others⟩ := List.forall₂_cons.mp related
            obtain ⟨atSecond, -⟩ := List.forall₂_cons.mp others
            obtain rfl := Node.expr.inj (atFirst.ident_eq _ rfl)
            obtain rfl := Node.expr.inj (atSecond.ident_eq _ rfl)
            exact ⟨_, rfl, kept List.mem_cons_self⟩
    · cases isCopy
  · rw [statements_eq] at isStep
    obtain isOwn | isBelow := List.mem_append.mp isStep
    · have ownRelated := resembles.relates_own related
      obtain ⟨index, inside, rfl⟩ := List.getElem_of_mem isOwn
      have isOld := ownRelated.length_eq ▸ inside
      obtain ⟨_, ⟨⟩, comes⟩ := (ownRelated.get inside isOld).atRoot _ rfl isCopy
      refine mono comes (List.cons_subset.mpr ⟨?_, List.nil_subset _⟩)
      rw [statements_eq]
      exact List.mem_append_left _ (List.getElem_mem isOld)
    · obtain ⟨child, isChild, isStep⟩ := List.mem_flatMap.mp isBelow
      obtain ⟨index, inside, rfl⟩ := List.getElem_of_mem isChild
      have isOld : index < source.children.length := related.length_eq ▸ inside
      refine mono ((related.get inside isOld).below step isStep isCopy) fun other isOther => ?_
      rw [statements_eq]
      exact List.mem_append_right _ (List.mem_flatMap.mpr ⟨_, List.getElem_mem isOld, isOther⟩)

end CopiesCome

/-- Where the copies of a new tree come from. -/
abbrev CopiesStem (new old : Node) : Prop :=
  CopiesCome Stmt.StemsFrom new old

/-- What becomes of the copies of an old tree. -/
abbrev CopiesStay (new old : Node) : Prop :=
  CopiesCome Stmt.Becomes old new

theorem CopiesStem.congruence : Congruence CopiesStem where
  refl := .refl .kept
  sort_eq := CopiesCome.sort_eq
  parts resembles related := .parts .kept .mono resembles related

theorem CopiesStay.congruence : Congruence CopiesStay where
  refl := .refl .inl
  sort_eq related := related.sort_eq.symm
  parts resembles related := .parts .inl .mono resembles.symm related.flip

end Node

end GoMend
