import GoMend.Fix.Edit
import GoMend.Proofs.Tree.Trail

/-!
# Edits keep trees sound

An edit at the place of a token puts a sound node in the place of another one, needs no more room,
and leaves the trails to all tokens as they were.  A read goes to the innermost statements around
its token, so that it never stands among clauses.
-/

namespace GoMend

namespace Node

/-- A sound node that takes the place of another one. -/
structure Replaces (role : Role) (new old : Node) : Prop where
  sound : Sound role new
  shrinks : Shrinks new old
  keeps : Keeps new old

variable {role : Role} {node other : Node}

theorem Replaces.refl (sound : Sound role node) : Replaces role node node :=
  ⟨sound, .refl node, .refl node⟩

theorem Replaces.trans {new middle old : Node} (first : Replaces role new middle)
    (second : Replaces role middle old) : Replaces role new old :=
  ⟨first.sound, first.shrinks.trans second.shrinks,
    fun pos address trail => first.keeps pos address (second.keeps pos address trail)⟩

/-- A node of which every part takes the place of an old one. -/
theorem Replaces.parts (resembles : Resembles node other) (sound : Sound role node)
    (positioned : node.isPositioned)
    (replaced : List.Forall₂ (fun new part => Replaces part.1 new part.2) other.children
      (node.parts role)) : Replaces role other node := by
  have refills : Refills other.children (node.parts role) :=
    replaced.imp fun _ _ replaces => ⟨replaces.shrinks, replaces.sound⟩
  obtain ⟨otherSound, shrinks⟩ := resembles.sound sound positioned refills
  refine ⟨otherSound, shrinks, ?_⟩
  rw [← resembles.withChildren_children]
  refine Keeps.withChildren ?_ fun index new old isNew isOld => ?_
  · have sortsEq := map_sort_of_shrinks refills.shrinks
    rwa [map_snd_parts] at sortsEq
  · rw [← map_snd_parts role, List.getElem?_map, Option.map_eq_some_iff] at isOld
    obtain ⟨part, isPart, rfl⟩ := isOld
    obtain ⟨newInside, rfl⟩ := List.getElem?_eq_some_iff.mp isNew
    obtain ⟨partInside, rfl⟩ := List.getElem?_eq_some_iff.mp isPart
    exact (replaced.get newInside partInside).keeps

/-- A node in which one child takes the place of another one. -/
theorem Replaces.child (resembles : Resembles node other) (before : List (Role × Node))
    (old : Role × Node) (new : Node) (after : List (Role × Node))
    (partsEq : node.parts role = before ++ old :: after)
    (newParts : other.parts role = before ++ (old.1, new) :: after) (sound : Sound role node)
    (positioned : node.isPositioned) (replaces : Sound old.1 old.2 → Replaces old.1 new old.2) :
    Replaces role other node := by
  have parts := (sound.of_isPositioned positioned).2
  rw [partsEq] at parts
  obtain ⟨beforeSound, rest⟩ := List.forall_mem_append.mp parts
  obtain ⟨oldSound, afterSound⟩ := List.forall_mem_cons.mp rest
  have unchanged (others : List (Role × Node)) (are : ∀ part ∈ others, Sound part.1 part.2) :
      List.Forall₂ (fun new part => Replaces part.1 new part.2) (others.map Prod.snd) others := by
    rw [List.forall₂_map_left_iff]
    exact List.forall₂_same.mpr fun part isPart => .refl (are part isPart)
  refine .parts resembles sound positioned ?_
  rw [← map_snd_parts role other, newParts, partsEq, List.map_append, List.map_cons]
  exact List.rel_append (unchanged before beforeSound)
    (.cons (replaces oldSound) (unchanged after afterSound))

/-- A file in which a node that was read is replaced. -/
theorem Replaces.modify {file : File} {address : Address} {inner changed : Node}
    (sound : Sound .plain (.file file)) (found : (Node.file file).get? address = some inner)
    (positioned : inner.isPositioned)
    (replaces : ∀ part, Sound part inner → Replaces part changed inner) :
    Replaces .plain (.file (file.modify (fun _ => changed) address)) (.file file) := by
  obtain ⟨part, innerSound⟩ := exists_sound_of_get? sound found positioned
  have replaced := replaces part innerSound
  have newSound : Sound .plain ((Node.file file).modify (fun _ => changed) address) ∧
      Shrinks ((Node.file file).modify (fun _ => changed) address) (.file file) :=
    modify_sound sound found positioned
      (fun part innerSound => (replaces part innerSound).sound) replaced.shrinks
  obtain ⟨newSound, shrinks⟩ := newSound
  have keeps : Keeps ((Node.file file).modify (fun _ => changed) address) (.file file) :=
    (modify_keeps found replaced.shrinks.sort_eq replaced.keeps).2
  obtain ⟨source, isSource⟩ := exists_file_of_sort shrinks.sort_eq
  have sourceEq : file.modify (fun _ => changed) address = source := by
    rw [File.modify, isSource]
    rfl
  rw [isSource] at newSound shrinks keeps
  rw [sourceEq]
  exact ⟨newSound, shrinks, keeps⟩

/-! ### One more statement -/

/-- A sound statement other than a discard read was read from a text. -/
theorem isPositioned_of_stmt {step : Stmt} (sound : Sound role (.stmt step))
    (notRead : step.isDiscardRead = false) : (Node.stmt step).isPositioned := by
  generalize isNode : Node.stmt step = node at sound ⊢
  cases sound with
  | placed stands => exact isPositioned_of_pos stands.positive
  | read name =>
      obtain rfl : step = .discardRead name := Node.stmt.inj isNode
      cases notRead
  | blank => cases isNode

/-- A statement with a discard read after those that it holds. -/
theorem Replaces.append {oldStep newStep : Stmt} {name : String} (isWord : Ident.isWord { name })
    (notRead : oldStep.isDiscardRead = false) (oldToken : (Node.stmt oldStep).token? = none)
    (noToken : (Node.stmt newStep).token? = none)
    (partsEq : (Node.stmt newStep).parts role =
      (Node.stmt oldStep).parts role ++ [(Role.stmt, Node.stmt (.discardRead name))])
    (admitted : role.admits (.stmt newStep)) (spanEq : newStep.span = oldStep.span)
    (sortEq : (Node.stmt newStep).sort = (Node.stmt oldStep).sort)
    (sound : Sound role (.stmt oldStep)) : Replaces role (.stmt newStep) (.stmt oldStep) := by
  have positioned := isPositioned_of_stmt sound notRead
  have spanEq : (Node.stmt newStep).span = (Node.stmt oldStep).span := spanEq
  generalize isOld : Node.stmt oldStep = old at *
  have notNested : (Node.stmt newStep).nested = [] := rfl
  have notImport : ∀ item, Node.stmt newStep ≠ .spec (.importSpec item) := fun item => nofun
  generalize Node.stmt newStep = new at *
  obtain ⟨stands, parts⟩ := sound.of_isPositioned positioned
  have newPositioned : new.isPositioned := by rwa [isPositioned, spanEq]
  have childrenEq : new.children = old.children ++ [.stmt (.discardRead name)] := by
    rw [← map_snd_parts role, partsEq, List.map_append, map_snd_parts]
    rfl
  have noPlaces : (Node.stmt (.discardRead name)).places = [] := places_eq_nil rfl
  have placesEq : new.places = old.places := by
    rw [places_eq positioned, places_eq newPositioned, oldToken, noToken, childrenEq]
    simp [noPlaces]
  refine ⟨.placed ⟨admitted, ?_, ?_, ?_, ?_, ?_, ?_⟩ ?_, ⟨sortEq, ?_, ?_, ?_, fun _ => ?_⟩, ?_⟩
  · rw [spanEq]
    exact stands.positive
  · rw [placesEq, spanEq]
    exact stands.holds
  · simp [TokenBetween, noToken]
  · rw [childrenEq, List.pairwise_append]
    refine ⟨stands.apart, List.pairwise_singleton .., fun first _ second isRead => ?_⟩
    obtain rfl := List.mem_singleton.mp isRead
    simp [Precedes, noPlaces]
  · simp [notNested]
  · simp [opener?_eq_none noToken]
  · rw [partsEq]
    refine List.forall_mem_append.mpr ⟨parts, ?_⟩
    simpa using Sound.read name isWord
  · rw [positioned, newPositioned]
  · rw [spanEq]
    exact .refl _
  · rw [placesEq]
    exact List.Subset.refl _
  · rw [spanEq]
  · intro pos address trail
    cases trail with
    | stop _ token => simp [oldToken] at token
    | step _ _ isChild trail =>
        refine .step newPositioned notImport ?_ trail
        obtain ⟨inside, -⟩ := List.getElem?_eq_some_iff.mp isChild
        rwa [childrenEq, List.getElem?_append_left inside]

section Read

variable {name : String} (isWord : Ident.isWord { name })
include isWord

theorem appendBlock_replaces {body : Block} (memberEq : role.member = .stmt)
    (sound : Sound role (.stmt (.block body))) :
    Replaces role (.stmt (.block (body.append (.discardRead name)))) (.stmt (.block body)) := by
  have admitted := sound.admits
  refine .append isWord rfl rfl rfl ?_ ?_ rfl rfl sound
  · simp [Block.append, parts, memberEq]
  · cases role <;> exact admitted

/-- A clause with a discard read after its statements. -/
theorem appendClause_replaces {step changed : Stmt} (isClause : step.isClause)
    (appended : step.append? (.discardRead name) = some changed) (sound : Sound role (.stmt step)) :
    Replaces role (.stmt changed) (.stmt step) := by
  have admitted := sound.admits
  cases step with
  | caseClause span exprs body colon =>
      obtain rfl := Option.some.inj appended
      refine .append isWord rfl rfl rfl ?_ ?_ rfl rfl sound
      · simp [parts]
      · cases role <;> exact admitted
  | commClause span comm body colon =>
      obtain rfl := Option.some.inj appended
      refine .append isWord rfl rfl rfl ?_ ?_ rfl rfl sound
      · simp [parts]
      · cases role <;> exact admitted
  | _ => cases isClause

omit isWord in
theorem isClause_of_member {step : Stmt} (notStmt : role.member ≠ .stmt)
    (sound : Sound role.member (.stmt step)) : step.isClause := by
  have admitted := sound.admits
  cases role <;> first | exact absurd rfl notStmt | cases step <;> first | rfl | cases admitted

/-- The clauses of a `switch` or a `select` with a discard read in the first one. -/
theorem appendToFirst_replaces {body changed : Block} (notStmt : role.member ≠ .stmt)
    (appended : body.appendToFirst? (.discardRead name) = some changed)
    (sound : Sound role (.stmt (.block body))) :
    Replaces role (.stmt (.block changed)) (.stmt (.block body)) := by
  obtain ⟨span, stmts⟩ := body
  cases stmts with
  | nil => cases appended
  | cons first rest =>
      simp only [Block.appendToFirst?, Option.map_eq_some_iff] at appended
      obtain ⟨clause, appended, rfl⟩ := appended
      have positioned := isPositioned_of_stmt sound rfl
      refine .child (.block span rfl) [] (role.member, .stmt first) (.stmt clause)
        (rest.map fun step => (role.member, .stmt step)) rfl rfl sound positioned ?_
      intro firstSound
      exact appendClause_replaces isWord (isClause_of_member notStmt firstSound) appended firstSound

/-- A statement with a discard read among those that it holds, where a block does not hold clauses. -/
theorem withReadStmt_replaces {step changed : Stmt}
    (reads : step.withRead? (.discardRead name) = some changed) (sound : Sound role (.stmt step))
    (memberEq : ∀ body, step = .block body → role.member = .stmt) :
    Replaces role (.stmt changed) (.stmt step) := by
  cases step with
  | block body =>
      obtain rfl := Option.some.inj reads
      exact appendBlock_replaces isWord (memberEq body rfl) sound
  | caseClause span exprs body colon => exact appendClause_replaces isWord rfl reads sound
  | commClause span comm body colon => exact appendClause_replaces isWord rfl reads sound
  | ifElse span init cond body otherwise =>
      obtain rfl := Option.some.inj reads
      exact .child (.ifElse span cond cond body _ rfl rfl)
        (init.toList.map (fun step => (Role.simple, Node.stmt step)) ++
          [(Role.plain, Node.expr cond)])
        (.body, .stmt (.block body)) _ (otherwise.toList.map fun step => (.elseBranch, .stmt step))
        (by simp [parts, block]) (by simp [parts, block]) sound (isPositioned_of_stmt sound rfl)
        (appendBlock_replaces isWord rfl)
  | loop span init cond post body =>
      obtain rfl := Option.some.inj reads
      have admitted := sound.admits
      cases body with
      | none => cases role <;> cases admitted
      | some body =>
          exact .child (.loop span rfl rfl rfl rfl)
            (init.toList.map (fun step => (Role.simple, Node.stmt step)) ++
              (cond.toList.map (fun value => (Role.plain, Node.expr value)) ++
                post.toList.map fun step => (Role.simple, Node.stmt step)))
            (.body, .stmt (.block body)) _ [] (by simp [parts, block]) (by simp [parts, block]) sound
            (isPositioned_of_stmt sound rfl) (appendBlock_replaces isWord rfl)
  | range span key value tok operand body tokPos =>
      obtain rfl := Option.some.inj reads
      have admitted := sound.admits
      cases body with
      | none => cases role <;> cases admitted
      | some body =>
          exact .child (.range span tok operand operand tokPos rfl rfl rfl)
            (key.toList.map (fun key => (Role.plain, Node.expr key)) ++
              (value.toList.map (fun value => (Role.plain, Node.expr value)) ++
                [(Role.plain, Node.expr operand)]))
            (.body, .stmt (.block body)) _ [] (by simp [parts, block]) (by simp [parts, block]) sound
            (isPositioned_of_stmt sound rfl) (appendBlock_replaces isWord rfl)
  | switch span init tag body =>
      simp only [Stmt.withRead?, Option.map_eq_some_iff] at reads
      obtain ⟨changed, appended, rfl⟩ := reads
      exact .child (.switch span body changed rfl rfl)
        (init.toList.map (fun step => (Role.simple, Node.stmt step)) ++
          tag.toList.map fun value => (Role.plain, Node.expr value))
        (.caseBody, .stmt (.block body)) _ [] (by simp [parts, block]) (by simp [parts, block]) sound
        (isPositioned_of_stmt sound rfl) (appendToFirst_replaces isWord (Role.noConfusion) appended)
  | typeSwitch span init guard body =>
      simp only [Stmt.withRead?, Option.map_eq_some_iff] at reads
      obtain ⟨changed, appended, rfl⟩ := reads
      exact .child (.typeSwitch span guard guard body changed rfl)
        (init.toList.map (fun step => (Role.simple, Node.stmt step)) ++
          [(Role.guard, Node.stmt guard)])
        (.caseBody, .stmt (.block body)) _ [] (by simp [parts, block]) (by simp [parts, block]) sound
        (isPositioned_of_stmt sound rfl) (appendToFirst_replaces isWord (Role.noConfusion) appended)
  | select span body =>
      simp only [Stmt.withRead?, Option.map_eq_some_iff] at reads
      obtain ⟨changed, appended, rfl⟩ := reads
      exact .child (.select span body changed) [] (.commBody, .stmt (.block body)) _ [] rfl rfl sound
        (isPositioned_of_stmt sound rfl) (appendToFirst_replaces isWord (Role.noConfusion) appended)
  | _ => cases reads

end Read

theorem isSome_withRead? {step : Stmt} (isClause : step.isClause) (added : Stmt) :
    ((Node.stmt step).withRead? added).isSome := by
  cases step <;> first | rfl | cases isClause

/-! ### The token of a statement -/

/-- A statement with another token. -/
theorem withoutDefine_replaces {changed : Node} (replaced : node.withoutDefine? = some changed)
    (sound : Sound role node) (positioned : node.isPositioned) : Replaces role changed node := by
  have twins : changed.span = node.span ∧ changed.token? = node.token? ∧
      changed.children = node.children ∧ changed.parts role = node.parts role ∧
      changed.nested = node.nested ∧ changed.opener? = node.opener? ∧ changed.sort = node.sort ∧
      role.admits changed = role.admits node ∧ ∀ item, changed ≠ .spec (.importSpec item) := by
    cases node with
    | stmt step =>
        simp only [withoutDefine?, Option.map_eq_some_iff] at replaced
        obtain ⟨changed, replaced, rfl⟩ := replaced
        unfold Stmt.withoutDefine? at replaced
        split at replaced
        · next lhs _ _ =>
            obtain rfl := Option.some.inj replaced
            refine ⟨rfl, rfl, rfl, rfl, rfl, ?_, rfl, ?_, by simp⟩
            · cases lhs <;> rfl
            · cases role <;> rfl
        · obtain rfl := Option.some.inj replaced
          refine ⟨rfl, rfl, rfl, rfl, rfl, rfl, rfl, ?_, by simp⟩
          cases role <;> rfl
        · cases replaced
    | _ => cases replaced
  obtain ⟨spanEq, tokenEq, childrenEq, partsEq, nestedEq, openerEq, sortEq, admitsEq, notImport⟩ :=
    twins
  obtain ⟨stands, parts⟩ := sound.of_isPositioned positioned
  have changedPositioned : changed.isPositioned := by rwa [isPositioned, spanEq]
  have placesEq : changed.places = node.places := by
    rw [places_eq positioned, places_eq changedPositioned, tokenEq, childrenEq]
  refine ⟨.placed ⟨?_, ?_, ?_, ?_, ?_, ?_, ?_⟩ ?_, ⟨sortEq, ?_, ?_, ?_, fun _ => ?_⟩, ?_⟩
  · exact admitsEq.trans stands.admitted
  · exact spanEq ▸ stands.positive
  · rw [placesEq, spanEq]
    exact stands.holds
  · unfold TokenBetween
    rw [tokenEq, childrenEq]
    exact stands.tokenBetween
  · exact childrenEq ▸ stands.apart
  · rw [nestedEq, spanEq]
    exact stands.inside
  · rw [openerEq, spanEq]
    exact stands.opens
  · exact partsEq ▸ parts
  · rw [positioned, changedPositioned]
  · exact spanEq ▸ .refl _
  · exact placesEq ▸ List.Subset.refl _
  · rw [spanEq]
  · intro pos address trail
    cases trail with
    | stop _ token => exact .stop changedPositioned (tokenEq.trans token)
    | step _ _ isChild trail => exact .step changedPositioned notImport (childrenEq ▸ isChild) trail

/-! ### The nodes around a token -/

theorem get?_append (node : Node) (first second : Address) :
    node.get? (first ++ second) = (node.get? first).bind (·.get? second) := by
  induction first generalizing node with
  | nil => rfl
  | cons index first ih =>
      simp only [List.cons_append, get?, ih, Option.bind_assoc]

theorem pairwise_inits {α : Type} (items : List α) :
    items.inits.Pairwise fun first second => first.length < second.length := by
  induction items with
  | nil => simp
  | cons item items ih =>
      simp only [List.inits_cons, List.pairwise_cons, List.pairwise_map]
      refine ⟨fun other isOther => ?_, ih.imp fun lt => by simpa using lt⟩
      obtain ⟨rest, -, rfl⟩ := List.mem_map.mp isOther
      simp

/-- The address that is one step longer stands in front of an address in a chain. -/
theorem mem_of_inits_reverse {address place rest : Address} {before after : List Address}
    (chainEq : address.inits.reverse = before ++ place :: after) {index : Nat}
    (isLonger : address = place ++ index :: rest) : place ++ [index] ∈ before := by
  have mem : place ++ [index] ∈ address.inits.reverse := by
    rw [List.mem_reverse, List.mem_inits, isLonger]
    exact ⟨rest, by simp⟩
  have sorted := List.pairwise_reverse.mpr (pairwise_inits address)
  rw [chainEq, List.pairwise_append, List.pairwise_cons] at sorted
  rw [chainEq, List.mem_append, List.mem_cons] at mem
  obtain isBefore | same | isAfter := mem
  · exact isBefore
  · simp at same
  · have shorter := sorted.2.1.1 _ isAfter
    simp only [List.length_append, List.length_singleton] at shorter
    omega

end Node

namespace File

open Node

variable {file edited : File} {edit : Edit} {pos : Pos} {address : Address}

/-- A read is added to the first node of a chain that can hold it. -/
theorem exists_of_addRead {name : String} {chain : List Address}
    (outcome : file.addRead name chain = .ok (edit, edited)) :
    ∃ before place after inner changed, chain = before ++ place :: after ∧
      (∀ earlier ∈ before, ∀ node, (Node.file file).get? earlier = some node →
        node.withRead? (.discardRead name) = none) ∧
      (Node.file file).get? place = some inner ∧
      inner.withRead? (.discardRead name) = some changed ∧
      edited = file.modify (fun _ => changed) place := by
  induction chain with
  | nil => cases outcome
  | cons place outer ih =>
      have skip (skipped : ∀ node, (Node.file file).get? place = some node →
          node.withRead? (.discardRead name) = none)
          (outcome : file.addRead name outer = .ok (edit, edited)) :
          ∃ before place' after inner changed, place :: outer = before ++ place' :: after ∧
            (∀ earlier ∈ before, ∀ node, (Node.file file).get? earlier = some node →
              node.withRead? (.discardRead name) = none) ∧
            (Node.file file).get? place' = some inner ∧
            inner.withRead? (.discardRead name) = some changed ∧
            edited = file.modify (fun _ => changed) place' := by
        obtain ⟨before, place', after, inner, changed, rfl, earlier, rest⟩ := ih outcome
        exact ⟨place :: before, place', after, inner, changed, rfl,
          List.forall_mem_cons.mpr ⟨skipped, earlier⟩, rest⟩
      unfold addRead at outcome
      split at outcome
      · next missing => exact skip (by simp [missing]) outcome
      · next inner found =>
          split at outcome
          · cases outcome
          · split at outcome
            · next unreadable =>
                refine skip (fun node isNode => ?_) outcome
                exact Option.some.inj (found.symm.trans isNode) ▸ unreadable
            · next changed reads =>
                obtain ⟨-, rfl⟩ := Prod.mk.inj (Except.ok.inj outcome)
                exact ⟨[], place, outer, inner, changed, rfl, by simp, found, reads, rfl⟩

/-- A read that is added around a token of a sound file leaves the file sound. -/
theorem addRead_replaces {name : String} (isWord : Ident.isWord { name })
    (sound : Sound .plain (.file file)) (trail : Trail pos (.file file) address)
    (outcome : file.addRead name address.inits.reverse = .ok (edit, edited)) :
    Replaces .plain (.file edited) (.file file) := by
  obtain ⟨before, place, after, inner, changed, chainEq, earlier, found, reads, rfl⟩ :=
    exists_of_addRead outcome
  have isPrefix : place <+: address := by
    rw [← List.mem_inits, ← List.mem_reverse, chainEq]
    simp
  obtain ⟨rest, rfl⟩ := isPrefix
  obtain ⟨_, isInner, innerTrail⟩ := trail.drop
  obtain rfl := Option.some.inj (found.symm.trans isInner)
  refine Replaces.modify sound found innerTrail.isPositioned fun part innerSound => ?_
  cases inner with
  | stmt step =>
      simp only [withRead?, Option.map_eq_some_iff] at reads
      obtain ⟨changed, reads, rfl⟩ := reads
      refine withReadStmt_replaces isWord reads innerSound ?_
      rintro body rfl
      -- A block of clauses is never met: the clause on the trail comes first in the chain.
      by_contra notStmt
      cases innerTrail with
      | stop _ token => cases token
      | @step _ child index rest positioned _ isChild childTrail =>
          have isPart := isChild
          rw [← map_snd_parts part, List.getElem?_map, Option.map_eq_some_iff] at isPart
          obtain ⟨⟨childRole, _⟩, isPart, rfl⟩ := isPart
          have partMem := List.mem_of_getElem? isPart
          have childSound := (innerSound.of_isPositioned positioned).2 _ partMem
          simp only [parts, List.mem_map, Prod.mk.injEq] at partMem
          obtain ⟨clause, -, rfl, rfl⟩ := partMem
          have longer : (Node.file file).get? (place ++ [index]) = some (.stmt clause) := by
            rw [get?_append, found]
            simp [get?, isChild]
          have unreadable := earlier _ (mem_of_inits_reverse chainEq rfl) _ longer
          have readable := isSome_withRead? (isClause_of_member notStmt childSound)
            (.discardRead name)
          simp [unreadable] at readable
  | _ => cases reads

/-! ### Replaced tokens -/

theorem exists_of_replaceDefine {chain : List Address}
    (outcome : file.replaceDefine chain = .ok (edit, edited)) :
    ∃ place ∈ chain, ∃ inner changed, (Node.file file).get? place = some inner ∧
      inner.withoutDefine? = some changed ∧ edited = file.modify (fun _ => changed) place := by
  induction chain with
  | nil => cases outcome
  | cons place outer ih =>
      have skip (outcome : file.replaceDefine outer = .ok (edit, edited)) :
          ∃ place' ∈ place :: outer, ∃ inner changed, (Node.file file).get? place' = some inner ∧
            inner.withoutDefine? = some changed ∧
            edited = file.modify (fun _ => changed) place' := by
        obtain ⟨place', isPlace, rest⟩ := ih outcome
        exact ⟨place', List.mem_cons_of_mem _ isPlace, rest⟩
      unfold replaceDefine at outcome
      split at outcome
      · exact skip outcome
      · next inner found =>
          split at outcome
          · exact skip outcome
          · next changed replaced =>
              obtain ⟨-, rfl⟩ := Prod.mk.inj (Except.ok.inj outcome)
              exact ⟨place, List.mem_cons_self, inner, changed, found, replaced, rfl⟩

theorem replaceDefine_replaces (sound : Sound .plain (.file file))
    (trail : Trail pos (.file file) address)
    (outcome : file.replaceDefine address.inits.reverse = .ok (edit, edited)) :
    Replaces .plain (.file edited) (.file file) := by
  obtain ⟨place, isPlace, inner, changed, found, replaced, rfl⟩ := exists_of_replaceDefine outcome
  have isPrefix : place <+: address := (List.mem_inits _ _).mp (List.mem_reverse.mp isPlace)
  obtain ⟨rest, rfl⟩ := isPrefix
  obtain ⟨_, isInner, innerTrail⟩ := trail.drop
  obtain rfl := Option.some.inj (found.symm.trans isInner)
  exact Replaces.modify sound found innerTrail.isPositioned fun part innerSound =>
    withoutDefine_replaces replaced innerSound innerTrail.isPositioned

end File

/-! ### Blanked imports -/

/-- What relates every item to itself and to what it is changed into relates the items of a list in
which at most one is changed. -/
theorem changeFirst?_relates {α : Type} {related : α → α → Prop} {change : α → Option α}
    {items changed : List α} (same : ∀ item ∈ items, related item item)
    (changes : ∀ item ∈ items, ∀ new, change item = some new → related new item)
    (outcome : changeFirst? change items = some changed) : List.Forall₂ related changed items := by
  induction items generalizing changed with
  | nil => cases outcome
  | cons first rest ih =>
      obtain ⟨firstSame, restSame⟩ := List.forall_mem_cons.mp same
      obtain ⟨firstChanges, restChanges⟩ := List.forall_mem_cons.mp changes
      unfold changeFirst? at outcome
      split at outcome
      · next new isNew =>
          obtain rfl := Option.some.inj outcome
          exact .cons (firstChanges new isNew) (List.forall₂_same.mpr restSame)
      · obtain ⟨others, isOthers, rfl⟩ := Option.map_eq_some_iff.mp outcome
        exact .cons firstSame (ih restSame restChanges isOthers)

open Node

variable {path : String}

/-- No trail leads through an import, and so its name can be replaced. -/
theorem ImportSpec.blanked_replaces {spec changed : ImportSpec}
    (blanked : spec.blanked? path = some changed)
    (sound : Sound .plain (.spec (.importSpec spec))) :
    Replaces .plain (.spec (.importSpec changed)) (.spec (.importSpec spec)) := by
  simp only [blanked?, Option.ite_none_right_eq_some, Option.some.injEq] at blanked
  obtain ⟨-, rfl⟩ := blanked
  have positioned : (Node.spec (.importSpec spec)).isPositioned := by
    cases sound with
    | placed stands => exact isPositioned_of_pos stands.positive
  obtain ⟨stands, parts⟩ := sound.of_isPositioned positioned
  have pathMem : Node.expr (.lit spec.path) ∈ (Node.spec (.importSpec spec)).children :=
    List.mem_append_right _ List.mem_cons_self
  have pathSound : Sound .plain (.expr (.lit spec.path)) :=
    parts (.plain, _) (List.mem_map_of_mem pathMem)
  have noPlaces : (Node.ident { name := "_" }).places = [] := places_eq_nil rfl
  let new : Node := .spec (.importSpec { spec with name := some { name := "_" } })
  have newPositioned : new.isPositioned := positioned
  have subset : new.places ⊆ (Node.spec (.importSpec spec)).places := by
    intro pos mem
    obtain ⟨child, isChild, place⟩ := mem_places_of_noToken rfl mem
    refine mem_places_of_child positioned pathMem ?_
    simp only [new, children, specChildren, Option.toList_some, List.map_cons, List.map_nil,
      List.singleton_append, List.mem_cons, List.not_mem_nil, or_false] at isChild
    obtain rfl | rfl := isChild
    · simp [noPlaces] at place
    · exact place
  refine ⟨.placed ⟨rfl, stands.positive, fun pos mem => stands.holds pos (subset mem),
    Node.tokenBetween_of_none rfl, ?_, by rintro _ ⟨⟩, by rintro _ ⟨⟩⟩ ?_,
    ⟨rfl, rfl, .refl _, subset, fun _ => rfl⟩, ?_⟩
  · refine List.pairwise_pair.mpr fun pos place => ?_
    obtain ⟨pathPositioned, startLe, -⟩ := pathSound.holds place
    have pathPositive := (pathSound.of_isPositioned pathPositioned).1.positive
    exact Int.le_trans (Int.le_of_lt pathPositive) startLe
  · exact List.forall_mem_cons.mpr ⟨.blank, List.forall_mem_singleton.mpr pathSound⟩
  · intro pos address trail
    cases trail with
    | stop _ token => cases token
    | step _ notImport => exact absurd rfl (notImport spec)

theorem Spec.blanked_replaces {item changed : Spec} (blanked : item.blanked? path = some changed)
    (sound : Sound .plain (.spec item)) : Replaces .plain (.spec changed) (.spec item) := by
  cases item with
  | importSpec spec =>
      obtain ⟨changed, isBlanked, rfl⟩ := Option.map_eq_some_iff.mp blanked
      exact spec.blanked_replaces isBlanked sound
  | _ => cases blanked

theorem Decl.blanked_replaces {item changed : Decl} (blanked : item.blanked? path = some changed)
    (sound : Sound .plain (.decl item)) : Replaces .plain (.decl changed) (.decl item) := by
  cases item with
  | func item => cases blanked
  | gen item =>
      obtain ⟨specs, changes, rfl⟩ := Option.map_eq_some_iff.mp blanked
      have replaced : List.Forall₂ (fun new old => Replaces .plain (.spec new) (.spec old)) specs
          item.specs :=
        changeFirst?_relates (fun spec isSpec => .refl (sound.spec isSpec))
          (fun spec isSpec new isNew => Spec.blanked_replaces isNew (sound.spec isSpec)) changes
      obtain ⟨span, tok, old, grouped⟩ := item
      refine .parts (.genDecl span tok grouped replaced.length_eq) sound sound.isPositioned_of_decl ?_
      rw [Sound.parts_gen]
      exact List.forall₂_map_right_iff.mpr (List.forall₂_map_left_iff.mpr replaced)

/-- An import that is blanked leaves the file sound. -/
theorem File.blankImport_replaces {file edited : File} {edit : Edit} {chain : List Address}
    (sound : Sound .plain (.file file))
    (outcome : file.blankImport path chain = .ok (edit, edited)) :
    Replaces .plain (.file edited) (.file file) := by
  unfold blankImport at outcome
  split at outcome
  · split at outcome
    · cases outcome
    · next decls changes =>
        obtain ⟨-, rfl⟩ := Prod.mk.inj (Except.ok.inj outcome)
        have replaced : List.Forall₂ (fun new old => Replaces .plain (.decl new) (.decl old)) decls
            file.decls :=
          changeFirst?_relates (fun item isItem => .refl (sound.decl isItem))
            (fun item isItem new isNew => Decl.blanked_replaces isNew (sound.decl isItem)) changes
        refine .parts (.file file.span file.name file.package file.package file.comments
          replaced.length_eq) sound sound.isPositioned_of_file ?_
        have parts := (sound.of_isPositioned sound.isPositioned_of_file).2
        rw [Sound.parts_file] at parts ⊢
        refine .cons (.refl (parts _ List.mem_cons_self)) ?_
        exact List.forall₂_map_right_iff.mpr (List.forall₂_map_left_iff.mpr replaced)
  · cases outcome

end GoMend
