import GoMend.Proofs.Grammar.Outcome
import GoMend.Proofs.Tree.Clear
import GoMend.Proofs.Tree.Written

/-!
# Reading in the order of the text

Lexemes follow each other in the text, and a production reads lexemes from the cursor on.  So what
a production gives stands between the cursors before and after it, and what several productions
give stands in order.  From this follow the ranges of all nodes.
-/

namespace GoMend

/-! ### Ranges in order -/

namespace Span

/-- Ranges that follow each other between two positions. -/
def Ordered (low high : Pos) : List Span → Prop
  | [] => low ≤ high
  | span :: rest => low ≤ span.start ∧ span.start < span.stop ∧ Ordered span.stop high rest

namespace Ordered

variable {low high : Pos} {spans : List Span}

theorem le (ordered : Ordered low high spans) : low ≤ high := by
  induction spans generalizing low with
  | nil => exact ordered
  | cons span spans ih =>
      obtain ⟨lowLe, startLt, rest⟩ := ordered
      have highLe := ih rest
      lia

theorem lower {lower : Pos} (ordered : Ordered low high spans) (le : lower ≤ low) :
    Ordered lower high spans := by
  cases spans with
  | nil => exact Int.le_trans le ordered
  | cons span spans => exact ⟨Int.le_trans le ordered.1, ordered.2⟩

theorem upper {upper : Pos} (ordered : Ordered low high spans) (le : high ≤ upper) :
    Ordered low upper spans := by
  induction spans generalizing low with
  | nil => exact Int.le_trans ordered le
  | cons span spans ih => exact ⟨ordered.1, ordered.2.1, ih ordered.2.2⟩

/-- A list of ranges in order is one up to some position and one from there on. -/
theorem append_iff {first second : List Span} :
    Ordered low high (first ++ second) ↔
      ∃ middle, Ordered low middle first ∧ Ordered middle high second := by
  induction first generalizing low with
  | nil =>
      constructor
      · intro ordered
        exact ⟨low, Int.le_refl _, ordered⟩
      · rintro ⟨middle, lowLe, ordered⟩
        exact ordered.lower lowLe
  | cons span first ih =>
      simp only [List.cons_append, Ordered, ih]
      constructor
      · rintro ⟨lowLe, startLt, middle, firstOrdered, secondOrdered⟩
        exact ⟨middle, ⟨lowLe, startLt, firstOrdered⟩, secondOrdered⟩
      · rintro ⟨middle, ⟨lowLe, startLt, firstOrdered⟩, secondOrdered⟩
        exact ⟨lowLe, startLt, middle, firstOrdered, secondOrdered⟩

theorem append {middle : Pos} {first second : List Span} (firstOrdered : Ordered low middle first)
    (secondOrdered : Ordered middle high second) : Ordered low high (first ++ second) :=
  append_iff.mpr ⟨middle, firstOrdered, secondOrdered⟩

/-- Every range of a list in order lies between the bounds. -/
theorem bounds_of_mem (ordered : Ordered low high spans) {span : Span} (mem : span ∈ spans) :
    low ≤ span.start ∧ span.start < span.stop ∧ span.stop ≤ high := by
  obtain ⟨before, after, rfl⟩ := List.append_of_mem mem
  obtain ⟨middle, beforeOrdered, startLe, startLt, afterOrdered⟩ := append_iff.mp ordered
  have beforeLe := beforeOrdered.le
  have afterLe := afterOrdered.le
  lia

end Ordered

end Span

open GoMend.Span (Ordered)

/-! ### Cursors on lexemes in order -/

/-- What is read: the lexemes of a text, and the position up to which they reach. -/
structure Extent where
  stop : Pos
  lexemes : List Lexeme

/-- A lexeme is not empty, an ellipsis has its three points, an operator is its own text unless a line
end stands for it, and a name is a word. -/
structure Lexeme.Solid (lexeme : Lexeme) : Prop where
  pos_lt : lexeme.pos < lexeme.stop
  ellipsis : lexeme.token = .ellipsis → lexeme.pos + 3 ≤ lexeme.stop
  operator : lexeme.token.isOperator → lexeme.token ≠ .semicolon → lexeme.text = lexeme.token.text
  isWord : lexeme.token = .ident → (⟨lexeme.span, lexeme.text⟩ : Ident).isWord

/-- Lexemes of an extent from a position on, none of them empty, up to the end of the file.  What
follows the end of the file is never read. -/
def Lexeme.Lined (extent : Extent) : Pos → List Lexeme → Prop
  | _, [] => False
  | low, lexeme :: rest =>
      lexeme.token = .endOfFile ∨
        low ≤ lexeme.pos ∧ (lexeme.Solid ∧ lexeme ∈ extent.lexemes) ∧ lexeme.stop ≤ extent.stop ∧
          Lined extent lexeme.stop rest

namespace Cursor

/-- A cursor on the lexemes of an extent in order. -/
structure Valid (extent : Extent) (cursor : Cursor) : Prop where
  positive : 0 < cursor.prevStop
  prevStop_le : cursor.prevStop ≤ extent.stop
  lined : Lexeme.Lined extent cursor.prevStop (cursor.current :: cursor.ahead)

/-- Where the next cursor stands, and where the lexeme at this one does. -/
structure Passes (extent : Extent) (cursor after : Cursor) : Prop where
  valid : after.Valid extent
  prevStop_le : cursor.prevStop ≤ cursor.current.pos
  pos_lt : cursor.current.pos < after.prevStop
  stop_eq : cursor.current.stop = after.prevStop
  mem : cursor.current ∈ extent.lexemes
  ellipsis : cursor.current.token = .ellipsis → cursor.current.pos + 3 ≤ after.prevStop
  operator : cursor.current.token.isOperator → cursor.current.token ≠ .semicolon →
    cursor.current.text = cursor.current.token.text
  isWord : cursor.current.token = .ident →
    (⟨cursor.current.span, cursor.current.text⟩ : Ident).isWord

theorem Passes.mem_of_token {extent : Extent} {cursor after : Cursor} {tok : Token}
    (passes : Passes extent cursor after) (isTok : cursor.current.token = tok) :
    ⟨tok, cursor.current.text, cursor.current.pos⟩ ∈ extent.lexemes := by
  subst isTok
  exact passes.mem

namespace Valid

variable {extent : Extent} {cursor : Cursor}

theorem prevStop_le_pos (valid : cursor.Valid extent)
    (notEnd : cursor.current.token ≠ .endOfFile) : cursor.prevStop ≤ cursor.current.pos := by
  obtain atEnd | ⟨startLe, -⟩ := valid.lined
  · exact absurd atEnd notEnd
  · exact startLe

theorem withLevel (valid : cursor.Valid extent) (level : Int) :
    Valid extent { cursor with level } :=
  ⟨valid.positive, valid.prevStop_le, valid.lined⟩

theorem passes_next (valid : cursor.Valid extent) (notEnd : cursor.current.token ≠ .endOfFile) :
    Passes extent cursor cursor.next := by
  obtain atEnd | ⟨startLe, ⟨solid, mem⟩, stopLe, rest⟩ := valid.lined
  · exact absurd atEnd notEnd
  · have startLt := solid.pos_lt
    cases aheadEq : cursor.ahead with
    | nil =>
        rw [aheadEq] at rest
        exact absurd rest id
    | cons lexeme ahead =>
        have nextEq : cursor.next =
            { cursor with current := lexeme, ahead, prevStop := cursor.current.stop } := by
          simp [Cursor.next, notEnd, aheadEq]
        rw [aheadEq] at rest
        have positive := valid.positive
        rw [nextEq]
        exact ⟨⟨by simp only; lia, stopLe, rest⟩, startLe, startLt, rfl, mem, solid.ellipsis,
          solid.operator, solid.isWord⟩

end Valid

end Cursor

open Cursor

/-! ### Nodes in order -/

/-- A sound, clear and drawn node that stands between two positions and takes up room. -/
structure Placed (extent : Extent) (low high : Pos) (role : Role) (node : Node) : Prop where
  sound : Sound role node
  positive : 0 < node.span.start
  low_le : low ≤ node.span.start
  start_lt_stop : node.span.start < node.span.stop
  le_high : node.span.stop ≤ high
  clear : node.Clear
  drawn : node.Drawn extent.lexemes

namespace Placed

variable {extent : Extent} {low high : Pos} {role : Role} {node : Node}

theorem le (placed : Placed extent low high role node) : low ≤ high := by
  have startLt := placed.start_lt_stop
  have lowLe := placed.low_le
  have leHigh := placed.le_high
  lia

theorem mono {low' high' : Pos} (placed : Placed extent low high role node) (lowLe : low' ≤ low)
    (highLe : high ≤ high') : Placed extent low' high' role node :=
  ⟨placed.sound, placed.positive, Int.le_trans lowLe placed.low_le, placed.start_lt_stop,
    Int.le_trans placed.le_high highLe, placed.clear, placed.drawn⟩

end Placed

/-- Sound, clear and drawn parts that were read between two positions, one after the other. -/
structure Row (extent : Extent) (low high : Pos) (parts : List (Role × Node)) : Prop where
  ordered : Ordered low high (parts.map fun part => part.2.span)
  sound : ∀ part ∈ parts, Sound part.1 part.2
  positive : ∀ part ∈ parts, 0 < part.2.span.start
  clear : ∀ part ∈ parts, part.2.Clear
  drawn : ∀ part ∈ parts, part.2.Drawn extent.lexemes

namespace Row

variable {extent : Extent} {low middle high : Pos} {role : Role} {node : Node}
  {parts first second : List (Role × Node)}

theorem nil (le : low ≤ high) : Row extent low high [] :=
  ⟨le, by simp, by simp, by simp, by simp⟩

theorem le (row : Row extent low high parts) : low ≤ high :=
  row.ordered.le

theorem cons (placed : Placed extent low middle role node) (row : Row extent middle high parts) :
    Row extent low high ((role, node) :: parts) := by
  refine ⟨⟨placed.low_le, placed.start_lt_stop, row.ordered.lower placed.le_high⟩, ?_, ?_, ?_, ?_⟩
  · exact List.forall_mem_cons.mpr ⟨placed.sound, row.sound⟩
  · exact List.forall_mem_cons.mpr ⟨placed.positive, row.positive⟩
  · exact List.forall_mem_cons.mpr ⟨placed.clear, row.clear⟩
  · exact List.forall_mem_cons.mpr ⟨placed.drawn, row.drawn⟩

theorem append (firstRow : Row extent low middle first) (secondRow : Row extent middle high second) :
    Row extent low high (first ++ second) := by
  refine ⟨?_, List.forall_mem_append.mpr ⟨firstRow.sound, secondRow.sound⟩,
    List.forall_mem_append.mpr ⟨firstRow.positive, secondRow.positive⟩,
    List.forall_mem_append.mpr ⟨firstRow.clear, secondRow.clear⟩,
    List.forall_mem_append.mpr ⟨firstRow.drawn, secondRow.drawn⟩⟩
  rw [List.map_append]
  exact firstRow.ordered.append secondRow.ordered

theorem singleton (placed : Placed extent low high role node) :
    Row extent low high [(role, node)] :=
  cons placed (nil (Int.le_refl _))

theorem mono {low' high' : Pos} (row : Row extent low high parts) (lowLe : low' ≤ low)
    (highLe : high ≤ high') : Row extent low' high' parts :=
  ⟨(row.ordered.lower lowLe).upper highLe, row.sound, row.positive, row.clear, row.drawn⟩

/-- A row of parts is cut between two of them. -/
theorem exists_middle (row : Row extent low high (first ++ second)) :
    ∃ middle, Row extent low middle first ∧ Row extent middle high second := by
  have ordered := row.ordered
  rw [List.map_append] at ordered
  obtain ⟨middle, firstOrdered, secondOrdered⟩ := Ordered.append_iff.mp ordered
  have sound := List.forall_mem_append.mp row.sound
  have positive := List.forall_mem_append.mp row.positive
  have clear := List.forall_mem_append.mp row.clear
  have drawn := List.forall_mem_append.mp row.drawn
  exact ⟨middle, ⟨firstOrdered, sound.1, positive.1, clear.1, drawn.1⟩,
    ⟨secondOrdered, sound.2, positive.2, clear.2, drawn.2⟩⟩

/-- A row begins with its first part. -/
theorem from_first (row : Row extent low high ((role, node) :: parts)) :
    low ≤ node.span.start ∧ Row extent node.span.start high ((role, node) :: parts) :=
  ⟨row.ordered.1, ⟨Int.le_refl _, row.ordered.2⟩, row.sound, row.positive, row.clear, row.drawn⟩

/-- A row ends with its last part. -/
theorem to_last (row : Row extent low high (parts ++ [(role, node)])) :
    node.span.stop ≤ high ∧ Row extent low node.span.stop (parts ++ [(role, node)]) := by
  obtain ⟨middle, firstRow, lastRow⟩ := row.exists_middle
  refine ⟨lastRow.ordered.2.2,
    firstRow.append ⟨?_, lastRow.sound, lastRow.positive, lastRow.clear, lastRow.drawn⟩⟩
  exact ⟨lastRow.ordered.1, lastRow.ordered.2.1, Int.le_refl _⟩

/-- The first part of a row. -/
theorem placed_first (row : Row extent low high ((role, node) :: parts)) :
    Placed extent low node.span.stop role node ∧ Row extent node.span.stop high parts := by
  have sound := List.forall_mem_cons.mp row.sound
  have positive := List.forall_mem_cons.mp row.positive
  have clear := List.forall_mem_cons.mp row.clear
  have drawn := List.forall_mem_cons.mp row.drawn
  exact ⟨⟨sound.1, positive.1, row.ordered.1, row.ordered.2.1, Int.le_refl _, clear.1, drawn.1⟩,
    ⟨row.ordered.2.2, sound.2, positive.2, clear.2, drawn.2⟩⟩

/-- The places of the parts of a row lie between the bounds. -/
theorem bounds_of_place (row : Row extent low high parts) {pos : Pos}
    (mem : pos ∈ (parts.map Prod.snd).flatMap Node.places) : low ≤ pos ∧ pos < high := by
  obtain ⟨node, nodeMem, place⟩ := List.mem_flatMap.mp mem
  obtain ⟨part, partMem, rfl⟩ := List.mem_map.mp nodeMem
  have holds := (row.sound part partMem).holds place
  have bounds := row.ordered.bounds_of_mem (List.mem_map_of_mem partMem)
  lia

theorem clear_nodes (row : Row extent low high parts) : ∀ node ∈ parts.map Prod.snd, node.Clear :=
  List.forall_mem_map.mpr row.clear

theorem drawn_nodes (row : Row extent low high parts) :
    ∀ node ∈ parts.map Prod.snd, node.Drawn extent.lexemes :=
  List.forall_mem_map.mpr row.drawn

/-- The parts of a row ask for comments between the bounds. -/
theorem bounds_of_query (row : Row extent low high parts) {pos : Pos}
    (mem : pos ∈ (parts.map Prod.snd).flatMap Node.queries) : low ≤ pos ∧ pos < high := by
  obtain ⟨node, nodeMem, query⟩ := List.mem_flatMap.mp mem
  obtain ⟨part, partMem, rfl⟩ := List.mem_map.mp nodeMem
  have holds := (row.drawn part partMem).holds pos query
  have bounds := row.ordered.bounds_of_mem (List.mem_map_of_mem partMem)
  lia

/-- What begins in the parts of a row begins between the bounds. -/
theorem bounds_of_start (row : Row extent low high parts) {pos : Pos}
    (mem : pos ∈ (parts.map Prod.snd).flatMap Node.starts) : low ≤ pos ∧ pos < high := by
  obtain ⟨node, nodeMem, start⟩ := List.mem_flatMap.mp mem
  obtain ⟨part, partMem, rfl⟩ := List.mem_map.mp nodeMem
  obtain ⟨-, startLe, ltStop⟩ :=
    Node.span_contains_iff.mp ((row.clear part partMem).clearAt.holds pos start)
  have bounds := row.ordered.bounds_of_mem (List.mem_map_of_mem partMem)
  lia

/-- A row with parts takes up room. -/
theorem lt_of_ne_nil (row : Row extent low high parts) (room : parts ≠ []) : low < high := by
  obtain ⟨part, others, rfl⟩ := List.exists_cons_of_ne_nil room
  have bounds := row.ordered.bounds_of_mem List.mem_cons_self
  lia

/-- The parts of a node begin in its range. -/
theorem inside_node (row : Row extent low high (node.parts role)) (lowLe : node.span.start ≤ low) :
    ∀ child ∈ node.nested, node.span.start ≤ child.span.start := by
  intro child isNested
  obtain nestedEq | nestedEq := node.nested_eq
  · rw [nestedEq, ← Node.map_snd_parts role] at isNested
    obtain ⟨part, isPart, rfl⟩ := List.mem_map.mp isNested
    have bounds := row.ordered.bounds_of_mem (List.mem_map_of_mem isPart)
    lia
  · rw [nestedEq] at isNested
    exact absurd isNested List.not_mem_nil

theorem pairwise_precedes (row : Row extent low high parts) :
    (parts.map Prod.snd).Pairwise Node.Precedes := by
  induction parts generalizing low with
  | nil => exact .nil
  | cons part parts ih =>
      obtain ⟨placed, rest⟩ := row.placed_first
      refine List.pairwise_cons.mpr ⟨?_, ih rest⟩
      intro node mem pos place
      exact (rest.bounds_of_place (List.mem_flatMap.mpr ⟨node, mem, place⟩)).1

theorem pairwise_before (row : Row extent low high parts) :
    (parts.map Prod.snd).Pairwise Node.Before := by
  induction parts generalizing low with
  | nil => exact .nil
  | cons part parts ih =>
      obtain ⟨placed, rest⟩ := row.placed_first
      refine List.pairwise_cons.mpr ⟨?_, ih rest⟩
      intro node mem pos start
      exact (rest.bounds_of_start (List.mem_flatMap.mpr ⟨node, mem, start⟩)).1

theorem pairwise_asksBefore (row : Row extent low high parts) :
    (parts.map Prod.snd).Pairwise Node.AsksBefore := by
  induction parts generalizing low with
  | nil => exact .nil
  | cons part parts ih =>
      obtain ⟨placed, rest⟩ := row.placed_first
      refine List.pairwise_cons.mpr ⟨?_, ih rest⟩
      intro node mem pos query later laterQuery
      have before := (placed.drawn.holds pos query).2
      have after := (rest.bounds_of_query (List.mem_flatMap.mpr ⟨node, mem, laterQuery⟩)).1
      lia

end Row

namespace Sound

variable {role : Role} {node : Node}

/-- A node whose parts stand in its range one after the other is sound. -/
theorem of_row (admitted : role.admits node) (positive : 0 < node.span.start)
    (noToken : node.token? = none) (row : Row extent node.span.start node.span.stop (node.parts role)) :
    Sound role node := by
  have opens : ∀ first, node.opener? = some first → first.span.start = node.span.start := by
    simp [Node.opener?_eq_none noToken]
  refine .placed ⟨admitted, positive, ?_, ?_, ?_, row.inside_node (Int.le_refl _), opens⟩ row.sound
  · intro pos mem
    rw [Node.places_eq (Node.isPositioned_of_pos positive), noToken,
      ← Node.map_snd_parts role node] at mem
    exact row.bounds_of_place mem
  · intro count pos token
    rw [noToken] at token
    exact absurd token.symm (Option.some_ne_none _)
  · rw [← Node.map_snd_parts role node]
    exact row.pairwise_precedes

/-- A node with a token between its parts is sound if the parts stand in its range before and after
the token. -/
theorem of_rows {pos : Pos} {before after : List (Role × Node)} (admitted : role.admits node)
    (positive : 0 < node.span.start) (token : node.token? = some (before.length, pos))
    (partsEq : node.parts role = before ++ after) (beforeRow : Row extent node.span.start pos before)
    (afterRow : Row extent (pos + 1) node.span.stop after)
    (opens : ∀ first, node.opener? = some first → first.span.start = node.span.start) :
    Sound role node := by
  have startLe := beforeRow.le
  have ltStop := afterRow.le
  have row : Row extent node.span.start node.span.stop (before ++ after) :=
    beforeRow.append (afterRow.mono (by lia) (Int.le_refl _))
  have childrenEq : node.children = before.map Prod.snd ++ after.map Prod.snd := by
    rw [← Node.map_snd_parts role node, partsEq, List.map_append]
  rw [← partsEq] at row
  have inside := row.inside_node (Int.le_refl _)
  rw [partsEq] at row
  refine .placed ⟨admitted, positive, ?_, ?_, ?_, inside, opens⟩ ?_
  · intro place mem
    rw [Node.places_eq (Node.isPositioned_of_pos positive), token, childrenEq,
      ← List.map_append] at mem
    obtain mem | mem := List.mem_append.mp mem
    · obtain rfl : place = pos := by simpa using mem
      lia
    · exact row.bounds_of_place mem
  · intro count place tokenEq
    rw [token] at tokenEq
    obtain ⟨rfl, rfl⟩ : before.length = count ∧ pos = place := by simpa using tokenEq
    rw [childrenEq, List.take_left' (by simp), List.drop_left' (by simp)]
    constructor
    · intro child mem
      obtain ⟨part, partMem, rfl⟩ := List.mem_map.mp mem
      exact (beforeRow.ordered.bounds_of_mem (List.mem_map_of_mem partMem)).2.2
    · intro child mem
      obtain ⟨part, partMem, rfl⟩ := List.mem_map.mp mem
      exact (afterRow.ordered.bounds_of_mem (List.mem_map_of_mem partMem)).1
  · rw [childrenEq, ← List.map_append]
    exact row.pairwise_precedes
  · rw [partsEq]
    exact row.sound

end Sound

/-- A node whose parts stand in its range one after the other is clear. -/
theorem Node.Clear.of_row {role : Role} {node : Node} (positive : 0 < node.span.start)
    (room : node.span.start < node.span.stop)
    (row : Row extent node.span.start node.span.stop (node.parts role)) : node.Clear := by
  have childrenEq := Node.map_snd_parts role node
  have lined := row.pairwise_before
  have rowClear := row.clear_nodes
  rw [childrenEq] at lined rowClear
  refine .of_children (Node.isSolid_iff.mpr ⟨Node.isPositioned_of_pos positive, room⟩) ?_
    (lined.imp Before.misses) (lined.sublist node.ownStmts_sublist) ?_ rowClear
  · intro pos inChild
    rw [← childrenEq] at inChild
    exact row.bounds_of_start inChild
  · intro step isOwn positioned
    have isChild := node.ownStmts_sublist.subset (List.mem_map_of_mem isOwn)
    rw [← childrenEq] at isChild
    obtain ⟨part, isPart, partEq⟩ := List.mem_map.mp isChild
    have bounds := row.ordered.bounds_of_mem (List.mem_map_of_mem isPart)
    rw [partEq] at bounds
    exact Node.isSolid_iff.mpr ⟨positioned, bounds.2.1⟩

/-- A node whose token is a lexeme and whose parts stand in its range one after the other is drawn. -/
theorem Node.Drawn.of_row {extent : Extent} {role : Role} {node : Node}
    (token : node.TokenWritten extent.lexemes) (room : node.span.start < node.span.stop)
    (row : Row extent node.span.start node.span.stop (node.parts role)) :
    node.Drawn extent.lexemes := by
  have childrenEq := Node.map_snd_parts role node
  have inOrder := row.pairwise_asksBefore
  have drawn := row.drawn_nodes
  rw [childrenEq] at inOrder drawn
  refine .of_children token room (fun pos inChild => ?_) (fun _ => inOrder) drawn
  rw [← childrenEq] at inChild
  exact row.bounds_of_query inChild

namespace Placed

variable {extent : Extent} {low high : Pos} {role : Role} {node : Node}

/-- The node needs no more room than its own range. -/
theorem tight (placed : Placed extent low high role node) :
    Placed extent low node.span.stop role node :=
  ⟨placed.sound, placed.positive, placed.low_le, placed.start_lt_stop, Int.le_refl _, placed.clear,
    placed.drawn⟩

/-- The node stands at the beginning of its own range. -/
theorem alone (placed : Placed extent low high role node) :
    Placed extent node.span.start high role node :=
  ⟨placed.sound, placed.positive, Int.le_refl _, placed.start_lt_stop, placed.le_high, placed.clear,
    placed.drawn⟩

/-- A node without a token of its own that takes up room and has its parts in its range. -/
theorem of_written (lowLe : low ≤ node.span.start) (leHigh : node.span.stop ≤ high)
    (admitted : role.admits node) (positive : 0 < node.span.start) (noToken : node.token? = none)
    (written : node.TokenWritten extent.lexemes)
    (row : Row extent node.span.start node.span.stop (node.parts role))
    (room : node.span.start < node.span.stop) : Placed extent low high role node :=
  ⟨.of_row admitted positive noToken row, positive, lowLe, room, leHigh, .of_row positive room row,
    .of_row written room row⟩

/-- A bare node that takes up room and has its parts in its range. -/
theorem of_room (lowLe : low ≤ node.span.start) (leHigh : node.span.stop ≤ high)
    (admitted : role.admits node) (positive : 0 < node.span.start) (bare : node.isBare)
    (row : Row extent node.span.start node.span.stop (node.parts role))
    (room : node.span.start < node.span.stop) : Placed extent low high role node :=
  of_written lowLe leHigh admitted positive (Node.token?_of_isBare bare)
    (Node.tokenWritten_of_isBare bare) row room

/-- A node with parts takes up room because they do. -/
theorem of_row (lowLe : low ≤ node.span.start) (leHigh : node.span.stop ≤ high)
    (admitted : role.admits node) (positive : 0 < node.span.start) (bare : node.isBare)
    (hasParts : node.parts role ≠ [])
    (row : Row extent node.span.start node.span.stop (node.parts role)) :
    Placed extent low high role node :=
  of_room lowLe leHigh admitted positive bare row (row.lt_of_ne_nil hasParts)

end Placed

/-! ### What productions read -/

/-- A node was read between two cursors. -/
structure Reads (extent : Extent) (role : Role) (cursor : Cursor) (node : Node) (after : Cursor) :
    Prop where
  notEnd : cursor.current.token ≠ .endOfFile
  prevStop_le : cursor.prevStop ≤ cursor.current.pos
  valid : after.Valid extent
  placed : Placed extent cursor.current.pos after.prevStop role node

/-- Parts were read between two cursors, possibly none. -/
structure ReadsRow (extent : Extent) (cursor : Cursor) (parts : List (Role × Node)) (after : Cursor) :
    Prop where
  valid : after.Valid extent
  row : Row extent cursor.prevStop after.prevStop parts

variable {extent : Extent} {role : Role} {cursor middle after : Cursor} {node : Node}
  {parts first second : List (Role × Node)}

theorem Reads.row (reads : Reads extent role cursor node after) :
    ReadsRow extent cursor [(role, node)] after :=
  ⟨reads.valid, .singleton (reads.placed.mono reads.prevStop_le (Int.le_refl _))⟩

/-- A node whose range begins at the cursor and takes up room. -/
theorem Reads.of_room (valid : cursor.Valid extent) (notEnd : cursor.current.token ≠ .endOfFile)
    (validAfter : after.Valid extent) (startEq : node.span.start = cursor.current.pos)
    (leHigh : node.span.stop ≤ after.prevStop) (admitted : role.admits node)
    (bare : node.isBare)
    (row : Row extent cursor.current.pos node.span.stop (node.parts role))
    (room : cursor.current.pos < node.span.stop) : Reads extent role cursor node after := by
  have prevStopLe := valid.prevStop_le_pos notEnd
  have positive := valid.positive
  rw [← startEq] at row
  exact ⟨notEnd, prevStopLe, validAfter,
    .of_room (by lia) leHigh admitted (by lia) bare row (by lia)⟩

/-- A node with parts whose range begins at the cursor. -/
theorem Reads.of_row (valid : cursor.Valid extent) (notEnd : cursor.current.token ≠ .endOfFile)
    (validAfter : after.Valid extent) (startEq : node.span.start = cursor.current.pos)
    (leHigh : node.span.stop ≤ after.prevStop) (admitted : role.admits node)
    (bare : node.isBare) (hasParts : node.parts role ≠ [])
    (row : Row extent cursor.current.pos node.span.stop (node.parts role)) :
    Reads extent role cursor node after :=
  .of_room valid notEnd validAfter startEq leHigh admitted bare row (row.lt_of_ne_nil hasParts)

/-- A node that was read after a token stands after the beginning of the token. -/
theorem Cursor.Passes.placed (passes : Passes extent cursor middle)
    (reads : Reads extent role middle node after) :
    Placed extent cursor.current.pos after.prevStop role node := by
  have posLt := passes.pos_lt
  have prevStopLe := reads.prevStop_le
  exact reads.placed.mono (by lia) (Int.le_refl _)

/-- Parts that were read after a token stand after the beginning of the token. -/
theorem Cursor.Passes.row (passes : Passes extent cursor middle)
    (read : ReadsRow extent middle parts after) :
    Row extent cursor.current.pos after.prevStop parts :=
  read.row.mono (Int.le_of_lt passes.pos_lt) (Int.le_refl _)

/-- A token takes up room before what is read after it. -/
theorem Cursor.Passes.lt_of_reads (passes : Passes extent cursor middle)
    (read : ReadsRow extent middle parts after) : cursor.current.pos < after.prevStop :=
  Int.lt_of_lt_of_le passes.pos_lt read.row.le

namespace ReadsRow

theorem nil (valid : cursor.Valid extent) : ReadsRow extent cursor [] cursor :=
  ⟨valid, .nil (Int.le_refl _)⟩

theorem append (firstRead : ReadsRow extent cursor first middle)
    (secondRead : ReadsRow extent middle second after) :
    ReadsRow extent cursor (first ++ second) after :=
  ⟨secondRead.valid, firstRead.row.append secondRead.row⟩

/-- A token between parts. -/
theorem skip (passes : Passes extent cursor middle) (read : ReadsRow extent middle parts after) :
    ReadsRow extent cursor parts after := by
  have prevStopLe := passes.prevStop_le
  have posLt := passes.pos_lt
  exact ⟨read.valid, read.row.mono (by lia) (Int.le_refl _)⟩

/-- A token after parts. -/
theorem skipped (read : ReadsRow extent cursor parts middle) (passes : Passes extent middle after) :
    ReadsRow extent cursor parts after := by
  have prevStopLe := passes.prevStop_le
  have posLt := passes.pos_lt
  exact ⟨passes.valid, read.row.mono (Int.le_refl _) (by lia)⟩

end ReadsRow

namespace Parse

variable {α : Type}

theorem expectEnd_reads {result : PUnit} (valid : cursor.Valid extent)
    (outcome : expectEnd cursor = .ok (result, after)) : ReadsRow extent cursor [] after := by
  obtain rfl | ⟨semicolon, rfl⟩ := expectEnd_eq_ok outcome
  · exact .nil valid
  · have passes := valid.passes_next (by simp [semicolon])
    exact .skip passes (.nil passes.valid)

theorem accept_reads {tok : Token} {result : Bool} (valid : cursor.Valid extent)
    (outcome : accept tok cursor = .ok (result, after)) (notEnd : tok ≠ .endOfFile) :
    ReadsRow extent cursor [] after := by
  obtain ⟨tokEq, -, rfl⟩ | ⟨-, -, rfl⟩ := accept_eq_ok.mp outcome
  · rw [← tokEq] at notEnd
    have passes := valid.passes_next notEnd
    exact .skip passes (.nil passes.valid)
  · exact .nil valid

/-- What a production gives are parts that were read. -/
def ReadsParts (extent : Extent) (production : Parse α) (parts : α → List (Role × Node)) : Prop :=
  ∀ ⦃cursor result after⦄, Valid extent cursor → production cursor = .ok (result, after) →
    ReadsRow extent cursor (parts result) after

/-- What a production gives is a node that was read. -/
def ReadsNode (extent : Extent) (production : Parse α) (role : Role) (wrap : α → Node) : Prop :=
  ∀ ⦃cursor result after⦄, Valid extent cursor → production cursor = .ok (result, after) →
    Reads extent role cursor (wrap result) after

theorem ReadsNode.readsParts {production : Parse α} {wrap : α → Node}
    (reads : ReadsNode extent production role wrap) :
    ReadsParts extent production fun result => [(role, wrap result)] :=
  fun _ _ _ valid outcome => (reads valid outcome).row

theorem repeatWhile_reads {more : Parse Bool} {item : Parse α} {parts : α → List (Role × Node)}
    (moreReads : ReadsParts extent more fun _ => []) (itemReads : ReadsParts extent item parts)
    (count : Nat) :
    ReadsParts extent (repeatWhile more item count) fun items => items.flatMap parts := by
  induction count with
  | zero =>
      intro cursor items after _ outcome
      exact absurd outcome fail_ne_ok
  | succ count ih =>
      intro cursor items after valid outcome
      simp only [repeatWhile, bind_eq_ok, ite_eq_ok, pure_eq_ok] at outcome
      obtain ⟨goesOn, middle, moreOutcome, outcome⟩ := outcome
      have moreRead := moreReads valid moreOutcome
      obtain ⟨-, first, next, itemOutcome, rest, last, restOutcome, rfl, rfl⟩ |
        ⟨-, rfl, rfl⟩ := outcome
      · have itemRead := itemReads moreRead.valid itemOutcome
        have restRead := ih itemRead.valid restOutcome
        exact (moreRead.append itemRead).append restRead
      · exact moreRead

theorem manyWhile_reads {more : Parse Bool} {item : Parse α} {parts : α → List (Role × Node)}
    (moreReads : ReadsParts extent more fun _ => []) (itemReads : ReadsParts extent item parts) :
    ReadsParts extent (manyWhile more item) fun items => items.flatMap parts := by
  intro cursor items after valid outcome
  simp only [manyWhile, bind_eq_ok, itemLimit_eq_ok] at outcome
  obtain ⟨count, middle, ⟨rfl, rfl⟩, outcome⟩ := outcome
  exact repeatWhile_reads moreReads itemReads _ valid outcome

theorem repeatUntil_reads {closing : Token} {item : Parse α} {parts : α → List (Role × Node)}
    (itemReads : ReadsParts extent item parts) (count : Nat) :
    ReadsParts extent (repeatUntil closing item count) fun items => items.flatMap parts := by
  induction count with
  | zero =>
      intro cursor items after _ outcome
      exact absurd outcome fail_ne_ok
  | succ count ih =>
      intro cursor items after valid outcome
      simp only [repeatUntil, bind_eq_ok, ite_eq_ok, pure_eq_ok, token_eq_ok] at outcome
      obtain ⟨tok, middle, ⟨rfl, rfl⟩, outcome⟩ := outcome
      obtain ⟨-, rfl, rfl⟩ | ⟨-, first, next, itemOutcome, comma, last, commaOutcome, outcome⟩ :=
        outcome
      · exact .nil valid
      · have itemRead := itemReads valid itemOutcome
        have commaRead := accept_reads itemRead.valid commaOutcome (by decide)
        have bothRead := itemRead.append commaRead
        rw [List.append_nil] at bothRead
        obtain ⟨-, rest, _, restOutcome, rfl, rfl⟩ | ⟨-, rfl, rfl⟩ := outcome
        · exact bothRead.append (ih commaRead.valid restOutcome)
        · simpa using bothRead

theorem listUntil_reads {closing : Token} {item : Parse α} {parts : α → List (Role × Node)}
    (itemReads : ReadsParts extent item parts) :
    ReadsParts extent (listUntil closing item) fun items => items.flatMap parts := by
  intro cursor items after valid outcome
  simp only [listUntil, bind_eq_ok, itemLimit_eq_ok] at outcome
  obtain ⟨count, middle, ⟨rfl, rfl⟩, outcome⟩ := outcome
  exact repeatUntil_reads itemReads _ valid outcome

theorem manyWhile_readsNodes {more : Parse Bool} {item : Parse α} {wrap : α → Node}
    (moreReads : ReadsParts extent more fun _ => [])
    (itemReads : ReadsNode extent item role wrap) :
    ReadsParts extent (manyWhile more item) fun items => items.map fun value => (role, wrap value) := by
  intro cursor items after valid outcome
  have read := manyWhile_reads moreReads itemReads.readsParts valid outcome
  simpa only [← List.map_eq_flatMap] using read

theorem listUntil_readsNodes {closing : Token} {item : Parse α} {wrap : α → Node}
    (itemReads : ReadsNode extent item role wrap) :
    ReadsParts extent (listUntil closing item) fun items =>
      items.map fun value => (role, wrap value) := by
  intro cursor items after valid outcome
  have read := listUntil_reads itemReads.readsParts valid outcome
  simpa only [← List.map_eq_flatMap] using read

/-- What every extension of a value keeps holds of the value in the end. -/
theorem repeatExtend_keeps {extend : α → Parse (Option α)} {kept : Cursor → α → Prop}
    (step : ∀ ⦃cursor value extended after⦄, kept cursor value →
      extend value cursor = .ok (extended, after) → kept after (extended.getD value))
    (count : Nat) {value result : α} (start : kept cursor value)
    (outcome : repeatExtend extend count value cursor = .ok (result, after)) :
    kept after result := by
  induction count generalizing cursor value with
  | zero => exact absurd outcome fail_ne_ok
  | succ count ih =>
      simp only [repeatExtend, bind_eq_ok] at outcome
      obtain ⟨extended, middle, extendOutcome, outcome⟩ := outcome
      have next := step start extendOutcome
      cases extended with
      | none =>
          obtain ⟨rfl, rfl⟩ := pure_eq_ok.mp outcome
          exact next
      | some value => exact ih next outcome

theorem extendAll_keeps {extend : α → Parse (Option α)} {kept : Cursor → α → Prop}
    (step : ∀ ⦃cursor value extended after⦄, kept cursor value →
      extend value cursor = .ok (extended, after) → kept after (extended.getD value))
    {value result : α} (start : kept cursor value)
    (outcome : extendAll extend value cursor = .ok (result, after)) : kept after result := by
  simp only [extendAll, bind_eq_ok, itemLimit_eq_ok] at outcome
  obtain ⟨count, middle, ⟨rfl, rfl⟩, outcome⟩ := outcome
  exact repeatExtend_keeps step _ start outcome

theorem atLevel_reads {level : Int} {production : Parse α}
    {parts : α → List (Role × Node)} (reads : ReadsParts extent production parts) :
    ReadsParts extent (atLevel level production) parts := by
  intro cursor result after valid outcome
  obtain ⟨middle, inner, rfl⟩ := atLevel_eq_ok.mp outcome
  have read := reads (valid.withLevel _) inner
  exact ⟨read.valid.withLevel _, read.row⟩

theorem atLevel_readsNode {level : Int} {production : Parse α} {wrap : α → Node}
    (reads : ReadsNode extent production role wrap) :
    ReadsNode extent (atLevel level production) role wrap := by
  intro cursor result after valid outcome
  obtain ⟨middle, inner, rfl⟩ := atLevel_eq_ok.mp outcome
  have read := reads (valid.withLevel _) inner
  exact ⟨read.notEnd, read.prevStop_le, read.valid.withLevel _, read.placed⟩

theorem bracketed_reads {production : Parse α} {parts : α → List (Role × Node)}
    (reads : ReadsParts extent production parts) :
    ReadsParts extent (bracketed production) parts := by
  intro cursor result after valid outcome
  obtain ⟨middle, inner, rfl⟩ := bracketed_eq_ok.mp outcome
  have read := reads (valid.withLevel _) inner
  exact ⟨read.valid.withLevel _, read.row⟩

theorem bracketed_readsNode {production : Parse α} {wrap : α → Node}
    (reads : ReadsNode extent production role wrap) :
    ReadsNode extent (bracketed production) role wrap := by
  intro cursor result after valid outcome
  obtain ⟨middle, inner, rfl⟩ := bracketed_eq_ok.mp outcome
  have read := reads (valid.withLevel _) inner
  exact ⟨read.notEnd, read.prevStop_le, read.valid.withLevel _, read.placed⟩

end Parse

/-- A node that was read can play another role that admits it. -/
theorem Reads.withRole {other : Role} (reads : Reads extent role cursor node after)
    (admitted : other.admits node) (same : role.member = other.member) :
    Reads extent other cursor node after := by
  have placed := reads.placed
  have sound := placed.sound.withRole (Node.isPositioned_of_pos placed.positive) admitted same
  exact ⟨reads.notEnd, reads.prevStop_le, reads.valid, sound, placed.positive, placed.low_le,
    placed.start_lt_stop, placed.le_high, placed.clear, placed.drawn⟩

/-- A simple statement in a list of statements. -/
theorem Reads.simple {step : Stmt} (reads : Reads extent .simple cursor (.stmt step) after) :
    Reads extent .stmt cursor (.stmt step) after := by
  have admitted := reads.placed.sound.admits
  refine reads.withRole ?_ rfl
  cases step <;> first | rfl | exact absurd admitted Bool.false_ne_true

/-- A node with something after it that has no parts. -/
theorem Reads.ended (reads : Reads extent role cursor node middle)
    (rest : ReadsRow extent middle [] after) : Reads extent role cursor node after :=
  ⟨reads.notEnd, reads.prevStop_le, rest.valid,
    reads.placed.mono (Int.le_refl _) rest.row.le⟩

/-- A statement was read between two cursors, or is an empty one that stands there.  The range of a
label without a statement reaches up to the closing brace after it, which is not read yet. -/
structure ReadsStep (extent : Extent) (cursor : Cursor) (step : Stmt) (after : Cursor) : Prop where
  valid : after.Valid extent
  sound : Sound .stmt (.stmt step)
  clear : (Node.stmt step).Clear
  drawn : (Node.stmt step).Drawn extent.lexemes
  low_le : cursor.prevStop ≤ step.span.start
  start_le_stop : step.span.start ≤ step.span.stop
  le_high : cursor.prevStop ≤ after.prevStop
  places_lt : ∀ pos ∈ (Node.stmt step).places, pos < after.prevStop
  starts_lt : ∀ pos ∈ (Node.stmt step).starts, pos < after.prevStop
  queries_lt : ∀ pos ∈ (Node.stmt step).queries, pos < after.prevStop
  stop_le : step.span.stop ≤ after.prevStop ∨ after.current.token = .rightBrace

/-- A statement of a list takes up room. -/
structure ReadsStmt (extent : Extent) (cursor : Cursor) (step : Stmt) (after : Cursor) : Prop extends
    ReadsStep extent cursor step after where
  start_lt_stop : step.span.start < step.span.stop

theorem Reads.stmt {step : Stmt} (reads : Reads extent .stmt cursor (.stmt step) after) :
    ReadsStmt extent cursor step after where
  valid := reads.valid
  sound := reads.placed.sound
  clear := reads.placed.clear
  drawn := reads.placed.drawn
  low_le := Int.le_trans reads.prevStop_le reads.placed.low_le
  start_le_stop := Int.le_of_lt reads.placed.start_lt_stop
  start_lt_stop := reads.placed.start_lt_stop
  le_high := Int.le_trans reads.prevStop_le reads.placed.le
  places_lt _ mem :=
    Int.lt_of_lt_of_le (reads.placed.sound.holds mem).2.2 reads.placed.le_high
  starts_lt pos isStart :=
    Int.lt_of_lt_of_le (Node.span_contains_iff.mp (reads.placed.clear.clearAt.holds pos isStart)).2.2
      reads.placed.le_high
  queries_lt pos query :=
    Int.lt_of_lt_of_le (reads.placed.drawn.holds pos query).2 reads.placed.le_high
  stop_le := .inl reads.placed.le_high

/-- What the production of a statement gives: a statement, or nothing for a lone semicolon. -/
def Parse.ReadsStmts (extent : Extent) (production : Parse (Option Stmt)) : Prop :=
  ∀ ⦃cursor result after⦄, Valid extent cursor → production cursor = .ok (result, after) →
    match result with
    | none => ReadsRow extent cursor [] after
    | some step => ReadsStmt extent cursor step after

/-- Productions whose nodes are read in the order of the text. -/
structure Rules.Reading (extent : Extent) (rules : Rules) : Prop where
  binary : ∀ least, Parse.ReadsNode extent (rules.binary least) .plain .expr
  unary : Parse.ReadsNode extent rules.unary .plain .expr
  element : Parse.ReadsNode extent rules.element .plain .expr
  type : Parse.ReadsNode extent rules.type .plain .expr
  block : Parse.ReadsNode extent rules.block .body Node.block
  stmt : Parse.ReadsStmts extent rules.stmt
  ifStmt : Parse.ReadsNode extent rules.ifStmt .elseBranch .stmt

theorem Rules.exhausted_reading (extent : Extent) : exhausted.Reading extent where
  binary _ _ _ _ _ outcome := absurd outcome Parse.fail_ne_ok
  unary _ _ _ _ outcome := absurd outcome Parse.fail_ne_ok
  element _ _ _ _ outcome := absurd outcome Parse.fail_ne_ok
  type _ _ _ _ outcome := absurd outcome Parse.fail_ne_ok
  block _ _ _ _ outcome := absurd outcome Parse.fail_ne_ok
  stmt _ _ _ _ outcome := absurd outcome Parse.fail_ne_ok
  ifStmt _ _ _ _ outcome := absurd outcome Parse.fail_ne_ok

theorem Rules.Reading.expr {rules : Rules} (reading : rules.Reading extent) :
    Parse.ReadsNode extent rules.expr .plain .expr :=
  reading.binary 1

end GoMend
