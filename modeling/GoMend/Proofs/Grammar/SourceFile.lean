import GoMend.Grammar.SourceFile
import GoMend.Proofs.Grammar.Statements
import GoMend.Proofs.Lexeme.Lined

/-!
# Files that were read are sound

The productions are read in order at every depth of their unrolling, and so is a whole file.
-/

namespace GoMend

open Cursor

variable {extent : Extent} {cursor middle last after : Cursor} {rules : Rules}

namespace Parse

/-- A function is sound, clear and drawn if its parts stand in order.  The range of its signature begins with
the whole function, but its names and its parameters stand after the receiver and the name. -/
theorem funcDecl_sound {span : Span} {recv : Option FieldList} {name : Ident} {type : FuncType}
    {body : Option Block} {headLow typeLow typeHigh : Pos} (positive : 0 < span.start)
    (headLt : span.start < headLow)
    (headRow : Row extent headLow typeLow
      (recv.toList.map (fun recv => (Role.plain, Node.fieldList recv)) ++
        [(Role.plain, Node.ident name)]))
    (typePlaced : Placed extent span.start typeHigh .plain (.expr (.funcType type)))
    (typePlaces : ∀ pos ∈ (Node.expr (.funcType type)).places, typeLow ≤ pos)
    (typeStarts : ∀ pos ∈ (Node.expr (.funcType type)).children.flatMap Node.starts, typeLow ≤ pos)
    (typeStart : type.span.start = span.start) (typeLe : typeLow ≤ typeHigh)
    (bodyRow : Row extent typeHigh span.stop (body.toList.map fun body => (.body, .block body))) :
    Sound .plain (.decl (.func ⟨span, recv, name, type, body⟩)) ∧
      (Node.decl (.func ⟨span, recv, name, type, body⟩)).Clear ∧
      (Node.decl (.func ⟨span, recv, name, type, body⟩)).Drawn extent.lexemes := by
  have typeSound := typePlaced.sound
  have typeStop : type.span.stop ≤ typeHigh := typePlaced.le_high
  have headLe := headRow.le
  have bodyLe := bodyRow.le
  have typeBounds : ∀ pos ∈ (Node.expr (.funcType type)).places, typeLow ≤ pos ∧ pos < typeHigh := by
    intro pos mem
    have ltStop := (typeSound.holds mem).2.2
    exact ⟨typePlaces pos mem, Int.lt_of_lt_of_le ltStop typeStop⟩
  have partsEq : (Node.decl (.func ⟨span, recv, name, type, body⟩)).parts .plain =
      (recv.toList.map (fun recv => (Role.plain, Node.fieldList recv)) ++
          [(Role.plain, Node.ident name)]) ++
        ((Role.plain, Node.expr (.funcType type)) ::
          body.toList.map fun body => (Role.body, Node.block body)) := by
    simp [Node.parts]
  have childrenEq := Node.map_snd_parts .plain (.decl (.func ⟨span, recv, name, type, body⟩))
  rw [partsEq, List.map_append, List.map_cons] at childrenEq
  have room : span.start < span.stop := by lia
  refine ⟨.placed ⟨rfl, positive, ?_, ?_, ?_, by rintro _ ⟨⟩, by rintro _ ⟨⟩⟩ ?_, ?clear, ?drawn⟩
  case drawn =>
    refine .of_children trivial room ?_ (by rintro ⟨⟩) ?_
    · intro pos query
      rw [← childrenEq, List.flatMap_append, List.flatMap_cons, List.mem_append,
        List.mem_append] at query
      simp only [Node.span, Decl.span]
      obtain query | query | query := query
      · have bounds := headRow.bounds_of_query query
        lia
      · have bounds := typePlaced.drawn.holds pos query
        simp only [Node.span, Expr.span] at bounds
        lia
      · have bounds := bodyRow.bounds_of_query query
        lia
    · rw [← childrenEq]
      exact List.forall_mem_append.mpr ⟨headRow.drawn_nodes,
        List.forall_mem_cons.mpr ⟨typePlaced.drawn, bodyRow.drawn_nodes⟩⟩
  case clear =>
    -- What begins in the signature begins with the whole function or after its name.
    have typeBounds : ∀ pos ∈ (Node.expr (.funcType type)).starts,
        (pos = span.start ∨ typeLow ≤ pos) ∧ pos < typeHigh := by
      intro pos start
      have bounds := Node.span_contains_iff.mp (typePlaced.clear.clearAt.holds pos start)
      refine ⟨(Node.mem_starts start).imp ?_ (typeStarts pos), Int.lt_of_lt_of_le bounds.2.2 typeStop⟩
      rintro ⟨-, rfl⟩
      exact typeStart
    have solid : (Node.decl (.func ⟨span, recv, name, type, body⟩)).isSolid :=
      Node.isSolid_iff.mpr
        ⟨Node.isPositioned_of_pos positive, room⟩
    refine .of_children solid ?_ ?_ .nil (by rintro _ ⟨⟩) ?_
    · intro pos start
      rw [← childrenEq, List.flatMap_append, List.flatMap_cons, List.mem_append,
        List.mem_append] at start
      simp only [Node.span, Decl.span]
      obtain start | start | start := start
      · have bounds := headRow.bounds_of_start start
        lia
      · have bounds := typeBounds pos start
        lia
      · have bounds := bodyRow.bounds_of_start start
        lia
    · rw [← childrenEq]
      refine List.pairwise_append.mpr ⟨headRow.pairwise_before.imp Node.Before.misses,
        List.pairwise_cons.mpr ⟨?_, bodyRow.pairwise_before.imp Node.Before.misses⟩, ?_⟩
      · refine fun node mem => Node.Before.misses fun pos start => ?_
        have bounds := bodyRow.bounds_of_start (List.mem_flatMap.mpr ⟨node, mem, start⟩)
        exact Int.le_trans typeStop bounds.1
      · intro head isHead node mem pos start
        obtain ⟨part, isPart, rfl⟩ := List.mem_map.mp isHead
        have headBounds := headRow.ordered.bounds_of_mem (List.mem_map_of_mem isPart)
        refine Bool.eq_false_iff.mpr fun contains => ?_
        have inHead := Node.span_contains_iff.mp contains
        obtain rfl | mem := List.mem_cons.mp mem
        · have bounds := typeBounds pos start
          lia
        · have bounds := bodyRow.bounds_of_start (List.mem_flatMap.mpr ⟨node, mem, start⟩)
          lia
    · rw [← childrenEq]
      exact List.forall_mem_append.mpr ⟨headRow.clear_nodes,
        List.forall_mem_cons.mpr ⟨typePlaced.clear, bodyRow.clear_nodes⟩⟩
  · intro pos mem
    obtain ⟨child, isChild, place⟩ := Node.mem_places_of_noToken rfl mem
    have place := List.mem_flatMap.mpr ⟨child, isChild, place⟩
    rw [← childrenEq, List.flatMap_append, List.flatMap_cons, List.mem_append,
      List.mem_append] at place
    simp only [Node.span, Decl.span]
    obtain place | place | place := place
    · have bounds := headRow.bounds_of_place place
      lia
    · have bounds := typeBounds pos place
      lia
    · have bounds := bodyRow.bounds_of_place place
      lia
  · intro count pos token
    exact absurd token.symm (Option.some_ne_none _)
  · rw [← childrenEq]
    refine List.pairwise_append.mpr ⟨headRow.pairwise_precedes,
      List.pairwise_cons.mpr ⟨?_, bodyRow.pairwise_precedes⟩, ?_⟩
    · intro node mem pos place
      have bounds := bodyRow.bounds_of_place (List.mem_flatMap.mpr ⟨node, mem, place⟩)
      exact Int.le_trans typeStop bounds.1
    · intro head isHead node mem pos place
      obtain ⟨part, isPart, rfl⟩ := List.mem_map.mp isHead
      have headBounds := headRow.ordered.bounds_of_mem (List.mem_map_of_mem isPart)
      obtain rfl | mem := List.mem_cons.mp mem
      · exact Int.le_trans headBounds.2.2 (typeBounds pos place).1
      · have bounds := bodyRow.bounds_of_place (List.mem_flatMap.mpr ⟨node, mem, place⟩)
        lia
  · rw [partsEq]
    exact List.forall_mem_append.mpr
      ⟨headRow.sound, List.forall_mem_cons.mpr ⟨typeSound, bodyRow.sound⟩⟩

/-- What follows the name of a function. -/
theorem funcTail_reads (reading : rules.Reading extent) (recv : Option FieldList) {name : Ident}
    {type : FuncType} {item : FuncDecl} (valid : cursor.Valid extent)
    (isFunc : cursor.current.token = .kwFunc) (nameValid : middle.Valid extent)
    (headRow : Row extent cursor.next.prevStop middle.prevStop
      (recv.toList.map (fun recv => (Role.plain, Node.fieldList recv)) ++
        [(Role.plain, Node.ident name)]))
    (typeOutcome : funcTypeFrom rules cursor.current.pos middle = .ok (type, last))
    (outcome : last.current.token = .leftBrace ∧ (∃ body read,
        rules.block { last with level := 0 } = .ok (body, read) ∧
          (∃ result, expectEnd { read with level := last.level } = .ok (result, after)) ∧
          item = ⟨⟨cursor.current.pos, read.prevStop⟩, recv, name, type, some body⟩) ∨
      ¬ last.current.token = .leftBrace ∧
        (∃ result, expectEnd last = .ok (result, after)) ∧
          item = ⟨⟨cursor.current.pos, last.prevStop⟩, recv, name, type, none⟩) :
    Reads extent .plain cursor (.decl (.func item)) after := by
  have notEnd : cursor.current.token ≠ .endOfFile := by simp [isFunc]
  have prevStopLe := valid.prevStop_le_pos notEnd
  have prevPositive := valid.positive
  have positive : 0 < cursor.current.pos := by lia
  have headLe := headRow.le
  have keywordLt := (valid.passes_next notEnd).pos_lt
  obtain ⟨typeNotEnd, lastValid, ⟨typeLe, typePlaces, typeStarts⟩, typePlaced⟩ :=
    funcTypeFrom_reads reading nameValid positive (fun le => by lia) typeOutcome
  have middleLe := nameValid.prevStop_le_pos typeNotEnd
  have typePlaces : ∀ pos ∈ (Node.expr (.funcType type)).places, middle.prevStop ≤ pos :=
    fun pos mem => Int.le_trans middleLe (typePlaces pos mem)
  have typeStarts : ∀ pos ∈ (Node.expr (.funcType type)).children.flatMap Node.starts,
      middle.prevStop ≤ pos :=
    fun pos mem => Int.le_trans middleLe (typeStarts pos mem)
  have typeStart := funcTypeFrom_start typeOutcome
  have nameLe : middle.prevStop ≤ last.prevStop := by lia
  obtain ⟨-, body, read, bodyOutcome, ⟨_, endOutcome⟩, rfl⟩ | ⟨-, ⟨_, endOutcome⟩, rfl⟩ := outcome
  · have bodyRead := reading.block (lastValid.withLevel _) bodyOutcome
    have endRead := expectEnd_reads (bodyRead.valid.withLevel _) endOutcome
    have bodyLe := bodyRead.row.row.le
    obtain ⟨sound, clear, drawn⟩ :=
      @funcDecl_sound _ ⟨cursor.current.pos, read.prevStop⟩ _ _ _
        (some body) _ _ _ positive keywordLt headRow typePlaced typePlaces typeStarts typeStart nameLe bodyRead.row.row
    refine ⟨notEnd, prevStopLe, endRead.valid, sound, positive, Int.le_refl _, ?_, endRead.row.le,
      clear, drawn⟩
    exact Int.lt_of_lt_of_le (by lia : cursor.current.pos < last.prevStop) bodyLe
  · have endRead := expectEnd_reads lastValid endOutcome
    obtain ⟨sound, clear, drawn⟩ :=
      @funcDecl_sound _ ⟨cursor.current.pos, last.prevStop⟩ _ _ _ none _ _ _ positive keywordLt headRow typePlaced typePlaces typeStarts typeStart nameLe (.nil (Int.le_refl _))
    refine ⟨notEnd, prevStopLe, endRead.valid, sound, positive, Int.le_refl _, ?_, endRead.row.le,
      clear, drawn⟩
    exact (by lia : cursor.current.pos < last.prevStop)

theorem funcDecl_reads (reading : rules.Reading extent) :
    ReadsNode extent (funcDecl rules) .plain fun item => .decl (.func item) := by
  intro cursor item after valid outcome
  simp [funcDecl] at outcome
  obtain ⟨isFunc, outcome⟩ := outcome
  have keyword := valid.passes_next (by simp [isFunc])
  obtain ⟨-, recv, opened, recvOutcome, name, middle, nameOutcome, -, type, last, typeOutcome,
    outcome⟩ | ⟨-, name, middle, nameOutcome, -, type, last, typeOutcome, outcome⟩ := outcome
  · have recvRead := parameters_reads reading keyword.valid recvOutcome
    have nameRead := ident_reads recvRead.valid nameOutcome
    exact funcTail_reads reading (some recv) valid isFunc nameRead.valid
      (recvRead.row.append nameRead.row).row typeOutcome outcome
  · have nameRead := ident_reads keyword.valid nameOutcome
    exact funcTail_reads reading none valid isFunc nameRead.valid
      nameRead.row.row typeOutcome outcome

theorem declaration_reads (reading : rules.Reading extent) :
    ReadsNode extent (declaration rules) .plain .decl := by
  intro cursor item after valid outcome
  simp only [declaration, bind_eq_ok, token_eq_ok] at outcome
  obtain ⟨tok, current, ⟨-, currentEq⟩, outcome⟩ := outcome
  subst current
  split at outcome
  case h_2 | h_3 =>
    simp at outcome
    obtain ⟨decl, declOutcome, rfl⟩ := outcome
    exact genDecl_reads (by decide) (valueSpec_reads reading _) valid declOutcome
  case h_4 =>
    simp at outcome
    obtain ⟨decl, declOutcome, rfl⟩ := outcome
    exact genDecl_reads (by decide) (typeSpec_reads reading) valid declOutcome
  case h_5 =>
    simp at outcome
    obtain ⟨decl, declOutcome, rfl⟩ := outcome
    exact funcDecl_reads reading valid declOutcome
  all_goals exact absurd outcome fail_ne_ok

/-- The parts of a file. -/
def fileParts (content : Ident × List Decl) : List (Role × Node) :=
  (.plain, .ident content.1) :: content.2.map fun item => (.plain, .decl item)

theorem fileContent_reads (reading : rules.Reading extent) :
    ReadsParts extent (fileContent rules) fileParts := by
  intro cursor content after valid outcome
  simp [fileContent] at outcome
  obtain ⟨isPackage, package, middle, packageOutcome, -, _, begun, endOutcome, imports, last,
    importsOutcome, decls, declsOutcome, rfl⟩ := outcome
  have keyword := valid.passes_next (by simp [isPackage])
  have packageRead := ident_reads keyword.valid packageOutcome
  have endRead := expectEnd_reads packageRead.valid endOutcome
  have importReads : ReadsNode extent (genDecl .kwImport importSpec) .plain
      fun item => .decl (.gen item) := genDecl_reads (by decide) importSpec_reads
  have importsRead := manyWhile_readsNodes (mapToken_reads _) importReads endRead.valid importsOutcome
  have declsRead := manyWhile_readsNodes (mapToken_reads _) (declaration_reads reading)
    importsRead.valid declsOutcome
  have read := (packageRead.row.append endRead).append (importsRead.append declsRead)
  simpa [fileParts, Function.comp_def] using read.skip keyword

end Parse

namespace Rules

theorem Reading.unroll (reading : rules.Reading extent) : rules.unroll.Reading extent where
  binary := Parse.binaryExpr_reads reading
  unary := Parse.unaryExpr_reads reading
  element := Parse.elementValue_reads reading
  type := Parse.typeExpr_reads reading
  block := Parse.blockStmt_reads reading
  stmt := Parse.statement_reads reading
  ifStmt := Parse.ifStmt_reads reading

/-- The productions read in order, however often they are unrolled. -/
theorem ofDepth_reading (extent : Extent) (depth : Nat) : (ofDepth depth).Reading extent := by
  induction depth with
  | zero => exact exhausted_reading extent
  | succ depth ih => exact ih.unroll

end Rules

theorem FileSet.nextBase_pos (set : FileSet) : 0 < set.nextBase := by
  unfold nextBase
  split <;> omega

namespace File

/-- A file that was read is sound and clear, and drawn from the lexemes of its text. -/
theorem ofText_sound {source : SourceFile} {text : String} {file : File}
    (positive : 0 < source.base) (sizeEq : source.size = text.length)
    (outcome : ofText source text = .ok file) :
    Sound .plain (.file file) ∧ file.span = ⟨source.base, source.stop + 1⟩ ∧
      (Node.file file).Clear ∧ ∃ scan, Scan.ofText source.base text = .ok scan ∧
        (Node.file file).Drawn scan.lexemes ∧ file.comments = scan.comments := by
  unfold ofText at outcome
  split at outcome
  · cases outcome
  rename_i scan scanOutcome
  have lined := Scan.ofText_lined scanOutcome
  rw [← sizeEq] at lined
  cases scanned : ofScan source scan with
  | error fault => simp [scanned, Except.mapError] at outcome
  | ok parsed =>
      obtain rfl : parsed = file := by simpa [scanned, Except.mapError] using outcome
      unfold ofScan at scanned
      split at scanned
      · cases scanned
      rename_i first rest lexemesEq
      rw [lexemesEq] at lined
      simp only at scanned
      split at scanned
      · cases scanned
      rename_i package decls after contentOutcome
      obtain rfl := Except.ok.inj scanned
      have stopEq : source.stop = source.base + source.size := rfl
      have valid : Cursor.Valid ⟨source.stop + 1, scan.lexemes⟩
          { current := first, ahead := rest, prevStop := source.base } :=
        ⟨by simp only; lia, by simp only; lia, lexemesEq ▸ lined⟩
      have read := Parse.fileContent_reads (Rules.ofDepth_reading _ _) valid contentOutcome
      have row := read.row.mono (Int.le_refl _) read.valid.prevStop_le
      have placed : Placed ⟨source.stop + 1, scan.lexemes⟩ source.base (source.stop + 1) .plain
          (.file ⟨⟨source.base, source.stop + 1⟩, source.name, package, decls, scan.comments⟩) := by
        refine .of_row (Int.le_refl _) (Int.le_refl _) rfl (by simp only [Node.span]; lia) rfl
          (List.cons_ne_nil _ _) ?_
        simpa [Parse.fileParts, Node.parts, Node.children, Node.span, Function.comp_def] using row
      exact ⟨placed.sound, rfl, placed.clear, scan, scanOutcome, placed.drawn, rfl⟩

end File

end GoMend
