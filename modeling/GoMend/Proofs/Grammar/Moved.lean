import GoMend.Proofs.Grammar.Elsewhere
import GoMend.Proofs.Lexeme.Lined

/-!
# Texts that are read from another base

The position from which a text is read is added to all positions of its tree.  So the same text that
is read from another base has the same tree at other positions.
-/

namespace GoMend

open Relocatable (relocate)

/-- Positions of a range are replaced by those so much further on. -/
def Shifts (place : Pos → Pos) (low high : Pos) (distance : Int) : Prop :=
  ∀ pos, low ≤ pos → pos ≤ high → place pos = pos + distance

theorem Shifts.mono {place : Pos → Pos} {low low' high high' : Pos} {distance : Int}
    (shifts : Shifts place low high distance) (lowLe : low ≤ low') (leHigh : high' ≤ high) :
    Shifts place low' high' distance :=
  fun pos lowLePos posLe => shifts pos (Int.le_trans lowLe lowLePos) (Int.le_trans posLe leHigh)

variable {place : Pos → Pos} {distance : Int}

/-! ### Pieces and lexemes -/

/-- The pieces of a text are the same wherever it begins. -/
theorem Piece.ofChars_add {pos : Pos} {chars : List Char} {pieces : List (Pos × Piece)}
    (outcome : ofChars pos chars = .ok pieces) (distance : Int) :
    ofChars (pos + distance) chars =
      .ok (pieces.map fun entry => (entry.1 + distance, entry.2)) := by
  fun_induction ofChars pos chars generalizing pieces with
  | case1 =>
      obtain rfl := Except.ok.inj outcome
      rw [ofChars]
      rfl
  | case2 => cases outcome
  | case3 => cases outcome
  | case4 pos first rest piece readOutcome length later laterOutcome =>
      rename_i ih
      obtain rfl := Except.ok.inj outcome
      have next := ih laterOutcome
      have startEq : pos + distance + ((length - 1 : Nat) : Int) + 1 =
          pos + ((length - 1 : Nat) : Int) + 1 + distance := by
        lia
      rw [ofChars, readOutcome]
      simp only
      rw [startEq, next]
      rfl

/-- A scan at another place. -/
def Scan.relocated (place : Pos → Pos) (scan : Scan) : Scan :=
  ⟨scan.lexemes.map (Lexeme.relocated place), scan.comments.map (Comment.relocated place)⟩

theorem Scan.semicolonAfter_relocated (last : Option Token) (pos : Pos) :
    (semicolonAfter last pos).map (Lexeme.relocated place) = semicolonAfter last (place pos) := by
  unfold semicolonAfter
  split <;> rfl

/-- Pieces that follow each other are lexemes at the place to which they were moved. -/
theorem Scan.ofPieces_add {stop pos : Pos} {last : Option Token} {pieces : List (Pos × Piece)}
    (tiles : Piece.Tiles stop pos pieces) (shifts : Shifts place pos stop distance) :
    ofPieces (stop + distance) last (pieces.map fun entry => (entry.1 + distance, entry.2)) =
      (ofPieces stop last pieces).relocated place := by
  induction pieces generalizing pos last with
  | nil =>
      have stopEq := shifts stop (Int.le_of_eq tiles) (Int.le_refl _)
      simp only [List.map_nil, ofPieces, relocated, List.map_append, semicolonAfter_relocated, stopEq,
        List.map_cons, Lexeme.relocated]
  | cons entry pieces ih =>
      obtain ⟨start, piece⟩ := entry
      obtain ⟨rfl, solid, rest⟩ := tiles
      have positive := solid.positive
      have restLe := rest.le
      have startEq := shifts start (Int.le_refl _) (by lia)
      have later (last : Option Token) := @ih _ last rest (shifts.mono (by lia) (Int.le_refl _))
      cases piece with
      | blank char => exact later last
      | lineEnd =>
          simp only [List.map_cons, ofPieces, later, relocated, List.map_append,
            semicolonAfter_relocated, startEq]
      | comment chars =>
          have stopEq := shifts (start + chars.length) (by lia) restLe
          have spanEq : start + distance + (chars.length : Int) = start + chars.length + distance := by
            lia
          simp only [List.map_cons, ofPieces, later, relocated]
          split <;>
            simp only [List.map_append, semicolonAfter_relocated, List.map_cons, Comment.relocated,
              Span.relocated, startEq, stopEq, spanEq]
      | lexeme token chars =>
          simp only [List.map_cons, ofPieces, later, relocated, Lexeme.relocated, startEq]

/-- Pieces stay what they are when their positions do. -/
theorem Scan.ofPieces_relocated_self {place : Pos → Pos} {stop pos : Pos} {pieces : List (Pos × Piece)}
    (last : Option Token) (tiles : Piece.Tiles stop pos pieces) (shifts : Shifts place pos stop 0) :
    (ofPieces stop last pieces).relocated place = ofPieces stop last pieces := by
  have same := @ofPieces_add _ _ _ _ last _ tiles shifts
  simpa using same.symm

/-- A lexeme whose positions are all moved by the same distance stays in one piece. -/
theorem Lexeme.keptBy {low high : Pos} {lexeme : Lexeme} (shifts : Shifts place low high distance)
    (lowLe : low ≤ lexeme.pos) (leHigh : lexeme.stop ≤ high)
    (ellipsis : lexeme.token = .ellipsis → 3 ≤ lexeme.text.length)
    (period : lexeme.token = .period → 1 ≤ lexeme.text.length) : lexeme.KeptBy place := by
  have stopEq : lexeme.stop = lexeme.pos + lexeme.text.length := rfl
  have inside (length : Nat) (le : length ≤ lexeme.text.length) :
      place (lexeme.pos + length) = place lexeme.pos + length := by
    rw [shifts (lexeme.pos + length) (by lia) (by lia), shifts lexeme.pos lowLe (by lia)]
    lia
  exact ⟨inside _ (Nat.le_refl _), fun isEllipsis => inside 3 (ellipsis isEllipsis),
    fun isPeriod => inside 1 (period isPeriod)⟩

/-- A semicolon for which a line end stands stays in one piece, unless the text ends there. -/
theorem Scan.allKept_semicolonAfter {pos : Pos} {lexemes : List Lexeme} (last : Option Token)
    (isKept : (∀ next ∈ lexemes.head?, next.token ≠ .endOfFile) → Shifts place pos (pos + 1) distance)
    (kept : Lexeme.AllKept place lexemes) :
    Lexeme.AllKept place (semicolonAfter last pos ++ lexemes) := by
  unfold semicolonAfter
  split
  · refine ⟨fun notLast => ?_, kept⟩
    have lengthEq : "\n".length = 1 := by decide
    exact Lexeme.keptBy (isKept (notLast rfl)) (Int.le_refl _) (by simp [Lexeme.stop, lengthEq])
      (fun isEllipsis => by cases isEllipsis) (fun isPeriod => by cases isPeriod)
  · exact kept

/-- The lexemes of pieces that follow each other stay in one piece. -/
theorem Scan.ofPieces_allKept {stop pos : Pos} {last : Option Token} {pieces : List (Pos × Piece)}
    (tiles : Piece.Tiles stop pos pieces) (shifts : Shifts place pos stop distance) :
    Lexeme.AllKept place (ofPieces stop last pieces).lexemes := by
  induction pieces generalizing pos last with
  | nil =>
      have atEnd : Lexeme.AllKept place [⟨.endOfFile, "", stop⟩] := ⟨fun _ => .ofEnd stop, trivial⟩
      have notLast (notLast : ∀ next ∈ [(⟨.endOfFile, "", stop⟩ : Lexeme)].head?,
          next.token ≠ .endOfFile) : Shifts place stop (stop + 1) distance :=
        absurd rfl (notLast _ rfl)
      exact allKept_semicolonAfter last notLast atEnd
  | cons entry pieces ih =>
      obtain ⟨start, piece⟩ := entry
      obtain ⟨rfl, solid, rest⟩ := tiles
      have positive := solid.positive
      have restLe := rest.le
      have later (last : Option Token) := @ih _ last rest (shifts.mono (by lia) (Int.le_refl _))
      have short : Shifts place start (start + 1) distance := shifts.mono (Int.le_refl _) (by lia)
      cases piece with
      | blank char => exact later last
      | lineEnd => exact allKept_semicolonAfter last (fun _ => short) (later _)
      | comment chars =>
          simp only [ofPieces]
          split
          · exact allKept_semicolonAfter last (fun _ => short) (later _)
          · exact later last
      | lexeme token chars =>
          simp only [Piece.chars] at positive restLe
          refine ⟨fun _ => Lexeme.keptBy shifts (Int.le_refl _) ?_ ?_ ?_, later _⟩
          · simp only [Lexeme.stop, String.length_ofList]
            lia
          · intro isEllipsis
            simp only at isEllipsis
            simpa using solid.ellipsis chars (by rw [isEllipsis])
          · intro _
            simpa using Nat.succ_le_of_lt positive

/-- The first lexeme of pieces stands before all others, which are those of the pieces behind it. -/
theorem Scan.ofPieces_first {stop pos : Pos} {pieces : List (Pos × Piece)} {first : Lexeme}
    {others : List Lexeme} (tiles : Piece.Tiles stop pos pieces)
    (lexemesEq : (ofPieces stop none pieces).lexemes = first :: others) :
    others = [] ∨ pos ≤ first.pos ∧ first.pos < first.stop ∧
      ∃ behind, Piece.Tiles stop first.stop behind ∧
        others = (ofPieces stop (some first.token) behind).lexemes := by
  induction pieces generalizing pos with
  | nil =>
      simp only [ofPieces, semicolonAfter, Option.any_none, Bool.false_eq_true, if_false,
        List.nil_append, List.cons.injEq] at lexemesEq
      exact .inl lexemesEq.2.symm
  | cons entry pieces ih =>
      obtain ⟨start, piece⟩ := entry
      obtain ⟨rfl, solid, rest⟩ := tiles
      have positive := solid.positive
      have startLe : start ≤ start + piece.chars.length := by lia
      have later (lexemesEq : (ofPieces stop none pieces).lexemes = first :: others) :=
        (ih rest lexemesEq).imp_right (And.imp_left (Int.le_trans startLe))
      cases piece with
      | blank char => exact later lexemesEq
      | lineEnd => exact later lexemesEq
      | comment chars =>
          simp only [ofPieces] at lexemesEq
          split at lexemesEq
          · exact later lexemesEq
          · exact later lexemesEq
      | lexeme token chars =>
          obtain ⟨rfl, rfl⟩ := List.cons.inj lexemesEq
          have stopEq : Lexeme.stop ⟨token, String.ofList chars, start⟩ = start + chars.length := by
            simp [Lexeme.stop]
          simp only [Piece.chars] at positive rest
          refine .inr ⟨Int.le_refl _, ?_, pieces, ?_, rfl⟩
          · rw [stopEq]
            simp only
            lia
          · rw [stopEq]
            exact rest

/-- The pieces of a text stand one behind the other. -/
theorem Scan.exists_pieces {base : Nat} {text : String} {scan : Scan}
    (outcome : ofText base text = .ok scan) :
    ∃ pieces, Piece.ofChars base text.toList = .ok pieces ∧
      Piece.Tiles (base + text.length : Nat) base pieces ∧
      scan = ofPieces (base + text.length : Nat) none pieces := by
  unfold ofText at outcome
  split at outcome
  · cases outcome
  · rename_i pieces piecesOutcome
    obtain rfl := Except.ok.inj outcome
    have tiles := Piece.ofChars_tiles piecesOutcome
    rw [String.length_toList, ← Int.natCast_add] at tiles
    exact ⟨pieces, piecesOutcome, tiles, rfl⟩

/-- The lexemes and comments of a text that begins elsewhere. -/
theorem Scan.ofText_relocated {base other : Nat} {text : String} {scan : Scan}
    (shifts : Shifts place base (base + text.length : Nat) (other - base))
    (outcome : ofText base text = .ok scan) : ofText other text = .ok (scan.relocated place) := by
  obtain ⟨pieces, piecesOutcome, tiles, rfl⟩ := exists_pieces outcome
  have moved := Piece.ofChars_add piecesOutcome (other - base)
  have baseEq : (base : Int) + (other - base) = other := by lia
  have otherEq : ((base + text.length : Nat) : Int) + (other - base) = (other + text.length : Nat) := by
    lia
  rw [baseEq] at moved
  rw [ofText, moved]
  simp only
  rw [← otherEq]
  exact congrArg Except.ok (ofPieces_add tiles shifts)

/-! ### Files -/

/-- The range that a position has to keep, from which the missing position is left out. -/
def clamp (low high pos : Pos) : Pos :=
  if pos = noPos then noPos else max low (min pos high)

theorem shifts_clamp {low : Pos} (positive : 0 < low) (high : Pos) :
    Shifts (clamp low high) low high 0 := by
  intro pos lowLe leHigh
  have present : pos ≠ noPos := by
    rw [noPos]
    lia
  rw [clamp, if_neg present]
  lia

theorem clamp_noPos (low high : Pos) : clamp low high noPos = noPos :=
  if_pos rfl

theorem keepsAbsence_clamp {low : Pos} (positive : 0 < low) (high : Pos) :
    Parse.KeepsAbsence (clamp low high) where
  absent := clamp_noPos low high
  of_absent pos isAbsent := by
    unfold clamp at isAbsent
    split at isAbsent
    · assumption
    · rw [noPos] at isAbsent
      lia

namespace File

/-- What the tree of a text consists of. -/
theorem exists_content {source : SourceFile} {text : String} {file : File}
    (sizeEq : source.size = text.length) (outcome : ofText source text = .ok file) :
    ∃ pieces first rest content after, Piece.Tiles source.stop source.base pieces ∧
      Scan.ofText source.base text = .ok (.ofPieces source.stop none pieces) ∧
      (Scan.ofPieces source.stop none pieces).lexemes = first :: rest ∧
      Parse.fileContent (Rules.ofDepth (unrollDepth (rest.length + 1)))
        { current := first, ahead := rest, prevStop := source.base } = .ok (content, after) ∧
      file = ⟨⟨source.base, source.stop + 1⟩, source.name, content.1, content.2,
        (Scan.ofPieces source.stop none pieces).comments⟩ := by
  have stopEq : (source.stop : Int) = (source.base + text.length : Nat) := by
    rw [SourceFile.stop, sizeEq]
  unfold ofText at outcome
  split at outcome
  · cases outcome
  rename_i scan scanOutcome
  obtain ⟨pieces, -, tiles, rfl⟩ := Scan.exists_pieces scanOutcome
  rw [← stopEq] at scanOutcome tiles outcome
  cases scanned : ofScan source (.ofPieces source.stop none pieces) with
  | error fault => simp [scanned, Except.mapError] at outcome
  | ok parsed =>
      obtain rfl : parsed = file := by simpa [scanned, Except.mapError] using outcome
      unfold ofScan at scanned
      split at scanned
      · cases scanned
      rename_i first rest lexemesEq
      simp only at scanned
      split at scanned
      · cases scanned
      rename_i package decls after contentOutcome
      obtain rfl := Except.ok.inj scanned
      rw [lexemesEq] at contentOutcome
      exact ⟨pieces, first, rest, (package, decls), after, tiles, scanOutcome, lexemesEq,
        contentOutcome, rfl⟩

/-- A text that is read from another base has the same tree at other positions. -/
theorem ofText_relocated {source other : SourceFile} {text : String} {file : File}
    (keeps : Parse.KeepsAbsence place) (sizeEq : source.size = text.length)
    (sizeEq' : other.size = text.length) (nameEq : other.name = source.name)
    (shifts : Shifts place source.base source.stop (other.base - source.base))
    (outcome : ofText source text = .ok file) :
    ofText other text = .ok (file.relocated place) := by
  have stopEq : source.stop = source.base + text.length := by rw [SourceFile.stop, sizeEq]
  have stopEq' : other.stop = other.base + text.length := by rw [SourceFile.stop, sizeEq']
  have baseEq : place source.base = other.base := by
    rw [shifts source.base (Int.le_refl _) (by lia)]
    lia
  have endEq : place (source.stop : Int) = other.stop := by
    rw [shifts source.stop (by lia) (by lia)]
    lia
  obtain ⟨pieces, first, rest, content, after, tiles, scanOutcome, lexemesEq, contentOutcome, rfl⟩ :=
    exists_content sizeEq outcome
  have movedScan := Scan.ofText_relocated (stopEq ▸ shifts) scanOutcome
  have kept := @Scan.ofPieces_allKept _ _ _ _ none _ tiles shifts
  rw [lexemesEq] at kept
  obtain ⟨isPackage, -⟩ := Parse.fileContent_begins contentOutcome
  have notSemicolon : first.token ≠ .semicolon := by
    rw [isPackage]
    decide
  have stopKept : (first.relocated place).stop = place first.stop :=
    (kept.1 fun isSemicolon => absurd isSemicolon notSemicolon).stop.symm
  have tokenEq : (first.relocated place).token = first.token := rfl
  have rules := Rules.ofDepth_relocate keeps (unrollDepth (rest.length + 1))
  obtain ⟨after', moved⟩ := @Parse.fileContent_moved _ _ rules _ _ _ _ (other.base : Int) _ _ kept.2
    tokenEq stopKept contentOutcome
  have movedLexemes : (Scan.relocated place (.ofPieces source.stop none pieces)).lexemes =
      first.relocated place :: rest.map (Lexeme.relocated place) := by
    rw [Scan.relocated, lexemesEq, List.map_cons]
  have ofScanEq : ofScan other (.relocated place (.ofPieces source.stop none pieces)) =
      .ok (relocated place ⟨⟨source.base, source.stop + 1⟩, source.name, content.1, content.2,
        (Scan.ofPieces source.stop none pieces).comments⟩) := by
    have spanEq : (⟨other.base, other.stop + 1⟩ : Span) =
        ⟨place source.base, place ((source.stop : Int) + 1 - 1) + 1⟩ := by
      rw [Int.add_sub_cancel, baseEq, endEq]
    unfold ofScan
    simp only [movedLexemes, List.length_cons, List.length_map, StateT.run, moved]
    rw [relocated, spanEq, nameEq]
    rfl
  rw [ofText, movedScan]
  simp only [ofScanEq, Except.mapError]

/-- The positions of a file are missing or lie in its range, and those of its nodes behind the
beginning of it. -/
structure IsSettled (file : File) : Prop where
  begins : 0 < file.span.start
  hasRoom : file.span.start + 1 ≤ file.span.stop - 1
  package : file.package.relocated (clamp (file.span.start + 1) (file.span.stop - 1)) = file.package
  decls : file.decls.map (Decl.relocated (clamp (file.span.start + 1) (file.span.stop - 1))) = file.decls
  comments : file.comments.map (Comment.relocated (clamp file.span.start (file.span.stop - 1))) =
    file.comments

/-- A file that was read is settled. -/
theorem isSettled_of_ofText {source : SourceFile} {text : String} {file : File}
    (positive : 0 < source.base) (sizeEq : source.size = text.length)
    (outcome : ofText source text = .ok file) : file.IsSettled := by
  obtain ⟨pieces, first, rest, content, after, tiles, -, lexemesEq, contentOutcome, rfl⟩ :=
    exists_content sizeEq outcome
  obtain ⟨-, hasRest⟩ := Parse.fileContent_begins contentOutcome
  obtain noRest | ⟨baseLe, shorter, behind, behindTiles, restEq⟩ := Scan.ofPieces_first tiles lexemesEq
  · exact absurd noRest hasRest
  have stopEq : (source.stop : Int) + 1 - 1 = source.stop := by lia
  have nodeShifts := @shifts_clamp (source.base + 1) (by lia) source.stop
  have behindShifts : Shifts (clamp (source.base + 1) source.stop) first.stop source.stop 0 :=
    nodeShifts.mono (by lia) (Int.le_refl _)
  have behindKept := @Scan.ofPieces_allKept _ _ _ _ (some first.token) _ behindTiles behindShifts
  have behindSame := congrArg Scan.lexemes
    (Scan.ofPieces_relocated_self (some first.token) behindTiles behindShifts)
  rw [Scan.relocated] at behindSame
  simp only [← restEq] at behindKept behindSame
  have stopKept : first.stop = clamp (source.base + 1) source.stop first.stop := by
    rw [nodeShifts first.stop (by lia) behindTiles.le]
    lia
  have keeps : Parse.KeepsAbsence (clamp (source.base + 1) source.stop) :=
    keepsAbsence_clamp (by lia) _
  have rules := Rules.ofDepth_relocate keeps (unrollDepth (rest.length + 1))
  obtain ⟨after', moved⟩ := @Parse.fileContent_moved _ _ rules _ _ _ _ (source.base : Int) _ _
    behindKept rfl stopKept contentOutcome
  rw [behindSame, contentOutcome] at moved
  have contentEq := (Prod.mk.inj (Except.ok.inj moved)).1
  have commentsSame := congrArg Scan.comments
    (Scan.ofPieces_relocated_self none tiles (@shifts_clamp source.base (by lia) source.stop))
  have behindLe := behindTiles.le
  refine ⟨by simpa using positive, ?_, ?_, ?_, ?_⟩
  · simp only
    lia
  · simp only [stopEq]
    exact (congrArg Prod.fst contentEq).symm
  · simp only [stopEq]
    exact (congrArg Prod.snd contentEq).symm
  · simp only [stopEq]
    exact commentsSame

end File

end GoMend
