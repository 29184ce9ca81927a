import GoMend.Grammar.Statements
import GoMend.Lexeme.Scan

/-!
# Source files

A file is a package clause, imports, and other declarations.  The productions are unrolled as
often as the number of lexemes calls for.
-/

namespace GoMend

/-- The productions in terms of those to which they refer. -/
def Rules.unroll (rules : Rules) : Rules where
  binary := Parse.binaryExpr rules
  unary := Parse.unaryExpr rules
  element := Parse.elementValue rules
  type := Parse.typeExpr rules
  block := Parse.blockStmt rules
  stmt := Parse.statement rules
  ifStmt := Parse.ifStmt rules

/-- The productions unrolled to a depth. -/
def Rules.ofDepth (depth : Nat) : Rules :=
  depth.repeat unroll exhausted

namespace Parse

/-- A function or a method. -/
def funcDecl (rules : Rules) : Parse FuncDecl := do
  let start ← expect .kwFunc
  let recv ← if (← token) = .leftParen then some <$> parameters rules else pure none
  let name ← ident
  if (← token) = .leftBracket then
    fail .typeParameters
  let type ← funcTypeFrom rules start
  let body ←
    if (← token) = .leftBrace then
      some <$> atLevel 0 rules.block
    else
      pure none
  let stop ← prevStop
  expectEnd
  return ⟨⟨start, stop⟩, recv, name, type, body⟩

/-- A declaration after the imports. -/
def declaration (rules : Rules) : Parse Decl := do
  let tok ← token
  match tok with
  | .kwImport => fail .lateImport
  | .kwConst | .kwVar => .gen <$> genDecl tok (valueSpec rules tok)
  | .kwType => .gen <$> genDecl tok (typeSpec rules)
  | .kwFunc => .func <$> funcDecl rules
  | _ => fail .notADeclaration

/-- The package and the declarations of a file. -/
def fileContent (rules : Rules) : Parse (Ident × List Decl) := do
  let _ ← expect .kwPackage
  let package ← ident
  if package.isBlank then
    failAt package.span.start .blankPackageName
  expectEnd
  let imports ← manyWhile (do return (← token) = .kwImport) (genDecl .kwImport importSpec)
  let decls ← manyWhile (do return (← token) ≠ .endOfFile) (declaration rules)
  return (package, imports.map .gen ++ decls)

end Parse

namespace File

/-- How often the productions are unrolled for a number of lexemes.  No production refers to
another one more than a few times before it takes a lexeme. -/
def unrollDepth (lexemes : Nat) : Nat :=
  8 * (lexemes + 1)

/-- The tree of lexemes that were read from a source file. -/
def ofScan (source : SourceFile) (scan : Scan) : Except Fault File :=
  match scan.lexemes with
  | [] => .error ⟨.nestedTooDeeply, source.base⟩
  | first :: rest =>
      let cursor : Cursor := { current := first, ahead := rest, prevStop := source.base }
      let rules := Rules.ofDepth (unrollDepth scan.lexemes.length)
      match (Parse.fileContent rules).run cursor with
      | .error fault => .error fault
      | .ok ((package, decls), _) =>
          .ok
            { span := ⟨source.base, source.stop + 1⟩
              name := source.name
              package
              decls
              comments := scan.comments }

/-- The tree of a text that is registered as a source file. -/
def ofText (source : SourceFile) (text : String) : Except ParseError File :=
  match Scan.ofText source.base text with
  | .error fault => .error (.ofFault source fault)
  | .ok scan => (ofScan source scan).mapError (.ofFault source)

/-- Add a text to a set of files and read it. -/
def parse (set : FileSet) (name text : String) : FileSet × Except ParseError File :=
  let (extended, source) := set.add name text
  (extended, ofText source text)

end File

end GoMend
