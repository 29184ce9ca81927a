import GoMend.Check.Labels
import GoMend.Check.State

/-!
# The scope check of a package

Every name is resolved through the local scopes, the file, the package and the predeclared names.
No types are computed: names after a selector are not resolved, and a bare key of a literal may
be the name of a field.
-/

namespace GoMend

namespace Check

mutual

/-- Check an expression.  A target of an assignment is not read, but what it consists of is. -/
def expr (isTarget : Bool) : Expr → Check Unit
  | .ident name => if isTarget then assignTo name else use name
  | .lit _ => return
  | .selector _ operand _ =>
      match operand with
      | .ident name => do
          if name.isBlank then
            use name
          else
            let _ ← resolve name
      | other => expr false other
  | .composite _ type elems => do
      option type
      elements elems
  | .funcLit _ type body =>
      inScope "function" do
        signatureTypes type
        declareParams (type.params :: type.results.toList)
        withLabels body.labels (block body)
  | .funcType type => signatureTypes type
  | .structType _ fields => fieldTypes fields
  | .interfaceType _ methods => fieldTypes methods
  | .ellipsis _ elem => option elem
  | .paren _ inner => expr isTarget inner
  | .index _ operand index => do
      expr false operand
      expr false index
  | .slice _ operand low high max _ => do
      expr false operand
      option low
      option high
      option max
  | .typeAssert _ operand type => do
      expr false operand
      option type
  | .call _ callee args _ => do
      expr false callee
      exprs false args
  | .star _ operand => expr false operand
  | .unary _ _ operand => expr false operand
  | .binary _ left _ right => do
      expr false left
      expr false right
  | .keyValue _ key value => do
      expr false key
      expr false value
  | .arrayType _ length elem => do
      option length
      expr false elem
  | .mapType _ key value => do
      expr false key
      expr false value
  | .chanType _ _ elem => expr false elem
termination_by structural value => value

/-- Check an expression that may be missing. -/
def option : Option Expr → Check Unit
  | none => return
  | some value => expr false value
termination_by structural value => value

/-- Check expressions. -/
def exprs (areTargets : Bool) : List Expr → Check Unit
  | [] => return
  | value :: rest => do
      expr areTargets value
      exprs areTargets rest
termination_by structural values => values

/-- Check the elements of a composite literal. -/
def elements : List Expr → Check Unit
  | [] => return
  | elem :: rest => do
      match elem with
      | .keyValue _ key value =>
          match key with
          | .ident name => useKey name
          | other => expr false other
          expr false value
      | other => expr false other
      elements rest
termination_by structural elems => elems

/-- Check the types of parameters and results. -/
def signatureTypes : FuncType → Check Unit
  | ⟨_, params, results⟩ => do
      fieldTypes params
      match results with
      | none => return
      | some results => fieldTypes results
termination_by structural type => type

/-- Check the types of fields. -/
def fieldTypes : FieldList → Check Unit
  | ⟨_, fields⟩ => fieldListTypes fields
termination_by structural list => list

/-- Check the types of fields one after the other. -/
def fieldListTypes : List Field → Check Unit
  | [] => return
  | ⟨_, _, type, _⟩ :: rest => do
      expr false type
      fieldListTypes rest
termination_by structural fields => fields

/-- Check the statements of a block in the scope that is there. -/
def block : Block → Check Unit
  | ⟨_, steps⟩ => stmts steps
termination_by structural body => body

/-- Check statements. -/
def stmts : List Stmt → Check Unit
  | [] => return
  | step :: rest => do
      stmt step
      stmts rest
termination_by structural steps => steps

/-- Check a statement that may be missing. -/
def stmtOption : Option Stmt → Check Unit
  | none => return
  | some step => stmt step
termination_by structural step => step

/-- Check the clauses of a `switch`.  The variable of a type switch is declared in each of them. -/
def caseClauses (symbol : Option Object) : List Stmt → Check Unit
  | [] => return
  | clause :: rest => do
      match clause with
      | .caseClause _ values body _ =>
          match values with
          | none => pure ()
          | some values => exprs false values
          inScope "case" do
            match symbol with
            | none => pure ()
            | some object =>
                let _ ← insert object
            stmts body
      | _ => throw .wrongClause
      caseClauses symbol rest
termination_by structural clauses => clauses

/-- Check the body of a `switch`. -/
def caseBlock (symbol : Option Object) : Block → Check Unit
  | ⟨_, clauses⟩ => caseClauses symbol clauses
termination_by structural body => body

/-- Check the clauses of a `select`. -/
def commClauses : List Stmt → Check Unit
  | [] => return
  | clause :: rest => do
      match clause with
      | .commClause _ comm body _ =>
          inScope "case" do
            stmtOption comm
            stmts body
      | _ => throw .wrongClause
      commClauses rest
termination_by structural clauses => clauses

/-- Check the body of a `select`. -/
def commBlock : Block → Check Unit
  | ⟨_, clauses⟩ => commClauses clauses
termination_by structural body => body

/-- Check a declaration inside a function.  A variable is known after its values, and a type
already in its own definition. -/
def localSpecs (tok : Token) : List Spec → Check Unit
  | [] => return
  | item :: rest => do
      match item with
      | .importSpec _ => pure ()
      | .valueSpec _ names type values =>
          option type
          exprs false values
          names.forM fun name => do
            if tok = .kwVar then
              declareLocal name
            else
              let _ ← declare name .const
      | .typeSpec _ name type _ =>
          let _ ← declare name .type
          expr false type
      localSpecs tok rest
termination_by structural items => items

/-- Check a declaration inside a function. -/
def localDecl : GenDecl → Check Unit
  | ⟨_, tok, specs, _⟩ => localSpecs tok specs
termination_by structural decl => decl

/-- Check a statement. -/
def stmt : Stmt → Check Unit
  | .expr _ value => expr false value
  | .send _ channel value => do
      expr false channel
      expr false value
  | .incDec _ operand _ => expr false operand
  | .assign _ lhs tok rhs tokPos => do
      if tok = .define then
        exprs false rhs
        define lhs tokPos
      else if tok = .assign then
        exprs false rhs
        exprs true lhs
      else
        exprs false lhs
        exprs false rhs
  | .go _ call => expr false call
  | .defer _ call => expr false call
  | .ret _ results => exprs false results
  | .branch _ _ label =>
      match label with
      | none => return
      | some label => useLabel label
  | .block body => inScope "block" (block body)
  | .labeled _ _ inner => stmt inner
  | .decl _ item => localDecl item
  | .ifElse _ init cond body otherwise =>
      inScope "if" do
        stmtOption init
        expr false cond
        inScope "block" (block body)
        stmtOption otherwise
  | .switch _ init tag body =>
      inScope "switch" do
        stmtOption init
        option tag
        caseBlock none body
  | .typeSwitch _ init guard body =>
      inScope "switch" do
        stmtOption init
        let symbol ←
          match guard with
          | .assign _ lhs _ rhs tokPos => do
              exprs false rhs
              match lhs with
              | [] => throw .missingTarget
              | .ident name :: _ =>
                  if name.isBlank then
                    report tokPos .noNewVariable
                    pure none
                  else
                    let object ← newObject name.name .var name.span.start
                    modify fun state => { state with locals := object :: state.locals }
                    pure (some object)
              | _ :: _ =>
                  report tokPos .noNewVariable
                  pure none
          | other => do
              stmt other
              pure none
        caseBlock symbol body
  | .select _ body => commBlock body
  | .loop _ init cond post body =>
      inScope "for" do
        stmtOption init
        option cond
        stmtOption post
        match body with
        | none => return
        | some body => inScope "block" (block body)
  | .range _ key value tok operand body tokPos => do
      expr false operand
      inScope "range" do
        if tok = some .define then
          define (key.toList ++ value.toList) tokPos
        else if tok = some .assign then
          target key
          target value
        match body with
        | none => return
        | some body => inScope "block" (block body)
  | .empty _ => return
  | .caseClause .. => throw (.notAStatement "CaseClause")
  | .commClause .. => throw (.notAStatement "CommClause")
termination_by structural step => step

/-- Check a target of an assignment that may be missing. -/
def target : Option Expr → Check Unit
  | none => return
  | some value => expr true value
termination_by structural value => value

end

/-! ### Files and packages -/

/-- Declare the names of an item at the top of a file. -/
def collectSpec (tok : Token) : Spec → Check Unit
  | .importSpec _ => return
  | .valueSpec _ names _ _ =>
      names.forM fun name => do
        let _ ← declare name (if tok = .kwConst then .const else .var)
  | .typeSpec _ name _ _ => do
      let _ ← declare name .type

/-- Declare the names of a declaration at the top of a file.  Methods and `init` have none. -/
def collectDecl : Decl → Check Unit
  | .func decl => do
      if decl.recv.isNone && decl.name.name ≠ "init" then
        let _ ← declare decl.name .func
  | .gen decl => decl.specs.forM (collectSpec decl.tok)

/-- The name that an import binds.  A blank one binds none, and neither does one of an empty name
or one that brings in the names of its package. -/
def boundName? (packageName : String → String) (spec : ImportSpec) : Option String :=
  match spec.name with
  | some name => if name.name = "." || name.isBlank then none else some name.name
  | none =>
      let name := packageName spec.plainPath
      if name.isEmpty then none else some name

/-- Declare an import in the scope of its file. -/
def importName (packageName : String → String) (spec : ImportSpec) : Check Unit := do
  if spec.name.any (·.name = ".") then
    modify fun state => { state with lenient := true }
  match boundName? packageName spec with
  | none => return
  | some name =>
      let object ← newObject name .package spec.span.start
      if !(← insert object) then
        report spec.span.start (.redeclared name)
      modify fun state => { state with imports := ⟨object, spec⟩ :: state.imports }

/-- Check an item at the top of a file. -/
def topSpec : Spec → Check Unit
  | .importSpec _ => return
  | .valueSpec _ _ type values => do
      option type
      exprs false values
  | .typeSpec _ _ type _ => expr false type

/-- Check a function. -/
def funcDecl (decl : FuncDecl) : Check Unit :=
  inScope "function" do
    decl.recv.forM fieldTypes
    signatureTypes decl.type
    declareParams (decl.recv.toList ++ decl.type.params :: decl.type.results.toList)
    match decl.body with
    | none => return
    | some body => withLabels body.labels (block body)

/-- Check a declaration at the top of a file. -/
def topDecl : Decl → Check Unit
  | .func decl => funcDecl decl
  | .gen decl => decl.specs.forM topSpec

/-- Check a file. -/
def file (packageName : String → String) (source : File) : Check Unit :=
  inScope "file" do
    modify fun state => { state with lenient := false }
    source.imports.forM (importName packageName)
    source.decls.forM topDecl

/-- Check the files of a package: first all names of the package are declared. -/
def package (packageName : String → String) (files : List File) : Check Unit := do
  files.forM fun source => source.decls.forM collectDecl
  files.forM (file packageName)

end Check

namespace CheckState

/-- The variables that have not been read. -/
def unusedLocals (state : CheckState) : List (Finding × Pos) :=
  (state.locals.reverse.filter fun object => !state.used.contains object.id).map
    fun object => (.unusedVariable object.name, object.pos)

/-- The finding of an import that has not been read. -/
def unusedImport (entry : ImportedName) : Finding :=
  match entry.spec.name with
  | none => .unusedImport entry.spec.path.value
  | some _ => .unusedNamedImport entry.spec.path.value entry.object.name

/-- The imports that have not been read. -/
def unusedImports (state : CheckState) : List (Finding × Pos) :=
  (state.imports.reverse.filter fun entry => !state.used.contains entry.object.id).map
    fun entry => (unusedImport entry, entry.spec.span.start)

/-- Everything that has been found, at the end what has not been read. -/
def findings (state : CheckState) : List (Finding × Pos) :=
  state.found.reverse ++ state.unusedLocals ++ state.unusedImports

end CheckState

/-- The findings of a package, given the package names of import paths. -/
def packageFindings (packageName : String → String) (files : List File) :
    Except CheckError (List (Finding × Pos)) := do
  let ((), state) ← (Check.package packageName files).run {}
  return state.findings

/-- The diagnostics of a package by position. -/
def checkPackage (packageName : String → String) (files : List File) :
    Except CheckError (List Diagnostic) := do
  let findings ← packageFindings packageName files
  return Diagnostic.sorted (findings.map fun (finding, pos) => finding.diagnostic pos)

end GoMend
