import GoMend.Disk
import GoMend.Text.Integer

/-!
# Options of the command line

Options and paths may stand in any order, and after a double dash everything is a path.  Short
options can be written together after one dash.  The last of several values of an option counts.
-/

namespace GoMend

namespace CommandLine

/-- What the user asks for. -/
structure Options where
  /-- The paths as they were written. -/
  paths : List String := []
  /-- Write the results to the files instead of the standard output. -/
  write : Bool := false
  /-- Take fixes back instead of making them. -/
  revert : Bool := false
  verbose : Bool := false
  maxTries : Option Nat := none
  deriving DecidableEq, Repr

/-- A use of the command line. -/
inductive Command where
  | run (options : Options)
  | version
  | help
  deriving DecidableEq, Repr

/-- What is wrong with the arguments. -/
inductive UsageError where
  | unknownOption (name : String)
  | missingValue (name : String)
  | unexpectedValue (name : String)
  | invalidTries (value : String)
  | missingPaths
  deriving DecidableEq, Repr

/-- The wording of an error. -/
def UsageError.message : UsageError → String
  | .unknownOption name => s!"No such option: {name}"
  | .missingValue name => s!"Option '{name}' requires an argument."
  | .unexpectedValue name => s!"Option '{name}' does not take a value."
  | .invalidTries value => s!"Invalid value for '--max-tries': '{value}'"
  | .missingPaths => "Missing argument 'PATHS...'."

/-- The arguments sorted into options and paths. -/
structure Arguments where
  options : Options := {}
  /-- The number of tries as it was written. -/
  tries : Option String := none
  /-- The first option that asks for information only. -/
  information : Option Command := none
  deriving DecidableEq, Repr

namespace Arguments

/-- Note an option that asks for information. -/
def inform (arguments : Arguments) (command : Command) : Arguments :=
  { arguments with information := arguments.information <|> some command }

/-- Note an option without a value that is written with two dashes. -/
def longFlag? (arguments : Arguments) : String → Option Arguments
  | "--write" => some { arguments with options.write := true }
  | "--revert" => some { arguments with options.revert := true }
  | "--verbose" => some { arguments with options.verbose := true }
  | "--version" => some (arguments.inform .version)
  | "--help" => some (arguments.inform .help)
  | _ => none

/-- Note an option of one letter. -/
def shortFlag (arguments : Arguments) (letter : Char) : Except UsageError Arguments :=
  match letter with
  | 'w' => .ok { arguments with options.write := true }
  | 'v' => .ok { arguments with options.verbose := true }
  | other => .error (.unknownOption (String.ofList ['-', other]))

/-- Note an option that is written as one argument. -/
def option (arguments : Arguments) (argument : String) : Except UsageError Arguments :=
  let chars := argument.toList
  let name := String.ofList (chars.takeWhile (· ≠ '='))
  let value := (chars.dropWhile (· ≠ '=')).tail?.map String.ofList
  if name = "--max-tries" then
    match value with
    | some text => .ok { arguments with tries := some text }
    | none => .error (.missingValue name)
  else
    match arguments.longFlag? name, value with
    | some noted, none => .ok noted
    | some _, some _ => .error (.unexpectedValue name)
    | none, _ =>
        match chars with
        | '-' :: '-' :: _ => .error (.unknownOption name)
        | _ => chars.tail.foldlM shortFlag arguments

/-- Whether an argument is an option rather than a path. -/
def isOption (argument : String) : Bool :=
  argument.toList.head? = some '-' && 1 < argument.length

/-- Sort arguments after those that are sorted already. -/
def read (arguments : Arguments) : List String → Except UsageError Arguments
  | [] => .ok arguments
  | [argument] =>
      if argument = "--" then
        .ok arguments
      else if isOption argument then
        arguments.option argument
      else
        .ok { arguments with options.paths := arguments.options.paths ++ [argument] }
  | argument :: next :: rest =>
      if argument = "--" then
        .ok { arguments with options.paths := arguments.options.paths ++ (next :: rest) }
      else if argument = "--max-tries" then
        read { arguments with tries := some next } rest
      else if isOption argument then do
        read (← arguments.option argument) (next :: rest)
      else
        read { arguments with options.paths := arguments.options.paths ++ [argument] } (next :: rest)

/-- The number of tries that was written. -/
def triesValue (arguments : Arguments) : Except UsageError (Option Nat) :=
  match arguments.tries with
  | none => .ok none
  | some text =>
      match Text.integer? text with
      | some number =>
          if 1 ≤ number then .ok (some number.toNat) else .error (.invalidTries text)
      | none => .error (.invalidTries text)

/-- The command that the arguments mean.  A question for information is answered whatever else is
missing. -/
def command (arguments : Arguments) : Except UsageError Command :=
  match arguments.information with
  | some command => .ok command
  | none => do
      let maxTries ← arguments.triesValue
      if arguments.options.paths.isEmpty then
        .error .missingPaths
      else
        return .run { arguments.options with maxTries }

end Arguments

/-- The command that is written on the command line. -/
def parse (arguments : List String) : Except UsageError Command := do
  (← Arguments.read {} arguments).command

end CommandLine

end GoMend
