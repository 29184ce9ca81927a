/-!
# Log entries

What a run says about its progress, entry by entry.
-/

namespace GoMend

/-- How important an entry is. -/
inductive LogLevel where
  | debug
  | info
  | warning
  deriving DecidableEq, Repr

/-- The word for a level. -/
def LogLevel.text : LogLevel → String
  | .debug => "DEBUG"
  | .info => "INFO"
  | .warning => "WARNING"

/-- One line of a log. -/
structure LogEntry where
  level : LogLevel
  message : String
  deriving DecidableEq, Repr

/-- A log, the first entry first. -/
abbrev Log := List LogEntry

namespace LogEntry

/-- An entry for those who look for a fault. -/
def debug (message : String) : LogEntry :=
  ⟨.debug, message⟩

/-- An entry that is of general interest. -/
def info (message : String) : LogEntry :=
  ⟨.info, message⟩

/-- An entry that asks for attention. -/
def warning (message : String) : LogEntry :=
  ⟨.warning, message⟩

/-- The text of an entry: its level and its message. -/
def render (entry : LogEntry) : String :=
  entry.level.text ++ " " ++ entry.message

end LogEntry

end GoMend
