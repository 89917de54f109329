import OrmDdl.Switches
/-!
# Arguments

What the words of a command line ask for, and why words are refused.
-/

namespace OrmDdl

/-- Where models come from and where statements go. -/
structure Target where
  /-- The path of a document or of a folder of documents. -/
  schema : String
  /-- The driver that goes before the one of the settings. -/
  driver : Option String
  /-- The file that takes the statements instead of the standard output. -/
  output : Option String
deriving DecidableEq

/-- What is to be done. -/
inductive Command where
  | convert (target : Target) (switches : Switches)
  | drop (target : Target)
  | drivers
deriving DecidableEq

/-- What a command line asks for. -/
structure Arguments where
  command : Command
  /-- The settings file. -/
  config : Option String
  /-- How many steps the log is more verbose than usual. -/
  verbose : Nat
deriving DecidableEq

/-- The least grave messages that the log holds. -/
def Arguments.logLevel (a : Arguments) : String :=
  match a.verbose with
  | 0 => "warn"
  | 1 => "info"
  | 2 => "debug"
  | _ => "trace"

/-- Why words are no arguments: they ask for a text about the program, or they are wrong. -/
inductive UsageError where
  | help
  | version
  /-- No word says anything. -/
  | nothingGiven
  | missingCommand
  | missingSchema
  | unknownCommand
  | unknownArgument
  /-- An option lacks its value, or has an empty one where a path belongs. -/
  | missingValue
  /-- A switch is given a value. -/
  | surplusValue
  /-- An option or switch comes twice. -/
  | repeated
deriving DecidableEq

end OrmDdl
