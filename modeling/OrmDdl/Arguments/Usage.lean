import OrmDdl.Arguments.Basic
/-!
# Usage

What is printed when words are no arguments.
-/

namespace OrmDdl

/-- How the program is used. -/
def usage : String := "\n".intercalate [
  "Compiles ORM model descriptors into MySQL DDL statements",
  "",
  "Usage: modelddl [OPTIONS] <COMMAND>",
  "",
  "Commands:",
  "  convert SCHEMA  Generate CREATE TABLE statements for every model in a schema",
  "  drop SCHEMA     Generate DROP TABLE IF EXISTS statements for every model in a schema",
  "  drivers         List the registered driver identities",
  "  help            Print this message",
  "",
  "Options:",
  "  -c, --config FILE  TOML config file (defaults to ./modelddl.toml when present)",
  "  -v, --verbose      Increase log verbosity (-v info, -vv debug)",
  "  -h, --help         Print help",
  "  -V, --version      Print version",
  "",
  "Options of convert and drop:",
  "  -d, --driver NAME  Driver identity (overrides config and MODELDDL_DRIVER)",
  "  -o, --output FILE  Write statements to this file instead of stdout",
  "",
  "Options of convert:",
  "  --comments         Prefix each CREATE TABLE with a comment",
  "  --one-line         Emit each CREATE TABLE on a single line",
  "  --auto-indexes     Append CREATE INDEX statements for relation key columns",
  ""]

namespace UsageError

/-- Whether the words ask for nothing but a text. -/
def isRequest : UsageError → Bool
  | help | version => true
  | _ => false

def text : UsageError → String
  | help | nothingGiven => usage
  | version => "modelddl 0.1.0\n"
  | missingCommand => "error: a command is required\n"
  | missingSchema => "error: the path of a schema is required\n"
  | unknownCommand => "error: unrecognized command\n"
  | unknownArgument => "error: unexpected argument\n"
  | missingValue => "error: a value is required\n"
  | surplusValue => "error: unexpected value\n"
  | repeated => "error: an argument cannot be used multiple times\n"

end UsageError

end OrmDdl
