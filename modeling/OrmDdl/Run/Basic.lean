import OrmDdl.Arguments.Basic
import OrmDdl.Registry
import OrmDdl.Run.Script
import OrmDdl.Settings
/-!
# Runs

A run finds its settings, its driver and its models, translates these and puts the statements
where they belong. The first step that fails ends it, and until all others have succeeded nothing
is written. What is written may not be taken in full: a part of it may be there when the run fails.
-/

namespace OrmDdl

/-- Why a run fails, by the step that does. -/
inductive RunError where
  | settings (error : SettingsError)
  | driver (error : SchemaError)
  | schema (path : String) (error : SchemaError)
  | conversion (path : String) (error : SchemaError)
  | output (path : String) (fault : FileFault)
  /-- The text is not put on the standard output. -/
  | print (fault : FileFault)
  /-- A line is not put on a stream, which ends the run where it stands. -/
  | line (stream : String) (fault : FileFault)
deriving DecidableEq

/-- The texts of an error, what failed before why. -/
def RunError.chain : RunError → List String
  | settings error => error.chain
  | driver error => [error.message]
  | schema path error => ["Failed to load schema from " ++ path, error.message]
  | conversion path error => ["Failed to convert " ++ path, error.message]
  | output path fault => ["Failed to write " ++ path, fault.message]
  | print fault => ["Failed to write to stdout", fault.message]
  | line stream fault => ["failed printing to " ++ stream ++ ": " ++ fault.message]

/-- An error with its causes, one a line. -/
def RunError.text (e : RunError) : String :=
  match e.chain with
  | [] => ""
  | first :: causes =>
    "Error: " ++ first ++ "\n"
      ++ (if causes = [] then "" else "\nCaused by:\n")
      ++ String.join (causes.map fun cause => "    " ++ cause ++ "\n")

namespace Settings

/-- The settings with the driver and the switches of a command line. A switch that is on stays
on. -/
def override (s : Settings) (driver : Option String) (switches : Switches) : Settings where
  driver := driver.getD s.driver
  switches := {
    comments := s.switches.comments || switches.comments
    oneLine := s.switches.oneLine || switches.oneLine
    autoIndexes := s.switches.autoIndexes || switches.autoIndexes }

end Settings

/-- What a run has to put out. -/
structure Output where
  text : String
  /-- Whether the text is put out line by line. -/
  byLine : Bool := false
  /-- The file that takes the text instead of the standard output. -/
  path : Option String := none
  /-- What is reported once the text has been put out. -/
  status : String := ""
deriving DecidableEq

namespace Output

/-- The statements about some models, with a line of status. -/
def ofStatements (verb : String) (models : List Model) (statements : List String)
    (path : Option String) : Output where
  text := script statements
  path := path
  status :=
    "✓ " ++ verb ++ " " ++ toString models.length ++ " model(s), " ++ toString statements.length
      ++ " statement(s)" ++ (path.map (" → " ++ ·)).getD "" ++ "\n"

end Output

/-- The driver's translator and the models of a target. -/
def Target.resolve (t : Target) (look : Look) (settings : Settings) (switches : Switches) :
    Except RunError (Translator × List Model) := do
  let s := settings.override t.driver switches
  let translator ← (Registry.standard.translator s.driver s.switches).mapError .driver
  let models ← (SchemaDocument.load look t.schema).mapError (.schema t.schema)
  return (translator, models)

/-- What a command has to put out. -/
def Command.output (look : Look) (settings : Settings) : Command → Except RunError Output
  | convert target switches => do
    let (translator, models) ← target.resolve look settings switches
    let statements ← (translator.convert models).mapError (.conversion target.schema)
    return .ofStatements "Converted" models statements target.output
  | drop target => do
    let (translator, models) ← target.resolve look settings {}
    return .ofStatements "Dropped" models (translator.dropTables models) target.output
  | drivers =>
    return { text := String.join (Registry.standard.drivers.map (· ++ "\n")), byLine := true }

/-- What arguments have to put out, with all that lies in files found by `look`. -/
def Arguments.output (look : Look) (env : Settings.Environment) (a : Arguments) :
    Except RunError Output := do
  let settings ← (Settings.ofFiles look a.config).mapError .settings
  a.command.output look (settings.under env)

/-- The paths at which a run looks for files. -/
def Arguments.paths (a : Arguments) : List String :=
  a.config.getD Settings.defaultPath ::
    match a.command with
    | .convert target _ | .drop target => [target.schema]
    | .drivers => []

/-- What takes all that a run writes. -/
structure System where
  disk : Disk := {}
  stdout : Sink := {}
  stderr : Sink := {}

/-- The path at which the system has the standard output of a run. -/
def System.stdoutPath : String := "/dev/stdout"

/-- What a run leaves behind: files, and bytes on its two streams. -/
structure Report where
  files : FileTree
  out : ByteArray := .empty
  err : ByteArray := .empty
  failure : Option RunError := none

namespace Report

/-- The text on the standard output, if its last character is there in full. -/
def stdout (r : Report) : String := (String.fromUTF8? r.out).getD ""

/-- The text on the standard error, if its last character is there in full. -/
def stderr (r : Report) : String := (String.fromUTF8? r.err).getD ""

/-- Tells the status of a run that has not failed. -/
def tell (status : String) (stderr : Sink) (r : Report) : Report :=
  match r.failure with
  | some _ => r
  | none =>
    let (err, fault?) := stderr.take status
    { r with err, failure := fault?.map (.line "stderr") }

end Report

namespace Output

/-- The error of an output that a fault ends. -/
def error (o : Output) : FileFault → RunError :=
  match o.path with
  | some path => .output path
  | none => if o.byLine then .line "stdout" else .print

/-- Puts a text out. -/
def deliver (system : System) (files : FileTree) (o : Output) : Report :=
  match o.path.filter (· ≠ System.stdoutPath) with
  | none =>
    let (out, fault?) := system.stdout.take o.text
    { files, out, failure := fault?.map o.error }
  | some path =>
    let (files, fault?) := files.write path o.text system.disk
    { files, failure := fault?.map o.error }

/-- Puts a text out, and the status once that is done. -/
def put (system : System) (files : FileTree) (o : Output) : Report :=
  (o.deliver system files).tell o.status system.stderr

end Output

/-- Runs what arguments ask for. -/
def Arguments.run (files : FileTree) (env : Settings.Environment) (a : Arguments)
    (system : System := {}) : Report :=
  match a.output files.node env with
  | .ok o => o.put system files
  | .error e => { files, failure := some e }

end OrmDdl
