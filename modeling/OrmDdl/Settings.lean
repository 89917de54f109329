import OrmDdl.Schema.Store
import OrmDdl.Switches
import OrmDdl.Text.Blank
import OrmDdl.Toml.Document
/-!
# Settings

The driver and the switches of a run. A file gives them, the environment overrides the file, and
what neither gives has its default.
-/

namespace OrmDdl

/-- What a run needs to know besides its arguments. -/
structure Settings where
  driver : String := "mysql"
  switches : Switches := {}
deriving DecidableEq

/-- Why a settings file is refused. -/
inductive SettingsError where
  | unreadable (path : String) (fault : FileFault)
  | malformed (path : String)
  | emptyDriver (path : String)
deriving DecidableEq

/-- The texts of an error, what failed before why. -/
def SettingsError.chain : SettingsError → List String
  | unreadable path fault => ["Failed to read config file: " ++ path, fault.message]
  | malformed path => ["Failed to parse TOML config: " ++ path]
  | emptyDriver path => ["Config file " ++ path ++ " sets an empty driver"]

/-! ### Settings in a file -/

/-- A switch, off where it is not given. -/
def Switches.flag? : Option Toml.Item → Option Bool
  | none => some false
  | some (.bool b) => some b
  | some _ => none

/-- The switches of a TOML value: a table by name, or a list by place. A date has no switches. -/
def Switches.ofToml? : Toml.Item → Option Switches
  | .table _ entries => do
    return {
      comments := ← flag? (entries.lookup "comments")
      oneLine := ← flag? (entries.lookup "one_line")
      autoIndexes := ← flag? (entries.lookup "auto_indexes") }
  | .array items => do
    return {
      comments := ← flag? items[0]?
      oneLine := ← flag? items[1]?
      autoIndexes := ← flag? items[2]? }
  | .dateTime _ => some {}
  | _ => none

namespace Settings

/-- The settings of a TOML document. Other names than the two are passed over. -/
def ofToml? (t : Toml.Table) : Option Settings := do
  let driver ←
    match t.lookup "driver" with
    | none => some ({} : Settings).driver
    | some (.string s) => some s
    | some _ => none
  let switches ←
    match t.lookup "translator" with
    | none => some {}
    | some item => Switches.ofToml? item
  return { driver, switches }

/-- The settings of the file at a path. -/
def load (look : Look) (path : String) : Except SettingsError Settings :=
  match look path >>= FileNode.read with
  | .error fault => .error (.unreadable path fault)
  | .ok text =>
    match Toml.parse text >>= ofToml? with
    | none => .error (.malformed path)
    | some s => if Text.isAllBlank s.driver then .error (.emptyDriver path) else .ok s

/-! ### The environment -/

/-- The truth value that a text of the environment spells. -/
def truth? (raw : String) : Option Bool :=
  let word := String.ofList ((Text.trim raw.toList).map Char.toLower)
  if word ∈ ["1", "true", "yes", "on"] then some true
  else if word ∈ ["0", "false", "no", "off"] then some false
  else none

/-- The values of environment variables. -/
abbrev Environment := String → Option String

/-- The variables that are looked at. -/
def variableNames : List String :=
  ["MODELDDL_DRIVER", "MODELDDL_COMMENTS", "MODELDDL_ONE_LINE", "MODELDDL_AUTO_INDEXES"]

/-- The settings under an environment. A variable that is blank or spells no truth value is as good
as absent. -/
def under (s : Settings) (env : Environment) : Settings :=
  let flag (name : String) (otherwise : Bool) := ((env name).bind truth?).getD otherwise
  { driver := ((env "MODELDDL_DRIVER").filter (!Text.isAllBlank ·)).getD s.driver
    switches := {
      comments := flag "MODELDDL_COMMENTS" s.switches.comments
      oneLine := flag "MODELDDL_ONE_LINE" s.switches.oneLine
      autoIndexes := flag "MODELDDL_AUTO_INDEXES" s.switches.autoIndexes } }

/-- The settings file that is read where none is named. -/
def defaultPath : String := "modelddl.toml"

/-- The settings of the file named, or else of the default file if there is one. -/
def ofFiles (look : Look) : Option String → Except SettingsError Settings
  | some path => load look path
  | none =>
    match look defaultPath with
    | .ok _ => load look defaultPath
    | .error _ => .ok {}

/-! ### JSON -/

def toJson (s : Settings) : Json :=
  .object [("driver", .string s.driver), ("translator", s.switches.toJson)]

/-- The fields of settings while they are read. -/
structure Draft where
  driver : Option String := none
  switches : Option Switches := none

open Json Json.Reader in
/-- The form of settings; what is not given has its default. -/
def record : Record Draft Settings where
  title := "CliConfig"
  slots :=
    [.of "driver" false (·.driver) (fun d x => { d with driver := some x }) (fun _ => text) [],
     .of "translator" false (·.switches) (fun d x => { d with switches := some x })
      Switches.read []]
  empty := {}
  finish d := return {
    driver := d.driver.getD ({} : Settings).driver
    switches := d.switches.getD {} }

def read : Nat → Json.Reader Settings := record.read

end Settings

end OrmDdl
