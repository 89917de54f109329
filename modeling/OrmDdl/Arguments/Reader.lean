import OrmDdl.Arguments.Basic
/-!
# Reading arguments

Words are read from left to right on two levels, before and behind the name of the command. A value
that stands in a word of its own is held until the next option or operand is met or the level ends,
and only then checked, so that words which fit nowhere are refused before it.
-/

namespace OrmDdl.Arguments

/-! ### Words -/

/-- What a word looks like. -/
inductive Word where
  /-- The word `--`, behind which no word is an option. -/
  | separator
  | long (name : List Char) (value : Option String)
  | short (letters : List Char)
  | plain
deriving DecidableEq

/-- The two sides of the first equals sign, if there is one. -/
def splitAtEquals (s : List Char) : List Char × Option String :=
  match s.dropWhile (· ≠ '=') with
  | [] => (s, none)
  | _ :: value => (s.takeWhile (· ≠ '='), some (String.ofList value))

def Word.ofString (s : String) : Word :=
  match s.toList with
  | ['-', '-'] => .separator
  | '-' :: '-' :: r =>
    let (name, value) := splitAtEquals r
    .long name value
  | '-' :: c :: r => .short (c :: r)
  | _ => .plain

/-! ### Options -/

/-- What has a value. -/
inductive Field where
  | config
  | driver
  | output
  | schema
deriving DecidableEq

/-- What is on when it is given. -/
inductive Flag where
  | comments
  | oneLine
  | autoIndexes
deriving DecidableEq

/-- What an option is for. -/
inductive Action where
  | value (field : Field)
  | flag (flag : Flag)
  | verbose
  | help
  | version
deriving DecidableEq

/-- An option with its names. -/
structure Opt where
  long : String
  short : Option Char
  action : Action

/-- The options that every level knows. -/
def sharedOptions : List Opt :=
  [⟨"config", some 'c', .value .config⟩, ⟨"verbose", some 'v', .verbose⟩, ⟨"help", some 'h', .help⟩]

def targetOptions : List Opt :=
  [⟨"driver", some 'd', .value .driver⟩, ⟨"output", some 'o', .value .output⟩]

def switchOptions : List Opt :=
  [⟨"comments", none, .flag .comments⟩, ⟨"one-line", none, .flag .oneLine⟩,
   ⟨"auto-indexes", none, .flag .autoIndexes⟩]

/-- The levels at which words are read. -/
inductive Level where
  | top
  | convert
  | drop
  | drivers
deriving DecidableEq

namespace Level

def options : Level → List Opt
  | top => ⟨"version", some 'V', .version⟩ :: sharedOptions
  | convert => switchOptions ++ targetOptions ++ sharedOptions
  | drop => targetOptions ++ sharedOptions
  | drivers => sharedOptions

/-- The words that end a level. -/
def commands : Level → List String
  | top => ["convert", "drop", "drivers", "help"]
  | _ => []

def takesSchema : Level → Bool
  | convert | drop => true
  | top | drivers => false

def long? (l : Level) (name : List Char) : Option Action :=
  (l.options.find? fun o => o.long.toList == name).map Opt.action

def short? (l : Level) (letter : Char) : Option Action :=
  (l.options.find? fun o => o.short == some letter).map Opt.action

/-- The error of an operand that a level has no place for. -/
def surplus (l : Level) (separated : Bool) (word : String) : UsageError :=
  match l with
  | top => if separated ∧ word ∈ l.commands then .unknownArgument else .unknownCommand
  | _ => .unknownArgument

end Level

/-! ### One level -/

/-- What the words of a level have given so far. -/
structure Given where
  config : Option String := none
  driver : Option String := none
  output : Option String := none
  schema : Option String := none
  switches : Switches := {}
  verbose : Option Nat := none
  /-- An option or operand that is not yet settled, and its value if it is there. -/
  held : Option (Field × Option String) := none
  /-- Whether the separator has been met. -/
  separated : Bool := false

namespace Given

def get (g : Given) : Field → Option String
  | .config => g.config
  | .driver => g.driver
  | .output => g.output
  | .schema => g.schema

def set (g : Given) (field : Field) (value : String) : Given :=
  match field with
  | .config => { g with config := some value }
  | .driver => { g with driver := some value }
  | .output => { g with output := some value }
  | .schema => { g with schema := some value }

/-- Gives a field its value, once; a path is not empty. -/
def give (g : Given) (field : Field) (value : String) : Except UsageError Given :=
  if (g.get field).isSome then .error .repeated
  else if value = "" ∧ field ≠ .driver then .error .missingValue
  else .ok (g.set field value)

/-- Settles what is held. -/
def settle (g : Given) : Except UsageError Given :=
  match g.held with
  | none => .ok g
  | some (_, none) => .error .missingValue
  | some (field, some value) => { g with held := none }.give field value

/-- Whether an option waits for its value. -/
def isWaiting (g : Given) : Bool := g.held matches some (_, none)

/-- Whether an operand has been given. -/
def hasSchema (g : Given) : Bool := g.schema.isSome || g.held matches some (.schema, _)

/-- The switches with one more on, unless it is on. -/
def turnOn (s : Switches) : Flag → Except UsageError Switches
  | .comments => if s.comments then .error .repeated else .ok { s with comments := true }
  | .oneLine => if s.oneLine then .error .repeated else .ok { s with oneLine := true }
  | .autoIndexes => if s.autoIndexes then .error .repeated else .ok { s with autoIndexes := true }

/-- The most steps of verbosity that are counted. -/
def maxVerbose : Nat := 255

/-- What is given after an option, with a value if one is attached to it. -/
def act (g : Given) (action : Action) (attached : Option String) : Except UsageError Given := do
  match action, attached with
  | .value field, some value => (← g.settle).give field value
  | .value field, none => return { ← g.settle with held := some (field, none) }
  | _, some _ => throw .surplusValue
  | .flag flag, none =>
    let g ← g.settle
    return { g with switches := ← turnOn g.switches flag }
  | .verbose, none =>
    let g ← g.settle
    return { g with verbose := some (min maxVerbose (g.verbose.getD 0 + 1)) }
  | .help, none =>
    let _ ← g.settle
    throw .help
  | .version, none =>
    let _ ← g.settle
    throw .version

/-- What is given after letters behind one dash. What follows the letter of a value is that value,
less an equals sign. -/
def actAll (level : Level) : List Char → Given → Except UsageError Given
  | [], g => .ok g
  | c :: r, g =>
    match level.short? c, r with
    | none, _ => .error .unknownArgument
    | some (.value field), [] => g.act (.value field) none
    | some (.value field), '=' :: value => g.act (.value field) (some (String.ofList value))
    | some (.value field), value => g.act (.value field) (some (String.ofList value))
    | some action, r => do actAll level r (← g.act action none)

/-- What is given after a word that is no option. -/
def operand (level : Level) (word : String) (g : Given) : Except UsageError Given := do
  if level.takesSchema ∧ ¬g.hasSchema then
    return { ← g.settle with held := some (.schema, some word) }
  else throw (level.surplus g.separated word)

/-- What is given after a word. -/
def add (level : Level) (word : String) (g : Given) : Except UsageError Given :=
  if g.separated then g.operand level word
  else
    match Word.ofString word with
    | .separator => .ok { g with separated := true }
    | .long name value =>
      match level.long? name with
      | some action => g.act action value
      | none => .error .unknownArgument
    | .short letters => g.actAll level letters
    | .plain =>
      match g.held with
      | some (field, none) => .ok { g with held := some (field, some word) }
      | _ => g.operand level word

/-- What the words of a level give, up to the name of a command, with that name and the words
behind it. A word that an option waits for is no such name. -/
def read (level : Level) : List String → Given → Except UsageError (Given × List String)
  | [], g => .ok (g, [])
  | word :: rest, g =>
    if ¬g.separated ∧ ¬g.isWaiting ∧ word ∈ level.commands then .ok (g, word :: rest)
    else do read level rest (← g.add level word)

/-- What all words of the level of a command give. -/
def readAll (level : Level) (words : List String) : Except UsageError Given := do
  (← read level words {}).1.settle

def target (g : Given) : Except UsageError Target :=
  match g.schema with
  | some schema => .ok { schema, driver := g.driver, output := g.output }
  | none => .error .missingSchema

end Given

/-! ### Both levels -/

/-- The error of the words behind `help`: at most one, the name of a command. -/
def helpOn : List String → UsageError
  | [] => .help
  | [word] => if word ∈ Level.top.commands then .help else .unknownCommand
  | _ => .unknownCommand

/-- The command of a name and the words behind it, and all that they give. -/
def commandOf (name : String) (words : List String) : Except UsageError (Command × Given) := do
  match name with
  | "convert" =>
    let g ← Given.readAll .convert words
    return (.convert (← g.target) g.switches, g)
  | "drop" =>
    let g ← Given.readAll .drop words
    return (.drop (← g.target), g)
  | "drivers" => return (.drivers, ← Given.readAll .drivers words)
  | _ => throw (helpOn words)

/-- The arguments of a command line. What stands behind the command goes before what stands in
front of it. -/
def parse (words : List String) : Except UsageError Arguments := do
  match ← Given.read .top words {} with
  | (g, []) =>
    let g ← g.settle
    throw (if g.config.isNone ∧ g.verbose.isNone then .nothingGiven else .missingCommand)
  | (outer, name :: rest) =>
    let (command, inner) ← commandOf name rest
    let outer ← outer.settle
    return {
      command
      config := inner.config <|> outer.config
      verbose := (inner.verbose <|> outer.verbose).getD 0 }

end OrmDdl.Arguments
