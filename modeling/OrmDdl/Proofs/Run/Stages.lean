import Mathlib.Control.Monad.Basic
import OrmDdl.Proofs.FileTree.Writing
import OrmDdl.Run.Basic
/-!
# Stages of a run

A run that puts out statements goes through five stages: settings, driver, models, statements,
output. `run_stages`: it fails with the error of the first stage that fails (`RunFault`), and before
the output nothing is put out. The statements (`Translates`) come to the standard output or to the
file that is named, and nowhere else: all of them if the output succeeds, or a part if the sink
stops them (`run_torn`). Last the status is told, as far as the standard error takes it (`Told`).
-/

namespace OrmDdl

open Outcome

/-- What is to be done with the models of a target. -/
inductive Job where
  | convert (switches : Switches)
  | drop

namespace Job

def command (target : Target) : Job → Command
  | convert switches => .convert target switches
  | drop => .drop target

/-- The switches that are on by the command line. -/
def switches : Job → Switches
  | convert switches => switches
  | drop => {}

/-- What has been done with the models, for the status. -/
def verb : Job → String
  | convert _ => "Converted"
  | drop => "Dropped"

/-- The line of status about so many models and statements. -/
def status (models statements : Nat) (path : Option String) (job : Job) : String :=
  "✓ " ++ job.verb ++ " " ++ toString models ++ " model(s), " ++ toString statements
    ++ " statement(s)" ++ (path.map (" → " ++ ·)).getD "" ++ "\n"

/-- The translator of the driver that the settings and the command line come to. -/
def translator (job : Job) (driver : Option String) (s : Settings) : Except SchemaError Translator :=
  let s := s.override driver job.switches
  Registry.standard.translator s.driver s.switches

/-- The statements about some models. -/
def statements (t : Translator) (models : List Model) : Job → Except SchemaError (List String)
  | convert _ => t.convert models
  | drop => .ok (t.dropTables models)

end Job

/-- What a run is given: the files, the environment, and a command line with a job on a target. -/
structure Request where
  files : FileTree
  env : Settings.Environment
  config : Option String
  verbose : Nat
  job : Job
  schema : String
  driver : Option String

namespace Request

/-- The run that puts its text to a path, or to the standard output. -/
def run (r : Request) (system : System) (output : Option String) : Report :=
  ({ command := r.job.command { schema := r.schema, driver := r.driver, output }
     config := r.config
     verbose := r.verbose } : Arguments).run r.files r.env system

/-! ## Stages -/

/-- The settings of the file, under the environment. -/
def settings (r : Request) : Except SettingsError Settings :=
  (·.under r.env) <$> Settings.ofFiles r.files.node r.config

/-- The models of the target. -/
def models (r : Request) : Except SchemaError (List Model) :=
  SchemaDocument.load r.files.node r.schema

/-- All stages before the output succeed, with these models and statements. -/
structure Translates (r : Request) (models : List Model) (statements : List String) : Prop where
  loaded : r.models = .ok models
  translated : ∃ s t, r.settings = .ok s ∧ r.job.translator r.driver s = .ok t ∧
    r.job.statements t models = .ok statements

/-- The error of the first stage before the output that fails: of each stage before it is said that
it succeeds. -/
inductive StageFault (r : Request) : RunError → Prop
  | settings {e : SettingsError} (h : r.settings = .error e) : StageFault r (.settings e)
  | driver {s : Settings} {e : SchemaError} (hs : r.settings = .ok s)
      (h : r.job.translator r.driver s = .error e) : StageFault r (.driver e)
  | schema {s : Settings} {t : Translator} {e : SchemaError} (hs : r.settings = .ok s)
      (ht : r.job.translator r.driver s = .ok t) (h : r.models = .error e) :
      StageFault r (.schema r.schema e)
  | conversion {s : Settings} {t : Translator} {models : List Model} {e : SchemaError}
      (hs : r.settings = .ok s) (ht : r.job.translator r.driver s = .ok t)
      (hmodels : r.models = .ok models) (h : r.job.statements t models = .error e) :
      StageFault r (.conversion r.schema e)

/-- A path, or no path, with which a text is printed, and the error of that. -/
inductive Prints : Option String → (FileFault → RunError) → Prop
  | plain : Prints none .print
  | byPath : Prints (some System.stdoutPath) (.output System.stdoutPath)

/-- Why a text is not put out in full: the standard output or the disk stops it, or its file is not
opened. -/
inductive OutputFault (files : FileTree) (system : System) (text : String) :
    Option String → RunError → Prop
  | print {path : Option String} {error : FileFault → RunError} {bytes : Nat} {fault : FileFault}
      (hpath : Prints path error) (h : system.stdout.Stops text bytes fault) :
      OutputFault files system text path (error fault)
  | unopened {file : String} {fault : FileFault} (hfile : file ≠ System.stdoutPath)
      (h : files.openFor file system.disk = .error fault) :
      OutputFault files system text (some file) (.output file fault)
  | disk {file : String} {location : List String} {bytes : Nat} {fault : FileFault}
      (hfile : file ≠ System.stdoutPath) (hopen : files.openFor file system.disk = .ok location)
      (h : system.disk.Stops text bytes fault) :
      OutputFault files system text (some file) (.output file fault)

/-- The error of the first stage that fails, or of the status after all stages. -/
inductive RunFault (r : Request) (system : System) (path : Option String) : RunError → Prop
  | stage {e : RunError} (h : r.StageFault e) : RunFault r system path e
  | output {models : List Model} {statements : List String} {e : RunError}
      (hdone : r.Translates models statements)
      (h : OutputFault r.files system (script statements) path e) : RunFault r system path e
  | status {models : List Model} {statements : List String} {bytes : Nat} {fault : FileFault}
      (hdone : r.Translates models statements)
      (hput : ∀ e, ¬OutputFault r.files system (script statements) path e)
      (h : system.stderr.Stops (r.job.status models.length statements.length path) bytes fault) :
      RunFault r system path (.line "stderr" fault)

/-- What is left once the status of a run is told, or a part of it. -/
inductive Told (stderr : Sink) (status : String) (done : Report) : Report → Prop
  | full (h : ∀ bytes fault, ¬stderr.Stops status bytes fault) :
      Told stderr status done { done with err := status.toUTF8 }
  | cut {bytes : Nat} {fault : FileFault} (h : stderr.Stops status bytes fault) :
      Told stderr status done {
        done with
        err := status.toUTF8.extract 0 bytes
        failure := some (.line "stderr" fault) }

/-- What a run has to put out, stage by stage. -/
def output (r : Request) (path : Option String) : Except RunError Output := do
  let s ← r.settings.mapError .settings
  let t ← (r.job.translator r.driver s).mapError .driver
  let models ← r.models.mapError (.schema r.schema)
  let statements ← (r.job.statements t models).mapError (.conversion r.schema)
  return .ofStatements r.job.verb models statements path

/-- The command of a job puts out its statements, stage by stage. -/
theorem command_output (look : Look) (s : Settings) (job : Job) (target : Target) :
    (job.command target).output look s = do
      let t ← (job.translator target.driver s).mapError .driver
      let models ← (SchemaDocument.load look target.schema).mapError (.schema target.schema)
      let statements ← (job.statements t models).mapError (.conversion target.schema)
      return .ofStatements job.verb models statements target.output := by
  have hresolve : (job.command target).output look s =
      target.resolve look s job.switches >>= fun p => do
        let statements ← (job.statements p.1 p.2).mapError (.conversion target.schema)
        return .ofStatements job.verb p.2 statements target.output := by
    cases job with
    | convert switches => rfl
    | drop => rfl
  have hstages : target.resolve look s job.switches = do
      let t ← (job.translator target.driver s).mapError .driver
      let models ← (SchemaDocument.load look target.schema).mapError (.schema target.schema)
      return (t, models) := rfl
  rw [hresolve, hstages]
  cases job.translator target.driver s with
  | error e => rfl
  | ok t =>
    cases SchemaDocument.load look target.schema with
    | error e => rfl
    | ok models => rfl

theorem arguments_output (r : Request) (path : Option String) :
    Arguments.output r.files.node r.env {
      command := r.job.command { schema := r.schema, driver := r.driver, output := path }
      config := r.config
      verbose := r.verbose } = r.output path := by
  unfold Arguments.output output settings models
  simp only [command_output]
  cases Settings.ofFiles r.files.node r.config with
  | error e => rfl
  | ok s => rfl

section

variable {r : Request} {system : System} {path : Option String}

theorem run_of_error {e : RunError} (h : r.output path = .error e) :
    r.run system path = { files := r.files, failure := some e } := by
  unfold run Arguments.run
  rw [arguments_output, h]

theorem run_of_ok {o : Output} (h : r.output path = .ok o) :
    r.run system path = o.put system r.files := by
  unfold run Arguments.run
  rw [arguments_output, h]

/-! ## Before the output -/

/-- A fault of a stage before the output is the outcome of these stages. -/
theorem output_eq_error {e : RunError} : r.output path = .error e ↔ r.StageFault e := by
  constructor
  · intro h
    rcases bind_eq_error.1 h with h | ⟨s, hs, h⟩
    · obtain ⟨d, hd, rfl⟩ := mapError_eq_error.1 h
      exact .settings hd
    rw [mapError_eq_ok] at hs
    rcases bind_eq_error.1 h with h | ⟨t, ht, h⟩
    · obtain ⟨d, hd, rfl⟩ := mapError_eq_error.1 h
      exact .driver hs hd
    rw [mapError_eq_ok] at ht
    rcases bind_eq_error.1 h with h | ⟨models, hmodels, h⟩
    · obtain ⟨d, hd, rfl⟩ := mapError_eq_error.1 h
      exact .schema hs ht hd
    rw [mapError_eq_ok] at hmodels
    rw [bind_pure_eq_error] at h
    obtain ⟨d, hd, rfl⟩ := mapError_eq_error.1 h
    exact .conversion hs ht hmodels hd
  · intro h
    cases h with
    | settings h => exact bind_eq_error.2 (.inl (mapError_eq_error.2 ⟨_, h, rfl⟩))
    | driver hs h =>
      refine bind_eq_error.2 (.inr ⟨_, mapError_eq_ok.2 hs, ?_⟩)
      exact bind_eq_error.2 (.inl (mapError_eq_error.2 ⟨_, h, rfl⟩))
    | schema hs ht h =>
      refine bind_eq_error.2 (.inr ⟨_, mapError_eq_ok.2 hs, ?_⟩)
      refine bind_eq_error.2 (.inr ⟨_, mapError_eq_ok.2 ht, ?_⟩)
      exact bind_eq_error.2 (.inl (mapError_eq_error.2 ⟨_, h, rfl⟩))
    | conversion hs ht hmodels h =>
      refine bind_eq_error.2 (.inr ⟨_, mapError_eq_ok.2 hs, ?_⟩)
      refine bind_eq_error.2 (.inr ⟨_, mapError_eq_ok.2 ht, ?_⟩)
      refine bind_eq_error.2 (.inr ⟨_, mapError_eq_ok.2 hmodels, ?_⟩)
      exact bind_eq_error.2 (.inl (mapError_eq_error.2 ⟨_, h, rfl⟩))

theorem output_eq_ok {o : Output} : r.output path = .ok o ↔
    ∃ models statements, r.Translates models statements ∧
      o = .ofStatements r.job.verb models statements path := by
  constructor
  · intro h
    obtain ⟨s, hs, h⟩ := bind_eq_ok.1 h
    obtain ⟨t, ht, h⟩ := bind_eq_ok.1 h
    obtain ⟨models, hmodels, h⟩ := bind_eq_ok.1 h
    obtain ⟨statements, hstatements, h⟩ := bind_eq_ok.1 h
    cases h
    rw [mapError_eq_ok] at hs ht hmodels hstatements
    exact ⟨models, statements, ⟨hmodels, s, t, hs, ht, hstatements⟩, rfl⟩
  · rintro ⟨models, statements, ⟨hmodels, s, t, hs, ht, hstatements⟩, rfl⟩
    refine bind_eq_ok.2 ⟨s, mapError_eq_ok.2 hs, bind_eq_ok.2 ⟨t, mapError_eq_ok.2 ht, ?_⟩⟩
    refine bind_eq_ok.2 ⟨models, mapError_eq_ok.2 hmodels, ?_⟩
    exact bind_eq_ok.2 ⟨statements, mapError_eq_ok.2 hstatements, rfl⟩

theorem run_of_stageFault {e : RunError} (h : r.StageFault e) :
    r.run system path = { files := r.files, failure := some e } :=
  run_of_error (output_eq_error.2 h)

/-- Either a stage before the output fails, or there are statements to put out. -/
theorem stageFault_or_translates (r : Request) :
    (∃ e, r.StageFault e) ∨ ∃ models statements, r.Translates models statements := by
  cases h : r.output none with
  | error e => exact .inl ⟨e, output_eq_error.1 h⟩
  | ok o =>
    obtain ⟨models, statements, hdone, -⟩ := output_eq_ok.1 h
    exact .inr ⟨models, statements, hdone⟩

/-! ## The output and the status -/

theorem told_tell (status : String) (stderr : Sink) {done : Report} (h : done.failure = none) :
    Told stderr status done (done.tell status stderr) := by
  unfold Report.tell
  rw [h]
  dsimp only
  obtain ⟨htake, hfull⟩ | ⟨bytes, fault, hstops⟩ := stderr.take_cases status
  · rw [htake]
    have htold : Told stderr status done { done with err := status.toUTF8 } := .full hfull
    rw [h] at htold
    exact htold
  · rw [hstops.take]
    exact .cut hstops

theorem tell_of_failure {status : String} {stderr : Sink} {done : Report} {e : RunError}
    (h : done.failure = some e) : done.tell status stderr = done := by
  unfold Report.tell
  rw [h]

theorem Told.failure_iff {stderr : Sink} {status : String} {done told : Report}
    (h : Told stderr status done told) (hdone : done.failure = none) {e : RunError} :
    told.failure = some e ↔ ∃ bytes fault, stderr.Stops status bytes fault ∧
      e = .line "stderr" fault := by
  cases h with
  | full hfull =>
    constructor
    · intro he
      exact nomatch hdone.symm.trans he
    · rintro ⟨bytes, fault, hstops, -⟩
      exact absurd hstops (hfull bytes fault)
  | @cut bytes fault hstops =>
    constructor
    · rintro ⟨⟩
      exact ⟨bytes, fault, hstops, rfl⟩
    · rintro ⟨bytes', fault', hstops', rfl⟩
      rw [(hstops.unique hstops').2]

/-- A run has one way to print or to write, and one fault of that. -/
theorem OutputFault.unique {files : FileTree} {text : String} {e e' : RunError}
    (h : OutputFault files system text path e) (h' : OutputFault files system text path e') :
    e = e' := by
  cases h with
  | print hpath hstops =>
    cases h' with
    | print hpath' hstops' =>
      obtain ⟨-, rfl⟩ := hstops.unique hstops'
      cases hpath with
      | plain => cases hpath'; rfl
      | byPath => cases hpath'; rfl
    | unopened hfile | disk hfile => cases hpath; exact absurd rfl hfile
  | unopened hfile hrefused =>
    cases h' with
    | print hpath' => cases hpath'; exact absurd rfl hfile
    | unopened _ hrefused' => cases hrefused.symm.trans hrefused'; rfl
    | disk _ hopen' => exact nomatch hrefused.symm.trans hopen'
  | disk hfile hopen hstops =>
    cases h' with
    | print hpath' => cases hpath'; exact absurd rfl hfile
    | unopened _ hrefused' => exact nomatch hopen.symm.trans hrefused'
    | disk _ _ hstops' =>
      obtain ⟨-, rfl⟩ := hstops.unique hstops'
      rfl

namespace Translates

variable {models : List Model} {statements : List String} (hdone : r.Translates models statements)

include hdone

theorem run_eq : r.run system path =
    (Output.ofStatements r.job.verb models statements path).put system r.files :=
  run_of_ok (output_eq_ok.2 ⟨models, statements, hdone, rfl⟩)

/-- A text that is printed is on the standard output in full, or a part of it. -/
theorem run_prints {error : FileFault → RunError} (hpath : Prints path error) :
    (∃ bytes fault, system.stdout.Stops (script statements) bytes fault ∧
      r.run system path = {
        files := r.files
        out := (script statements).toUTF8.extract 0 bytes
        failure := some (error fault) }) ∨
    (∀ bytes fault, ¬system.stdout.Stops (script statements) bytes fault) ∧
      Told system.stderr (r.job.status models.length statements.length path)
        { files := r.files, out := (script statements).toUTF8 } (r.run system path) := by
  have hdeliver : (Output.ofStatements r.job.verb models statements path).deliver system r.files = {
      files := r.files
      out := (system.stdout.take (script statements)).1
      failure := (system.stdout.take (script statements)).2.map error } := by
    cases hpath with
    | plain => rfl
    | byPath => rfl
  rw [hdone.run_eq]
  unfold Output.put
  rw [hdeliver]
  obtain ⟨htake, hfull⟩ | ⟨bytes, fault, hstops⟩ :=
    system.stdout.take_cases (script statements)
  · rw [htake]
    exact .inr ⟨hfull, told_tell _ _ rfl⟩
  · rw [hstops.take]
    exact .inl ⟨bytes, fault, hstops, tell_of_failure rfl⟩

/-- A text that is written is in its file in full, or a part of it, or the file is not opened. -/
theorem run_writes {file : String} (hfile : file ≠ System.stdoutPath) :
    (∃ fault, r.files.openFor file system.disk = .error fault ∧
      r.run system (some file) = { files := r.files, failure := some (.output file fault) }) ∨
    ∃ location, r.files.openFor file system.disk = .ok location ∧
      ((∃ bytes fault files', system.disk.Stops (script statements) bytes fault ∧
        r.files.Written file (String.fromUTF8? ((script statements).toUTF8.extract 0 bytes)) files' ∧
        r.run system (some file) = { files := files', failure := some (.output file fault) }) ∨
      (∀ bytes fault, ¬system.disk.Stops (script statements) bytes fault) ∧
        ∃ files', r.files.Written file (some (script statements)) files' ∧
          Told system.stderr (r.job.status models.length statements.length (some file))
            { files := files' } (r.run system (some file))) := by
  have hkept : (some file).filter (fun path => decide (path ≠ System.stdoutPath)) = some file :=
    Option.filter_some_pos (decide_eq_true hfile)
  have hdeliver : (Output.ofStatements r.job.verb models statements (some file)).deliver system
      r.files = {
        files := (r.files.write file (script statements) system.disk).1
        failure := (r.files.write file (script statements) system.disk).2.map (.output file) } := by
    unfold Output.deliver Output.ofStatements
    dsimp only
    rw [hkept]
    rfl
  rw [hdone.run_eq]
  unfold Output.put
  rw [hdeliver]
  cases hopen : r.files.openFor file system.disk with
  | error fault =>
    rw [FileTree.write_of_refused hopen]
    exact .inl ⟨fault, rfl, tell_of_failure rfl⟩
  | ok location =>
    refine .inr ⟨location, rfl, ?_⟩
    obtain ⟨htake, hfull⟩ | ⟨bytes, fault, hstops⟩ := system.disk.take_cases (script statements)
    · obtain ⟨files', hwrite, hwritten⟩ := FileTree.write_of_taken hopen htake
      rw [fromUTF8?_toUTF8] at hwritten
      rw [hwrite]
      exact .inr ⟨hfull, files', hwritten, told_tell _ _ rfl⟩
    · obtain ⟨files', hwrite, hwritten⟩ := FileTree.write_of_taken hopen hstops.take
      rw [hwrite]
      exact .inl ⟨bytes, fault, files', hstops, hwritten, tell_of_failure rfl⟩

/-- Either the output fails, or the text is out and the status is told. -/
theorem outputFault_or_told (path : Option String) :
    (∃ e, OutputFault r.files system (script statements) path e ∧
      (r.run system path).failure = some e) ∨
    (∀ e, ¬OutputFault r.files system (script statements) path e) ∧
      ∃ done : Report, done.failure = none ∧
        Told system.stderr (r.job.status models.length statements.length path) done
          (r.run system path) := by
  by_cases hprints : ∃ error, Prints path error
  · obtain ⟨error, hpath⟩ := hprints
    obtain ⟨bytes, fault, hstops, hrun⟩ | ⟨hfull, htold⟩ := hdone.run_prints hpath
    · exact .inl ⟨_, .print hpath hstops, by rw [hrun]⟩
    · refine .inr ⟨fun e h => ?_, _, rfl, htold⟩
      cases h with
      | print _ hstops => exact hfull _ _ hstops
      | unopened hfile | disk hfile => cases hpath; exact hfile rfl
  · obtain ⟨file, rfl, hfile⟩ : ∃ file, path = some file ∧ file ≠ System.stdoutPath := by
      cases path with
      | none => exact absurd ⟨_, .plain⟩ hprints
      | some file =>
        refine ⟨file, rfl, fun hfile => hprints ?_⟩
        rw [hfile]
        exact ⟨_, .byPath⟩
    obtain ⟨fault, hrefused, hrun⟩ | ⟨location, hopen, hwrites⟩ := hdone.run_writes hfile
    · exact .inl ⟨_, .unopened hfile hrefused, by rw [hrun]⟩
    obtain ⟨bytes, fault, files', hstops, -, hrun⟩ | ⟨hfull, files', -, htold⟩ := hwrites
    · exact .inl ⟨_, .disk hfile hopen hstops, by rw [hrun]⟩
    · refine .inr ⟨fun e h => ?_, _, rfl, htold⟩
      cases h with
      | print hpath => exact hprints ⟨_, hpath⟩
      | unopened _ hrefused => exact nomatch hopen.symm.trans hrefused
      | disk _ _ hstops => exact hfull _ _ hstops

end Translates

/-- A run fails with the fault of its first stage that fails. -/
theorem failure_iff {e : RunError} :
    (r.run system path).failure = some e ↔ RunFault r system path e := by
  constructor
  · intro h
    obtain ⟨d, hstage⟩ | ⟨models, statements, hdone⟩ := stageFault_or_translates r
    · rw [run_of_stageFault hstage] at h
      cases h
      exact .stage hstage
    obtain ⟨d, hfault, hfailure⟩ | ⟨hput, done, hok, htold⟩ := hdone.outputFault_or_told path
    · cases hfailure.symm.trans h
      exact .output hdone hfault
    · obtain ⟨bytes, fault, hstops, rfl⟩ := (htold.failure_iff hok).1 h
      exact .status hdone hput hstops
  · intro h
    cases h with
    | stage hstage => rw [run_of_stageFault hstage]
    | output hdone hfault =>
      obtain ⟨d, hfault', hfailure⟩ | ⟨hput, -⟩ := hdone.outputFault_or_told path
      · rw [hfailure, hfault'.unique hfault]
      · exact absurd hfault (hput e)
    | status hdone hput hstops =>
      obtain ⟨d, hfault, -⟩ | ⟨-, done, hok, htold⟩ := hdone.outputFault_or_told path
      · exact absurd hfault (hput d)
      · exact (htold.failure_iff hok).2 ⟨_, _, hstops, rfl⟩

end

/-- Tables to drop, in a folder with an older output. -/
def porch : Request where
  files := { root := .folder [
    ("users.json", .file (some ("[\x7b\"name\": \"User\", \"table\": \"users\", " ++
      "\"validation_rules\": \x7b\x7d\x7d]"))),
    ("drop.sql", .file (some "DROP"))] }
  env := fun _ => none
  config := none
  verbose := 0
  job := .drop
  schema := "users.json"
  driver := none

/-- What a path leads to after a run, as a text. -/
def textAfter (system : System) (output : Option String) (path : String) :
    Except FileFault String :=
  (porch.run system output).files.node path >>= FileNode.read

example : (porch.run {} none).stdout = "DROP TABLE IF EXISTS users;\n" ∧
    (porch.run {} none).stderr = "✓ Dropped 1 model(s), 1 statement(s)\n" := by
  decide +kernel

example : textAfter {} (some "drop.sql") "drop.sql" = .ok "DROP TABLE IF EXISTS users;\n" ∧
    (porch.run {} (some "drop.sql")).out = .empty := by
  decide +kernel

example : ({ porch with schema := "none.json", driver := some "Postgres" }.run {} none).failure =
    some (.driver (.unknownDriver "Postgres")) := by
  decide +kernel

def diskFull : FileFault := .refused "No space left on device (os error 28)"

/-- Takes five bytes of a text. -/
def torn : Sink := { limit := some (5, diskFull) }

end Request

end OrmDdl
