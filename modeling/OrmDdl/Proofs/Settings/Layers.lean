import Mathlib.Control.Monad.Basic
import Mathlib.Data.List.TakeWhile
import OrmDdl.Proofs.Run.Stages
/-!
# Layers of settings

`Settings.ofFiles_layers`: every setting of a run comes from the first of its layers that gives it,
and depends on nothing else: the command line, its variable, the settings file, its default. What a
variable has to say is said by the characters between its blanks (`Spells`).
-/

namespace OrmDdl

open Outcome

/-! ## Blanks around a text -/

namespace Text

theorem trimStart_append {before rest : List Char} (hbefore : before.all isBlank = true)
    (hrest : ∀ c ∈ rest.head?, isBlank c = false) : trimStart (before ++ rest) = rest := by
  unfold trimStart
  rw [List.dropWhile_append_of_pos (List.all_eq_true.1 hbefore)]
  cases rest with
  | nil => rfl
  | cons c r =>
    have hc : ¬isBlank c = true := Bool.eq_false_iff.1 (hrest c rfl)
    exact List.dropWhile_cons_of_neg hc

/-- Of a word between blanks the word is left. -/
theorem trim_append {before word after : List Char} (hbefore : before.all isBlank = true)
    (hafter : after.all isBlank = true) (hne : word ≠ []) (hword : ∀ c ∈ word, isBlank c = false) :
    trim (before ++ (word ++ after)) = word := by
  have hfirst : ∀ c ∈ (word ++ after).head?, isBlank c = false := by
    obtain ⟨d, r, rfl⟩ := List.exists_cons_of_ne_nil hne
    rintro _ ⟨⟩
    exact hword d List.mem_cons_self
  have hlast : ∀ c ∈ word.reverse.head?, isBlank c = false := by
    intro c hc
    exact hword c (List.mem_reverse.1 (List.mem_of_mem_head? hc))
  have hreverse : after.reverse.all isBlank = true := by
    rw [List.all_reverse]
    exact hafter
  unfold trim
  rw [trimStart_append hbefore hfirst, List.reverse_append, trimStart_append hreverse hlast,
    List.reverse_reverse]

/-- Only blanks are trimmed. -/
theorem exists_blanks (s : List Char) : ∃ before after, before.all isBlank = true ∧
    after.all isBlank = true ∧ s = before ++ (trim s ++ after) := by
  have htake : ∀ t : List Char, (t.takeWhile isBlank).all isBlank = true ∧
      t.takeWhile isBlank ++ trimStart t = t :=
    fun t => ⟨List.all_takeWhile, List.takeWhile_append_dropWhile⟩
  obtain ⟨hbefore, hrest⟩ := htake s
  obtain ⟨hafter, hword⟩ := htake (trimStart s).reverse
  refine ⟨s.takeWhile isBlank, ((trimStart s).reverse.takeWhile isBlank).reverse, hbefore, ?_, ?_⟩
  · rw [List.all_reverse]
    exact hafter
  · unfold trim
    rw [← List.reverse_append, hword, List.reverse_reverse, hrest]

theorem trim_eq_nil_iff {s : List Char} : trim s = [] ↔ s.all isBlank = true := by
  constructor
  · intro h
    obtain ⟨before, after, hbefore, hafter, hs⟩ := exists_blanks s
    rw [hs, h, List.nil_append, List.all_append, hbefore, hafter]
    rfl
  · intro h
    have hstart : trimStart s = [] := List.dropWhile_eq_nil_iff.2 (List.all_eq_true.1 h)
    unfold trim
    rw [hstart]
    rfl

/-- No blank is a capital letter. -/
theorem toLower_of_isBlank {c : Char} (h : isBlank c = true) : c.toLower = c := by
  unfold Char.toLower
  refine dif_neg fun hupper => ?_
  have hlow : 65 ≤ c.toNat := hupper.1
  have hhigh : c.toNat ≤ 90 := hupper.2
  unfold isBlank inRanges blankRanges at h
  simp only [List.any_cons, List.any_nil, Bool.or_eq_true, Bool.and_eq_true, decide_eq_true_eq,
    Bool.false_eq_true, or_false] at h
  omega

end Text

/-! ## Truth values -/

namespace Settings

/-- The words for a truth value. -/
def spellings : Bool → List String
  | true => ["1", "true", "yes", "on"]
  | false => ["0", "false", "no", "off"]

/-- A text that is a word for a truth value in any case, between blanks. -/
def Spells (raw : String) (b : Bool) : Prop := ∃ before word after,
  raw.toList = before ++ (word ++ after) ∧ before.all Text.isBlank = true ∧
    after.all Text.isBlank = true ∧ String.ofList (word.map Char.toLower) ∈ spellings b

/-- A word for a truth value is not empty and has no blanks. -/
theorem not_isBlank_of_spellings {word : List Char} {b : Bool}
    (h : String.ofList (word.map Char.toLower) ∈ spellings b) :
    word ≠ [] ∧ ∀ c ∈ word, Text.isBlank c = false := by
  have hlist : ∀ s ∈ spellings b, s.toList ≠ [] ∧ s.toList.all (!Text.isBlank ·) = true := by
    cases b <;> decide
  obtain ⟨hne, hall⟩ := hlist _ h
  rw [String.toList_ofList] at hne hall
  refine ⟨fun hnil => hne (List.map_eq_nil_iff.2 hnil), fun c hc => ?_⟩
  cases hblank : Text.isBlank c with
  | false => rfl
  | true =>
    have hlower := List.all_eq_true.1 hall _ (List.mem_map_of_mem hc)
    rw [Text.toLower_of_isBlank hblank, hblank] at hlower
    cases hlower

theorem truth?_eq_some_iff_mem {raw : String} {b : Bool} : truth? raw = some b ↔
    String.ofList ((Text.trim raw.toList).map Char.toLower) ∈ spellings b := by
  have htruth : truth? raw =
      if String.ofList ((Text.trim raw.toList).map Char.toLower) ∈ spellings true then some true
      else if String.ofList ((Text.trim raw.toList).map Char.toLower) ∈ spellings false then
        some false
      else none := rfl
  have hdisjoint : ∀ s ∈ spellings true, s ∉ spellings false := by decide
  rw [htruth]
  split_ifs with htrue hfalse
  · cases b <;> simp [htrue, hdisjoint _ htrue]
  · cases b <;> simp [htrue, hfalse]
  · cases b <;> simp [htrue, hfalse]

theorem truth?_eq_some {raw : String} {b : Bool} : truth? raw = some b ↔ Spells raw b := by
  rw [truth?_eq_some_iff_mem]
  constructor
  · intro h
    obtain ⟨before, after, hbefore, hafter, hraw⟩ := Text.exists_blanks raw.toList
    exact ⟨before, _, after, hraw, hbefore, hafter, h⟩
  · rintro ⟨before, word, after, hraw, hbefore, hafter, h⟩
    obtain ⟨hne, hword⟩ := not_isBlank_of_spellings h
    rw [hraw, Text.trim_append hbefore hafter hne hword]
    exact h

end Settings

/-! ## What a document gives -/

/-- The switches of a translator, one by one. -/
inductive Switch where
  | comments
  | oneLine
  | autoIndexes

namespace Switch

/-- Whether the switch is on. -/
def on : Switch → Switches → Bool
  | comments, s => s.comments
  | oneLine, s => s.oneLine
  | autoIndexes, s => s.autoIndexes

/-- The name of the switch in a settings file. -/
def name : Switch → String
  | comments => "comments"
  | oneLine => "one_line"
  | autoIndexes => "auto_indexes"

/-- The place of the switch in a list of all three. -/
def place : Switch → Nat
  | comments => 0
  | oneLine => 1
  | autoIndexes => 2

/-- The variable of the switch. -/
def envName : Switch → String
  | comments => "MODELDDL_COMMENTS"
  | oneLine => "MODELDDL_ONE_LINE"
  | autoIndexes => "MODELDDL_AUTO_INDEXES"

/-- What a document says about the switch, by name or by place. -/
def given (switch : Switch) (document : Toml.Table) : Option Toml.Item :=
  match document.lookup "translator" with
  | some (.table _ entries) => entries.lookup switch.name
  | some (.array items) => items[switch.place]?
  | _ => none

/-- The value of the switch in settings that are read is the one given, or it is off. -/
def Reads (item : Option Toml.Item) (b : Bool) : Prop :=
  item = some (.bool b) ∨ item = none ∧ b = false

theorem reads_of_flag? {item : Option Toml.Item} {b : Bool} (h : Switches.flag? item = some b) :
    Reads item b := by
  unfold Switches.flag? at h
  split at h
  · cases h
    exact .inr ⟨rfl, rfl⟩
  · cases h
    exact .inl rfl
  · cases h

theorem reads_of_flags {comments oneLine autoIndexes : Option Toml.Item} {s : Switches}
    (h : (do
      return ({
        comments := ← Switches.flag? comments
        oneLine := ← Switches.flag? oneLine
        autoIndexes := ← Switches.flag? autoIndexes } : Switches)) = some s) :
    Reads comments s.comments ∧ Reads oneLine s.oneLine ∧ Reads autoIndexes s.autoIndexes := by
  simp only [Option.pure_def, Option.bind_eq_bind, Option.bind_eq_some_iff] at h
  obtain ⟨c, hc, o, ho, a, ha, ⟨⟩⟩ := h
  exact ⟨reads_of_flag? hc, reads_of_flag? ho, reads_of_flag? ha⟩

theorem reads_given {document : Toml.Table} {s : Switches}
    (h : document.lookup "translator" = none ∧ s = {} ∨
      ∃ item, document.lookup "translator" = some item ∧ Switches.ofToml? item = some s)
    (switch : Switch) : Reads (switch.given document) (switch.on s) := by
  unfold given
  obtain ⟨hnone, rfl⟩ | ⟨item, hitem, h⟩ := h
  · rw [hnone]
    cases switch <;> exact .inr ⟨rfl, rfl⟩
  · rw [hitem]
    unfold Switches.ofToml? at h
    cases item with
    | table origin entries =>
      obtain ⟨hcomments, honeLine, hautoIndexes⟩ := reads_of_flags h
      cases switch with
      | comments => exact hcomments
      | oneLine => exact honeLine
      | autoIndexes => exact hautoIndexes
    | array items =>
      obtain ⟨hcomments, honeLine, hautoIndexes⟩ := reads_of_flags h
      cases switch with
      | comments => exact hcomments
      | oneLine => exact honeLine
      | autoIndexes => exact hautoIndexes
    | dateTime text =>
      cases h
      cases switch <;> exact .inr ⟨rfl, rfl⟩
    | string | bool | integer | double | tables => cases h

end Switch

namespace Settings

def driverOf? : Option Toml.Item → Option String
  | none => some "mysql"
  | some (.string s) => some s
  | some _ => none

def switchesOf? : Option Toml.Item → Option Switches
  | none => some {}
  | some item => Switches.ofToml? item

theorem ofToml?_eq (document : Toml.Table) : ofToml? document = do
    let driver ← driverOf? (document.lookup "driver")
    let switches ← switchesOf? (document.lookup "translator")
    return { driver, switches } := by
  unfold ofToml?
  cases document.lookup "driver" with
  | none => cases document.lookup "translator" <;> rfl
  | some item => cases item <;> cases document.lookup "translator" <;> rfl

/-- The settings of a document have its driver and its switches, and defaults for the others. -/
theorem ofToml?_eq_some {document : Toml.Table} {s : Settings} (h : ofToml? document = some s) :
    (document.lookup "driver" = some (.string s.driver) ∨
      document.lookup "driver" = none ∧ s.driver = "mysql") ∧
    (document.lookup "translator" = none ∧ s.switches = {} ∨
      ∃ item, document.lookup "translator" = some item ∧
        Switches.ofToml? item = some s.switches) := by
  rw [ofToml?_eq] at h
  obtain ⟨driver, hdriver, h⟩ := Option.bind_eq_some_iff.1 h
  obtain ⟨switches, hswitches, ⟨⟩⟩ := Option.bind_eq_some_iff.1 h
  constructor
  · unfold driverOf? at hdriver
    split at hdriver
    · cases hdriver
      exact .inr ⟨‹_›, rfl⟩
    · cases hdriver
      exact .inl ‹_›
    · cases hdriver
  · unfold switchesOf? at hswitches
    split at hswitches
    · cases hswitches
      exact .inl ⟨‹_›, rfl⟩
    · exact .inr ⟨_, ‹_›, hswitches⟩

/-- The document that settings are read from. Where no file is named there need not be one. -/
inductive ReadFrom (look : Look) : Option String → Toml.Table → Prop
  | named {path text : String} {document : Toml.Table}
      (read : look path >>= FileNode.read = .ok text)
      (parsed : Toml.parse text = some document) : ReadFrom look (some path) document
  | found {text : String} {document : Toml.Table}
      (read : look defaultPath >>= FileNode.read = .ok text)
      (parsed : Toml.parse text = some document) : ReadFrom look none document
  | absent {fault : FileFault} (missing : look defaultPath = .error fault) : ReadFrom look none []

theorem load_eq_ok {look : Look} {path : String} {file : Settings} (h : load look path = .ok file) :
    ∃ text document, look path >>= FileNode.read = .ok text ∧ Toml.parse text = some document ∧
      ofToml? document = some file := by
  unfold load at h
  cases hread : look path >>= FileNode.read with
  | error fault =>
    rw [hread] at h
    cases h
  | ok text =>
    rw [hread] at h
    dsimp only at h
    cases hparse : Toml.parse text >>= ofToml? with
    | none =>
      rw [hparse] at h
      cases h
    | some s =>
      rw [hparse] at h
      obtain ⟨document, hdocument, hs⟩ := Option.bind_eq_some_iff.1 hparse
      dsimp only at h
      split at h
      · cases h
      · cases h
        exact ⟨text, document, rfl, hdocument, hs⟩

theorem exists_readFrom {look : Look} {config : Option String} {file : Settings}
    (h : ofFiles look config = .ok file) :
    ∃ document, ReadFrom look config document ∧ ofToml? document = some file := by
  unfold ofFiles at h
  cases config with
  | some path =>
    obtain ⟨text, document, hread, hparsed, hfile⟩ := load_eq_ok h
    exact ⟨document, .named hread hparsed, hfile⟩
  | none =>
    dsimp only at h
    cases hlook : look defaultPath with
    | ok node =>
      rw [hlook] at h
      obtain ⟨text, document, hread, hparsed, hfile⟩ := load_eq_ok h
      exact ⟨document, .found hread hparsed, hfile⟩
    | error fault =>
      rw [hlook] at h
      cases h
      exact ⟨[], .absent hlook, rfl⟩

/-! ## Layers -/

/-- Where a driver comes from: the command line, a variable that is not blank, the settings file, or
the default. -/
inductive DriverFrom (flag raw : Option String) (given : Option Toml.Item) : String → Prop
  | flag {driver : String} (h : flag = some driver) : DriverFrom flag raw given driver
  | environment {driver : String} (noFlag : flag = none) (h : raw = some driver)
      (spells : Text.trim driver.toList ≠ []) : DriverFrom flag raw given driver
  | file {driver : String} (noFlag : flag = none)
      (blank : ∀ text ∈ raw, Text.trim text.toList = [])
      (h : given = some (.string driver)) : DriverFrom flag raw given driver
  | standard (noFlag : flag = none) (blank : ∀ text ∈ raw, Text.trim text.toList = [])
      (h : given = none) : DriverFrom flag raw given "mysql"

/-- Where a switch comes from: the command line that turns it on, a variable that spells a truth
value, the settings file, or the default. -/
inductive SwitchFrom (flag : Bool) (raw : Option String) (given : Option Toml.Item) : Bool → Prop
  | flag (h : flag = true) : SwitchFrom flag raw given true
  | environment {text : String} {b : Bool} (noFlag : flag = false) (h : raw = some text)
      (spells : Spells text b) : SwitchFrom flag raw given b
  | file {b : Bool} (noFlag : flag = false) (unspelled : ∀ text ∈ raw, ∀ b, ¬Spells text b)
      (h : given = some (.bool b)) : SwitchFrom flag raw given b
  | standard (noFlag : flag = false) (unspelled : ∀ text ∈ raw, ∀ b, ¬Spells text b)
      (h : given = none) : SwitchFrom flag raw given false

/-- The settings of a file under an environment and a command line. -/
def layered (file : Settings) (env : Environment) (driver : Option String) (flags : Switches) :
    Settings :=
  (file.under env).override driver flags

theorem driver_under (s : Settings) (env : Environment) : (s.under env).driver =
    ((env "MODELDDL_DRIVER").filter (!Text.isAllBlank ·)).getD s.driver := rfl

theorem on_under (s : Settings) (env : Environment) (switch : Switch) :
    switch.on (s.under env).switches =
      ((env switch.envName).bind truth?).getD (switch.on s.switches) := by
  cases switch <;> rfl

theorem on_layered (s : Settings) (env : Environment) (driver : Option String) (flags : Switches)
    (switch : Switch) : switch.on (s.layered env driver flags).switches =
      (((env switch.envName).bind truth?).getD (switch.on s.switches) || switch.on flags) := by
  cases switch <;> rfl

theorem driver_layered (s : Settings) (env : Environment) (driver : Option String)
    (flags : Switches) : (s.layered env driver flags).driver =
      driver.getD (((env "MODELDDL_DRIVER").filter (!Text.isAllBlank ·)).getD s.driver) := rfl

theorem isAllBlank_iff {text : String} :
    Text.isAllBlank text = true ↔ Text.trim text.toList = [] := Text.trim_eq_nil_iff.symm

/-- A variable that is blank gives no driver. -/
theorem filter_eq_none {raw : Option String} (h : ∀ text ∈ raw, Text.trim text.toList = []) :
    raw.filter (!Text.isAllBlank ·) = none := by
  refine Option.filter_eq_none_iff.2 fun text htext => ?_
  rw [isAllBlank_iff.2 (h text htext)]
  exact Bool.false_ne_true

theorem filter_eq_some {text : String} (h : Text.trim text.toList ≠ []) :
    (some text).filter (!Text.isAllBlank ·) = some text := by
  refine Option.filter_some_pos ?_
  rw [Bool.eq_false_iff.2 (mt isAllBlank_iff.1 h)]
  rfl

theorem bind_eq_none {raw : Option String} (h : ∀ text ∈ raw, ∀ b, ¬Spells text b) :
    raw.bind truth? = none := by
  rw [Option.bind_eq_none_iff]
  intro text htext
  cases htruth : truth? text with
  | none => rfl
  | some b => exact absurd (truth?_eq_some.1 htruth) (h text htext b)

section

variable {document : Toml.Table} {s : Settings}

/-- The driver of a run is the one of its first layer that gives one. -/
theorem driver_layered_iff
    (h : document.lookup "driver" = some (.string s.driver) ∨
      document.lookup "driver" = none ∧ s.driver = "mysql")
    (env : Environment) (driver : Option String) (flags : Switches) (d : String) :
    (s.layered env driver flags).driver = d ↔
      DriverFrom driver (env "MODELDDL_DRIVER") (document.lookup "driver") d := by
  rw [driver_layered]
  constructor
  · rintro rfl
    cases driver with
    | some d => exact .flag rfl
    | none =>
      by_cases hblank : ∀ text ∈ env "MODELDDL_DRIVER", Text.trim text.toList = []
      · rw [filter_eq_none hblank, Option.getD_none, Option.getD_none]
        obtain hgiven | ⟨hnone, hstandard⟩ := h
        · exact .file rfl hblank hgiven
        · rw [hstandard]
          exact .standard rfl hblank hnone
      · simp only [not_forall] at hblank
        obtain ⟨text, htext, hword⟩ := hblank
        rw [Option.mem_def.1 htext, filter_eq_some hword, Option.getD_none, Option.getD_some]
        exact .environment rfl rfl hword
  · intro hfrom
    cases hfrom with
    | flag hflag => rw [hflag, Option.getD_some]
    | environment noFlag hraw spells =>
      rw [noFlag, hraw, filter_eq_some spells, Option.getD_none, Option.getD_some]
    | file noFlag blank hgiven =>
      rw [noFlag, filter_eq_none blank, Option.getD_none, Option.getD_none]
      obtain hstring | ⟨hnone, -⟩ := h
      · cases hstring.symm.trans hgiven
        rfl
      · cases hnone.symm.trans hgiven
    | standard noFlag blank hnone =>
      rw [noFlag, filter_eq_none blank, Option.getD_none, Option.getD_none]
      obtain hstring | ⟨-, hstandard⟩ := h
      · cases hstring.symm.trans hnone
      · exact hstandard

/-- A switch of a run is as its first layer that says something has it. -/
theorem on_layered_iff {switch : Switch}
    (h : Switch.Reads (switch.given document) (switch.on s.switches))
    (env : Environment) (driver : Option String) (flags : Switches) (b : Bool) :
    switch.on (s.layered env driver flags).switches = b ↔
      SwitchFrom (switch.on flags) (env switch.envName) (switch.given document) b := by
  rw [on_layered]
  constructor
  · rintro rfl
    cases hflag : switch.on flags with
    | true =>
      rw [Bool.or_true]
      exact .flag rfl
    | false =>
      rw [Bool.or_false]
      by_cases hunspelled : ∀ text ∈ env switch.envName, ∀ b, ¬Spells text b
      · rw [bind_eq_none hunspelled, Option.getD_none]
        obtain hgiven | ⟨hnone, hoff⟩ := h
        · exact .file rfl hunspelled hgiven
        · rw [hoff]
          exact .standard rfl hunspelled hnone
      · simp only [not_forall, not_not] at hunspelled
        obtain ⟨text, htext, b, hspells⟩ := hunspelled
        rw [Option.mem_def.1 htext, Option.bind_some, truth?_eq_some.2 hspells, Option.getD_some]
        exact .environment rfl rfl hspells
  · intro hfrom
    cases hfrom with
    | flag hflag => rw [hflag, Bool.or_true]
    | environment noFlag hraw spells =>
      rw [noFlag, Bool.or_false, hraw, Option.bind_some, truth?_eq_some.2 spells, Option.getD_some]
    | file noFlag unspelled hgiven =>
      rw [noFlag, Bool.or_false, bind_eq_none unspelled, Option.getD_none]
      obtain hbool | ⟨hnone, -⟩ := h
      · cases hbool.symm.trans hgiven
        rfl
      · cases hnone.symm.trans hgiven
    | standard noFlag unspelled hnone =>
      rw [noFlag, Bool.or_false, bind_eq_none unspelled, Option.getD_none]
      obtain hbool | ⟨-, hoff⟩ := h
      · cases hbool.symm.trans hnone
      · exact hoff

end

/-! ## Variables -/

theorem eq_of_on {s t : Settings} (hdriver : s.driver = t.driver)
    (hswitch : ∀ switch : Switch, switch.on s.switches = switch.on t.switches) : s = t := by
  obtain ⟨driver, comments, oneLine, autoIndexes⟩ := s
  obtain ⟨driver', comments', oneLine', autoIndexes'⟩ := t
  have hcomments : comments = comments' := hswitch .comments
  have honeLine : oneLine = oneLine' := hswitch .oneLine
  have hautoIndexes : autoIndexes = autoIndexes' := hswitch .autoIndexes
  cases hdriver
  rw [hcomments, honeLine, hautoIndexes]

/-- A variable that says nothing is as good as absent. -/
theorem under_of_unspelled {env : Environment} {name raw : String} (h : env name = some raw)
    (hdriver : name = "MODELDDL_DRIVER" → Text.trim raw.toList = [])
    (hswitch : ∀ switch : Switch, name = switch.envName → ∀ b, ¬Spells raw b) (s : Settings) :
    s.under env = s.under fun n => if n = name then none else env n := by
  refine eq_of_on ?_ fun switch => ?_
  · rw [driver_under, driver_under]
    by_cases hname : "MODELDDL_DRIVER" = name
    · rw [if_pos hname, hname, h, Option.filter_none]
      refine congrArg (·.getD s.driver) (filter_eq_none ?_)
      rintro _ ⟨⟩
      exact hdriver hname.symm
    · rw [if_neg hname]
  · rw [on_under, on_under]
    by_cases hname : switch.envName = name
    · rw [if_pos hname, hname, h, Option.bind_none]
      refine congrArg (·.getD (switch.on s.switches)) (bind_eq_none ?_)
      rintro _ ⟨⟩
      exact hswitch switch hname.symm
    · rw [if_neg hname]

/-- An environment has its say once. -/
theorem under_under (s : Settings) (env : Environment) :
    (s.under env).under env = s.under env := by
  have hsame : ∀ {α : Type} (o : Option α) (a : α), o.getD (o.getD a) = o.getD a := by
    intro α o a
    cases o <;> rfl
  refine eq_of_on ?_ fun switch => ?_
  · rw [driver_under, driver_under, hsame]
  · rw [on_under, on_under, hsame]

/-- With the settings of a file or without one, a run asks for the translator with settings that
come layer by layer. Each depends on what the layers say about itself; a variable that says nothing
changes nothing, and what an environment says it says once. -/
theorem ofFiles_layers {look : Look} {config : Option String} {file : Settings}
    (h : ofFiles look config = .ok file) :
    (∃ document, ReadFrom look config document ∧ ∀ env driver flags,
      (∀ d, (file.layered env driver flags).driver = d ↔
        DriverFrom driver (env "MODELDDL_DRIVER") (document.lookup "driver") d) ∧
      ∀ (switch : Switch) b, switch.on (file.layered env driver flags).switches = b ↔
        SwitchFrom (switch.on flags) (env switch.envName) (switch.given document) b) ∧
    (∀ env target flags verbose,
      ({ command := .convert target flags, config, verbose } : Arguments).output look env = do
        let s := file.layered env target.driver flags
        let translator ← (Registry.standard.translator s.driver s.switches).mapError .driver
        let models ← (SchemaDocument.load look target.schema).mapError (.schema target.schema)
        let statements ← (translator.convert models).mapError (.conversion target.schema)
        return .ofStatements "Converted" models statements target.output) ∧
    (∀ env env' driver driver' flags flags',
      (driver = driver' → env "MODELDDL_DRIVER" = env' "MODELDDL_DRIVER" →
        (file.layered env driver flags).driver = (file.layered env' driver' flags').driver) ∧
      ∀ switch : Switch, switch.on flags = switch.on flags' →
        env switch.envName = env' switch.envName →
        switch.on (file.layered env driver flags).switches =
          switch.on (file.layered env' driver' flags').switches) ∧
    (∀ env name raw, env name = some raw →
      (name = "MODELDDL_DRIVER" → Text.trim raw.toList = []) →
      (∀ switch : Switch, name = switch.envName → ∀ b, ¬Spells raw b) →
      file.under env = file.under fun n => if n = name then none else env n) ∧
    ∀ env, (file.under env).under env = file.under env := by
  obtain ⟨document, hread, hdocument⟩ := exists_readFrom h
  obtain ⟨hdriver, hswitches⟩ := ofToml?_eq_some hdocument
  refine ⟨⟨document, hread, fun env driver flags => ⟨?_, fun switch => ?_⟩⟩, ?_, ?_, ?_, ?_⟩
  · exact driver_layered_iff hdriver env driver flags
  · exact on_layered_iff (Switch.reads_given hswitches switch) env driver flags
  · intro env target flags verbose
    unfold Arguments.output
    rw [h]
    exact Request.command_output look (file.under env) (.convert flags) target
  · intro env env' driver driver' flags flags'
    refine ⟨fun hflag henv => ?_, fun switch hflag henv => ?_⟩
    · rw [driver_layered, driver_layered, hflag, henv]
    · rw [on_layered, on_layered, hflag, henv]
  · exact fun env name raw hraw hdriver hswitch => under_of_unspelled hraw hdriver hswitch file
  · exact fun env => under_under file env

/-- A folder with a settings file. -/
def cabin : FileTree where
  root := .folder [("modelddl.toml", .file (some
    "driver = \"MySQLDriver\"\n[translator]\ncomments = true\none_line = true\n"))]

theorem ofFiles_layers_cabin :
    ofFiles cabin.node none = .ok ⟨"MySQLDriver", ⟨true, true, false⟩⟩ ∧
    ∃ document, ReadFrom cabin.node none document ∧
      DriverFrom none (some "\t ") (document.lookup "driver") "MySQLDriver" ∧
      SwitchFrom false (some " Off\n") (Switch.comments.given document) false ∧
      SwitchFrom false (some "maybe") (Switch.oneLine.given document) true ∧
      SwitchFrom true (some "0") (Switch.autoIndexes.given document) true := by
  have h : ofFiles cabin.node none = .ok ⟨"MySQLDriver", ⟨true, true, false⟩⟩ := by decide +kernel
  obtain ⟨⟨document, hread, hlayers⟩, -⟩ := ofFiles_layers h
  let env : Environment := fun name =>
    if name = "MODELDDL_DRIVER" then some "\t "
    else if name = "MODELDDL_COMMENTS" then some " Off\n"
    else if name = "MODELDDL_ONE_LINE" then some "maybe"
    else some "0"
  obtain ⟨hdriver, hswitch⟩ := hlayers env none { autoIndexes := true }
  refine ⟨h, document, hread, (hdriver _).1 ?_, (hswitch .comments _).1 ?_,
    (hswitch .oneLine _).1 ?_, (hswitch .autoIndexes _).1 ?_⟩
  all_goals decide +kernel

end Settings

end OrmDdl
