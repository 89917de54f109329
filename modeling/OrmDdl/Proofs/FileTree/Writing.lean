import OrmDdl.FileTree.Basic
import OrmDdl.Proofs.Outcome
/-!
# What is written is found

`FileTree.node_write`: after a text has been written to a path, the path leads to a file of that
text. `FileTree.write_of_taken`: a file that is opened holds what is taken of a text, all of it or a
part, and the rest of the tree is kept (`FileNode.agreeOff_put`); the steps of a path are followed
in a tree as in any other that agrees with it (`FileNode.AgreeOff.follow`).
-/

namespace OrmDdl

/-! ## What is taken -/

theorem fromUTF8?_toUTF8 (text : String) : String.fromUTF8? text.toUTF8 = some text := by
  exact dif_pos text.isValidUTF8

/-- A sink stops a text at a fault, after so many bytes. -/
def Sink.Stops (s : Sink) (text : String) (bytes : Nat) (fault : FileFault) : Prop :=
  s.limit = some (bytes, fault) ∧ bytes < text.utf8ByteSize

theorem Sink.Stops.unique {s : Sink} {text : String} {bytes bytes' : Nat} {fault fault' : FileFault}
    (h : s.Stops text bytes fault) (h' : s.Stops text bytes' fault') :
    bytes = bytes' ∧ fault = fault' := by
  cases h.1.symm.trans h'.1
  exact ⟨rfl, rfl⟩

theorem Sink.Stops.take {s : Sink} {text : String} {bytes : Nat} {fault : FileFault}
    (h : s.Stops text bytes fault) :
    s.take text = (text.toUTF8.extract 0 bytes, some fault) := by
  unfold Sink.take
  rw [h.1]
  exact if_neg (Nat.not_le_of_lt h.2)

/-- A text is taken in full if nothing stops it. -/
theorem Sink.take_cases (s : Sink) (text : String) :
    (s.take text = (text.toUTF8, none) ∧ ∀ bytes fault, ¬s.Stops text bytes fault) ∨
      ∃ bytes fault, s.Stops text bytes fault := by
  cases hlimit : s.limit with
  | none =>
    refine .inl ⟨?_, fun bytes fault h => ?_⟩
    · unfold Sink.take
      rw [hlimit]
    · exact nomatch hlimit.symm.trans h.1
  | some limit =>
    obtain ⟨bytes, fault⟩ := limit
    by_cases hfits : text.utf8ByteSize ≤ bytes
    · refine .inl ⟨?_, fun bytes' fault' h => ?_⟩
      · unfold Sink.take
        rw [hlimit]
        exact if_pos hfits
      · cases hlimit.symm.trans h.1
        exact absurd h.2 (Nat.not_lt_of_le hfits)
    · exact .inr ⟨bytes, fault, hlimit, Nat.lt_of_not_le hfits⟩

namespace FileNode

/-! ## Nodes after a change -/

theorem at?_nil (node : FileNode) : node.at? [] = some node := by cases node <;> rfl

theorem at?_cons (entries : List (String × FileNode)) (name : String) (rest : List String) :
    (folder entries).at? (name :: rest) = (entries.lookup name).bind (·.at? rest) := by
  rw [at?]
  cases entries.lookup name <;> rfl

/-- Only folders that are not locked have something below them. -/
theorem at?_cons_eq_some {root node : FileNode} {name : String} {rest : List String} :
    root.at? (name :: rest) = some node ↔ ∃ entries child, root = folder entries ∧
      entries.lookup name = some child ∧ child.at? rest = some node := by
  cases root with
  | folder entries =>
    rw [at?_cons, Option.bind_eq_some_iff]
    constructor
    · rintro ⟨child, hchild, hrest⟩
      exact ⟨entries, child, rfl, hchild, hrest⟩
    · rintro ⟨_, child, ⟨⟩, hchild, hrest⟩
      exact ⟨child, hchild, hrest⟩
  | file | lockedFile | lockedFolder => simp [at?]

/-- Below a file lies nothing. -/
theorem at?_of_isFile {node : FileNode} (h : node.isFile = true) {l : List String} (hl : l ≠ []) :
    node.at? l = none := by
  cases l with
  | nil => exact absurd rfl hl
  | cons name rest =>
    cases node with
    | file | lockedFile => rfl
    | folder | lockedFolder => cases h

theorem at?_append (a b : List String) : ∀ node : FileNode,
    node.at? (a ++ b) = (node.at? a).bind (·.at? b) := by
  induction a with
  | nil => intro node; rw [at?_nil]; rfl
  | cons name a ih =>
    intro node
    cases node with
    | file | lockedFile | lockedFolder => rfl
    | folder entries =>
      rw [List.cons_append, at?_cons, at?_cons]
      cases entries.lookup name with
      | none => rfl
      | some child => exact ih child

theorem at?_append_name {root : FileNode} {here : List String} {name : String}
    {entries : List (String × FileNode)} (h : root.at? here = some (folder entries)) :
    root.at? (here ++ [name]) = entries.lookup name := by
  rw [at?_append, h, Option.bind_some, at?_cons]
  cases entries.lookup name with
  | none => rfl
  | some node => exact at?_nil node

theorem at?_put (w : List String) (new : FileNode) : ∀ node : FileNode,
    (node.put w new).at? w = some new := by
  induction w with
  | nil => intro node; cases node <;> exact at?_nil new
  | cons name w ih =>
    intro node
    cases node with
    | file | lockedFile | lockedFolder =>
      rw [put, at?_cons, List.lookup_cons_self]
      exact ih _
    | folder entries =>
      rw [put, at?_cons, Named.lookup_put_self]
      exact ih _

/-- A node without what lies below it. -/
def bare : FileNode → FileNode
  | folder _ => folder []
  | node => node

/-- Two trees have the same nodes everywhere but at one location. -/
def AgreeOff (location : List String) (a b : FileNode) : Prop :=
  ∀ l, l ≠ location → (a.at? l).map bare = (b.at? l).map bare

/-- A file that is put into a folder, in no folder's place, changes nothing else. -/
theorem agreeOff_put (content : Option String) (name : String) (here : List String) :
    ∀ {root : FileNode} {entries : List (String × FileNode)},
      root.at? here = some (folder entries) →
      (∀ node ∈ root.at? (here ++ [name]), node.isFile = true) →
      AgreeOff (here ++ [name]) root (root.put (here ++ [name]) (file content)) := by
  induction here with
  | nil =>
    intro root entries hhere hfree l hl
    rw [at?_nil] at hhere
    cases hhere
    rw [List.nil_append] at hfree hl ⊢
    rw [put, put]
    cases l with
    | nil => rfl
    | cons other rest =>
      rw [at?_cons, at?_cons]
      by_cases h : other = name
      · subst h
        have hrest : rest ≠ [] := fun he => hl (by rw [he])
        have hnew : (file content).at? rest = none := at?_of_isFile rfl hrest
        rw [Named.lookup_put_self, Option.bind_some, hnew]
        cases hold : entries.lookup other with
        | none => rfl
        | some node =>
          have hat : (folder entries).at? [other] = some node := by
            rw [at?_cons, hold, Option.bind_some, at?_nil]
          rw [Option.bind_some, at?_of_isFile (hfree node hat) hrest]
      · rw [Named.lookup_put_of_ne h]
  | cons step here ih =>
    intro root entries hhere hfree l hl
    obtain ⟨es, child, rfl, hchild, hbelow⟩ := at?_cons_eq_some.1 hhere
    rw [List.cons_append] at hfree hl ⊢
    rw [put]
    cases l with
    | nil => rfl
    | cons other rest =>
      rw [at?_cons, at?_cons]
      by_cases h : other = step
      · subst h
        have hrest : rest ≠ here ++ [name] := fun he => hl (by rw [he])
        have hfree : ∀ node ∈ child.at? (here ++ [name]), node.isFile = true := by
          intro node hnode
          refine hfree node ?_
          rw [at?_cons, hchild]
          exact hnode
        rw [Named.lookup_put_self, hchild]
        exact ih hbelow hfree rest hrest
      · rw [Named.lookup_put_of_ne h]

/-! ## Steps -/

/-- Where a step from a folder leads: it stays, goes up, or goes to an entry. In a locked folder it
stays for a slash. -/
inductive StepsTo (here : List String) : FileNode → String → List String → Prop
  | stay {entries : List (String × FileNode)} {step : String} (h : step = "" ∨ step = ".") :
      StepsTo here (folder entries) step here
  | up {entries : List (String × FileNode)} :
      StepsTo here (folder entries) ".." here.dropLast
  | enter {entries : List (String × FileNode)} {step : String}
      (isName : ¬(step = "" ∨ step = ".") ∧ step ≠ "..")
      (fits : step.utf8ByteSize ≤ Path.maxNameBytes) (found : (entries.lookup step).isSome) :
      StepsTo here (folder entries) step (here ++ [step])
  | slash {fault : FileFault} : StepsTo here (lockedFolder fault) "" here

theorem follow_cons_eq_ok {root : FileNode} {here location : List String} {step : String}
    {rest : List String} : root.follow here (step :: rest) = .ok location ↔
      ∃ node next, root.at? here = some node ∧ StepsTo here node step next ∧
        root.follow next rest = .ok location := by
  rw [follow]
  constructor
  · intro h
    split at h
    · cases h
    · cases h
    · cases h
    · rename_i fault hhere
      split at h
      · rename_i hslash
        subst hslash
        exact ⟨_, here, hhere, .slash, h⟩
      · cases h
    · rename_i entries hhere
      split at h
      · rename_i hstay
        exact ⟨_, here, hhere, .stay hstay, h⟩
      split at h
      · rename_i hup
        subst hup
        exact ⟨_, here.dropLast, hhere, .up, h⟩
      split at h
      · cases h
      rename_i hstay hup hfits
      split at h
      · rename_i hchild
        have found : (entries.lookup step).isSome := by rw [hchild]; rfl
        exact ⟨_, _, hhere, .enter ⟨hstay, hup⟩ (Nat.le_of_not_lt hfits) found, h⟩
      · cases h
  · rintro ⟨node, next, hhere, hstep, h⟩
    rw [hhere]
    cases hstep with
    | stay hstay =>
      dsimp only
      rw [if_pos hstay, h]
    | up =>
      dsimp only
      rw [if_neg (by decide), if_pos rfl, h]
    | enter isName fits found =>
      obtain ⟨child, hchild⟩ := Option.isSome_iff_exists.1 found
      dsimp only
      rw [if_neg isName.1, if_neg isName.2, if_neg (Nat.not_lt_of_le fits), hchild]
      exact h
    | slash =>
      dsimp only
      rw [if_pos rfl, h]

theorem follow_append {root : FileNode} {more : List String} (steps : List String) :
    ∀ {here folder location : List String}, root.follow here steps = .ok folder →
      root.follow folder more = .ok location → root.follow here (steps ++ more) = .ok location := by
  induction steps with
  | nil =>
    intro here folder location h hmore
    cases h
    exact hmore
  | cons step steps ih =>
    intro here folder location h hmore
    obtain ⟨node, next, hhere, hstep, h⟩ := follow_cons_eq_ok.1 h
    exact follow_cons_eq_ok.2 ⟨node, next, hhere, hstep, ih h hmore⟩

namespace AgreeOff

variable {w here : List String} {a b : FileNode} (h : AgreeOff w a b)

include h

theorem exists_bare {node : FileNode} (hne : here ≠ w) (ha : a.at? here = some node) :
    ∃ other, b.at? here = some other ∧ other.bare = node.bare := by
  have hsame := h here hne
  rw [ha, Option.map_some] at hsame
  exact Option.map_eq_some_iff.1 hsame.symm

theorem folder_of_ne {entries : List (String × FileNode)} (hne : here ≠ w)
    (ha : a.at? here = some (folder entries)) : ∃ es, b.at? here = some (folder es) := by
  obtain ⟨node, hb, hbare⟩ := h.exists_bare hne ha
  cases node with
  | folder es => exact ⟨es, hb⟩
  | file | lockedFile | lockedFolder => cases hbare

theorem locked_of_ne {fault : FileFault} (hne : here ≠ w)
    (ha : a.at? here = some (lockedFolder fault)) : b.at? here = some (lockedFolder fault) := by
  obtain ⟨node, hb, hbare⟩ := h.exists_bare hne ha
  cases node with
  | lockedFolder => cases hbare; exact hb
  | file | lockedFile | folder => cases hbare

/-- What is there in one tree is there in the other, and at the location itself. -/
theorem isSome_at? (hfound : (b.at? w).isSome) (ha : (a.at? here).isSome) :
    (b.at? here).isSome := by
  by_cases hw : here = w
  · rw [hw]
    exact hfound
  · have hsame := congrArg Option.isSome (h here hw)
    rw [Option.isSome_map, Option.isSome_map] at hsame
    rw [← hsame]
    exact ha

/-- Steps lead where they led, if they did not lead beyond the location: there was no folder. -/
theorem follow (hfree : ∀ node ∈ a.at? w, node.isFile = true) (hfound : (b.at? w).isSome)
    (steps : List String) : ∀ {here location : List String},
      a.follow here steps = .ok location → b.follow here steps = .ok location := by
  have hne : ∀ {here node}, a.at? here = some node → node.isFile = false → here ≠ w := by
    rintro here node hat hfolder rfl
    rw [hfree node hat] at hfolder
    cases hfolder
  induction steps with
  | nil => exact id
  | cons step steps ih =>
    intro here location hfollow
    obtain ⟨node, next, hhere, hstep, hfollow⟩ := follow_cons_eq_ok.1 hfollow
    refine follow_cons_eq_ok.2 ?_
    cases hstep with
    | stay hstay =>
      obtain ⟨es, hb⟩ := h.folder_of_ne (hne hhere rfl) hhere
      exact ⟨_, _, hb, .stay hstay, ih hfollow⟩
    | up =>
      obtain ⟨es, hb⟩ := h.folder_of_ne (hne hhere rfl) hhere
      exact ⟨_, _, hb, .up, ih hfollow⟩
    | enter isName fits found =>
      obtain ⟨es, hb⟩ := h.folder_of_ne (hne hhere rfl) hhere
      rw [← at?_append_name hhere] at found
      have found := h.isSome_at? hfound found
      rw [at?_append_name hb] at found
      exact ⟨_, _, hb, .enter isName fits found, ih hfollow⟩
    | slash => exact ⟨_, _, h.locked_of_ne (hne hhere rfl) hhere, .slash, ih hfollow⟩

end AgreeOff

end FileNode

/-! ## Paths -/

namespace FileTree

/-- A path writes to a name in the folder that the steps before the name lead to. -/
structure WritesTo (t : FileTree) (p : Path) (before : List String) (name : String)
    (folder : List String) : Prop where
  steps : p.steps = before ++ [name]
  followed : t.root.follow (t.origin p) before = .ok folder
  isFolder : ∃ entries, t.root.at? folder = some (.folder entries)
  isName : name ≠ "" ∧ name ≠ "." ∧ name ≠ ".."
  fits : name.utf8ByteSize ≤ Path.maxNameBytes
  free : ∀ node ∈ t.root.at? (folder ++ [name]), node.isFile = true

/-- Nothing is dropped behind the last step, if that is a name. -/
theorem steps_eq_of_dropWhile {steps before : List String} {name : String}
    (h : steps.reverse.dropWhile (· = "") = name :: before) (hlast : steps.getLast? ≠ some "") :
    steps = before.reverse ++ [name] ∧ name ≠ "" := by
  rw [← List.head?_reverse] at hlast
  cases hrev : steps.reverse with
  | nil =>
    rw [hrev] at h
    cases h
  | cons last r =>
    rw [hrev] at h hlast
    have hne : last ≠ "" := fun he => hlast (congrArg some he)
    rw [List.dropWhile_cons_of_neg (by simpa using hne)] at h
    obtain ⟨rfl, rfl⟩ := List.cons.inj h
    refine ⟨?_, hne⟩
    rw [← List.reverse_inj, hrev]
    simp

theorem writesTo_of_target {t : FileTree} {path : String} {location : List String}
    (h : t.target path = .ok location) : ∃ p before name folder,
      Path.parse path = .ok p ∧ t.WritesTo p before name folder ∧ location = folder ++ [name] := by
  obtain ⟨p, hp, h⟩ := Outcome.bind_eq_ok.1 h
  split at h
  · cases h
  · rename_i name before hsteps
    obtain ⟨folder, hfolder, h⟩ := Outcome.bind_eq_ok.1 h
    split at h
    · cases h
    · cases h
    · cases h
    · cases h
    · rename_i entries hentries
      split at h
      · cases h
      rename_i hname
      split at h
      · cases h
      rename_i hlong
      simp only [not_or] at hname
      obtain ⟨hsteps, hne⟩ := steps_eq_of_dropWhile hsteps hname.1
      suffices hfree : location = folder ++ [name] ∧
          ∀ node ∈ t.root.at? (folder ++ [name]), node.isFile = true from
        ⟨p, before.reverse, name, folder, hp, ⟨hsteps, hfolder, ⟨entries, hentries⟩,
          ⟨hne, hname.2⟩, Nat.le_of_not_lt hlong, hfree.2⟩, hfree.1⟩
      rw [FileNode.at?_append_name hentries]
      split at h
      · cases h
      · cases h
      · cases h
      · rename_i text hchild
        cases h
        rw [hchild]
        exact ⟨rfl, by rintro _ ⟨⟩; rfl⟩
      · rename_i hchild
        cases h
        rw [hchild]
        exact ⟨rfl, by rintro _ ⟨⟩⟩

namespace WritesTo

variable {t : FileTree} {p : Path} {before folder : List String} {name : String}
  (h : t.WritesTo p before name folder)

include h

theorem agreeOff (content : Option String) : FileNode.AgreeOff (folder ++ [name]) t.root
    (t.root.put (folder ++ [name]) (.file content)) := by
  obtain ⟨entries, hentries⟩ := h.isFolder
  exact FileNode.agreeOff_put content name folder hentries h.free

/-- The path leads to what has been put where it writes. -/
theorem follow (content : Option String) :
    (t.root.put (folder ++ [name]) (.file content)).follow (t.origin p) p.steps =
      .ok (folder ++ [name]) := by
  obtain ⟨entries, hentries⟩ := h.isFolder
  have hagree := h.agreeOff content
  have hput := FileNode.at?_put (folder ++ [name]) (.file content) t.root
  have hfound : ((t.root.put (folder ++ [name]) (.file content)).at? (folder ++ [name])).isSome :=
    Option.isSome_iff_exists.2 ⟨_, hput⟩
  have hne : folder ≠ folder ++ [name] := fun he => by simpa using congrArg List.length he
  obtain ⟨es, hes⟩ := hagree.folder_of_ne hne hentries
  have hstay : ¬(name = "" ∨ name = ".") := fun hn => hn.elim h.isName.1 h.isName.2.1
  have hname : (es.lookup name).isSome := by
    rw [← FileNode.at?_append_name hes]
    exact hfound
  have hlast : (t.root.put (folder ++ [name]) (.file content)).follow folder [name] =
      .ok (folder ++ [name]) :=
    FileNode.follow_cons_eq_ok.2
      ⟨_, _, hes, .enter ⟨hstay, h.isName.2.2⟩ h.fits hname, rfl⟩
  rw [h.steps]
  exact FileNode.follow_append before (hagree.follow h.free hfound before h.followed) hlast

end WritesTo

/-- The tree with something written to a path: the path leads to it, and all else is as it was. -/
structure Written (t : FileTree) (path : String) (content : Option String) (t' : FileTree) :
    Prop where
  found : t'.node path = .ok (.file content)
  others : ∃ location, t.target path = .ok location ∧
    t'.root.at? location = some (.file content) ∧ t.root.AgreeOff location t'.root
  working : t'.working = t.working

theorem written_of_target {t : FileTree} {path : String} {location : List String}
    (h : t.target path = .ok location) (content : Option String) :
    Written t path content { t with root := t.root.put location (.file content) } := by
  obtain ⟨p, before, name, folder, hp, hw, rfl⟩ := writesTo_of_target h
  have hput := FileNode.at?_put (folder ++ [name]) (.file content) t.root
  refine ⟨?_, ⟨_, h, hput, hw.agreeOff content⟩, rfl⟩
  refine Outcome.bind_eq_ok.2 ⟨p, hp, Outcome.bind_eq_ok.2 ⟨_, hw.follow content, ?_⟩⟩
  rw [hput]
  rfl

theorem isTooLong_of_target {t : FileTree} {path : String} {location : List String}
    (h : t.target path = .ok location) : Path.isTooLong path = false := by
  obtain ⟨p, hp, -⟩ := Outcome.bind_eq_ok.1 h
  unfold Path.parse at hp
  split at hp
  · cases hp
  split at hp
  · cases hp
  rename_i hlong
  simpa using hlong

/-! ## Files that are opened -/

theorem openFor_eq_ok {t : FileTree} {path : String} {disk : Disk} {location : List String} :
    t.openFor path disk = .ok location ↔ t.target path = .ok location ∧ disk.refusal = none := by
  unfold openFor
  cases t.target path with
  | error fault =>
    constructor
    · rintro ⟨⟩
    · rintro ⟨⟨⟩, -⟩
  | ok l =>
    cases disk.refusal with
    | some fault =>
      constructor
      · rintro ⟨⟩
      · rintro ⟨-, ⟨⟩⟩
    | none =>
      constructor
      · rintro ⟨⟩
        exact ⟨rfl, rfl⟩
      · rintro ⟨⟨⟩, -⟩
        rfl

/-- Nothing is written to a file that is not opened. -/
theorem write_of_refused {t : FileTree} {path : String} {disk : Disk} {fault : FileFault}
    (h : t.openFor path disk = .error fault) (text : String) :
    t.write path text disk = (t, some fault) := by
  unfold write
  rw [h]

/-- A file that is opened holds what is taken. -/
theorem write_of_taken {t : FileTree} {path text : String} {disk : Disk} {location : List String}
    (h : t.openFor path disk = .ok location) {bytes : ByteArray} {fault? : Option FileFault}
    (htake : disk.take text = (bytes, fault?)) : ∃ t', t.write path text disk = (t', fault?) ∧
      Written t path (String.fromUTF8? bytes) t' := by
  refine ⟨_, ?_, written_of_target (openFor_eq_ok.1 h).1 _⟩
  unfold write
  rw [h]
  dsimp only
  rw [htake]

/-- A path that can be written can be read afterwards, and holds the text. -/
theorem node_write {t : FileTree} {path : String} {location : List String}
    (h : t.target path = .ok location) (text : String) : ∃ t', t.write path text = (t', none) ∧
      Path.isTooLong path = false ∧ t'.node path = .ok (.file (some text)) := by
  have hopen : t.openFor path {} = .ok location := openFor_eq_ok.2 ⟨h, rfl⟩
  have htake : ({} : Disk).take text = (text.toUTF8, none) := rfl
  obtain ⟨t', hwrite, hwritten⟩ := write_of_taken hopen htake
  rw [fromUTF8?_toUTF8] at hwritten
  exact ⟨t', hwrite, isTooLong_of_target h, hwritten.found⟩

end FileTree

end OrmDdl
