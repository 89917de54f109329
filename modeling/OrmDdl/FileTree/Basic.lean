import OrmDdl.FileTree.Path
import OrmDdl.FileTree.Sink
import OrmDdl.Named
/-!
# Trees of files

Folders and files as a value: what a path leads to, reading, writing, and all nodes in order. What
the system does not let be read, listed or written has the system's fault in its place.
-/

namespace OrmDdl

/-- A file, with its text if its bytes are text, or a folder of named nodes. A locked one cannot be
opened, and has the fault of that. -/
inductive FileNode where
  | file (text : Option String)
  | folder (entries : List (String × FileNode))
  | lockedFile (fault : FileFault)
  | lockedFolder (fault : FileFault)

namespace FileNode

def isFile : FileNode → Bool
  | file _ | lockedFile _ => true
  | folder _ | lockedFolder _ => false

def isFolder (node : FileNode) : Bool := !node.isFile

/-- The node at a location, which is a list of names from here on. -/
def at? : FileNode → List String → Option FileNode
  | node, [] => some node
  | folder entries, name :: rest =>
    match entries.lookup name with
    | some node => node.at? rest
    | none => none
  | file _, _ :: _ | lockedFile _, _ :: _ | lockedFolder _, _ :: _ => none

/-- The node with another one at a location; folders that lead to it come to be. -/
def put : FileNode → List String → FileNode → FileNode
  | _, [], new => new
  | folder entries, name :: rest, new =>
    folder (Named.put name (put ((entries.lookup name).getD (folder [])) rest new) entries)
  | file _, name :: rest, new | lockedFile _, name :: rest, new
  | lockedFolder _, name :: rest, new => folder [(name, put (folder []) rest new)]

/-- Lists of things below named entries as one list, in order of the names. -/
def inOrder {α : Type} (named : List (String × List α)) : List α :=
  (named.mergeSort fun a b => a.1 ≤ b.1).flatMap Prod.snd

mutual

/-- All nodes from here on, by location, in order of their locations. -/
def nodes : FileNode → List (List String × FileNode)
  | folder entries => ([], folder entries) :: inOrder (nodesOfEntries entries)
  | file text => [([], file text)]
  | lockedFile fault => [([], lockedFile fault)]
  | lockedFolder fault => [([], lockedFolder fault)]

/-- The nodes of every entry. -/
def nodesOfEntries : List (String × FileNode) → List (String × List (List String × FileNode))
  | [] => []
  | (name, node) :: r =>
    (name, node.nodes.map fun (location, below) => (name :: location, below)) :: nodesOfEntries r

end

/-- The texts of all files from here on that can be read, by location. -/
def files (node : FileNode) : List (List String × Option String) :=
  node.nodes.filterMap fun
    | (location, file text) => some (location, text)
    | _ => none

/-- Why a folder that lies at a path is not listed. -/
def listingFault? (path : String) (node : FileNode) : Option FileFault :=
  if node.isFile then none
  else if Path.isTooLong path then some .nameTooLong
  else
    match node with
    | lockedFolder fault => some fault
    | _ => none

/-- Follows steps from a location. A step is made in a folder only, and in a locked one only the
step that a slash at the end of a path makes. -/
def follow (root : FileNode) : List String → List String → Except FileFault (List String)
  | here, [] => .ok here
  | here, step :: rest =>
    match root.at? here with
    | none => .error .missing
    | some (file _) | some (lockedFile _) => .error .notFolder
    | some (lockedFolder fault) => if step = "" then follow root here rest else .error fault
    | some (folder entries) =>
      if step = "" ∨ step = "." then follow root here rest
      else if step = ".." then follow root here.dropLast rest
      else if Path.maxNameBytes < step.utf8ByteSize then .error .nameTooLong
      else
        match entries.lookup step with
        | some _ => follow root (here ++ [step]) rest
        | none => .error .missing

end FileNode

/-- A tree of files and the location of the folder that paths start from. -/
structure FileTree where
  root : FileNode
  working : List String := []

namespace FileTree

/-- Where a path starts. -/
def origin (t : FileTree) (p : Path) : List String := if p.fromRoot then [] else t.working

/-- What a path leads to. -/
def node (t : FileTree) (path : String) : Except FileFault FileNode := do
  let p ← Path.parse path
  let location ← t.root.follow (t.origin p) p.steps
  match t.root.at? location with
  | some node => return node
  | none => throw .missing

/-- The location at which writing to a path puts a file. Its folder must be there. -/
def target (t : FileTree) (path : String) : Except FileFault (List String) := do
  let p ← Path.parse path
  match p.steps.reverse.dropWhile (· = "") with
  | [] => throw .isFolder
  | name :: before =>
    let location ← t.root.follow (t.origin p) before.reverse
    match t.root.at? location with
    | none => throw .missing
    | some (.file _) | some (.lockedFile _) => throw .notFolder
    | some (.lockedFolder fault) => throw fault
    | some (.folder entries) =>
      if p.steps.getLast? = some "" ∨ name = "." ∨ name = ".." then throw .isFolder
      else if Path.maxNameBytes < name.utf8ByteSize then throw .nameTooLong
      else
        match entries.lookup name with
        | some (.folder _) | some (.lockedFolder _) => throw .isFolder
        | some (.lockedFile fault) => throw fault
        | some (.file _) | none => return location ++ [name]

/-- The location of the file that is opened for writing to a path. -/
def openFor (t : FileTree) (path : String) (disk : Disk) : Except FileFault (List String) := do
  let location ← t.target path
  match disk.refusal with
  | some fault => throw fault
  | none => return location

/-- The tree after a text has been written to a path, and the fault if the text is not there in
full. A file that is opened loses what it held. -/
def write (t : FileTree) (path text : String) (disk : Disk := {}) : FileTree × Option FileFault :=
  match t.openFor path disk with
  | .error fault => (t, some fault)
  | .ok location =>
    let (bytes, fault?) := disk.take text
    ({ t with root := t.root.put location (.file (String.fromUTF8? bytes)) }, fault?)

/-- The texts of the files below the working folder, by location from there. -/
def files (t : FileTree) : List (List String × Option String) :=
  match t.root.at? t.working with
  | some node => node.files
  | none => []

end FileTree

/-- The text of a file. -/
def FileNode.read : FileNode → Except FileFault String
  | file (some text) => .ok text
  | file none => .error .notText
  | folder _ => .error .isFolder
  | lockedFile fault | lockedFolder fault => .error fault

/-- The text of a file that lies at a path. -/
def FileNode.readAt (path : String) (node : FileNode) : Except FileFault String :=
  if Path.isTooLong path then .error .nameTooLong else node.read

end OrmDdl
