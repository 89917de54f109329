import OrmDdl.FileTree.Basic
import OrmDdl.Schema.Document
/-!
# Schemas in files

Models are kept in one document, or in all documents below a folder, in the order of their paths.
The folder is listed in full before any document is read, so a fault of the listing comes first.
-/

namespace OrmDdl

/-- Finds what is at a path. -/
abbrev Look := String → Except FileFault FileNode

namespace SchemaDocument

/-- Whether a file below a schema folder holds a document: its name has the extension `json`, with
something before it. -/
def isDocumentName (name : String) : Bool :=
  ".json".toList.isSuffixOf name.toList && ".json".length < name.length

/-- The models of a file. Whatever is wrong is a fault of that file. -/
def loadFile (path : String) (node : FileNode) : Except SchemaError (List Model) :=
  match node.readAt path with
  | .error fault => .error (.fileRead path fault.message)
  | .ok text =>
    match parse text with
    | .error e => .error (.fileRead path e.message)
    | .ok d => .ok d.models

/-- The first folder, from a path on, that is not listed, and why. -/
def unlistable? (path : String) (node : FileNode) : Option (String × FileFault) :=
  node.nodes.findSome? fun (location, below) =>
    let p := location.foldl Path.join path
    (below.listingFault? p).map fun fault => (p, fault)

/-- The documents below a folder, by path. -/
def documentsBelow (path : String) (node : FileNode) : List (String × FileNode) :=
  (node.nodes.filter fun (location, below) =>
      below.isFile && location.getLast?.any isDocumentName).map
    fun (location, document) => (location.foldl Path.join path, document)

/-- The models of all documents below a folder. -/
def loadFolder (path : String) (node : FileNode) : Except SchemaError (List Model) :=
  match unlistable? path node with
  | some (p, fault) =>
    .error (.fileRead path ("IO error for operation on " ++ p ++ ": " ++ fault.message))
  | none => do
    let lists ← (documentsBelow path node).mapM fun (p, document) => loadFile p document
    return lists.flatten

/-- The models of the file or folder at a path. -/
def load (look : Look) (path : String) : Except SchemaError (List Model) :=
  match look path with
  | .error _ => .error (.fileRead path "no such file or directory")
  | .ok node => if node.isFile then loadFile path node else loadFolder path node

/-- The tree after models have been saved to a path. -/
def save (files : FileTree) (models : List Model) (path : String) (disk : Disk := {}) :
    Except SchemaError FileTree :=
  match files.write path (ofModels models).text disk with
  | (files, none) => .ok files
  | (_, some fault) => .error (.io fault.message)

end SchemaDocument

end OrmDdl
