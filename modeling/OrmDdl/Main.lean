import OrmDdl.Arguments.Reader
import OrmDdl.Arguments.Usage
import OrmDdl.Run.Basic
/-!
# The program

Fetches what a run looks at, lets it run and puts out what it says.
-/

namespace OrmDdl.Main

/-- The fault of an error of the system. -/
def faultOf : IO.Error → FileFault
  | .noFileOrDirectory .. => .missing
  | .permissionDenied _ code details | .resourceExhausted _ code details
  | .resourceVanished code details | .otherError code details =>
    .refused (details ++ " (os error " ++ toString code ++ ")")
  | e => .refused e.toString

/-- A file of the disk as a node. -/
def fetchFile (path : String) : IO FileNode := do
  match ← (IO.FS.readBinFile path).toBaseIO with
  | .ok bytes => return .file (String.fromUTF8? bytes)
  | .error e => return .lockedFile (faultOf e)

/-- What lies at a path of the disk; of the files below a folder only those that hold documents. -/
partial def fetch (path : String) : IO (Except FileFault FileNode) := do
  match ← (IO.FS.realPath path).toBaseIO with
  | .error e => return .error (faultOf e)
  | .ok found =>
    if !(← found.isDir) then return .ok (← fetchFile path)
    match ← found.readDir.toBaseIO with
    | .error e => return .ok (.lockedFolder (faultOf e))
    | .ok inside =>
      let mut entries := []
      for entry in inside do
        if SchemaDocument.isDocumentName entry.fileName || (← entry.path.isDir) then
          let node := match ← fetch entry.path.toString with
            | .ok node => node
            | .error fault => .lockedFile fault
          entries := (entry.fileName, node) :: entries
      return .ok (.folder entries)

/-- Puts out a text, and the status once that is done. -/
def put (o : Output) : IO UInt32 := do
  let deliver : IO Unit := match o.path with
    | some path => IO.FS.withFile path .write fun file => do
      file.putStr o.text
      file.flush
    | none => do
      IO.print o.text
      (← IO.getStdout).flush
  match ← deliver.toBaseIO with
  | .error e =>
    IO.eprint (o.error (faultOf e)).text
    return 1
  | .ok () =>
    IO.eprint o.status
    return 0

/-- Runs what arguments ask for. -/
def run (a : Arguments) : IO UInt32 := do
  let values ← Settings.variableNames.mapM fun name => return (name, ← IO.getEnv name)
  let found ← a.paths.mapM fun path => return (path, ← fetch path)
  let look (path : String) := (found.lookup path).getD (.error .missing)
  match a.output look (fun name => (values.lookup name).join) with
  | .ok o => put o
  | .error e =>
    IO.eprint e.text
    return 1

end OrmDdl.Main

def main (words : List String) : IO UInt32 := do
  match OrmDdl.Arguments.parse words with
  | .ok a => OrmDdl.Main.run a
  | .error e =>
    if e.isRequest then
      IO.print e.text
      return 0
    else
      IO.eprint e.text
      return 2
