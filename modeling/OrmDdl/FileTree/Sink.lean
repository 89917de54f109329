import OrmDdl.FileTree.Path
/-!
# Sinks

What takes the bytes that are written: a stream or the disk. Either may take all of them, or only
so many before a fault.
-/

namespace OrmDdl

/-- How many bytes are taken before which fault, if there is one. -/
structure Sink where
  limit : Option (Nat × FileFault) := none

/-- The disk, which may also refuse to open a file. -/
structure Disk extends Sink where
  refusal : Option FileFault := none

/-- The bytes that are taken of a text, and the fault if these are not all. -/
def Sink.take (s : Sink) (text : String) : ByteArray × Option FileFault :=
  match s.limit with
  | none => (text.toUTF8, none)
  | some (bytes, fault) =>
    if text.utf8ByteSize ≤ bytes then (text.toUTF8, none)
    else (text.toUTF8.extract 0 bytes, some fault)

end OrmDdl
