/-!
# Paths

A path as a text names a file by the folders that lead to it. It is read into its steps, of which
an empty one and `.` stay in a folder and `..` leaves it.
-/

namespace OrmDdl

/-- Why a path is not read or written. -/
inductive FileFault where
  | missing
  | notFolder
  | isFolder
  | nameTooLong
  | zeroInName
  | notText
  /-- Any other reason that the system gives. -/
  | refused (message : String)
deriving DecidableEq

def FileFault.message : FileFault → String
  | missing => "No such file or directory (os error 2)"
  | notFolder => "Not a directory (os error 20)"
  | isFolder => "Is a directory (os error 21)"
  | nameTooLong => "File name too long (os error 36)"
  | zeroInName => "file name contained an unexpected NUL byte"
  | notText => "stream did not contain valid UTF-8"
  | refused message => message

/-- The steps of a path, from the root or from the working folder. -/
structure Path where
  fromRoot : Bool
  steps : List String
deriving DecidableEq

namespace Path

/-- The pieces of a text between slashes. -/
def pieces : List Char → List (List Char)
  | [] => [[]]
  | c :: r =>
    if c = '/' then [] :: pieces r
    else
      match pieces r with
      | [] => [[c]]
      | piece :: rest => (c :: piece) :: rest

theorem pieces_ne_nil (s : List Char) : pieces s ≠ [] := by
  cases s with
  | nil => simp [pieces]
  | cons c r =>
    simp only [pieces]
    split
    · simp
    · split <;> simp

/-- Pieces hold no slash. -/
theorem slash_not_mem_of_mem_pieces {s p : List Char} (h : p ∈ pieces s) : '/' ∉ p := by
  induction s generalizing p with
  | nil => simp_all [pieces]
  | cons c r ih =>
    simp only [pieces] at h
    split at h
    · rcases List.mem_cons.1 h with rfl | h
      · simp
      · exact ih h
    · rename_i hc
      split at h
      · rename_i he
        exact absurd he (pieces_ne_nil r)
      · rename_i q rest he
        rcases List.mem_cons.1 h with rfl | h
        · have := ih (p := q) (by simp [he])
          simp [this, Ne.symm hc]
        · exact ih (by simp [he, h])

/-- The longest path and the longest name of a file, in bytes. -/
def maxBytes : Nat := 4095

def maxNameBytes : Nat := 255

/-- Whether a path is longer than any that can be followed. -/
def isTooLong (text : String) : Bool := maxBytes < text.utf8ByteSize

/-- The path of a text. -/
def parse (text : String) : Except FileFault Path :=
  if '\x00' ∈ text.toList then .error .zeroInName
  else if isTooLong text then .error .nameTooLong
  else
    match text.toList with
    | [] => .error .missing
    | '/' :: r => .ok ⟨true, (pieces r).map String.ofList⟩
    | s => .ok ⟨false, (pieces s).map String.ofList⟩

/-- The text of a path with one more name. -/
def join (folder name : String) : String :=
  if folder.toList.getLast? = some '/' then folder ++ name else folder ++ "/" ++ name

end Path

end OrmDdl
