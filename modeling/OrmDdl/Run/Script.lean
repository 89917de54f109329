/-!
# Scripts

The text of some statements, with an empty line between two of them.
-/

namespace OrmDdl

/-- The text of statements. -/
def script : List String → String
  | [] => ""
  | statements => "\n\n".intercalate statements ++ "\n"

end OrmDdl
