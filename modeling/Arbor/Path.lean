import Arbor.Text.Quoted

/-! # Paths

A path is a text whose parts are divided by slashes.
-/

namespace Arbor.Path

/-- The parts of a path; empty parts and single dots lead nowhere. A path from the root has the
root as its first part. -/
def parts (path : String) : List String :=
  let parts := (path.toList.splitOn '/').map String.ofList
  (if path.startsWith "/" then ["/"] else []) ++ parts.filter fun p => p ≠ "" && p ≠ "."

def parent (path : String) : List String := (parts path).dropLast

/-- The name of what a path leads to, unless it leads upwards. -/
def fileName? (path : String) : Option String :=
  (parts path).getLast?.filter fun p => p ≠ ".." && p ≠ "/"

/-- What follows the last dot of a file's name; a dot at its start does not count. -/
def extension? (path : String) : Option String :=
  (fileName? path).bind fun name =>
    match name.toList.reverse.span (· ≠ '.') with
    | (_, []) | (_, ['.']) => none
    | (last, _) => some (String.ofList last.reverse)

/-- A path between double quotes. Single quotes are escaped as well. -/
def quoted (path : String) : String :=
  String.ofList
    ('"' :: path.toList.flatMap (fun c => if c = '\'' then ['\\', c] else Text.escape c) ++ ['"'])

end Arbor.Path
