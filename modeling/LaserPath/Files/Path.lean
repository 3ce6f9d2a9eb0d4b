import LaserPath.Text.Blank

/-!
# Paths

A path is a text of names between slashes. Empty names and single dots have no
meaning.

## Main definitions

* `Path.names` — the names of a path; `Path.ending` tells what follows the last.
* `Path.extension?` — the extension of the last name.
* `Path.join` — a name within a directory.
-/

namespace LaserPath.Path

/-- The names of a path. -/
def names (path : String) : List String :=
  ((wordsBy (· == '/') path.toList).map String.ofList).filter (· != ".")

/-- Does a path begin at the root? -/
def isAbsolute (path : String) : Bool := path.toList.head? == some '/'

/-- How a path ends. Only behind a name may there be a file. -/
inductive Ending where
  | name
  /-- In slashes behind a name. -/
  | slash
  /-- In a single dot, with slashes behind it or without. -/
  | dot
  deriving DecidableEq, Repr

/-- How a path ends. -/
def ending (path : String) : Ending :=
  let backwards := path.toList.reverse
  if (backwards.dropWhile (· == '/')).takeWhile (· != '/') == ['.'] then .dot
  else if backwards.head? == some '/' then .slash
  else .name

/-- The extension of a name: what stands behind its last dot, if something
stands before it. -/
def extensionOf? (name : List Char) : Option (List Char) :=
  let backwards := name.reverse
  let front := (backwards.dropWhile (· != '.')).drop 1
  if front.isEmpty || name == ['.', '.'] then none
  else some (backwards.takeWhile (· != '.')).reverse

/-- The extension of the last name of a path. -/
def extension? (path : String) : Option String :=
  ((names path).getLast?.bind fun name => extensionOf? name.toList).map String.ofList

/-- The path of a name within a directory. -/
def join (directory name : String) : String :=
  if directory.isEmpty || directory.toList.getLast? == some '/' then directory ++ name
  else directory ++ "/" ++ name

example : extension? "c.toml.json" = some "json" := by decide +kernel
example : extension? "d/.json" = none := by decide +kernel
example : join "d/" "x" = "d/x" := by decide +kernel
example : ending "d/./" = .dot := by decide +kernel

end LaserPath.Path
