set_option autoImplicit false

namespace MethodPatch.Path

/-- The runs of characters between slashes. -/
def parts (path : String) : List String := (path.toList.splitOn '/').map String.ofList

/-- The last part that names something; a path that ends by going up has none. -/
def fileName? (path : String) : Option String :=
  ((parts path).filter fun part => part != "" && part != ".").getLast?.filter (· != "..")

/-- What follows the last dot of the file name, unless that dot is its first character. -/
def extension? (path : String) : Option String :=
  match fileName? path with
  | none => none
  | some name =>
      let backwards := name.toList.reverse
      match backwards.dropWhile (· != '.') with
      | [] => none
      | [_] => none
      | _ => some (String.ofList (backwards.takeWhile (· != '.')).reverse)

/-- The greatest number of bytes in a path. -/
def longest : Nat := 4095

/-- The greatest number of bytes in one part of a path. -/
def longestPart : Nat := 255

/-- Whether a path can name anything: it is neither empty nor too long, nor is a part of it, and no
null character stands in it. -/
def isUsable (path : String) : Bool :=
  path != "" && path.utf8ByteSize ≤ longest && path.toList.all (· != '\x00') &&
    (parts path).all fun part => part.utf8ByteSize ≤ longestPart

/-- An absolute path begins at the root, any other in the working directory. -/
def isAbsolute (path : String) : Bool := path.toList.head? == some '/'

/-- Taking one part of a path, after the names that the parts before it have led to from the root.
Above the root stands the root itself. -/
def step (trail : List String) (part : String) : List String :=
  if part = "" ∨ part = "." then trail
  else if part = ".." then trail.dropLast
  else trail ++ [part]

/-- The path of an entry of a directory. -/
def join (directory name : String) : String :=
  match directory.toList.getLast? with
  | none => name
  | some '/' => directory ++ name
  | some _ => directory ++ "/" ++ name

/-- A lone dash stands for standard output, also when slashes and dots follow it. -/
def isStandardOutput (path : String) : Bool :=
  match parts path with
  | "-" :: rest => rest.all fun part => part == "" || part == "."
  | _ => false

end MethodPatch.Path
