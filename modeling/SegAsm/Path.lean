import SegAsm.Text.Fold

/-! Paths with slashes between their elements. -/
namespace SegAsm.Path

/-- The part of the last element from its last dot on, or nothing. -/
def extension (path : String) : String :=
  let last := path.toList.reverse.takeWhile (· ≠ '/')
  if last.contains '.' then String.ofList ('.' :: (last.takeWhile (· ≠ '.')).reverse) else ""

/-- Adds an extension to a path without one. -/
def addExtension (path ext : String) : String :=
  if (extension path).isEmpty then path ++ ext else path

/-- Puts a suffix in place of the extension. -/
def replaceExtension (path suffix : String) : String :=
  let cs := path.toList
  String.ofList (cs.take (cs.length - (extension path).length)) ++ suffix

/-- The path of a listing: it has the extension `.lst`, in any case. -/
def ofListing (path : String) : String :=
  if Text.sameFold (extension path) ".lst" then path else path ++ ".lst"

/-- The elements of a path, without those that stay in place. -/
def elements (path : String) : List String :=
  ((path.toList.splitOn '/').map String.ofList).filter fun e => e != "" && e != "."

def isRooted (path : String) : Bool :=
  path.toList.head? == some '/'

/-- Goes to the next element. Two dots take back the last one; at the start of a path without
root they stay. -/
def enter (rooted : Bool) (done : List String) (e : String) : List String :=
  if e == ".." then
    match done.getLast? with
    | none => if rooted then [] else [e]
    | some last => if last == ".." then done ++ [e] else done.dropLast
  else done ++ [e]

/-- The shortest path that means the same. -/
def clean (path : String) : String :=
  let rooted := isRooted path
  let text := String.intercalate "/" ((elements path).foldl (enter rooted) [])
  if rooted then "/" ++ text else if text.isEmpty then "." else text

/-- The path of a name in a directory. -/
def join (directory name : String) : String :=
  clean (if directory.isEmpty then name else directory ++ "/" ++ name)

end SegAsm.Path
