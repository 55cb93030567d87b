import SegAsm.Path

/-! Reading and writing files, and trees of files as values. -/
namespace SegAsm

/-- Why a file cannot be used. -/
inductive FileCause where
  | missing
  | notDirectory
  | isDirectory
  | other (message : String)
deriving DecidableEq, Repr

def FileCause.message : FileCause → String
  | .missing => "no such file or directory"
  | .notDirectory => "not a directory"
  | .isDirectory => "is a directory"
  | .other message => message

/-- A step that failed. -/
structure FileFailure where
  step : String
  path : String
  cause : FileCause
deriving DecidableEq, Repr

def FileFailure.message (f : FileFailure) : String :=
  f.step ++ " " ++ f.path ++ ": " ++ f.cause.message

/-- What a program does with files. -/
structure FileAccess (m : Type → Type) where
  read : String → m (Except FileFailure String)
  write : (path content : String) → m (Except FileFailure Unit)
  isThere : String → m Bool
  /-- Makes a directory with all that lead to it. -/
  makeDirectory : String → m (Except FileFailure Unit)

/-- The files and directories below a working directory, by the elements of their paths. A path
that leaves the working directory starts with two dots. -/
structure FileTree where
  files : List (List String × String) := []
  directories : List (List String) := []
deriving Repr, Inhabited

namespace FileTree

def content? (t : FileTree) (place : List String) : Option String :=
  (t.files.find? (·.1 == place)).map Prod.snd

/-- A directory is listed, leads to something, or lies above the working directory. -/
def isDirectory (t : FileTree) (place : List String) : Bool :=
  place.all (· == "..") ||
    (t.directories ++ t.files.map (·.1.dropLast)).any place.isPrefixOf

/-- Follows the elements of a path; all but the last one must be directories. -/
def follow (t : FileTree) (place : List String) : List String → Except FileCause (List String)
  | [] => .ok place
  | e :: es =>
    if t.isDirectory place then t.follow (Path.enter false place e) es
    else .error (if (t.content? place).isSome then .notDirectory else .missing)

/-- Where a path leads. -/
def locate (t : FileTree) (path : String) : Except FileCause (List String) :=
  if path.isEmpty || Path.isRooted path then .error .missing
  else t.follow [] (Path.elements path)

/-- Whether a path only names a directory. -/
def endsInSlash (path : String) : Bool :=
  path.toList.getLast? == some '/'

def read (t : FileTree) (path : String) : Except FileFailure String :=
  match t.locate path with
  | .error cause => .error ⟨"open", path, cause⟩
  | .ok place =>
    match t.content? place with
    | some content =>
      if endsInSlash path then .error ⟨"open", path, .notDirectory⟩ else .ok content
    | none =>
      if t.isDirectory place then .error ⟨"read", path, .isDirectory⟩
      else .error ⟨"open", path, .missing⟩

def isThere (t : FileTree) (path : String) : Bool :=
  match t.read path with
  | .ok _ => true
  | .error f => f.cause == .isDirectory

def put (t : FileTree) (place : List String) (content : String) : FileTree :=
  { t with files := t.files.filter (·.1 != place) ++ [(place, content)] }

/-- Writes a file, in the place of an earlier one. -/
def write (t : FileTree) (path content : String) : Except FileFailure FileTree :=
  match t.locate path with
  | .error cause => .error ⟨"open", path, cause⟩
  | .ok place =>
    if t.isDirectory place || endsInSlash path then .error ⟨"open", path, .isDirectory⟩
    else .ok (t.put place content)

/-- Makes the directories of a path one after the other, behind those of `place`. -/
def makeFrom (t : FileTree) (place : List String) : List String → Except FileFailure FileTree
  | [] => .ok t
  | e :: es =>
    let next := Path.enter false place e
    if (t.content? next).isSome then
      .error ⟨"mkdir", String.intercalate "/" next, .notDirectory⟩
    else makeFrom { t with directories := t.directories ++ [next] } next es

def makeDirectory (t : FileTree) (path : String) : Except FileFailure FileTree :=
  t.makeFrom [] (Path.elements path)

/-- A tree from paths and contents; a path that ends in a slash is an empty directory. -/
def ofEntries (entries : List (String × String)) : FileTree :=
  entries.foldl (fun t (path, content) =>
    if endsInSlash path then { t with directories := t.directories ++ [Path.elements path] }
    else t.put (Path.elements path) content) {}

/-- The files of a tree that an earlier one lacks or holds with another content, by their paths. -/
def changes (t earlier : FileTree) : List (String × String) :=
  let changed := t.files.filter fun (place, content) =>
    place.head? != some ".." && earlier.content? place != some content
  (changed.map fun (place, content) => (String.intercalate "/" place, content)).mergeSort
    fun a b => a.1 ≤ b.1

/-- Keeps a new tree, or says what went wrong. -/
def update (f : FileTree → Except FileFailure FileTree) :
    StateM FileTree (Except FileFailure Unit) := do
  match f (← get) with
  | .ok t =>
    set t
    return .ok ()
  | .error e => return .error e

/-- File access that only changes a tree. -/
def access : FileAccess (StateM FileTree) where
  read path := return (← get).read path
  write path content := update (·.write path content)
  isThere path := return (← get).isThere path
  makeDirectory path := update (·.makeDirectory path)

end FileTree

end SegAsm
