/-! Replacing the occurrences of patterns in a text. -/
namespace SegAsm.Text

/-- Scans from left to right with `skip` characters of the last occurrence still to pass; `done`
is the output so far, reversed. -/
def replaceFrom (patterns : List (List Char)) (new : List Char) (done : List Char) :
    (skip : Nat) → List Char → List Char
  | _, [] => done.reverse
  | skip + 1, _ :: cs => replaceFrom patterns new done skip cs
  | 0, c :: cs =>
    match patterns.find? fun p => p.isPrefixOf (c :: cs) with
    | some p => replaceFrom patterns new (new.reverse ++ done) (p.length - 1) cs
    | none => replaceFrom patterns new (c :: done) 0 cs

/-- Replaces every leftmost occurrence of one of the non-empty patterns; where several of them
start, the first one listed counts. -/
def replaceAny (patterns : List String) (new : String) (cs : List Char) : List Char :=
  replaceFrom (patterns.map String.toList) new.toList [] 0 cs

/-- Whether the pattern occurs in the text. -/
def occurs (pattern : List Char) : List Char → Bool
  | [] => pattern.isEmpty
  | c :: cs => pattern.isPrefixOf (c :: cs) || occurs pattern cs

end SegAsm.Text
