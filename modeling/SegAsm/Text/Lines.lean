import SegAsm.Text.Blank

/-! Lines of a text. -/
namespace SegAsm.Text

/-- The pieces between line feeds; there is always at least one. -/
def pieces (s : String) : List String :=
  (s.toList.splitOn '\n').map String.ofList

/-- Drops one carriage return from the end. -/
def dropReturn (cs : List Char) : List Char :=
  if cs.getLast? = some '\r' then cs.dropLast else cs

/-- The lines of a source: LF and CRLF both end a line, and a final line end starts no further
line. -/
def splitLines (s : String) : List String :=
  let parts := s.toList.splitOn '\n'
  let parts := if parts.getLast? = some [] then parts.dropLast else parts
  parts.map fun cs => String.ofList (dropReturn cs)

/-- Every line followed by a line feed. -/
def unlines (ls : List String) : String :=
  String.join (ls.map (· ++ "\n"))

end SegAsm.Text
