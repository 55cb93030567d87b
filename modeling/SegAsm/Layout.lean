import SegAsm.Program

/-! Source layout: labels and directives start a line, and instructions stand behind the longest
label. -/
namespace SegAsm.Layout

/-- What has been read of a line while its blanks are collapsed. -/
structure Collapsed where
  /-- The output, reversed. -/
  done : List Char := []
  inText : Bool := false
  /-- Whether blanks stand before the next character. -/
  pending : Bool := false
deriving Repr, Inhabited

/-- One blank for every run of blanks outside of text constants. -/
def Collapsed.push (s : Collapsed) (c : Char) : Collapsed :=
  let inText := if c = '\x27' then !s.inText else s.inText
  if !inText && Text.isBlank c then { s with pending := true }
  else
    { done := c :: (if s.pending then ' ' :: s.done else s.done), inText, pending := false }

/-- Trims the code of a line and collapses its blanks. -/
def collapse (code : List Char) : List Char :=
  ((Text.trimWhite code).foldl Collapsed.push {}).done.reverse

def blanks (n : Nat) : List Char :=
  List.replicate n ' '

/-- The column of instructions: two behind the longest label. -/
def column (p : Program) : Nat :=
  ((p.symbols.filter (·.type == .label)).map (·.name.utf8ByteSize)).foldl max 0 + 2

/-- Lays out the code of a line, given with its blanks collapsed. -/
def layoutCode (column : Nat) (code : List Char) : List Char :=
  let text := String.ofList code
  match lexemes text with
  | first :: second :: _ :: _ =>
    if first.kind = .identifier && second.text == ":" then
      let rest := Text.trimWhite ((code.dropWhile (· ≠ ':')).drop 1)
      let gap := max 1 (column - first.text.utf8ByteSize - 1)
      first.text.toList ++ ':' :: blanks gap ++ rest
    else indented text
  | _ => indented text
where
  indented (text : String) : List Char :=
    let kind := lineKind text
    if kind = .instructions || kind = .jump then blanks column ++ text.toList else text.toList

/-- Lays out one line; its comment and a carriage return at its end are kept. -/
def layoutLine (column : Nat) (line : String) : String :=
  let cs := Text.dropReturn line.toList
  let ending := if line.toList.getLast? = some '\r' then ['\r'] else []
  let code := collapse (cs.takeWhile (· ≠ ';'))
  let comment := cs.dropWhile (· ≠ ';')
  let code := if code.isEmpty then [] else layoutCode column code
  let gap := if code.isEmpty || comment.isEmpty then [] else [' ']
  String.ofList (code ++ gap ++ comment ++ ending)

/-- Lays out a whole source. -/
def reformat (source : String) : String :=
  let column := column (assemble source)
  String.intercalate "\n" ((Text.pieces source).map (layoutLine column))

end SegAsm.Layout
