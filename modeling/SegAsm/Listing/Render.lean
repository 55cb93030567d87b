import SegAsm.Listing.Options
import SegAsm.Program

/-! The listing of an assembled program. -/
namespace SegAsm.Listing

/-- What stands before the row of a line that is not correct. -/
def errorTag : String := "Syntax error! : "

/-- The row of a line: number, address, code and text. An `ASSUME` line has blanks for number and
address, and an empty line stays empty. -/
def row (r : LineRecord) : String :=
  if r.kind = .empty then ""
  else
    let start :=
      if r.kind = .assume then "        "
      else Text.padLeft ' ' 3 (Text.decimal r.number) ++ " " ++ Text.hexPadded 4 r.address ++ "    "
    (if r.correct then "" else errorTag) ++ start ++ Text.padRight 20 r.code.text ++ " " ++ r.text

def assumeRows (t : AssumeTable) : List String :=
  "Segment  Register" ::
    SegmentRegister.all.map fun s => Text.padRight 8 (t.get s) ++ " " ++ s.name

/-- The rows of a line with what follows it. -/
def rowsOf (o : Options) (r : LineRecord) : List String :=
  row r ::
    match r.assume with
    | some t => if o.assume && r.correct then assumeRows t else []
    | none => []

def rows (o : Options) (rs : List LineRecord) : List String :=
  rs.flatMap (rowsOf o)

def segmentRows (t : SegmentTable) : List String :=
  "Segment  Size" ::
    t.map fun s => Text.padRight 8 s.name ++ " " ++ Text.padRight 4 (Text.hexPadded 4 s.size)

def symbolRows (t : SymbolTable) : List String :=
  "Name     Type     Address" ::
    t.map fun s => Text.padRight 8 s.name ++ " " ++ Text.padRight 8 s.type.name ++ " " ++
      s.segment ++ ":" ++ Text.hexPadded 4 s.offset

/-- The number of errors, and their lines if there are any. -/
def errorSummary (errorLines : List Int) : List String :=
  ("Errors: " ++ Text.decimal errorLines.length) ::
    if errorLines.isEmpty then []
    else ["Error lines: " ++ String.intercalate " " (errorLines.map Text.signed)]

def errorSummaryOf (p : Program) : List String :=
  errorSummary (p.errorLines.map Int.ofNat)

/-- The whole listing. -/
def render (o : Options) (p : Program) : List String :=
  rows o p.lines ++ [""] ++ segmentRows p.segments ++ [""] ++ symbolRows p.symbols ++ [""] ++
    errorSummaryOf p

/-- The rows as they were before the second pass. -/
def firstPassRows (p : Program) : List String :=
  rows {} p.firstPass

/-- The columns of a lexeme. -/
def lexemeRow (number : Nat) (l : Lexeme) : String :=
  Text.padRight 8 (Text.decimal number) ++ " " ++ Text.padRight 8 l.text ++ " " ++
    Text.padRight 8 (Text.decimal l.text.utf8ByteSize) ++ " " ++ l.kind.description

/-- The lexemes of a line; a line without any has no rows. -/
def lexemeRows (text : String) : List String :=
  let ls := lexemes text
  if ls.isEmpty then []
  else
    ("Source line: " ++ text) :: "No       Lexeme   Length   Type" ::
      (ls.zipIdx 1).map (fun (l, i) => lexemeRow i l) ++ [""]

def lexemeListing (lines : List String) : List String :=
  lines.flatMap lexemeRows

/-- Colours the rows that carry the error tag. -/
def highlight (lines : List String) : List String :=
  lines.map fun line =>
    if errorTag.toList.isPrefixOf line.toList then "\x1b[31m" ++ line ++ "\x1b[0m" else line

end SegAsm.Listing
