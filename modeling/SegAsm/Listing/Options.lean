import SegAsm.Text.Quoted

/-! Listing options, written as letters. -/
namespace SegAsm.Listing

structure Options where
  /-- Letter `c`: print the listing too. -/
  console : Bool := false
  /-- Letter `l`: write the lexemes. -/
  lexemes : Bool := false
  /-- Letter `f`: write the listing of the first pass. -/
  firstPass : Bool := false
  /-- Letter `a`: show the assume table after each `ASSUME` line. -/
  assume : Bool := false
deriving DecidableEq, Repr, Inhabited

/-- What is wrong with an option text. -/
inductive OptionsError where
  | twice (letter : Char) (text : String)
  | unknown (letter : Char) (text : String)
deriving DecidableEq, Repr

def OptionsError.message : OptionsError → String
  | .twice c text => "option " ++ Text.quotedChar c ++ " given twice in " ++ Text.quoted text
  | .unknown c text => "unknown option " ++ Text.quotedChar c ++ " in " ++ Text.quoted text

namespace Options

/-- Sets the option of a letter. -/
def enable? (o : Options) : Char → Option Options
  | 'c' => some { o with console := true }
  | 'l' => some { o with lexemes := true }
  | 'f' => some { o with firstPass := true }
  | 'a' => some { o with assume := true }
  | _ => none

/-- Reads letters on, after those seen before. -/
def parseLetters (text : String) (o : Options) (seen : List Char) :
    List Char → Except OptionsError Options
  | [] => .ok o
  | c :: cs =>
    if seen.contains c then .error (.twice c text)
    else
      match o.enable? c with
      | some o' => parseLetters text o' (c :: seen) cs
      | none => .error (.unknown c text)

/-- Reads option letters behind an optional dash; none may occur twice. -/
def parse (text : String) : Except OptionsError Options :=
  parseLetters text {} [] <|
    match text.toList with
    | '-' :: cs => cs
    | cs => cs

/-- What is set in either. -/
def merge (o other : Options) : Options :=
  { console := o.console || other.console
    lexemes := o.lexemes || other.lexemes
    firstPass := o.firstPass || other.firstPass
    assume := o.assume || other.assume }

def letters (o : Options) : String :=
  (if o.console then "c" else "") ++ (if o.lexemes then "l" else "") ++
    (if o.firstPass then "f" else "") ++ (if o.assume then "a" else "")

end Options

end SegAsm.Listing
