import SegAsm.Lexeme.Scan
import SegAsm.Register
import SegAsm.Symbol
import SegAsm.Text.Blank
import SegAsm.Text.Number

/-! What can be wrong with a line, and where. -/
namespace SegAsm

/-- A place in a text: line and byte offset, both from 0. -/
structure Position where
  line : Int
  char : Int
deriving DecidableEq, Repr, Inhabited

structure Range where
  start : Position
  stop : Position
deriving DecidableEq, Repr, Inhabited

namespace Range

def ofLexemes (line : Nat) (first last : Lexeme) : Range :=
  ⟨⟨line, first.start⟩, ⟨line, last.stop⟩⟩

def ofLexeme (line : Nat) (l : Lexeme) : Range :=
  ofLexemes line l l

/-- The code of a line, up to its comment. -/
def ofLine (line : Nat) (text : String) : Range :=
  ⟨⟨line, 0⟩, ⟨line, byteLength (codePart text)⟩⟩

/-- Narrows a range by the blanks at both ends of a text, and drops them from it. -/
def trim (r : Range) (text : String) : Range × String :=
  let cs := text.toList
  let left := cs.dropWhile Text.isBlank
  let both := (left.toArray.popWhile Text.isBlank).toList
  (⟨⟨r.start.line, r.start.char + (cs.length - left.length : Nat)⟩,
    ⟨r.stop.line, r.stop.char - (left.length - both.length : Nat)⟩⟩, String.ofList both)

end Range

inductive Severity where
  | error
  | warning
deriving DecidableEq, Repr, Inhabited

def Severity.code : Severity → Nat
  | .error => 1
  | .warning => 2

/-- The causes of diagnostics. -/
inductive Problem where
  | invalidLine (text template : String)
  | duplicateIdentifier (name : String) (previousLine : Nat)
  | segmentAlreadyOpen (name current : String)
  | segmentMismatch (name current : String)
  | constantTooLarge (text : String) (type : SymbolType)
  | constantOverflow (text : String)
  | notNumeric (text : String)
  | textNotAllowed (type : SymbolType)
  | unknownIdentifier (name : String)
  | operandSizeMismatch (register : Register) (symbol : Symbol)
  | registerSizeMismatch (first second : Register)
  | immediateTooLarge (text : String) (register : Register)
  | segmentNotAssumed (symbol : Symbol)
  | unresolvedJump (name : String)
  | byteFormIncrement (symbol : Symbol)
  | immediateTruncated (text : String) (symbol : Symbol)
deriving DecidableEq, Repr

namespace Problem

def severity : Problem → Severity
  | .byteFormIncrement _ | .immediateTruncated _ _ => .warning
  | _ => .error

/-- A text between double quotes, as it is. -/
def inQuotes (s : String) : String :=
  "\"" ++ s ++ "\""

def message : Problem → String
  | .invalidLine text template =>
    "Invalid line: " ++ inQuotes text ++
      (if template.isEmpty then "" else ", unsupported form " ++ inQuotes template)
  | .duplicateIdentifier name previousLine =>
    "Identifier " ++ inQuotes name ++ " is already declared on line " ++ Text.decimal previousLine
  | .segmentAlreadyOpen name current =>
    "Cannot open segment " ++ inQuotes name ++ " inside segment " ++ inQuotes current
  | .segmentMismatch name current =>
    "ENDS for " ++ inQuotes name ++ " does not match the open segment " ++ inQuotes current
  | .constantTooLarge text type =>
    "Constant " ++ inQuotes text ++ " does not fit in " ++ type.name ++ " (" ++
      Text.decimal type.size ++ " bytes)"
  | .constantOverflow text =>
    "Constant " ++ inQuotes text ++ " overflows 32 bits"
  | .notNumeric text =>
    "Expected numeric constant, got: " ++ inQuotes text
  | .textNotAllowed type =>
    "Text constants are only allowed with DB, not " ++ type.name
  | .unknownIdentifier name =>
    "Unknown identifier: " ++ inQuotes name
  | .operandSizeMismatch register symbol =>
    "Register " ++ register.name ++ " (" ++ Text.decimal register.size ++
      " bytes) does not match " ++ inQuotes symbol.name ++ " of type " ++ symbol.type.name
  | .registerSizeMismatch first second =>
    "Registers " ++ first.name ++ " and " ++ second.name ++ " have different sizes"
  | .immediateTooLarge text register =>
    "Immediate value " ++ inQuotes text ++ " does not fit in " ++ register.name
  | .segmentNotAssumed symbol =>
    inQuotes symbol.name ++ " is in segment " ++ inQuotes symbol.segment ++
      " which no segment register is assumed to address"
  | .unresolvedJump name =>
    "Jump target " ++ inQuotes name ++ " is never declared"
  | .byteFormIncrement symbol =>
    "INC is encoded with FE (byte form) although " ++ inQuotes symbol.name ++ " is " ++
      symbol.type.name
  | .immediateTruncated text symbol =>
    "Immediate value " ++ inQuotes text ++ " is truncated to the size of " ++
      inQuotes symbol.name ++ " (" ++ symbol.type.name ++ ")"

end Problem

/-- A problem at a place of the source. -/
structure Diagnostic where
  range : Range
  problem : Problem
deriving DecidableEq, Repr

namespace Diagnostic

def severity (d : Diagnostic) : Severity :=
  d.problem.severity

def message (d : Diagnostic) : String :=
  d.problem.message

def isError (d : Diagnostic) : Bool :=
  d.severity == .error

/-- Who reports a diagnostic. -/
def source : String := "Assembler"

/-- A line of no form. Its range is that of the code, narrowed by the blanks at both ends of the
whole line. -/
def invalidLine (line : Nat) (text template : String) : Diagnostic :=
  let (range, shown) := (Range.ofLine line text).trim text
  ⟨range, .invalidLine shown template⟩

end Diagnostic

end SegAsm
