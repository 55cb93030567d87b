import SegAsm.Lexeme.Scan
import SegAsm.Register
import SegAsm.Text.Blank
import SegAsm.Text.Replace
import SegAsm.Text.Upper

/-! Forms of source lines. The template of a line writes each lexeme as a token; a line is valid
if its template, less a label in front, is the pattern of a form. -/
namespace SegAsm

/-- What a line is for. -/
inductive LineKind where
  | beginSegment
  | endSegment
  | dataDeclaration
  | label
  | assume
  | instructions
  | jump
  | finish
  | invalid
  | empty
deriving DecidableEq, Repr, Inhabited

namespace LineKind

def all : List LineKind :=
  [.beginSegment, .endSegment, .dataDeclaration, .label, .assume, .instructions, .jump, .finish,
    .invalid, .empty]

def name : LineKind → String
  | .beginSegment => "BEGIN_SEGMENT"
  | .endSegment => "END_SEGMENT"
  | .dataDeclaration => "DATA_DECLARATION"
  | .label => "LABEL"
  | .assume => "ASSUME"
  | .instructions => "INSTRUCTIONS"
  | .jump => "JUMP"
  | .finish => "END"
  | .invalid => "ERROR_LINE"
  | .empty => "EMPTY"

end LineKind

/-- The shapes a line can have. -/
inductive Form where
  | beginSegment
  | endSegment
  | assume
  | finishAt
  | finish
  | label
  | dataByte
  | dataWord
  | dataDouble
  | dataText
  | cli
  | inc
  | incOverride
  | dec
  | add
  | addOverride
  | cmp
  | cmpOverride
  | xor
  | xorOverride
  | mov
  | or
  | jb
  | jmp
  | empty
deriving DecidableEq, Repr, Inhabited

namespace Form

def all : List Form :=
  [.beginSegment, .endSegment, .assume, .finishAt, .finish, .label, .dataByte, .dataWord,
    .dataDouble, .dataText, .cli, .inc, .incOverride, .dec, .add, .addOverride, .cmp, .cmpOverride,
    .xor, .xorOverride, .mov, .or, .jb, .jmp, .empty]

def ordinal (f : Form) : Nat :=
  all.idxOf f

/-- The template of the lines of this form. -/
def pattern : Form → String
  | .beginSegment => "ID SEGMENT"
  | .endSegment => "ID ENDS"
  | .assume => "ASSUME rS : ID"
  | .finishAt => "END ID"
  | .finish => "END"
  | .label => "ID :"
  | .dataByte => "ID DB CONST"
  | .dataWord => "ID DW CONST"
  | .dataDouble => "ID DD CONST"
  | .dataText => "ID DB C_STR"
  | .cli => "CLI"
  | .inc => "INC ID [ ADDR ]"
  | .incOverride => "INC rS : ID [ ADDR ]"
  | .dec => "DEC reg"
  | .add => "ADD ID [ ADDR ] , CONST"
  | .addOverride => "ADD rS : ID [ ADDR ] , CONST"
  | .cmp => "CMP reg , ID [ ADDR ]"
  | .cmpOverride => "CMP reg , rS : ID [ ADDR ]"
  | .xor => "XOR ID [ ADDR ] , reg"
  | .xorOverride => "XOR rS : ID [ ADDR ] , reg"
  | .mov => "MOV reg , CONST"
  | .or => "OR reg , reg"
  | .jb => "JB ID"
  | .jmp => "JMP ID"
  | .empty => ""

def kind : Form → LineKind
  | .beginSegment => .beginSegment
  | .endSegment => .endSegment
  | .assume => .assume
  | .finishAt | .finish => .finish
  | .label => .label
  | .dataByte | .dataWord | .dataDouble | .dataText => .dataDeclaration
  | .jb | .jmp => .jump
  | .empty => .empty
  | _ => .instructions

/-- The form with the given template. -/
def ofTemplate? (template : String) : Option Form :=
  all.find? (·.pattern == template)

end Form

/-- The token of a general register: of one byte, wide, able to address memory, or neither. -/
def registerToken (r : Register) : String :=
  if r.size = 1 then "r8"
  else if r.isWide then "r32"
  else if r.name.toList.any fun c => c == 'B' || c == 'I' then "r16a"
  else "r16"

/-- The token of a single lexeme. -/
def Lexeme.token (l : Lexeme) : String :=
  match l.kind with
  | .mnemonic | .directive | .dataDirective => Text.upperString l.text
  | .generalRegister => registerToken (.ofOperand l.text)
  | .segmentRegister => "rS"
  | .binary | .decimal | .hexadecimal => "CONST"
  | .quoted => "C_STR"
  | .symbol => l.text
  | .identifier => "ID"
  | .invalid => if l.text.isEmpty then "" else "<Error lexeme " ++ l.text ++ ">"

/-- A register that can address memory between brackets becomes an address, and any other one an
operand. -/
def mergeRegisters (cs : List Char) : List Char :=
  Text.replaceAny ["r16a", "r16", "r32", "r8"] "reg"
    (Text.replaceAny ["[ r16a ]", "[ r32 ]"] "[ ADDR ]" cs)

/-- A text constant stands for a number, unless a `DB` declares it. -/
def mergeText (cs : List Char) : List Char :=
  if Text.occurs "DB C_STR".toList cs then cs else Text.replaceAny ["C_STR"] "CONST" cs

/-- All pairs of an `ASSUME` but the first are left out. -/
def mergeAssumes (cs : List Char) : List Char :=
  if Text.occurs "ASSUME".toList cs then Text.replaceAny [" , rS : ID"] "" cs else cs

/-- The template of a line with these lexemes. -/
def template (ls : List Lexeme) : String :=
  String.ofList (mergeAssumes (mergeText (mergeRegisters
    (String.intercalate " " (ls.map Lexeme.token)).toList)))

/-- A template that starts with a label and goes on. -/
def startsWithLabel (template : String) : Bool :=
  template != "ID :" && "ID :".toList.isPrefixOf template.toList

/-- A line matched against the forms. -/
structure Classified where
  /-- The label in front of the line. -/
  label : Option Lexeme
  /-- The lexemes behind the label. -/
  operands : List Lexeme
  /-- The template behind the label. -/
  template : String
deriving DecidableEq, Repr

namespace Classified

def form? (c : Classified) : Option Form :=
  Form.ofTemplate? c.template

def kind (c : Classified) : LineKind :=
  (c.form?.map Form.kind).getD .invalid

end Classified

/-- Splits a label off and keeps the template of the rest. -/
def classify (ls : List Lexeme) : Classified :=
  let whole := template ls
  if startsWithLabel whole then
    { label := ls.head?
      operands := ls.drop 2
      template := String.ofList (Text.trimWhite (whole.toList.drop 4)) }
  else
    { label := none, operands := ls, template := whole }

/-- What a source line is for. -/
def lineKind (line : String) : LineKind :=
  (classify (lexemes line)).kind

end SegAsm
