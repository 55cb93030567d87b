import SegAsm.Text.Fold

/-! Lexemes: the typed words of a source line. -/
namespace SegAsm

/-- What a word of a source line can be. -/
inductive LexemeKind where
  | mnemonic
  | directive
  | generalRegister
  | segmentRegister
  | dataDirective
  | binary
  | decimal
  | hexadecimal
  | quoted
  | symbol
  | identifier
  | invalid
deriving DecidableEq, Repr, Inhabited

namespace LexemeKind

/-- The kinds in the order in which a word is tried against them. -/
def all : List LexemeKind :=
  [.mnemonic, .directive, .generalRegister, .segmentRegister, .dataDirective, .binary, .decimal,
    .hexadecimal, .quoted, .symbol, .identifier, .invalid]

def ordinal (k : LexemeKind) : Nat :=
  all.idxOf k

def description : LexemeKind → String
  | .mnemonic => "Instruction mnemonic"
  | .directive => "Directive"
  | .generalRegister => "General purpose register"
  | .segmentRegister => "Segment register"
  | .dataDirective => "Data directive"
  | .binary => "Binary constant"
  | .decimal => "Decimal constant"
  | .hexadecimal => "Hexadecimal constant"
  | .quoted => "Text constant"
  | .symbol => "Single character"
  | .identifier => "User identifier or undefined"
  | .invalid => "Invalid lexeme"

/-- Whether the kind is a numeric constant. -/
def isNumeric : LexemeKind → Bool
  | .binary | .decimal | .hexadecimal => true
  | _ => false

def mnemonicWords : List String :=
  ["cli", "inc", "dec", "add", "cmp", "xor", "mov", "or", "jb", "jmp"]

def directiveWords : List String :=
  ["segment", "ends", "end", "assume"]

def generalRegisterWords : List String :=
  ["al", "cl", "dl", "bl", "ah", "ch", "dh", "bh", "ax", "cx", "dx", "bx", "sp", "bp", "si", "di",
    "eax", "ecx", "edx", "ebx", "esp", "ebp", "esi", "edi"]

def segmentRegisterWords : List String :=
  ["es", "cs", "ss", "ds", "fs", "gs"]

def dataWords : List String :=
  ["db", "dw", "dd"]

def isHexDigit (c : Char) : Bool :=
  c.isDigit || ('a' ≤ c && c ≤ 'f')

/-- A letter from `a` to `z` or a digit. -/
def isWordChar (c : Char) : Bool :=
  c.isDigit || ('a' ≤ c && c ≤ 'z')

/-- Whether a word, given folded, is one or more characters in `p` before the suffix `last`. -/
def hasDigits (p : Char → Bool) (last : Char) (folded : List Char) : Bool :=
  folded.getLast? == some last && !folded.dropLast.isEmpty && folded.dropLast.all p

/-- Decimal digits, followed by hexadecimal digits, followed by `h`. -/
def isHexadecimalWord (folded : List Char) : Bool :=
  (folded.head?.any Char.isDigit) && hasDigits isHexDigit 'h' folded

/-- Decimal digits with an optional `d` behind. -/
def isDecimalWord (folded : List Char) : Bool :=
  (!folded.isEmpty && folded.all Char.isDigit) || hasDigits Char.isDigit 'd' folded

/-- Two single quotes with none between them. -/
def isQuotedWord : List Char → Bool
  | '\x27' :: rest => rest.getLast? == some '\x27' && !(rest.dropLast.contains '\x27')
  | _ => false

def isSymbolWord (word : List Char) : Bool :=
  word == ['.'] || word == [','] || word == [':'] || word == ['['] || word == [']']

/-- A letter, followed by at most seven letters and digits. -/
def isIdentifierWord : List Char → Bool
  | [] => false
  | c :: rest => ('a' ≤ c && c ≤ 'z') && rest.length ≤ 7 && rest.all isWordChar

/-- Whether a word is of the given kind, leaving aside the kinds before it. Letters count up to
case folding, so the long s stands for `s` and the Kelvin sign for `k`. -/
def accepts (k : LexemeKind) (word : List Char) : Bool :=
  let folded := word.map Text.fold
  match k with
  | .mnemonic => mnemonicWords.any (·.toList == folded)
  | .directive => directiveWords.any (·.toList == folded)
  | .generalRegister => generalRegisterWords.any (·.toList == folded)
  | .segmentRegister => segmentRegisterWords.any (·.toList == folded)
  | .dataDirective => dataWords.any (·.toList == folded)
  | .binary => hasDigits (fun c => c == '0' || c == '1') 'b' folded
  | .decimal => isDecimalWord folded
  | .hexadecimal => isHexadecimalWord folded
  | .quoted => isQuotedWord word
  | .symbol => isSymbolWord word
  | .identifier => isIdentifierWord folded
  | .invalid => true

/-- The first kind that accepts the word. -/
def ofWord (word : List Char) : LexemeKind :=
  (all.find? (·.accepts word)).getD .invalid

end LexemeKind

/-- A word of a source line; `start` is its byte offset. -/
structure Lexeme where
  text : String
  kind : LexemeKind
  start : Nat
deriving DecidableEq, Repr, Inhabited

/-- The byte offset just past the lexeme. -/
def Lexeme.stop (l : Lexeme) : Nat :=
  l.start + l.text.utf8ByteSize

end SegAsm
