import SegAsm.Decode
import SegAsm.Program

/-! What is shown for the word under the cursor. -/
namespace SegAsm.Hover

def mnemonicInfo (word : String) : String :=
  match word with
  | "cli" => "Clear Interrupt Flag.\n\nFormat: `cli`\n\nEncoded as `FA`"
  | "inc" =>
    "Increment Instruction.\n\nFormat: `inc <id>[<base>]`\n\n" ++
      "Example: `inc var1[bx]` is the same as `var1[bx] = var1[bx] + 1`"
  | "dec" =>
    "Decrement Instruction.\n\nFormat: `dec <reg>`\n\n" ++
      "Example: `dec cx` is the same as `cx = cx - 1`"
  | "add" =>
    "Addition Instruction.\n\nFormat: `add <id>[<base>], <imm>`\n\n" ++
      "Example: `add var1[bx], 5` is the same as `var1[bx] = var1[bx] + 5`"
  | "cmp" =>
    "Compare Instruction.\n\nFormat: `cmp <reg>, <id>[<base>]`\n\n" ++
      "Example: `cmp al, var1[si]` sets the flags of `al - var1[si]`"
  | "xor" =>
    "XOR Instruction.\n\nFormat: `xor <id>[<base>], <reg>`\n\n" ++
      "Example: `xor var1[di], cx` is the same as `var1[di] = var1[di] ^ cx`"
  | "mov" =>
    "Move Immediate Instruction.\n\nFormat: `mov <reg>, <imm>`\n\n" ++
      "Example: `mov ax, 5` is the same as `ax = 5`"
  | "or" =>
    "OR Instruction.\n\nFormat: `or <reg>, <reg>`\n\n" ++
      "Example: `or ax, bx` is the same as `ax = ax | bx`"
  | "jb" =>
    "Jump If Below.\n\nFormat: `jb <label>`\n\nJumps when the carry flag is set. " ++
      "Short form `72 rel8`, near form `0F 82 rel16`"
  | "jmp" =>
    "Unconditional Jump.\n\nFormat: `jmp <label>`\n\n" ++
      "Short form `EB rel8`, near form `E9 rel16`"
  | _ => ""

def directiveInfo (word : String) : String :=
  match word with
  | "segment" => "Opens a segment.\n\nFormat: `<name> segment`"
  | "ends" => "Closes the open segment.\n\nFormat: `<name> ends`"
  | "assume" =>
    "Declares which segment each segment register addresses.\n\n" ++
      "Format: `assume <sreg>:<name>, ...`"
  | "end" => "Ends the program.\n\nFormat: `end [<entry label>]`"
  | "db" => "Declares a byte (or a text constant).\n\nFormat: `<name> db <value>`"
  | "dw" => "Declares a word (2 bytes).\n\nFormat: `<name> dw <value>`"
  | "dd" => "Declares a double word (4 bytes).\n\nFormat: `<name> dd <value>`"
  | _ => ""

/-- Bytes in hexadecimal with blanks between them. -/
def spacedHex (bs : List UInt8) : String :=
  String.intercalate " " (bs.map fun b => Text.hexPadded 2 b.toNat)

/-- The code of an instruction or a jump, and what it reads as. -/
def codeInfo (r : LineRecord) : String :=
  if r.size = 0 || (r.kind != .instructions && r.kind != .jump) then ""
  else
    let bytes := r.code.bytes
    let instructions := disassemble bytes
    "\n\n---\n\nListing `" ++ r.code.text ++ "`\n\nMachine code `" ++ spacedHex bytes ++ "` (" ++
      Text.decimal r.size ++ " bytes)" ++
      (if instructions.isEmpty then ""
        else "\n\nDisassembles to `" ++ String.intercalate "; " instructions ++ "`")

/-- The assume table in force on a line, from 0. -/
def assumesOn (p : Program) (line : Nat) : AssumeTable :=
  ((p.lines.take (line + 1)).filterMap LineRecord.assume).getLast?.getD {}

def registerInfo (r : Register) : String :=
  "Register `" ++ r.name ++ "` (" ++ Text.decimal (r.size * 8) ++ "-bit)\n\nEncoded as `" ++
    Text.decimal r.number ++ "` in ModR/M fields"

def segmentRegisterInfo (s : SegmentRegister) (assumed : String) : String :=
  "Segment Register `" ++ s.name ++ "`\n\nOverride prefix `" ++
    Text.hexPadded 2 s.overrideByte ++ ":`\n\nAssumed to address `" ++ assumed ++ "`"

def integerInfo (kind : LexemeKind) (v : Int) : String :=
  kind.description ++ " `" ++ Text.signed v ++ "` (`0x" ++ Text.hexUpper v.toNat ++ "`)"

def textInfo (l : Lexeme) : String :=
  "Text Constant of " ++ Text.decimal (l.text.utf8ByteSize - 2) ++ " bytes"

def segmentInfo (s : Segment) : String :=
  "Segment `" ++ s.name ++ "`\n\nSize 0x" ++ Text.hexPadded 4 s.size ++ " bytes"

def definitionInfo (s : Symbol) : String :=
  "Definition of " ++ s.type.name ++ " `" ++ s.name ++ "`.\n\nOffset 0x" ++
    Text.hexPadded 4 s.offset ++ " in segment `" ++ s.segment ++ "`"

def referenceInfo (s : Symbol) : String :=
  "Reference to " ++ s.type.name ++ " `" ++ s.name ++ "`\n\nEvaluates to `" ++ s.segment ++ ":" ++
    Text.hexPadded 4 s.offset ++ "`"

/-- What an identifier stands for: a segment first, then a symbol. The first word of the declaring
line is its definition. -/
def identifierInfo? (p : Program) (r : LineRecord) (index : Nat) (name : String) :
    Option String :=
  match p.segments.get? name with
  | some s => some (segmentInfo s)
  | none =>
    (p.symbols.get? name).map fun s =>
      if s.line = r.number && index = 0 then definitionInfo s
      else referenceInfo s ++ codeInfo r

/-- What is shown for the lexeme with the given index on a line. -/
def lexemeInfo? (p : Program) (line : Nat) (r : LineRecord) (index : Nat) (l : Lexeme) :
    Option String :=
  match l.kind with
  | .mnemonic => some (mnemonicInfo (Text.lowerString l.text) ++ codeInfo r)
  | .directive | .dataDirective => some (directiveInfo (Text.lowerString l.text))
  | .generalRegister => some (registerInfo (.ofOperand l.text))
  | .segmentRegister =>
    let s := SegmentRegister.ofOperand l.text
    some (segmentRegisterInfo s ((assumesOn p line).get s))
  | .binary | .decimal | .hexadecimal =>
    match constantValue l.text with
    | .ok v => some (integerInfo l.kind v)
    | .error _ => none
  | .quoted => some (textInfo l)
  | .identifier => identifierInfo? p r index l.text
  | .symbol | .invalid => none

/-- The lexeme that covers a byte offset, with its index. -/
def lexemeAt? (ls : List Lexeme) (char : Int) : Option (Nat × Lexeme) :=
  (ls.zipIdx.find? fun (l, _) => (l.start : Int) ≤ char && char < l.stop).map fun (l, i) => (i, l)

/-- What is shown at a byte offset of a line with the given lexemes. -/
def charInfo? (p : Program) (line : Nat) (r : LineRecord) (ls : List Lexeme) (char : Int) :
    Option String := do
  let (index, l) ← lexemeAt? ls char
  lexemeInfo? p line r index l

/-- Markdown on the lexeme at a position, if there is anything to say. -/
def evaluate? (p : Program) (position : Position) : Option String := do
  if position.line < 0 then none
  let line := position.line.toNat
  let r ← p.lines[line]?
  charInfo? p line r (lexemes r.text) position.char

end SegAsm.Hover
