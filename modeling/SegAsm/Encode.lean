import SegAsm.Assume
import SegAsm.Code
import SegAsm.Diagnostic
import SegAsm.Lexeme.Constant
import SegAsm.Statement

/-! Encoding of instructions and data. -/
namespace SegAsm

/-- What a line emits: its code and what there is to report. -/
structure Emission where
  code : Code := []
  diagnostics : List Diagnostic := []
deriving DecidableEq, Repr, Inhabited

namespace Emission

def ofCode (code : Code) : Emission :=
  { code }

/-- No code, and a reason. -/
def reject (d : Diagnostic) : Emission :=
  { diagnostics := [d] }

end Emission

/-- What an encoding depends on. -/
structure Context where
  symbols : SymbolTable
  assumes : AssumeTable
  /-- The line, from 0. -/
  line : Nat
deriving Repr

namespace Context

def reportAt (cx : Context) (l : Lexeme) (p : Problem) : Diagnostic :=
  ⟨.ofLexeme cx.line l, p⟩

/-- The symbol that a memory operand names. -/
def resolve (cx : Context) (m : MemoryOperand) : Except Diagnostic Symbol :=
  match cx.symbols.get? m.name.text with
  | some s => .ok s
  | none => .error (cx.reportAt m.name (.unknownIdentifier m.name.text))

/-- The override of a memory operand: the one written, or else the first register assumed to
address the segment of the symbol, left out if that is `DS`. -/
def overrideOf (cx : Context) (s : Symbol) (m : MemoryOperand) :
    Except Diagnostic (Option SegmentRegister) :=
  match m.override with
  | some r => .ok (some r)
  | none =>
    match cx.assumes.holding? s.segment with
    | none => .error (cx.reportAt m.name (.segmentNotAssumed s))
    | some .ds => .ok none
    | some r => .ok (some r)

/-- The bytes before the opcode: operand size for a double word, override, and address size for a
wide base. -/
def leadingFields (cx : Context) (s : Symbol) (m : MemoryOperand) : Except Diagnostic Code := do
  let override ← cx.overrideOf s m
  return (if s.type = .double then [.operandSize] else []) ++
    (override.map Field.override).toList ++
    (if m.base.isWide then [.addressSize] else [])

end Context

/-- The operand byte and the offset of the symbol as displacement. -/
def memoryFields (registerField : Nat) (s : Symbol) (m : MemoryOperand) : Code :=
  operandBytes registerField m.base true ++ [.value s.offset (if m.base.isWide then 4 else 2)]

/-- Nothing but the diagnostic if there is an error. -/
def Emission.ofExcept (e : Except Diagnostic Emission) : Emission :=
  match e with
  | .ok emission => emission
  | .error d => .reject d

namespace Context

/-- Encodes `INC id[base]`: the byte form is used for every type. -/
def inc (cx : Context) (mnemonic : Lexeme) (m : MemoryOperand) : Except Diagnostic Emission := do
  let s ← cx.resolve m
  let leading ← cx.leadingFields s m
  return {
    code := leading ++ [.byte 0xfe] ++ memoryFields 0 s m
    diagnostics :=
      if s.type = .word || s.type = .double then [cx.reportAt mnemonic (.byteFormIncrement s)]
      else [] }

/-- Encodes `ADD id[base], imm`: a byte immediate takes the short opcode, any other one is cut to the
size of the type. -/
def add (cx : Context) (m : MemoryOperand) (immediate : Lexeme) : Except Diagnostic Emission := do
  let s ← cx.resolve m
  let leading ← cx.leadingFields s m
  if !immediate.kind.isNumeric then
    throw (cx.reportAt immediate (.notNumeric immediate.text))
  let (v, size?) := immediate.constant
  let width := s.type.size
  let short := size? == some 1 && width != 1
  let opcode : UInt8 := if short then 0x83 else if width = 1 then 0x80 else 0x81
  return {
    code := leading ++ [.byte opcode] ++ memoryFields 0 s m ++
      [.value v (if short then 1 else width)]
    diagnostics :=
      if size?.all (width < ·) then [cx.reportAt immediate (.immediateTruncated immediate.text s)]
      else [] }

/-- An instruction on a memory operand and a register of its size, with one opcode for bytes and
one for the rest. -/
def memoryRegister (cx : Context) (byteOpcode opcode : UInt8) (m : MemoryOperand)
    (register : Lexeme) : Except Diagnostic Emission := do
  let r := register.register
  let s ← cx.resolve m
  if s.type.size != r.size then
    throw (cx.reportAt register (.operandSizeMismatch r s))
  let leading ← cx.leadingFields s m
  return .ofCode (leading ++ [.byte (if s.type = .byte then byteOpcode else opcode)] ++
    memoryFields r.number s m)

/-- Encodes `MOV reg, imm`. -/
def mov (cx : Context) (r : Register) (immediate : Lexeme) : Except Diagnostic Emission := do
  if !immediate.kind.isNumeric then
    throw (cx.reportAt immediate (.notNumeric immediate.text))
  let (v, size?) := immediate.constant
  if size?.all (r.size < ·) then
    throw (cx.reportAt immediate (.immediateTooLarge immediate.text r))
  let opcode := (if r.size = 1 then 0xb0 else 0xb8) + r.number
  return .ofCode ((if r.isWide then [.operandSize] else []) ++
    [.byte (UInt8.ofNat opcode), .value v r.size])

/-- Encodes `OR reg, reg`. -/
def or (cx : Context) (first second : Lexeme) : Except Diagnostic Emission := do
  let r := first.register
  let s := second.register
  if r.size != s.size then
    throw ⟨.ofLexemes cx.line first second, .registerSizeMismatch r s⟩
  return .ofCode ((if r.isWide then [.operandSize] else []) ++
    [.byte (if r.size = 1 then 0x0a else 0x0b)] ++ operandBytes r.number s false)

end Context

/-- Encodes `DEC reg`: a wide register is written with the address size byte. -/
def decCode (r : Register) : Code :=
  if r.size = 1 then [.byte 0xfe, .byte (UInt8.ofNat (0xc8 + r.number))]
  else (if r.isWide then [.addressSize] else []) ++ [.byte (UInt8.ofNat (0x48 + r.number))]

namespace Jump

def shortOpcode : Jump → UInt8
  | .below => 0x72
  | .always => 0xeb

def longOpcode : Jump → List UInt8
  | .below => [0x0f, 0x82]
  | .always => [0xe9]

/-- The bytes that a jump takes in either form. -/
def reserved (j : Jump) : Nat :=
  j.longOpcode.length + 2

/-- A jump at `address` to `target`. The short form is padded to the size of the long one. -/
def code (j : Jump) (address target : Nat) : Code :=
  let delta : Int := target - (address + 2 : Nat)
  if -128 ≤ delta && delta < 127 then
    [.byte j.shortOpcode, .value delta 1] ++ Code.nops (j.reserved - 2)
  else
    j.longOpcode.map .byte ++ [.value (delta - j.longOpcode.length) 2]

end Jump

namespace Context

/-- A jump at `address`. A target that is not declared is an error if `resolving`; otherwise it
reserves the place. -/
def jump (cx : Context) (resolving : Bool) (address : Nat) (j : Jump) (target : Lexeme) :
    Emission :=
  match cx.symbols.get? target.text with
  | some s => .ofCode (j.code address s.offset)
  | none =>
    if resolving then .reject (cx.reportAt target (.unresolvedJump target.text))
    else .ofCode (Code.nops j.reserved)

/-- The bytes of a datum. A text is only for bytes, and a number has to fit the type. -/
def datum (cx : Context) (type : SymbolType) (value : Lexeme) : Emission :=
  if value.kind = .quoted then
    .ofCode (((value.text.toList.drop 1).dropLast.flatMap String.utf8EncodeChar).map .byte)
  else
    match value.constant with
    | (_, none) => .reject (cx.reportAt value (.constantOverflow value.text))
    | (v, some size) =>
      if type.size < size then .reject (cx.reportAt value (.constantTooLarge value.text type))
      else .ofCode [.value v type.size]

end Context

end SegAsm
