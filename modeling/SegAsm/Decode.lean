import SegAsm.Code
import SegAsm.Statement

/-! Decoding machine code by the 16-bit rules, and instructions as text. Only the instructions that
the encoder can emit are known. -/
namespace SegAsm

/-- The bytes in front of an opcode. -/
structure Leading where
  operandSize : Bool := false
  addressSize : Bool := false
  override : Option SegmentRegister := none
deriving DecidableEq, Repr, Inhabited

/-- A place in memory. -/
structure Memory where
  base : Register
  displacement : Nat
deriving DecidableEq, Repr

inductive Operation where
  | cli
  | nop
  | dec (r : Register)
  | mov (r : Register) (immediate : Int)
  | inc (m : Memory)
  | add (size : Nat) (m : Memory) (immediate : Int)
  | cmp (r : Register) (m : Memory)
  | xor (m : Memory) (r : Register)
  | or (first second : Register)
  | andByte (immediate : Int)
  | jump (j : Jump) (distance : Int)
deriving DecidableEq, Repr

structure Instruction where
  leading : Leading
  operation : Operation
deriving DecidableEq, Repr

/-- Why no instruction starts with some bytes. -/
inductive DecodeError where
  | truncated
  | unknown
deriving DecidableEq, Repr

/-- Reads something off the front of the bytes. -/
abbrev Decoder (α : Type) := List UInt8 → Except DecodeError (α × List UInt8)

namespace Decoder

def byte : Decoder Nat
  | [] => .error .truncated
  | b :: bs => .ok (b.toNat, bs)

/-- An unsigned value, least significant byte first. -/
def unsigned : Nat → Decoder Nat
  | 0, bs => .ok (0, bs)
  | _ + 1, [] => .error .truncated
  | width + 1, b :: bs => do
    let (high, bs) ← unsigned width bs
    return (b.toNat + 256 * high, bs)

/-- A value in two's complement. -/
def twosComplement (width : Nat) : Decoder Int := fun bs => do
  let (n, bs) ← unsigned width bs
  let count := Nat.pow 256 width
  return (if 2 * n < count then (n : Int) else (n : Int) - count, bs)

def register (size number : Nat) : Except DecodeError Register :=
  match Register.ofNumber? size number with
  | some r => .ok r
  | none => .error .unknown

/-- The base register that the low three bits name in a 16-bit address. -/
def narrowBase? : Nat → Option Register
  | 4 => some .si
  | 5 => some .di
  | 6 => some .bp
  | 7 => some .bx
  | _ => none

/-- The base of a memory operand with its displacement still to come. -/
def base (wide : Bool) (number : Nat) : Decoder Register := fun bs =>
  if wide then
    if number = 4 then do
      let (scale, bs) ← byte bs
      if scale = 0x24 then return (.esp, bs) else throw .unknown
    else do
      return (← register 4 number, bs)
  else
    match narrowBase? number with
    | some r => .ok (r, bs)
    | none => .error .unknown

/-- The operand byte and what belongs to it: a register field and a memory operand with a
displacement. -/
def memory (wide : Bool) : Decoder (Nat × Memory) := fun bs => do
  let (b, bs) ← byte bs
  if b / 64 != 2 then throw .unknown
  let (base, bs) ← base wide (b % 8) bs
  let (displacement, bs) ← unsigned (if wide then 4 else 2) bs
  return ((b / 8 % 8, ⟨base, displacement⟩), bs)

/-- An operand byte with two registers of the given size. -/
def twoRegisters (size : Nat) : Decoder (Register × Register) := fun bs => do
  let (b, bs) ← byte bs
  if b / 64 != 3 then throw .unknown
  return ((← register size (b / 8 % 8), ← register size (b % 8)), bs)

/-- Opcode `FE`: the next byte tells a decrement from an increment. -/
def byteStep (wide : Bool) : Decoder Operation
  | [] => .error .truncated
  | b :: bs =>
    if 0xc8 ≤ b.toNat && b.toNat < 0xd0 then do
      return (.dec (← register 1 (b.toNat - 0xc8)), bs)
    else do
      let ((field, m), bs) ← memory wide (b :: bs)
      if field != 0 then throw .unknown
      return (.inc m, bs)

/-- An addition to memory whose immediate is still to be read. -/
def addition (wide : Bool) (size : Nat) (immediate : Decoder Int) :
    Decoder Operation := fun bs => do
  let ((field, m), bs) ← memory wide bs
  if field != 0 then throw .unknown
  let (v, bs) ← immediate bs
  return (.add size m v, bs)

def unsignedByte : Decoder Int := fun bs => do
  let (n, bs) ← unsigned 1 bs
  return ((n : Int), bs)

def jump (j : Jump) (width : Nat) : Decoder Operation := fun bs => do
  let (distance, bs) ← twosComplement width bs
  return (.jump j distance, bs)

/-- A memory operand and the register of its register field. -/
def memoryAndRegister (wide : Bool) (size : Nat) (f : Memory → Register → Operation) :
    Decoder Operation := fun bs => do
  let ((field, m), bs) ← memory wide bs
  return (f m (← register size field), bs)

/-- The opcode and its operands. -/
def operation (l : Leading) : Decoder Operation := fun bs => do
  let wide := l.addressSize
  let size := if l.operandSize then 4 else 2
  let (opcode, bs) ← byte bs
  if 0x48 ≤ opcode && opcode < 0x50 then
    return (.dec (← register 2 (opcode - 0x48)), bs)
  if 0xb0 ≤ opcode && opcode < 0xb8 then
    let (v, bs) ← unsignedByte bs
    return (.mov (← register 1 (opcode - 0xb0)) v, bs)
  if 0xb8 ≤ opcode && opcode < 0xc0 then
    let (v, bs) ← twosComplement size bs
    return (.mov (← register size (opcode - 0xb8)) v, bs)
  match opcode with
  | 0x0a => do
    let ((r, s), bs) ← twoRegisters 1 bs
    return (.or r s, bs)
  | 0x0b => do
    let ((r, s), bs) ← twoRegisters size bs
    return (.or r s, bs)
  | 0x0f => do
    let (second, bs) ← byte bs
    if second = 0x82 then jump .below 2 bs else throw .unknown
  | 0x24 => do
    let (v, bs) ← unsignedByte bs
    return (.andByte v, bs)
  | 0x30 => memoryAndRegister wide 1 .xor bs
  | 0x31 => memoryAndRegister wide size .xor bs
  | 0x3a => memoryAndRegister wide 1 (fun m r => .cmp r m) bs
  | 0x3b => memoryAndRegister wide size (fun m r => .cmp r m) bs
  | 0x72 => jump .below 1 bs
  | 0x80 => addition wide 1 unsignedByte bs
  | 0x81 => addition wide size (twosComplement size) bs
  | 0x83 => addition wide size (twosComplement 1) bs
  | 0x90 => return (.nop, bs)
  | 0xe9 => jump .always 2 bs
  | 0xeb => jump .always 1 bs
  | 0xfa => return (.cli, bs)
  | 0xfe => byteStep wide bs
  | _ => throw .unknown

end Decoder

/-- Reads the bytes in front of an opcode. -/
def Leading.read (l : Leading) : List UInt8 → Leading × List UInt8
  | [] => (l, [])
  | b :: bs =>
    if b = 0x66 then read { l with operandSize := true } bs
    else if b = 0x67 then read { l with addressSize := true } bs
    else
      match SegmentRegister.all.find? fun s => s.overrideByte == b.toNat with
      | some s => read { l with override := some s } bs
      | none => (l, b :: bs)

/-- Decodes one instruction. -/
def decode : Decoder Instruction := fun bs => do
  let (leading, bs) := Leading.read {} bs
  let (operation, bs) ← Decoder.operation leading bs
  return (⟨leading, operation⟩, bs)

/-- Hexadecimal with a sign in front of the digits. -/
def signedHex (i : Int) : String :=
  match i with
  | .ofNat n => "0x" ++ Text.hexLower n
  | .negSucc n => "-0x" ++ Text.hexLower (n + 1)

/-- The segment register that is used with a base if no other one is given. -/
def Register.defaultSegment (base : Register) : SegmentRegister :=
  if base = .bp || base = .ebp || base = .esp then .ss else .ds

def sizeWord (size : Nat) : String :=
  if size = 1 then "byte" else if size = 2 then "word" else "dword"

def lowerName (r : Register) : String :=
  Text.lowerString r.name

/-- A memory operand; the override is only shown if it changes the segment. -/
def memoryText (override : Option SegmentRegister) (size : Nat) (m : Memory) : String :=
  let segment :=
    match override with
    | some s => if s = m.base.defaultSegment then "" else Text.lowerString s.name ++ ":"
    | none => ""
  let displacement :=
    if m.displacement = 0 then "" else "+0x" ++ Text.hexLower m.displacement
  sizeWord size ++ " ptr " ++ segment ++ "[" ++ lowerName m.base ++ displacement ++ "]"

def Jump.word : Jump → String
  | .below => "jb"
  | .always => "jmp"

namespace Operation

/-- The operation as text, without an address size byte that has no use. -/
def text (override : Option SegmentRegister) : Operation → String
  | .cli => "cli"
  | .nop => "nop"
  | .dec r => "dec " ++ lowerName r
  | .mov r v => "mov " ++ lowerName r ++ ", " ++ signedHex v
  | .inc m => "inc " ++ memoryText override 1 m
  | .add size m v => "add " ++ memoryText override size m ++ ", " ++ signedHex v
  | .cmp r m => "cmp " ++ lowerName r ++ ", " ++ memoryText override r.size m
  | .xor m r => "xor " ++ memoryText override r.size m ++ ", " ++ lowerName r
  | .or r s => "or " ++ lowerName r ++ ", " ++ lowerName s
  | .andByte v => "and al, " ++ signedHex v
  | .jump j distance =>
    j.word ++ " ." ++ (if distance < 0 then "" else "+") ++ signedHex distance

def usesMemory : Operation → Bool
  | .inc _ | .add _ _ _ | .cmp _ _ | .xor _ _ => true
  | _ => false

end Operation

def Instruction.text (i : Instruction) : String :=
  (if i.leading.addressSize && !i.operation.usesMemory then "addr32 " else "") ++
    i.operation.text i.leading.override

/-- A byte that starts an instruction without its end. -/
def strayText (b : UInt8) : String :=
  "prefix(0x" ++ Text.hexLower b.toNat ++ ")"

/-- Decodes until the bytes end or a byte starts no known instruction. A cut instruction is shown
as its first byte, and decoding goes on behind that. -/
def disassembleFrom : (fuel : Nat) → List UInt8 → List String
  | _, [] => []
  | 0, _ => []
  | fuel + 1, b :: bs =>
    match decode (b :: bs) with
    | .ok (i, rest) => i.text :: disassembleFrom fuel rest
    | .error .truncated => strayText b :: disassembleFrom fuel bs
    | .error .unknown => []

/-- The instructions in some machine code. Each takes at least one byte. -/
def disassemble (bs : List UInt8) : List String :=
  disassembleFrom bs.length bs

end SegAsm
