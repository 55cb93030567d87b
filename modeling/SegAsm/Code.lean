import SegAsm.Register
import SegAsm.Text.Number

/-! Machine code as a list of fields. A field has a listing form, a size and bytes. -/
namespace SegAsm

/-- A part of an encoded instruction or datum. -/
inductive Field where
  /-- The operand size byte `66`. -/
  | operandSize
  /-- The address size byte `67`. -/
  | addressSize
  /-- The override byte of a segment register. -/
  | override (s : SegmentRegister)
  /-- A single byte. -/
  | byte (b : UInt8)
  /-- The low `width` bytes of a 64-bit value, least significant first. -/
  | value (v : Int) (width : Nat)
deriving DecidableEq, Repr

abbrev Code := List Field

/-- The byte that does nothing. -/
def nopByte : UInt8 := 0x90

/-- The number of 64-bit words. -/
def wordCount : Nat := 0x10000000000000000

/-- The 64-bit word of an integer, in two's complement. -/
def word64 (v : Int) : Nat :=
  (v % wordCount).toNat

/-- The low `width` bytes of the word of `v` in hexadecimal, most significant digit first. -/
def hexBytes (v : Int) (width : Nat) : String :=
  if width = 0 then ""
  else Text.hexField (2 * width) (if width < 8 then word64 v % Nat.pow 256 width else word64 v)

/-- The low `width` bytes of the word of `v`, least significant first. -/
def littleEndian (v : Int) (width : Nat) : List UInt8 :=
  (List.range width).map fun i => UInt8.ofNat (word64 v / Nat.pow 256 i)

namespace Field

def size : Field → Nat
  | .value _ width => width
  | _ => 1

def bytes : Field → List UInt8
  | .operandSize => [0x66]
  | .addressSize => [0x67]
  | .override s => [UInt8.ofNat s.overrideByte]
  | .byte b => [b]
  | .value v width => littleEndian v width

/-- The listing form; a value without bytes has none. -/
def text? : Field → Option String
  | .operandSize => some (hexBytes 0x66 1 ++ "|")
  | .addressSize => some (hexBytes 0x67 1 ++ "|")
  | .override s => some (hexBytes s.overrideByte 1 ++ ":")
  | .byte b => some (hexBytes b.toNat 1)
  | .value v width => if width = 0 then none else some (hexBytes v width)

end Field

namespace Code

/-- The number of bytes. -/
def size (c : Code) : Nat :=
  c.foldr (fun f n => f.size + n) 0

def bytes (c : Code) : List UInt8 :=
  c.flatMap Field.bytes

/-- The fields in hexadecimal with blanks between them. -/
def text (c : Code) : String :=
  String.intercalate " " (c.filterMap Field.text?)

def nops (count : Nat) : Code :=
  List.replicate count (.byte nopByte)

end Code

/-- What the base register adds to the operand byte. -/
def baseNumber : Register → Nat
  | .si => 4
  | .di => 5
  | .bp => 6
  | .bx => 7
  | r => if r.isWide then r.number else 0

/-- The operand byte for a register field and a base, as memory with a displacement or as a
register; `ESP` takes a scale byte behind it. -/
def operandBytes (registerField : Int) (base : Register) (isAddress : Bool) : Code :=
  let mode : Int := if isAddress then 0x80 else 0xc0
  let b := UInt8.ofNat ((mode + 8 * registerField + baseNumber base) % 256).toNat
  if base = .esp then [.byte b, .byte 0x24] else [.byte b]

end SegAsm
