import SegAsm.Form
import SegAsm.Symbol

/-! Statements: the lines of the valid forms with their operands. -/
namespace SegAsm

/-- The operand `id[base]`, with an optional segment register in front. -/
structure MemoryOperand where
  override : Option SegmentRegister
  name : Lexeme
  base : Register
deriving DecidableEq, Repr

/-- The two jumps. -/
inductive Jump where
  | below
  | always
deriving DecidableEq, Repr

/-- What a valid line says. -/
inductive Statement where
  | beginSegment (name : Lexeme)
  | endSegment (name : Lexeme)
  | assume (pairs : List Lexeme)
  | finish
  | label (name : Lexeme)
  | data (type : SymbolType) (name value : Lexeme)
  | cli
  | inc (mnemonic : Lexeme) (memory : MemoryOperand)
  | dec (register : Register)
  | add (memory : MemoryOperand) (immediate : Lexeme)
  | cmp (register : Lexeme) (memory : MemoryOperand)
  | xor (memory : MemoryOperand) (register : Lexeme)
  | mov (register : Register) (immediate : Lexeme)
  | or (first second : Lexeme)
  | jump (jump : Jump) (target : Lexeme)
  | empty
deriving DecidableEq, Repr

/-- The register that a lexeme names. -/
def Lexeme.register (l : Lexeme) : Register :=
  .ofOperand l.text

/-- The type that a directive declares data of; without one it is that of a label. -/
def Lexeme.dataType (l : Lexeme) : SymbolType :=
  (SymbolType.ofDirective? l.text).getD .label

/-- The operand `name[base]`. -/
def MemoryOperand.plain (name base : Lexeme) : MemoryOperand :=
  { override := none, name, base := base.register }

/-- The operand `segment:name[base]`. -/
def MemoryOperand.within (segment name base : Lexeme) : MemoryOperand :=
  { override := some (.ofOperand segment.text), name, base := base.register }

/-- Reads the operands of a line of the given form. -/
def Statement.ofLexemes? : Form → List Lexeme → Option Statement
  | .beginSegment, name :: _ => some (.beginSegment name)
  | .endSegment, name :: _ => some (.endSegment name)
  | .assume, _ :: pairs => some (.assume pairs)
  | .finishAt, _ => some .finish
  | .finish, _ => some .finish
  | .label, name :: _ => some (.label name)
  | .dataByte, [name, directive, value] => some (.data directive.dataType name value)
  | .dataWord, [name, directive, value] => some (.data directive.dataType name value)
  | .dataDouble, [name, directive, value] => some (.data directive.dataType name value)
  | .dataText, [name, _, value] => some (.data .byte name value)
  | .cli, _ => some .cli
  | .inc, [mnemonic, name, _, base, _] => some (.inc mnemonic (.plain name base))
  | .incOverride, [mnemonic, seg, _, name, _, base, _] =>
    some (.inc mnemonic (.within seg name base))
  | .dec, [_, register] => some (.dec register.register)
  | .add, [_, name, _, base, _, _, immediate] => some (.add (.plain name base) immediate)
  | .addOverride, [_, seg, _, name, _, base, _, _, immediate] =>
    some (.add (.within seg name base) immediate)
  | .cmp, [_, register, _, name, _, base, _] => some (.cmp register (.plain name base))
  | .cmpOverride, [_, register, _, seg, _, name, _, base, _] =>
    some (.cmp register (.within seg name base))
  | .xor, [_, name, _, base, _, _, register] => some (.xor (.plain name base) register)
  | .xorOverride, [_, seg, _, name, _, base, _, _, register] =>
    some (.xor (.within seg name base) register)
  | .mov, [_, register, _, immediate] => some (.mov register.register immediate)
  | .or, [_, first, _, second] => some (.or first second)
  | .jb, [_, target] => some (.jump .below target)
  | .jmp, [_, target] => some (.jump .always target)
  | .empty, _ => some .empty
  | _, _ => none

/-- The statement of a classified line; an invalid line has none. -/
def Classified.statement? (c : Classified) : Option Statement :=
  c.form?.bind (Statement.ofLexemes? · c.operands)

end SegAsm
