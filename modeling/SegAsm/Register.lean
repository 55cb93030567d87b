import SegAsm.Text.Fold

/-! General and segment registers. -/
namespace SegAsm

inductive Register where
  | al | cl | dl | bl | ah | ch | dh | bh
  | ax | cx | dx | bx | sp | bp | si | di
  | eax | ecx | edx | ebx | esp | ebp | esi | edi
deriving DecidableEq, Repr, Inhabited

namespace Register

def all : List Register :=
  [.al, .cl, .dl, .bl, .ah, .ch, .dh, .bh, .ax, .cx, .dx, .bx, .sp, .bp, .si, .di,
    .eax, .ecx, .edx, .ebx, .esp, .ebp, .esi, .edi]

def name : Register → String
  | .al => "AL" | .cl => "CL" | .dl => "DL" | .bl => "BL"
  | .ah => "AH" | .ch => "CH" | .dh => "DH" | .bh => "BH"
  | .ax => "AX" | .cx => "CX" | .dx => "DX" | .bx => "BX"
  | .sp => "SP" | .bp => "BP" | .si => "SI" | .di => "DI"
  | .eax => "EAX" | .ecx => "ECX" | .edx => "EDX" | .ebx => "EBX"
  | .esp => "ESP" | .ebp => "EBP" | .esi => "ESI" | .edi => "EDI"

def ordinal (r : Register) : Nat :=
  all.idxOf r

/-- The three-bit number of the register among those of its size. -/
def number (r : Register) : Nat :=
  r.ordinal % 8

/-- The width in bytes. -/
def size (r : Register) : Nat :=
  if r.ordinal < 8 then 1 else if r.ordinal < 16 then 2 else 4

def isWide (r : Register) : Bool :=
  r.size == 4

/-- The register of the given size and number. -/
def ofNumber? (size number : Nat) : Option Register :=
  all.find? fun r => r.size == size && r.number == number

/-- Finds a register by its name in any case. -/
def ofName? (text : String) : Option Register :=
  all.find? fun r => Text.lowerString r.name == Text.lowerString text

/-- The register that an operand names; a text that names none stands for `AL`. -/
def ofOperand (text : String) : Register :=
  (ofName? text).getD .al

end Register

inductive SegmentRegister where
  | es | cs | ss | ds | fs | gs
deriving DecidableEq, Repr, Inhabited

namespace SegmentRegister

def all : List SegmentRegister :=
  [.es, .cs, .ss, .ds, .fs, .gs]

def name : SegmentRegister → String
  | .es => "ES" | .cs => "CS" | .ss => "SS" | .ds => "DS" | .fs => "FS" | .gs => "GS"

def ordinal (s : SegmentRegister) : Nat :=
  all.idxOf s

/-- The byte that overrides the segment of an instruction. -/
def overrideByte : SegmentRegister → Nat
  | .es => 0x26 | .cs => 0x2e | .ss => 0x36 | .ds => 0x3e | .fs => 0x64 | .gs => 0x65

/-- Finds a segment register by its name up to case folding. -/
def ofName? (text : String) : Option SegmentRegister :=
  all.find? fun s => Text.sameFold s.name text

/-- The segment register that an operand names; a text that names none stands for `ES`. -/
def ofOperand (text : String) : SegmentRegister :=
  (ofName? text).getD .es

end SegmentRegister

end SegAsm
