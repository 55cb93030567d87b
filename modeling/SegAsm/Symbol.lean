import SegAsm.Text.Upper

/-! Segments and identifiers in declaration order. Names are the same if their upper case is. -/
namespace SegAsm

/-- What stands for a segment outside every segment. -/
def noSegment : String := "NOTHING"

/-- Under which a name is found. -/
def nameKey (name : String) : String :=
  Text.upperString name

structure Segment where
  name : String
  size : Nat := 0
deriving DecidableEq, Repr, Inhabited

abbrev SegmentTable := List Segment

namespace SegmentTable

def get? (t : SegmentTable) (name : String) : Option Segment :=
  let key := nameKey name
  t.find? fun s => nameKey s.name == key

/-- Adds an empty segment at the end, unless the name is taken. -/
def add (t : SegmentTable) (name : String) : SegmentTable :=
  if (get? t name).isSome then t else t ++ [⟨name, 0⟩]

/-- Sets the size of the segment of that name, if there is one. -/
def setSize (t : SegmentTable) (name : String) (size : Nat) : SegmentTable :=
  t.map fun s => if nameKey s.name == nameKey name then { s with size } else s

end SegmentTable

/-- What an identifier stands for: a place in code, or data of one, two or four bytes. -/
inductive SymbolType where
  | label
  | byte
  | word
  | double
deriving DecidableEq, Repr, Inhabited

namespace SymbolType

def all : List SymbolType :=
  [.label, .byte, .word, .double]

def name : SymbolType → String
  | .label => "LABEL"
  | .byte => "DB"
  | .word => "DW"
  | .double => "DD"

/-- The bytes that one datum of the type takes. -/
def size : SymbolType → Nat
  | .label => 0
  | .byte => 1
  | .word => 2
  | .double => 4

/-- The data type that a directive declares. -/
def ofDirective? (directive : String) : Option SymbolType :=
  [byte, word, double].find? fun t => t.name == Text.upperString directive

end SymbolType

structure Symbol where
  name : String
  segment : String
  offset : Nat
  type : SymbolType
  /-- The number of the declaring line, from 1. -/
  line : Nat
deriving DecidableEq, Repr, Inhabited

abbrev SymbolTable := List Symbol

namespace SymbolTable

def get? (t : SymbolTable) (name : String) : Option Symbol :=
  let key := nameKey name
  t.find? fun s => nameKey s.name == key

/-- Declares a symbol at the end; a name that is taken is refused. -/
def add? (t : SymbolTable) (s : Symbol) : Option SymbolTable :=
  if (get? t s.name).isSome then none else some (t ++ [s])

end SymbolTable

end SegAsm
