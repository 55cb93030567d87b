import SegAsm.Symbol

/-! Tables with an index: the entries in the order in which they were added, and the place of each by the
key of its name. -/
namespace SegAsm

structure Indexed (α : Type) where
  items : List α := []
  /-- The places of the entries by the keys of their names. -/
  index : List (String × Nat) := []
deriving DecidableEq, Repr

namespace Indexed

variable {α : Type}

/-- Where the entry of a name stands. -/
def place? (t : Indexed α) (name : String) : Option Nat :=
  t.index.lookup (nameKey name)

def get? (t : Indexed α) (name : String) : Option α :=
  (t.place? name).bind fun i => t.items[i]?

/-- Adds an entry at the end under a name; a name that is taken is refused. -/
def add? (t : Indexed α) (name : String) (entry : α) : Option (Indexed α) :=
  if (t.place? name).isSome then none
  else some
    { items := t.items ++ [entry]
      index := (nameKey name, t.items.length) :: t.index }

/-- Changes the entry of a name, if there is one. -/
def update (t : Indexed α) (name : String) (f : α → α) : Indexed α :=
  match t.place? name with
  | some i => { t with items := t.items.modify i f }
  | none => t

end Indexed

/-- What can be done to the tables of a program. -/
inductive TableChange where
  | addSegment (name : String)
  | setSize (name : String) (size : Nat)
  | declare (symbol : Symbol)
deriving DecidableEq, Repr

/-- The segments and the symbols of a program. -/
structure IndexedTables where
  segments : Indexed Segment := {}
  symbols : Indexed Symbol := {}
deriving DecidableEq, Repr

namespace IndexedTables

/-- A segment is added without bytes; an entry whose name is taken is not added. -/
def apply (t : IndexedTables) : TableChange → IndexedTables
  | .addSegment name => { t with segments := (t.segments.add? name ⟨name, 0⟩).getD t.segments }
  | .setSize name size =>
    { t with segments := t.segments.update name fun s => { s with size } }
  | .declare symbol => { t with symbols := (t.symbols.add? symbol.name symbol).getD t.symbols }

/-- The tables after some changes, from empty ones. -/
def after (changes : List TableChange) : IndexedTables :=
  changes.foldl apply {}

end IndexedTables

end SegAsm
