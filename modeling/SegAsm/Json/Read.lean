import SegAsm.Json
import SegAsm.Lexeme.Constant
import SegAsm.Text.Fold

/-! Reading records from JSON. Unknown members are skipped, and what is missing or null keeps the
value it had. -/
namespace SegAsm.Json

/-- Reads a value over the one that is there already. -/
abbrev Reader (α : Type) := α → Json → Option α

namespace Reader

def string : Reader String
  | s, .null => some s
  | _, .string t => some t
  | _, _ => none

/-- A 64-bit integer without fraction or exponent. -/
def int : Reader Int
  | i, .null => some i
  | _, .number literal => (parseInt64 10 literal.toList).toOption
  | _, _ => none

/-- The items of an array over `empty`; a null stands for no array. -/
def list {α : Type} (item : Reader α) (empty : α) : Reader (Option (List α))
  | _, .null => some none
  | _, .array items => (items.mapM (item empty)).map some
  | _, _ => none

/-- A part of a record. -/
def field {α β : Type} (get : α → β) (set : α → β → α) (r : Reader β) : Reader α :=
  fun a j => (r (get a) j).map (set a)

/-- The field of a member: the one of its name, or else one whose name is the same in another case. -/
def field? {α : Type} (fields : List (String × Reader α)) (key : String) :
    Option (String × Reader α) :=
  (fields.find? (·.1 == key)).or (fields.find? fun f => Text.sameFold f.1 key)

/-- A record by the names of its members, which are read in their order in the text. -/
def record {α : Type} (fields : List (String × Reader α)) : Reader α
  | a, .null => some a
  | a, .object members =>
    members.foldlM (fun a (key, j) =>
      match field? fields key with
      | some (_, r) => r a j
      | none => some a) a
  | _, _ => none

end Reader

end SegAsm.Json
