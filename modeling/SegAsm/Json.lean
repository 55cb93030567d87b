/-! JSON values. Numbers keep their text, and objects the order of their members. -/
namespace SegAsm

inductive Json where
  | null
  | bool (b : Bool)
  | number (literal : String)
  | string (s : String)
  | array (items : List Json)
  | object (members : List (String × Json))
deriving Inhabited, Repr

namespace Json

/-- The member of that name; of several, the last one. -/
def get? (j : Json) (key : String) : Option Json :=
  match j with
  | .object members => (members.reverse.find? (·.1 == key)).map Prod.snd
  | _ => none

end Json

end SegAsm
