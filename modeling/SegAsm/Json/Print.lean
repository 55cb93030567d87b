import SegAsm.Json
import SegAsm.Text.Number

/-! JSON text without blanks. -/
namespace SegAsm.Json

/-- One character of a string. The characters that markup gives a meaning to are escaped too. -/
def escapeChar (c : Char) : String :=
  if c = '\x22' then "\\\""
  else if c = '\\' then "\\\\"
  else if c = '\n' then "\\n"
  else if c = '\r' then "\\r"
  else if c = '\t' then "\\t"
  else if c.toNat < 0x20 || c = '<' || c = '>' || c = '&' || c.toNat = 0x2028 ||
      c.toNat = 0x2029 then
    "\\u" ++ Text.padLeft '0' 4 (Text.hexLower c.toNat)
  else String.singleton c

def stringOnto (done s : String) : String :=
  s.foldl (fun done c => done ++ escapeChar c) (done ++ "\"") ++ "\""

mutual

/-- Writes a value behind what is written already. -/
def renderOnto (done : String) : Json → String
  | .null => done ++ "null"
  | .bool b => done ++ if b then "true" else "false"
  | .number literal => done ++ literal
  | .string s => stringOnto done s
  | .array items => itemsOnto (done ++ "[") items ++ "]"
  | .object members => membersOnto (done ++ "\x7b") members ++ "\x7d"

def itemsOnto (done : String) : List Json → String
  | [] => done
  | [j] => renderOnto done j
  | j :: js => itemsOnto (renderOnto done j ++ ",") js

def membersOnto (done : String) : List (String × Json) → String
  | [] => done
  | [(k, j)] => renderOnto (stringOnto done k ++ ":") j
  | (k, j) :: ms => membersOnto (renderOnto (stringOnto done k ++ ":") j ++ ",") ms

end

def render (j : Json) : String :=
  renderOnto "" j

def ofNat (n : Nat) : Json :=
  .number (Text.decimal n)

def ofInt (i : Int) : Json :=
  .number (Text.signed i)

def ofStrings (ss : List String) : Json :=
  .array (ss.map .string)

end SegAsm.Json
