import SegAsm.Text.Number
import SegAsm.Text.Printable

/-! Text in quotes, with escapes for what would not show. -/
namespace SegAsm.Text

/-- The escapes that have a letter of their own. -/
def letterEscape (c : Char) : Option Char :=
  match c.toNat with
  | 7 => some 'a'
  | 8 => some 'b'
  | 9 => some 't'
  | 10 => some 'n'
  | 11 => some 'v'
  | 12 => some 'f'
  | 13 => some 'r'
  | _ => none

/-- One character inside quotes of the given kind. -/
def escape (quote c : Char) : List Char :=
  if c = quote || c = '\\' then ['\\', c]
  else if isPrintable c then [c]
  else match letterEscape c with
  | some l => ['\\', l]
  | none =>
    let digits := hexLower c.toNat
    if c.toNat < 0x80 then ['\\', 'x'] ++ (padLeft '0' 2 digits).toList
    else if c.toNat < 0x10000 then ['\\', 'u'] ++ (padLeft '0' 4 digits).toList
    else ['\\', 'U'] ++ (padLeft '0' 8 digits).toList

/-- The text in double quotes. -/
def quoted (s : String) : String :=
  "\"" ++ String.ofList (s.toList.flatMap (escape '\x22')) ++ "\""

/-- One character in single quotes. -/
def quotedChar (c : Char) : String :=
  "'" ++ String.ofList (escape '\x27' c) ++ "'"

end SegAsm.Text
