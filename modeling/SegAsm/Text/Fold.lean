/-! Simple case folding of the letters whose class meets ASCII. -/
namespace SegAsm.Text

/-- The lower case ASCII letter of the class of `c`: the long s belongs to `s` and the Kelvin
sign to `k`. Every other character is kept. -/
def fold (c : Char) : Char :=
  if c.isUpper then c.toLower
  else if c = '\u017f' then 's'
  else if c = '\u212a' then 'k'
  else c

/-- Equality up to case folding. It is full simple folding as soon as one of the two texts holds
only ASCII characters, long s's and Kelvin signs. -/
def sameFold (s t : String) : Bool :=
  s.toList.map fold == t.toList.map fold

/-- The lower case of every character that has an ASCII one; other characters are kept. The long
s is lower case already, unlike the Kelvin sign and the dotted capital I. -/
def lower (c : Char) : Char :=
  if c.isUpper then c.toLower
  else if c = '\u212a' then 'k'
  else if c = '\u0130' then 'i'
  else c

def lowerString (s : String) : String :=
  String.ofList (s.toList.map lower)

end SegAsm.Text
