import SegAsm.Lexeme

/-! Values of numeric constants. -/
namespace SegAsm

/-- Why a text is not a 64-bit integer. -/
inductive NumeralError where
  | malformed
  | outOfRange
deriving DecidableEq, Repr

/-- The value of a digit in any base up to sixteen, in either case. -/
def digitValue? (c : Char) : Option Nat :=
  if c.isDigit then some (c.toNat - '0'.toNat)
  else if 'a' ≤ c && c ≤ 'f' then some (c.toNat - 'a'.toNat + 10)
  else if 'A' ≤ c && c ≤ 'F' then some (c.toNat - 'A'.toNat + 10)
  else none

/-- The digits of a numeral in the given base, most significant first. -/
def digits? (base : Nat) (cs : List Char) : Option (List Nat) :=
  cs.mapM fun c => (digitValue? c).filter (· < base)

/-- The number that the digits denote. -/
def ofDigits (base : Nat) (ds : List Nat) : Nat :=
  ds.foldl (fun n d => n * base + d) 0

/-- Reads an unsigned numeral; it has at least one digit. -/
def numeral? (base : Nat) (cs : List Char) : Option Nat :=
  if cs.isEmpty then none else (digits? base cs).map (ofDigits base)

/-- Splits an optional sign off. -/
def splitSign : List Char → Bool × List Char
  | '-' :: cs => (true, cs)
  | '+' :: cs => (false, cs)
  | cs => (false, cs)

/-- The number of 64-bit integers that are not negative. -/
def int64Bound : Nat := 0x8000000000000000

/-- Reads a signed 64-bit integer in the given base. -/
def parseInt64 (base : Nat) (cs : List Char) : Except NumeralError Int :=
  let (negative, rest) := splitSign cs
  match numeral? base rest with
  | none => .error .malformed
  | some n =>
    if negative then
      if n ≤ int64Bound then .ok (-(n : Int)) else .error .outOfRange
    else
      if n < int64Bound then .ok n else .error .outOfRange

/-- The value of a constant: a suffix `h`, `b` or `d` gives the base sixteen, two or ten, and
without one the base is ten. -/
def constantValue (text : String) : Except NumeralError Int :=
  let cs := text.toList
  match cs.getLast? with
  | none => .error .malformed
  | some c =>
    if c == 'h' || c == 'H' then parseInt64 16 cs.dropLast
    else if c == 'b' || c == 'B' then parseInt64 2 cs.dropLast
    else if c == 'd' || c == 'D' then parseInt64 10 cs.dropLast
    else parseInt64 10 cs

/-- The bytes that a constant needs: 1, 2 or 4, or nothing outside the signed 32-bit range. -/
def constantSize? (v : Int) : Option Nat :=
  if v > 2147483647 || v < -2147483648 then none
  else if v < 256 then some 1
  else if v < 65536 then some 2
  else some 4

/-- The value and the size of a numeric lexeme. The value is 0 if the lexeme is no numeric
constant or does not fit into 64 bits, and then it has no size. -/
def Lexeme.constant (l : Lexeme) : Int × Option Nat :=
  if l.kind.isNumeric then
    match constantValue l.text with
    | .ok v => (v, constantSize? v)
    | .error _ => (0, none)
  else (0, none)

end SegAsm
