/-! Decimal and hexadecimal numerals of fixed least width. -/
namespace SegAsm.Text

/-- The text with `fill` in front until it has `width` code points. -/
def padLeft (fill : Char) (width : Nat) (s : String) : String :=
  String.ofList (List.replicate (width - s.length) fill ++ s.toList)

/-- The text with blanks behind until it has `width` code points. -/
def padRight (width : Nat) (s : String) : String :=
  String.ofList (s.toList ++ List.replicate (width - s.length) ' ')

def decimal (n : Nat) : String :=
  String.ofList (Nat.toDigits 10 n)

def signed (i : Int) : String :=
  match i with
  | .ofNat n => decimal n
  | .negSucc n => "-" ++ decimal (n + 1)

def hexLower (n : Nat) : String :=
  String.ofList (Nat.toDigits 16 n)

def hexUpper (n : Nat) : String :=
  String.ofList ((Nat.toDigits 16 n).map Char.toUpper)

/-- Upper case hexadecimal with at least `width` digits. -/
def hexPadded (width n : Nat) : String :=
  padLeft '0' width (hexUpper n)

/-- The widest field that a numeral is padded to. -/
def maxFieldWidth : Nat := 1000000

/-- What stands in front of a numeral that a wider field was asked for. -/
def refusedWidth : String := "%!(BADWIDTH)"

/-- Upper case hexadecimal padded to `width` digits, or with no padding if that is too wide. -/
def hexField (width n : Nat) : String :=
  if maxFieldWidth < width then refusedWidth ++ hexUpper n else hexPadded width n

end SegAsm.Text
