import SegAsm.Text.Lines
import SegAsm.Text.Number

/-! The lines above a listing. -/
namespace SegAsm.Listing

/-- A date and a time of day. -/
structure Moment where
  year : Nat
  month : Nat
  day : Nat
  hour : Nat
  minute : Nat
  second : Nat
deriving DecidableEq, Repr, Inhabited

namespace Moment

/-- The start of the calendar; it stands for no time. -/
def origin : Moment := ⟨1, 1, 1, 0, 0, 0⟩

def twoDigits (n : Nat) : String :=
  Text.padLeft '0' 2 (Text.decimal n)

/-- Day, month and year, then the time of day. -/
def text (m : Moment) : String :=
  twoDigits m.day ++ "/" ++ twoDigits m.month ++ "/" ++ Text.padLeft '0' 4 (Text.decimal m.year) ++
    " " ++ twoDigits m.hour ++ ":" ++ twoDigits m.minute ++ ":" ++ twoDigits m.second

end Moment

structure Header where
  title : String := ""
  generated : Option Moment := none
deriving DecidableEq, Repr, Inhabited

namespace Header

/-- What the line with the time starts with. -/
def generatedMark : String := "Generated: "

/-- The title and the time, as far as they are given. -/
def lines (h : Header) : List String :=
  (if h.title.isEmpty then [] else [h.title]) ++
    match h.generated with
    | some m => if m = .origin then [] else [generatedMark ++ m.text]
    | none => []

end Header

/-- The text of a file with the header and the lines. -/
def document (h : Header) (lines : List String) : String :=
  Text.unlines (h.lines ++ lines)

end SegAsm.Listing
