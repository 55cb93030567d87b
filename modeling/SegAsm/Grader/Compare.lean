import SegAsm.Listing.Header
import SegAsm.Text.Quoted
import SegAsm.Text.Replace

/-! Comparing listings. -/
namespace SegAsm.Grader

def isGeneratedLine (line : String) : Bool :=
  Listing.Header.generatedMark.toList.isPrefixOf line.toList

/-- Drops a header: all up to the line with the time, which is one of the first two. -/
def dropHeader : List String → List String
  | [] => []
  | [a] => if isGeneratedLine a then [] else [a]
  | a :: b :: rest =>
    if isGeneratedLine a then b :: rest
    else if isGeneratedLine b then rest
    else a :: b :: rest

def dropBlankEnd (line : String) : String :=
  String.ofList (line.toList.toArray.popWhile Text.isBlank).toList

/-- The lines of a listing without its header, without blanks at their ends and without empty
lines at the end of the listing. -/
def normalize (text : String) : List String :=
  let lines := Text.pieces (String.ofList (Text.replaceAny ["\r\n"] "\n" text.toList))
  (((dropHeader lines).map dropBlankEnd).toArray.popWhile String.isEmpty).toList

/-- A pair of lines that differ; lines are counted from 1. -/
structure Mismatch where
  line : Nat
  expected : String
  submitted : String
deriving DecidableEq, Repr

def Mismatch.text (m : Mismatch) : String :=
  "line " ++ Text.decimal m.line ++ ": expected " ++ Text.quoted m.expected ++ ", got " ++
    Text.quoted m.submitted ++ "\n"

/-- Fills up with empty lines. -/
def fillTo (n : Nat) (lines : List String) : List String :=
  lines ++ List.replicate (n - lines.length) ""

/-- Where two listings differ; the shorter one goes on with empty lines. -/
def mismatches (expected submitted : List String) : List Mismatch :=
  let pairs := (fillTo submitted.length expected).zip (fillTo expected.length submitted)
  (pairs.zipIdx 1).filterMap fun ((e, s), i) => if e == s then none else some ⟨i, e, s⟩

/-- How many mismatches are shown. -/
def shownMismatches : Nat := 5

/-- The first mismatches, and how many more there are. -/
def mismatchText (ms : List Mismatch) : String :=
  String.join ((ms.take shownMismatches).map Mismatch.text) ++
    if shownMismatches < ms.length then
      "... and " ++ Text.decimal (ms.length - shownMismatches) ++ " more differing lines\n"
    else ""

end SegAsm.Grader
