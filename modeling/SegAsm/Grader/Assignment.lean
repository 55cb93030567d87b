import SegAsm.Grader.Report
import SegAsm.Settings

/-! What is to be graded. -/
namespace SegAsm.Grader

structure TestCase where
  number : Int := 0
  name : String := ""
  visibility : String := ""
  points : Points := 0
deriving DecidableEq, Repr, Inhabited

structure Assignment where
  name : String := ""
  /-- The directory with the reference programs. -/
  codeDirectory : String := ""
  /-- The directory with the submitted listings. -/
  studentDirectory : String := ""
  testCases : Option (List TestCase) := none
  formatPoints : Points := 0
  /-- The option letters that the listings were made with. -/
  listingOptions : String := ""
  mode : String := ""
deriving DecidableEq, Repr, Inhabited

/-- Points as a number. -/
def readPoints : Json.Reader Points :=
  .field Int64.toInt (fun _ v => Int64.ofInt v) .int

open Json (Reader) in
def TestCase.reader : Reader TestCase :=
  .record [
    ("number", .field number (fun c v => { c with number := v }) .int),
    ("name", .field name (fun c v => { c with name := v }) .string),
    ("visibility", .field visibility (fun c v => { c with visibility := v }) .string),
    ("points", .field points (fun c v => { c with points := v }) readPoints)]

def TestCase.json (c : TestCase) : Json :=
  .object [("number", .ofInt c.number), ("name", .string c.name),
    ("visibility", .string c.visibility), ("points", .ofInt c.points.toInt)]

namespace Assignment

/-- Where an assignment is described; where the file is there, the program grades. -/
def file : String := "source/autograderConfig.json"

open Json (Reader) in
def reader : Reader Assignment :=
  .record [
    ("assignmentName", .field name (fun a v => { a with name := v }) .string),
    ("assignmentCodeDir", .field codeDirectory (fun a v => { a with codeDirectory := v }) .string),
    ("studentCodePath",
      .field studentDirectory (fun a v => { a with studentDirectory := v }) .string),
    ("testCases",
      .field testCases (fun a v => { a with testCases := v }) (.list TestCase.reader {})),
    ("formatPoints", .field formatPoints (fun a v => { a with formatPoints := v }) readPoints),
    ("listingOptions", .field listingOptions (fun a v => { a with listingOptions := v }) .string),
    ("mode", .field mode (fun a v => { a with mode := v }) .string)]

def json (a : Assignment) : Json :=
  .object [("assignmentName", .string a.name), ("assignmentCodeDir", .string a.codeDirectory),
    ("studentCodePath", .string a.studentDirectory),
    ("testCases",
      match a.testCases with
      | some cases => .array (cases.map TestCase.json)
      | none => .null),
    ("formatPoints", .ofInt a.formatPoints.toInt), ("listingOptions", .string a.listingOptions),
    ("mode", .string a.mode)]

/-- The test cases in order. -/
def cases (a : Assignment) : List TestCase :=
  a.testCases.getD []

def parse? (text : String) : Option Assignment := do
  reader {} (← Json.parse? text)

/-- Makes an assignment of what reading a file gave. -/
def ofFile (path : String) : Except FileFailure String → Except LoadError Assignment
  | .ok text =>
    match parse? text with
    | some a => .ok a
    | none => .error (.malformed ("autograder config " ++ path))
  | .error f => .error (.unreadable "autograder config" f)

end Assignment

end SegAsm.Grader
