import SegAsm.Json.Print

/-! Results of grading, and the JSON that a course site collects. -/
namespace SegAsm.Grader

/-- Points are 64-bit integers. -/
abbrev Points := Int64

inductive Status where
  | passed
  | failed
deriving DecidableEq, Repr

namespace Status

def ofBool (success : Bool) : Status :=
  if success then .passed else .failed

def name : Status → String
  | .passed => "passed"
  | .failed => "failed"

end Status

/-- One graded item. -/
structure Test where
  name : String := ""
  maxScore : Points := 0
  score : Points := 0
  output : String := ""
  visibility : String := ""
  status : Option Status := none
deriving DecidableEq, Repr, Inhabited

namespace Test

/-- Adds a line to the output. -/
def print (t : Test) (line : String) : Test :=
  { t with output := t.output ++ line ++ "\n" }

def setStatus (t : Test) (success : Bool) : Test :=
  { t with status := some (.ofBool success) }

def json (t : Test) : Json :=
  .object ([("name", .string t.name), ("max_score", .ofInt t.maxScore.toInt),
    ("score", .ofInt t.score.toInt), ("output", .string t.output),
    ("visibility", .string t.visibility)] ++
    match t.status with
    | some s => [("status", .string s.name)]
    | none => [])

end Test

/-- A line of the leaderboard. -/
structure Standing where
  name : String
  value : Points
  order : String := ""
deriving DecidableEq, Repr, Inhabited

def Standing.json (s : Standing) : Json :=
  .object ([("name", .string s.name), ("value", .ofInt s.value.toInt)] ++
    if s.order.isEmpty then [] else [("order", .string s.order)])

structure Report where
  tests : List Test := []
  leaderboard : List Standing := []
deriving DecidableEq, Repr, Inhabited

namespace Report

/-- Adds a test with its score. -/
def addTest (r : Report) (t : Test) (score : Points) : Report :=
  { r with tests := r.tests ++ [{ t with score }] }

/-- The total over all tests. -/
def score (r : Report) : Points :=
  (r.tests.map Test.score).sum

def json (r : Report) : Json :=
  .object [("tests", .array (r.tests.map Test.json)),
    ("leaderboard", .array (r.leaderboard.map Standing.json))]

end Report

end SegAsm.Grader
