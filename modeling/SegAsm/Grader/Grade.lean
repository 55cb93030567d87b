import SegAsm.Grader.Assignment
import SegAsm.Grader.Compare
import SegAsm.Listing.Render

/-! Grading submitted listings against those of reference programs. -/
namespace SegAsm.Grader

/-- A test case with what belongs to it. -/
structure Submission where
  testCase : TestCase
  /-- The source of the reference program. -/
  reference : String
  /-- Whether there is something where the listing should be. -/
  present : Bool
  /-- The submitted listing, if it can be read. -/
  listing : Option String
deriving DecidableEq, Repr

/-- The lines that a listing of the program should have. -/
def referenceLines (o : Listing.Options) (source : String) : List String :=
  normalize (String.intercalate "\n" (Listing.render o (assemble source)))

namespace Submission

/-- What is wrong with the submitted listing; nothing if it agrees with the reference. -/
def fault? (o : Listing.Options) (s : Submission) : Option String :=
  match s.listing with
  | none =>
    some ("Listing file " ++ Text.signed s.testCase.number ++ ".lst was not submitted.\n")
  | some text =>
    let ms := mismatches (referenceLines o s.reference) (normalize text)
    if ms.isEmpty then none else some (mismatchText ms)

end Submission

/-- A test case with its outcome. -/
structure Outcome where
  testCase : TestCase
  /-- What is wrong, or nothing if the case is passed. -/
  fault : Option String
deriving DecidableEq, Repr

namespace Outcome

def passed (r : Outcome) : Bool :=
  r.fault.isNone

def earned (r : Outcome) : Points :=
  if r.passed then r.testCase.points else 0

def text (r : Outcome) : String :=
  (if r.passed then "[PASS] " else "\n[FAIL] ") ++ "Test Case: " ++ r.testCase.name ++ " (" ++
    Text.signed r.testCase.number ++ ")\n" ++ r.fault.getD ""

end Outcome

/-- The test on whether every listing was submitted, with its score. -/
def formatTest (points : Points) (submissions : List Submission) : Test × Points :=
  let test : Test := { name := "Format", maxScore := points, visibility := "visible" }
  let missing := submissions.filter (!·.present)
  if missing.isEmpty then
    ((test.print "All listing files were submitted.").setStatus true, points)
  else
    let names := missing.map fun s => Text.signed s.testCase.number ++ ".lst"
    ((test.print ("Missing listing files: " ++ String.intercalate ", " names)).setStatus false, 0)

/-- The visibilities of some test cases, each once and in order. -/
def visibilities (cases : List TestCase) : List String :=
  (cases.map TestCase.visibility).eraseDups.mergeSort fun a b => a ≤ b

/-- The test that sums up all outcomes of one visibility, with its score. -/
def groupTest (visibility : String) (outcomes : List Outcome) : Test × Points :=
  let passed := outcomes.filter Outcome.passed
  let test : Test :=
    { name := if visibility == "visible" then "Smoke Test Cases" else "All Other Test Cases"
      maxScore := (outcomes.map (·.testCase.points)).sum
      visibility }
  let test := test.print
    ("Number Passed: " ++ Text.decimal passed.length ++ "/" ++ Text.decimal outcomes.length)
  let test := test.print (String.join (outcomes.map Outcome.text))
  (test.setStatus (passed.length == outcomes.length), (outcomes.map Outcome.earned).sum)

/-- The format test, and then one test for every visibility. -/
def grade (formatPoints : Points) (o : Listing.Options) (submissions : List Submission) : Report :=
  let outcomes := submissions.map fun s => (⟨s.testCase, s.fault? o⟩ : Outcome)
  let groups := (visibilities (submissions.map Submission.testCase)).map fun v =>
    groupTest v (outcomes.filter (·.testCase.visibility == v))
  (formatTest formatPoints submissions :: groups).foldl (fun r t => r.addTest t.1 t.2) {}

/-- Why an assignment cannot be graded. -/
inductive GradeError where
  | options (e : Listing.OptionsError)
  | reference (number : Int) (failure : FileFailure)
deriving DecidableEq, Repr

def GradeError.message : GradeError → String
  | .options e => "autograder listing options: " ++ e.message
  | .reference number failure =>
    "test case " ++ Text.signed number ++ ": reading reference program: " ++ failure.message

/-- Reads what belongs to a test case. -/
def Submission.collect {m : Type → Type} [Monad m] (fs : FileAccess m) (a : Assignment)
    (c : TestCase) : m (Except GradeError Submission) := do
  let path := Path.join a.studentDirectory (Text.signed c.number ++ ".lst")
  let present ← fs.isThere path
  match ← fs.read (Path.join a.codeDirectory (Text.signed c.number ++ ".asm")) with
  | .error failure => return .error (.reference c.number failure)
  | .ok reference =>
    return .ok { testCase := c, reference, present, listing := (← fs.read path).toOption }

/-- Reads and grades an assignment. -/
def Assignment.grade {m : Type → Type} [Monad m] (fs : FileAccess m) (a : Assignment) :
    m (Except GradeError Report) := do
  match Listing.Options.parse a.listingOptions with
  | .error e => return .error (.options e)
  | .ok o =>
    let collected ← a.cases.mapM (Submission.collect fs a)
    return (collected.mapM id).map (Grader.grade a.formatPoints o)

end SegAsm.Grader
