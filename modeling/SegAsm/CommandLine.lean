import SegAsm.Grader.Grade
import SegAsm.Listing.Header

/-! The commands of the program. -/
namespace SegAsm.CommandLine

/-- What has been printed. -/
structure Output where
  stdout : String := ""
  stderr : String := ""
deriving DecidableEq, Repr, Inhabited

/-- A command prints, uses files, and may fail with a message. -/
abbrev Command (m : Type → Type) := ExceptT String (StateT Output m)

/-- What remains to be done after a command. -/
inductive Service where
  | none
  /-- The language server on standard input and output. -/
  | languageServer
  /-- The language server on an address. -/
  | languageServerAt (address : String)
  | webView (source address : String) (options : Listing.Options)
deriving DecidableEq, Repr

def programName : String := "trasm"

def usage : String :=
  Text.unlines [
    "Usage:",
    "    trasm assemble <asmFile> <lstFile> [-clfa]",
    "        -c - also print the listing to the console",
    "        -l - write the lexeme dump to <lstFile>.lex",
    "        -f - write the first pass listing to <lstFile>.flst",
    "        -a - print the assume table after each ASSUME line",
    "    trasm languageServer [debug]",
    "    trasm web <asmFile>",
    "    trasm (no arguments) - language server over TCP"]

section

variable {m : Type → Type} [Monad m]

def print (text : String) : Command m Unit :=
  modify fun o => { o with stdout := o.stdout ++ text }

def printError (text : String) : Command m Unit :=
  modify fun o => { o with stderr := o.stderr ++ text }

/-- Fails with a message made from the error. -/
def orFail {ε α : Type} (message : ε → String) : Except ε α → Command m α
  | .ok a => return a
  | .error e => throw (message e)

/-- Does something with files. -/
def onFiles {α : Type} (action : m α) : Command m α :=
  ExceptT.lift (StateT.lift action)

/-- Writes a listing to a file. -/
def writeListing (fs : FileAccess m) (path : String) (h : Listing.Header) (lines : List String) :
    Command m Unit := do
  orFail (fun f => "could not create " ++ path ++ ": " ++ FileFailure.message f)
    (← onFiles (fs.write path (Listing.document h lines)))

/-- Assembles a file and writes the listings that the options ask for. -/
def assembleFile (fs : FileAccess m) (now : Option Listing.Moment) (settings : Settings)
    (source target : String) (o : Listing.Options) : Command m Unit := do
  let source := Path.addExtension source ".asm"
  let target := Path.ofListing target
  let text ← orFail (fun f => "could not read " ++ source ++ ": " ++ FileFailure.message f)
    (← onFiles (fs.read source))
  let p := assemble text
  let header : Listing.Header := { title := settings.title, generated := now }
  let lines := Listing.render o p
  if o.console then
    print (Listing.document header lines)
  writeListing fs target header lines
  print ("Input file: " ++ source ++ "\nOutput file: " ++ target ++ "\n")
  if o.firstPass then
    let path := Path.replaceExtension target settings.firstPassSuffix
    writeListing fs path header (Listing.firstPassRows p)
    print ("First pass file: " ++ path ++ "\n")
  if o.lexemes then
    let path := Path.replaceExtension target settings.lexemeSuffix
    writeListing fs path {} (Listing.lexemeListing (Text.splitLines text))
    print ("Lexeme file: " ++ path ++ "\n")
  print (Text.unlines (Listing.errorSummaryOf p))

/-- Where the results of grading are collected. -/
def resultsDirectory : String := "results"

def resultsFile : String := "results/results.json"

def saveReport (fs : FileAccess m) (r : Grader.Report) : Command m Unit := do
  orFail (fun f => "Could not save results: creating results directory: " ++ FileFailure.message f)
    (← onFiles (fs.makeDirectory resultsDirectory))
  orFail (fun f => "Could not save results: writing results: " ++ FileFailure.message f)
    (← onFiles (fs.write resultsFile r.json.render))

/-- Grades the submission that the assignment describes. -/
def gradeSubmission (fs : FileAccess m) (a : Grader.Assignment) : Command m Unit := do
  if a.mode != "asm" then
    throw ("Invalid autograding mode: " ++ a.mode)
  let report ← orFail (fun e => "Autograding failed: " ++ Grader.GradeError.message e)
    (← onFiles (a.grade fs))
  saveReport fs report

/-- Why no server can listen on an address: it has to hold a single colon, unless its host stands in
brackets. An empty address leaves all to the system. -/
def addressError? (address : String) : Option String :=
  let colons := address.toList.count ':'
  let refusal (why : String) := some ("listen tcp: address " ++ address ++ ": " ++ why)
  if address.isEmpty then none
  else if colons = 0 then refusal "missing port in address"
  else if 1 < colons && address.toList.head? != some '[' then refusal "too many colons in address"
  else none

/-- Runs the command that the arguments name. An assignment to grade comes before all others. -/
def run (fs : FileAccess m) (now : Option Listing.Moment) (arguments : List String) :
    Command m Service := do
  let settings ← orFail (fun e => "Could not load configuration: " ++ LoadError.message e)
    (Settings.ofFile Settings.file (← onFiles (fs.read Settings.file)))
  let options ← orFail
    (fun e => "Invalid listing options in configuration: " ++ Listing.OptionsError.message e)
    (Listing.Options.parse settings.listingOptions)
  if ← onFiles (fs.isThere Grader.Assignment.file) then
    let a ← orFail (fun e => "Error loading autograder config: " ++ LoadError.message e)
      (Grader.Assignment.ofFile Grader.Assignment.file
        (← onFiles (fs.read Grader.Assignment.file)))
    gradeSubmission fs a
    return .none
  match (if arguments.head? == some "--" then arguments.tail else arguments) with
  | "languageServer" :: _ => return .languageServer
  | ["assemble", source, target] =>
    assembleFile fs now settings source target options
    return .none
  | ["assemble", source, target, letters] =>
    match Listing.Options.parse letters with
    | .ok o => assembleFile fs now settings source target (options.merge o)
    | .error e =>
      printError usage
      throw ("Invalid options: " ++ e.message)
    return .none
  | ["web", source] =>
    let address := settings.webAddress
    printError ("Connect to the translator at http://localhost" ++ address ++ "\n")
    match addressError? address with
    | some e => throw ("web view on " ++ address ++ ": " ++ e)
    | none => return .webView (Path.addExtension source ".asm") address options
  | [] =>
    let address := settings.languageServerAddress
    match addressError? address with
    | some e => throw ("Could not bind to address " ++ address ++ ": " ++ e)
    | none => return .languageServerAt address
  | _ =>
    printError usage
    throw ("Invalid arguments: [" ++ String.intercalate " " (programName :: arguments) ++ "]")

end

/-- How a command ended. -/
structure Ending where
  exitCode : Nat
  output : Output
  service : Service
deriving DecidableEq, Repr

/-- Runs a command to its end; a failure is the last thing printed. -/
def execute {m : Type → Type} [Monad m] (fs : FileAccess m) (now : Option Listing.Moment)
    (arguments : List String) : m Ending := do
  match ← (run fs now arguments).run.run {} with
  | (.ok service, output) => return ⟨0, output, service⟩
  | (.error message, output) =>
    return ⟨1, { output with stderr := output.stderr ++ message ++ "\n" }, .none⟩

end SegAsm.CommandLine
