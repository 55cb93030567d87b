import SegAsm.Files
import SegAsm.Json.Parse
import SegAsm.Json.Read

/-! The configuration of the program. -/
namespace SegAsm

/-- Why a configuration cannot be used. -/
inductive LoadError where
  | unreadable (what : String) (failure : FileFailure)
  | malformed (what : String)
deriving DecidableEq, Repr

namespace LoadError

/-- What was being done. -/
def activity : LoadError → String
  | .unreadable what _ => "reading " ++ what
  | .malformed what => "parsing " ++ what

def message : LoadError → String
  | .unreadable what failure => (unreadable what failure).activity ++ ": " ++ failure.message
  | .malformed what => (malformed what).activity ++ ": unexpected value"

end LoadError

structure Settings where
  /-- Option letters for every listing. -/
  listingOptions : String := ""
  /-- The first line of written listings. -/
  title : String := "x86 Translator listing"
  webAddress : String := ":2035"
  languageServerAddress : String := ":2035"
  logEndpoint : String := "http://localhost:8006/log"
  firstPassSuffix : String := ".flst"
  lexemeSuffix : String := ".lex"
deriving DecidableEq, Repr, Inhabited

namespace Settings

/-- Where the settings are kept. -/
def file : String := "trasm.json"

open Json (Reader) in
def reader : Reader Settings :=
  .record [
    ("listingOptions", .field listingOptions (fun s v => { s with listingOptions := v }) .string),
    ("title", .field title (fun s v => { s with title := v }) .string),
    ("webAddress", .field webAddress (fun s v => { s with webAddress := v }) .string),
    ("languageServerAddress",
      .field languageServerAddress (fun s v => { s with languageServerAddress := v }) .string),
    ("logEndpoint", .field logEndpoint (fun s v => { s with logEndpoint := v }) .string),
    ("firstPassSuffix",
      .field firstPassSuffix (fun s v => { s with firstPassSuffix := v }) .string),
    ("lexemeSuffix", .field lexemeSuffix (fun s v => { s with lexemeSuffix := v }) .string)]

def parse? (text : String) : Option Settings := do
  reader {} (← Json.parse? text)

/-- Makes settings of what reading a file gave; a file that is missing leaves the defaults. -/
def ofFile (path : String) : Except FileFailure String → Except LoadError Settings
  | .ok text =>
    match parse? text with
    | some s => .ok s
    | none => .error (.malformed ("config " ++ path))
  | .error f => if f.cause = .missing then .ok {} else .error (.unreadable ("config " ++ path) f)

end Settings

end SegAsm
