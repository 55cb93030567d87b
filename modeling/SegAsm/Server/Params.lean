import SegAsm.Diagnostic
import SegAsm.Json.Read

/-! The parameters of requests. -/
namespace SegAsm.Server

open Json (Reader)

/-- A document as the editor names it. -/
structure DocumentItem where
  uri : String := ""
  languageId : String := ""
  version : Int := 0
  text : String := ""
deriving DecidableEq, Repr, Inhabited

/-- A document that is only named. -/
def DocumentItem.nameReader : Reader DocumentItem :=
  .record [("uri", .field uri (fun d v => { d with uri := v }) .string)]

/-- A document that is named with its version. -/
def DocumentItem.versionReader : Reader DocumentItem :=
  .record [
    ("uri", .field uri (fun d v => { d with uri := v }) .string),
    ("version", .field version (fun d v => { d with version := v }) .int)]

def DocumentItem.reader : Reader DocumentItem :=
  .record [
    ("uri", .field uri (fun d v => { d with uri := v }) .string),
    ("languageId", .field languageId (fun d v => { d with languageId := v }) .string),
    ("version", .field version (fun d v => { d with version := v }) .int),
    ("text", .field text (fun d v => { d with text := v }) .string)]

/-- The parameters of all requests; each reader fills in those of its own. -/
structure Params where
  document : DocumentItem := {}
  /-- Whole texts, one after the other. -/
  changes : Option (List String) := none
  position : Position := ⟨0, 0⟩
  reason : Int := 0
  processId : Int := 0
deriving DecidableEq, Repr, Inhabited

namespace Params

def documentField (r : Reader DocumentItem) : String × Reader Params :=
  ("textDocument", .field document (fun p v => { p with document := v }) r)

/-- A change holds the whole text. -/
def changeReader : Reader String :=
  .record [("text", .string)]

def positionReader : Reader Position :=
  .record [
    ("line", .field Position.line (fun p v => { p with line := v }) .int),
    ("character", .field Position.char (fun p v => { p with char := v }) .int)]

def starting : Reader Params :=
  .record [("processId", .field processId (fun p v => { p with processId := v }) .int)]

def didOpen : Reader Params :=
  .record [documentField DocumentItem.reader]

def named : Reader Params :=
  .record [documentField DocumentItem.nameReader]

def didChange : Reader Params :=
  .record [
    documentField DocumentItem.versionReader,
    ("contentChanges",
      .field changes (fun p v => { p with changes := v }) (.list changeReader ""))]

def willSave : Reader Params :=
  .record [
    documentField DocumentItem.nameReader,
    ("reason", .field reason (fun p v => { p with reason := v }) .int)]

def hover : Reader Params :=
  .record [
    documentField DocumentItem.nameReader,
    ("position", .field position (fun p v => { p with position := v }) positionReader)]

end Params

end SegAsm.Server
