import SegAsm.Code
import SegAsm.Diagnostic
import SegAsm.Json.Print
import SegAsm.Json.Read

/-! The messages between an editor and the language server. -/
namespace SegAsm.Server

/-- What ties a reply to its request. -/
inductive RequestId where
  | number (n : Nat)
  | text (s : String)
deriving DecidableEq, Repr

def RequestId.json : RequestId → Json
  | .number n => .ofNat n
  | .text s => .string s

structure Request where
  /-- Zero for a request without one. -/
  id : RequestId
  method : String
  params : Option Json
deriving Repr

/-- What the editor sends. -/
inductive Incoming where
  | request (r : Request)
  | response
  | malformed
deriving Repr

/-- The id of a request: a text, or a 64-bit integer taken as a word. -/
def requestId? : Option Json → Option RequestId
  | none | some .null => some (.number 0)
  | some (.string s) => some (.text s)
  | some (.number literal) =>
    (parseInt64 10 literal.toList).toOption.map fun i => .number (word64 i)
  | some _ => none

/-- Whether a member has a value. -/
def isGiven : Option Json → Bool
  | none | some .null => false
  | some _ => true

/-- Whether a message has the id of a response: a text or an unsigned word. -/
def isResponseId : Option Json → Bool
  | none | some .null | some (.string _) => true
  | some (.number literal) =>
    match numeral? 10 literal.toList with
    | some n => n < wordCount
    | none => false
  | some _ => false

/-- The error of a response has a code and a message. -/
def isResponseError (j : Json) : Bool :=
  (Json.Reader.record [
    ("code", .field Prod.fst (fun e v => (v, e.2)) .int),
    ("message", .field Prod.snd (fun e v => (e.1, v)) .string)] ((0, "") : Int × String) j).isSome

/-- A request has a method, a response a result or an error, and no message has both. -/
def Incoming.ofJson (j : Json) : Incoming :=
  match j with
  | .object _ =>
    let id := j.get? "id"
    let isResponse := (j.get? "result").isSome || isGiven (j.get? "error")
    match j.get? "method" with
    | none | some .null =>
      if isResponse && isResponseId id && isResponseError ((j.get? "error").getD .null) then
        .response
      else .malformed
    | some (.string method) =>
      match requestId? id with
      | some id => if isResponse then .malformed else .request ⟨id, method, j.get? "params"⟩
      | none => .malformed
    | some _ => .malformed
  | _ => .malformed

def version : String × Json := ("jsonrpc", .string "2.0")

def reply (id : RequestId) (result : Json) : Json :=
  .object [version, ("id", id.json), ("result", result)]

/-- The reply to a request whose parameters cannot be read. -/
def invalidParameters (id : RequestId) : Json :=
  .object [version, ("id", id.json), ("error", .object [("code", .ofInt (-32602)),
    ("message", .string "invalid parameters"), ("data", .string "invalid parameters")])]

def notify (method : String) (params : Json) : Json :=
  .object [version, ("method", .string method), ("params", params)]

def positionJson (p : Position) : Json :=
  .object [("line", .ofInt p.line), ("character", .ofInt p.char)]

def rangeJson (r : Range) : Json :=
  .object [("start", positionJson r.start), ("end", positionJson r.stop)]

def diagnosticJson (d : Diagnostic) : Json :=
  .object [("range", rangeJson d.range), ("message", .string d.message),
    ("source", .string Diagnostic.source), ("severity", .ofNat d.severity.code)]

/-- The capabilities that the server declares. -/
def capabilities : Json :=
  .object [("capabilities", .object [("textDocumentSync", .ofNat 1), ("hoverProvider", .bool true),
    ("diagnosticProvider", .object [("interFileDependencies", .bool false),
      ("workspaceDiagnostics", .bool false)])])]

/-- The request for changes before a document is saved, with its number. -/
def registration (number : Nat) : Json :=
  let documents := Json.array [.object [("language", .string "x86asm"), ("scheme", .string "file")]]
  .object [version, ("id", .ofNat number), ("method", .string "client/registerCapability"),
    ("params", .object [("registrations", .array [.object [
      ("id", .string "textDocumentSync.willSaveWaitUntil"),
      ("method", .string "textDocument/willSaveWaitUntil"),
      ("registerOptions", .object [("documentSelector", documents)])]])])]

end SegAsm.Server
