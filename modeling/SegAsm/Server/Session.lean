import SegAsm.Hover
import SegAsm.Layout
import SegAsm.Server.Message
import SegAsm.Server.Params

/-! A language server: what it keeps, and what it answers to each message. -/
namespace SegAsm.Server

/-- A text, and what it was last assembled to. -/
structure Document where
  text : String := ""
  program : Option Program := none
deriving Repr, Inhabited

/-- The documents of an editor by their names. -/
abbrev Documents := List (String × Document)

namespace Documents

def get? (ds : Documents) (uri : String) : Option Document :=
  (ds.find? (·.1 == uri)).map Prod.snd

def erase (ds : Documents) (uri : String) : Documents :=
  ds.filter (·.1 != uri)

def put (ds : Documents) (uri : String) (d : Document) : Documents :=
  (uri, d) :: erase ds uri

/-- The document of a name; one that is not there is empty. -/
def get (ds : Documents) (uri : String) : Document :=
  (get? ds uri).getD {}

end Documents

/-- One connection with an editor. -/
structure Session where
  documents : Documents := []
  /-- How many registrations have been asked for. -/
  registrations : Nat := 0
  closed : Bool := false
deriving Repr, Inhabited

namespace Session

def store (s : Session) (uri : String) (d : Document) : Session :=
  { s with documents := s.documents.put uri d }

/-- Assembles the text that is stored under a name and stores the result with it. A document that is
not there is made. -/
def assembleStored (s : Session) (uri : String) : Session × List Diagnostic :=
  let d := s.documents.get uri
  let p := assemble d.text
  (s.store uri { d with program := some p }, p.diagnostics)

/-- Assembles a document, with the notification of its diagnostics. -/
def publish (s : Session) (uri : String) (version : Int) : Session × List Json :=
  let (s, diagnostics) := s.assembleStored uri
  (s, [notify "textDocument/publishDiagnostics" <| .object [("uri", .string uri),
    ("version", .ofInt version), ("diagnostics", .array (diagnostics.map diagnosticJson))]])

def openText (s : Session) (uri text : String) (version : Int) : Session × List Json :=
  (s.store uri { text }).publish uri version

/-- A change keeps what the text before it was assembled to until the new text is assembled. -/
def changeText (s : Session) (uri text : String) (version : Int) : Session × List Json :=
  (s.store uri { s.documents.get uri with text }).publish uri version

/-- Assembles a document, with its diagnostics in reply. -/
def diagnose (s : Session) (id : RequestId) (uri : String) : Session × List Json :=
  let (s, diagnostics) := s.assembleStored uri
  (s, [reply id (.object [("kind", .string "full"),
    ("items", .array (diagnostics.map diagnosticJson))])])

/-- The change that replaces a whole text by its layout. -/
def layoutEdit (text : String) : Json :=
  let pieces := Text.pieces text
  let last := pieces.getLastD ""
  let stop : Position := ⟨(pieces.length : Int) - 1, last.utf8ByteSize⟩
  .object [("range", rangeJson ⟨⟨0, 0⟩, stop⟩), ("newText", .string (Layout.reformat text))]

/-- What is shown at a position of a document. -/
def hoverResult (s : Session) (uri : String) (position : Position) : Json :=
  match (s.documents.get? uri).bind Document.program |>.bind (Hover.evaluate? · position) with
  | some text =>
    .object [("contents", .object [("kind", .string "markdown"), ("value", .string text)])]
  | none => .null

/-- Answers with the parameters of a request; parameters that cannot be read change nothing. -/
def withParams (s : Session) (r : Request) (reader : Json.Reader Params)
    (f : Params → Session × List Json) : Session × List Json :=
  match r.params.bind (reader {}) with
  | some p => f p
  | none => (s, [invalidParameters r.id])

/-- Answers a request. A method that is not known has no effect. -/
def handle (s : Session) (r : Request) : Session × List Json :=
  match r.method with
  | "initialize" => s.withParams r Params.starting fun _ =>
    ({ s with registrations := s.registrations + 1 },
      [reply r.id capabilities, registration s.registrations])
  | "textDocument/didOpen" => s.withParams r Params.didOpen fun p =>
    s.openText p.document.uri p.document.text p.document.version
  | "textDocument/didChange" => s.withParams r Params.didChange fun p =>
    match p.changes with
    | some (text :: _) => s.changeText p.document.uri text p.document.version
    | _ => (s, [invalidParameters r.id])
  | "textDocument/didClose" => s.withParams r Params.named fun p =>
    ({ s with documents := s.documents.erase p.document.uri }, [])
  | "textDocument/diagnostic" => s.withParams r Params.named fun p =>
    s.diagnose r.id p.document.uri
  | "textDocument/willSaveWaitUntil" => s.withParams r Params.willSave fun p =>
    (s, [reply r.id (.array [layoutEdit (s.documents.get p.document.uri).text])])
  | "textDocument/hover" => s.withParams r Params.hover fun p =>
    (s, [reply r.id (s.hoverResult p.document.uri p.position)])
  | "shutdown" | "exit" => ({ s with closed := true }, [reply r.id .null])
  | _ => (s, [])

/-- Takes the next message. A message that is neither a request nor a response ends the
connection. -/
def receive (s : Session) (j : Json) : Session × List Json :=
  if s.closed then (s, [])
  else
    match Incoming.ofJson j with
    | .request r => s.handle r
    | .response => (s, [])
    | .malformed => ({ s with closed := true }, [])

end Session

end SegAsm.Server
