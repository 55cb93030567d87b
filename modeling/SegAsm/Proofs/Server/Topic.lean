import SegAsm.Server.Session

/-! What a message is about. The answer to a request is a function of its topic, and a request about a
document reads and writes that document alone. -/
namespace SegAsm.Server

/-- What a request asks of the document that it names. A change has at least one text. -/
inductive Action where
  | openText (text : String) (version : Int)
  | changeText (first : String) (rest : List String) (version : Int)
  | close
  | diagnose
  | beforeSave
  | hover (position : Position)
deriving DecidableEq, Repr

inductive Topic where
  /-- The parameters cannot be read, or a change has no text. -/
  | invalid
  | document (uri : String) (action : Action)
  | start
  | stop
  | unknown
deriving DecidableEq, Repr

namespace Request

/-- The topic by the parameters of a request. -/
def topicWith (r : Request) (reader : Json.Reader Params) (f : Params → Topic) : Topic :=
  match r.params.bind (reader {}) with
  | some p => f p
  | none => .invalid

def topic (r : Request) : Topic :=
  match r.method with
  | "initialize" => r.topicWith Params.starting fun _ => .start
  | "textDocument/didOpen" => r.topicWith Params.didOpen fun p =>
    .document p.document.uri (.openText p.document.text p.document.version)
  | "textDocument/didChange" => r.topicWith Params.didChange fun p =>
    match p.changes with
    | some (first :: rest) => .document p.document.uri (.changeText first rest p.document.version)
    | _ => .invalid
  | "textDocument/didClose" => r.topicWith Params.named fun p => .document p.document.uri .close
  | "textDocument/diagnostic" => r.topicWith Params.named fun p =>
    .document p.document.uri .diagnose
  | "textDocument/willSaveWaitUntil" => r.topicWith Params.willSave fun p =>
    .document p.document.uri .beforeSave
  | "textDocument/hover" => r.topicWith Params.hover fun p =>
    .document p.document.uri (.hover p.position)
  | "shutdown" | "exit" => .stop
  | _ => .unknown

end Request

/-- The topic of a message that is a request. -/
def topic? (m : Json) : Option Topic :=
  match Incoming.ofJson m with
  | .request r => some r.topic
  | _ => none

/-- What a message asks of a document; nothing if it is not about that document. -/
def actionOn? (uri : String) (m : Json) : Option Action :=
  match topic? m with
  | some (.document named a) => if named = uri then some a else none
  | _ => none

/-- The messages that end a connection: a request to do so, and what is no message. -/
def endsConnection (m : Json) : Bool :=
  match Incoming.ofJson m with
  | .request r => r.topic == .stop
  | .response => false
  | .malformed => true

namespace Documents

variable (ds : Documents) (uri : String) {other : String}

@[simp] theorem get?_erase : (ds.erase uri).get? uri = none := by
  simp [get?, erase, List.find?_filter]

theorem get?_erase_of_ne (h : other ≠ uri) : (ds.erase uri).get? other = ds.get? other := by
  unfold get? erase
  rw [List.find?_filter]
  congr 2
  funext e
  by_cases he : e.1 = other
  · simp [he, h]
  · simp [he]

@[simp] theorem get?_put (d : Document) : (ds.put uri d).get? uri = some d := by
  simp [get?, put]

theorem get?_put_of_ne (d : Document) (h : other ≠ uri) :
    (ds.put uri d).get? other = ds.get? other := by
  rw [← get?_erase_of_ne ds uri h]
  simp [get?, put, h.symm]

@[simp] theorem get_put (d : Document) : (ds.put uri d).get uri = d := by
  simp [get]

end Documents

namespace Session

/-- Carries out what is asked of a document. -/
def act (s : Session) (id : RequestId) (uri : String) : Action → Session × List Json
  | .openText text version => s.openText uri text version
  | .changeText first _ version => s.changeText uri first version
  | .close => ({ s with documents := s.documents.erase uri }, [])
  | .diagnose => s.diagnose id uri
  | .beforeSave => (s, [reply id (.array [layoutEdit (s.documents.get uri).text])])
  | .hover position => (s, [reply id (s.hoverResult uri position)])

def answer (s : Session) (id : RequestId) : Topic → Session × List Json
  | .invalid => (s, [invalidParameters id])
  | .document uri a => s.act id uri a
  | .start => ({ s with registrations := s.registrations + 1 },
      [reply id capabilities, registration s.registrations])
  | .stop => ({ s with closed := true }, [reply id .null])
  | .unknown => (s, [])

variable {s s' : Session} {m : Json} {r : Request}

theorem withParams_eq_answer {reader : Json.Reader Params} {f : Params → Topic}
    {g : Params → Session × List Json} (h : ∀ p, g p = s.answer r.id (f p)) :
    s.withParams r reader g = s.answer r.id (r.topicWith reader f) := by
  unfold withParams Request.topicWith
  cases r.params.bind (reader {}) with
  | none => rfl
  | some p => exact h p

/-- A request is answered by its topic. -/
theorem handle_eq_answer (s : Session) (r : Request) : s.handle r = s.answer r.id r.topic := by
  unfold handle
  split
  case h_3 hmethod =>
    unfold Request.topic
    rw [hmethod]
    refine withParams_eq_answer fun p => ?_
    match p.changes with
    | none => rfl
    | some [] => rfl
    | some (first :: rest) => rfl
  case h_8 hmethod =>
    unfold Request.topic
    rw [hmethod]
    rfl
  case h_9 hmethod =>
    unfold Request.topic
    rw [hmethod]
    rfl
  case h_10 =>
    unfold Request.topic
    split
    case h_10 => rfl
    all_goals contradiction
  all_goals
    rename_i hmethod
    unfold Request.topic
    rw [hmethod]
    exact withParams_eq_answer fun p => rfl

theorem receive_of_request (hopen : s.closed = false) (hm : Incoming.ofJson m = .request r) :
    s.receive m = s.answer r.id r.topic := by
  unfold receive
  rw [hopen, hm]
  exact handle_eq_answer s r

/-- All that a message can do: what is no request, or comes too late, has no answer and touches no
document, and a request is answered by its topic. -/
theorem receive_cases (s : Session) (m : Json) :
    ((s.receive m).1.documents = s.documents ∧ (s.receive m).2 = []) ∨
      ∃ r, Incoming.ofJson m = .request r ∧ s.receive m = s.answer r.id r.topic := by
  cases hclosed : s.closed with
  | true => simp [receive, hclosed]
  | false =>
    cases hm : Incoming.ofJson m with
    | request r => exact .inr ⟨r, rfl, receive_of_request hclosed hm⟩
    | response => simp [receive, hclosed, hm]
    | malformed => simp [receive, hclosed, hm]

/-- The notification of the diagnostics of a program. -/
def publication (uri : String) (version : Int) (p : Program) : Json :=
  notify "textDocument/publishDiagnostics" <| .object [("uri", .string uri),
    ("version", .ofInt version), ("diagnostics", .array (p.diagnostics.map diagnosticJson))]

/-- What is stored for a document is its text with the program of that text, whatever program was
there before. -/
theorem get?_assembleStored (s : Session) (uri : String) :
    (s.assembleStored uri).1.documents.get? uri =
      some ⟨(s.documents.get uri).text, some (assemble (s.documents.get uri).text)⟩ :=
  Documents.get?_put _ _ _

theorem get?_publish (s : Session) (uri : String) (d : Document) (version : Int) :
    ((s.store uri d).publish uri version).1.documents.get? uri =
      some ⟨d.text, some (assemble d.text)⟩ := by
  have hstored : (s.store uri d).documents.get uri = d := Documents.get_put _ _ _
  unfold publish
  rw [get?_assembleStored, hstored]

theorem answers_publish (s : Session) (uri : String) (d : Document) (version : Int) :
    ((s.store uri d).publish uri version).2 = [publication uri version (assemble d.text)] := by
  have hstored : (s.store uri d).documents.get uri = d := Documents.get_put _ _ _
  unfold publish assembleStored publication
  rw [hstored]

section Act

variable (s) (id : RequestId) (uri : String) (a : Action)

theorem closed_act : (s.act id uri a).1.closed = s.closed := by
  cases a <;> rfl

theorem get?_act_of_ne {other : String} (h : other ≠ uri) :
    (s.act id uri a).1.documents.get? other = s.documents.get? other := by
  cases a with
  | openText | changeText =>
    exact (Documents.get?_put_of_ne _ _ _ h).trans (Documents.get?_put_of_ne _ _ _ h)
  | diagnose => exact Documents.get?_put_of_ne _ _ _ h
  | close => exact Documents.get?_erase_of_ne _ _ h
  | beforeSave | hover => rfl

/-- What is asked of a document is answered from that document. -/
theorem act_congr (h : s.documents.get? uri = s'.documents.get? uri) :
    (s.act id uri a).2 = (s'.act id uri a).2 ∧
      (s.act id uri a).1.documents.get? uri = (s'.act id uri a).1.documents.get? uri := by
  have hget : s.documents.get uri = s'.documents.get uri := by
    unfold Documents.get
    rw [h]
  cases a with
  | openText text version =>
    exact ⟨by simp only [act, openText, answers_publish], by simp only [act, openText, get?_publish]⟩
  | changeText text rest version =>
    exact ⟨by simp only [act, changeText, answers_publish],
      by simp only [act, changeText, get?_publish]⟩
  | close => exact ⟨rfl, by simp only [act, Documents.get?_erase]⟩
  | diagnose =>
    exact ⟨by simp only [act, diagnose, assembleStored, hget],
      by simp only [act, diagnose, get?_assembleStored, hget]⟩
  | beforeSave => exact ⟨by simp only [act, hget], h⟩
  | hover position => exact ⟨by simp only [act, hoverResult, h], h⟩

end Act

end Session
end SegAsm.Server
