import Mathlib.Data.List.Induction
import SegAsm.Proofs.Server.Topic

/-! The documents of a connection. A document holds the latest text that it was given and what that
text assembles to; what is sent about it is what a new connection would send on the messages about it
alone. -/
namespace SegAsm.Server

namespace Action

/-- The text that a document is given; a change gives the first of its texts. -/
def given? : Action → Option String
  | .openText text _ => some text
  | .changeText first _ _ => some first
  | _ => none

/-- The text of a document behind an action, from the one before it. -/
def textAfter (text : Option String) : Action → Option String
  | .openText text _ => some text
  | .changeText first _ _ => some first
  | .close => none
  | .diagnose => some (text.getD "")
  | .beforeSave | .hover _ => text

end Action

def isAbout (uri : String) (m : Json) : Bool :=
  (actionOn? uri m).isSome

/-- What is asked of a document, in order. -/
def actionsOn (uri : String) (ms : List Json) : List Action :=
  ms.filterMap (actionOn? uri)

/-- What was asked since the document was last closed, the latest first. -/
def recent (as : List Action) : List Action :=
  as.reverse.takeWhile (· ≠ .close)

/-- The latest text that was given since the document was last closed. A request for diagnostics
makes an empty document where there is none. -/
def latestText (as : List Action) : Option String :=
  (recent as).findSome? Action.given? <|> if .diagnose ∈ recent as then some "" else none

theorem recent_concat (as : List Action) {a : Action} (ha : a ≠ .close) :
    recent (as ++ [a]) = a :: recent as := by
  simp [recent, ha]

theorem recent_concat_close (as : List Action) : recent (as ++ [.close]) = [] := by
  simp [recent]

theorem latestText_concat (as : List Action) (a : Action) :
    latestText (as ++ [a]) = a.textAfter (latestText as) := by
  unfold latestText
  cases a with
  | close => simp [recent_concat_close, Action.textAfter]
  | diagnose =>
    rw [recent_concat as (by simp), List.findSome?_cons]
    cases hgiven : (recent as).findSome? Action.given? with
    | some text => simp [Action.given?, Action.textAfter]
    | none => by_cases hmem : Action.diagnose ∈ recent as <;> simp [Action.given?, Action.textAfter, hmem]
  | openText | changeText | beforeSave | hover =>
    rw [recent_concat as (by simp), List.findSome?_cons]
    simp [Action.given?, Action.textAfter]

/-- A notification of the diagnostics of a document. -/
def PublishedFor (uri : String) (j : Json) : Prop :=
  ∃ version diagnostics, j = notify "textDocument/publishDiagnostics" (.object
    [("uri", .string uri), ("version", version), ("diagnostics", diagnostics)])

namespace Session

/-- The session behind some messages. -/
def after (s : Session) (ms : List Json) : Session :=
  ms.foldl (fun s m => (s.receive m).1) s

/-- Each message with what is sent in answer to it. -/
def exchange (s : Session) : List Json → List (Json × List Json)
  | [] => []
  | m :: ms => (m, (s.receive m).2) :: (s.receive m).1.exchange ms

variable {s s' : Session} {m : Json} {ms : List Json} {uri : String} {a : Action}

theorem after_concat (s : Session) (ms : List Json) (m : Json) :
    s.after (ms ++ [m]) = ((s.after ms).receive m).1 := by
  simp [after]

theorem closed_receive (s : Session) (m : Json) :
    (s.receive m).1.closed = (s.closed || endsConnection m) := by
  unfold endsConnection
  cases hclosed : s.closed with
  | true => simp [receive, hclosed]
  | false =>
    cases hm : Incoming.ofJson m with
    | response => simp [receive, hclosed, hm]
    | malformed => simp [receive, hclosed, hm]
    | request r =>
      rw [receive_of_request hclosed hm]
      cases htopic : r.topic with
      | document uri a =>
        have hkept := s.closed_act r.id uri a
        rw [hclosed] at hkept
        simp [answer, hkept, htopic]
      | _ => simp [answer, hclosed, htopic]

theorem closed_after (s : Session) (ms : List Json) :
    (s.after ms).closed = (s.closed || ms.any endsConnection) := by
  induction ms using List.reverseRecOn with
  | nil => simp [after]
  | append_singleton ms m ih => simp [after_concat, closed_receive, ih, Bool.or_assoc]

/-- A message about a document asks the same in every open session. -/
theorem receive_of_action (h : actionOn? uri m = some a) :
    ∃ id, ∀ s : Session, s.closed = false → s.receive m = s.act id uri a := by
  unfold actionOn? topic? at h
  cases hm : Incoming.ofJson m with
  | response => simp [hm] at h
  | malformed => simp [hm] at h
  | request r =>
    rw [hm] at h
    dsimp only at h
    cases htopic : r.topic with
    | document named b =>
      rw [htopic] at h
      obtain ⟨rfl, rfl⟩ : named = uri ∧ b = a := by simpa using h
      refine ⟨r.id, fun s hopen => ?_⟩
      rw [receive_of_request hopen hm, htopic]
      rfl
    | _ => simp [htopic] at h

/-- Messages that are not about a document leave it as it is. -/
theorem get?_receive_of_none (s : Session) (h : actionOn? uri m = none) :
    (s.receive m).1.documents.get? uri = s.documents.get? uri := by
  obtain ⟨hkept, -⟩ | ⟨r, hm, hreceive⟩ := s.receive_cases m
  · rw [hkept]
  · rw [hreceive]
    cases htopic : r.topic with
    | document named a =>
      have hne : uri ≠ named := by
        rintro rfl
        simp [actionOn?, topic?, hm, htopic] at h
      exact s.get?_act_of_ne r.id named a hne
    | _ => rfl

/-- An action on a document ends with its program being that of its text. -/
theorem program_act (id : RequestId) (a : Action)
    (h : ∀ d, s.documents.get? uri = some d → d.program = some (assemble d.text)) :
    ∀ d, (s.act id uri a).1.documents.get? uri = some d → d.program = some (assemble d.text) := by
  intro d hd
  cases a with
  | openText text version =>
    rw [act, openText, get?_publish] at hd
    cases hd
    rfl
  | changeText first rest version =>
    rw [act, changeText, get?_publish] at hd
    cases hd
    rfl
  | close =>
    rw [act, Documents.get?_erase] at hd
    cases hd
  | diagnose =>
    rw [act, diagnose, get?_assembleStored] at hd
    cases hd
    rfl
  | beforeSave | hover => exact h d hd

theorem text_act (s : Session) (uri : String) (id : RequestId) (a : Action) :
    ((s.act id uri a).1.documents.get? uri).map Document.text =
      a.textAfter ((s.documents.get? uri).map Document.text) := by
  cases a with
  | openText => rw [act, openText, get?_publish]; rfl
  | changeText => rw [act, changeText, get?_publish]; rfl
  | close => rw [act, Documents.get?_erase]; rfl
  | diagnose =>
    rw [act, diagnose, get?_assembleStored, Documents.get]
    cases s.documents.get? uri <;> rfl
  | beforeSave | hover => rfl

/-- A document holds the latest text that it was given, and what this text assembles to. -/
theorem documents_after (hms : ∀ m ∈ ms, endsConnection m = false) (uri : String) :
    (∀ d, (after {} ms).documents.get? uri = some d → d.program = some (assemble d.text)) ∧
      ((after {} ms).documents.get? uri).map Document.text = latestText (actionsOn uri ms) := by
  induction ms using List.reverseRecOn with
  | nil => exact ⟨fun _ hd => (Option.some_ne_none _ hd.symm).elim, rfl⟩
  | append_singleton ms m ih =>
    have hbefore : ∀ m' ∈ ms, endsConnection m' = false := fun m' hm' => hms m' (by simp [hm'])
    have hopen : (after {} ms).closed = false := by
      simpa [closed_after] using hbefore
    obtain ⟨hprogram, htext⟩ := ih hbefore
    rw [after_concat, actionsOn, List.filterMap_append]
    cases haction : actionOn? uri m with
    | none =>
      rw [get?_receive_of_none _ haction]
      exact ⟨hprogram, by simpa [actionsOn, haction] using htext⟩
    | some a =>
      obtain ⟨id, hreceive⟩ := receive_of_action haction
      rw [hreceive _ hopen, text_act, htext, ← latestText_concat]
      exact ⟨program_act id a hprogram, by simp [actionsOn, haction]⟩

/-- Two open sessions that agree on a document agree on what is sent about it. -/
theorem exchange_filter (hs : s.closed = false) (hs' : s'.closed = false)
    (hms : ∀ m ∈ ms, endsConnection m = false)
    (h : s.documents.get? uri = s'.documents.get? uri) :
    (s.exchange ms).filter (fun e => isAbout uri e.1) = s'.exchange (ms.filter (isAbout uri)) := by
  induction ms generalizing s s' with
  | nil => rfl
  | cons m ms ih =>
    have hrest : ∀ m' ∈ ms, endsConnection m' = false := fun m' hm' => hms m' (by simp [hm'])
    have hopen : (s.receive m).1.closed = false := by
      rw [closed_receive, hs, hms m (by simp)]
      rfl
    cases haction : actionOn? uri m with
    | none =>
      have hkept : (s.receive m).1.documents.get? uri = s'.documents.get? uri :=
        (get?_receive_of_none s haction).trans h
      have hnot : isAbout uri m = false := by simp [isAbout, haction]
      simp [exchange, hnot, ih hopen hs' hrest hkept]
    | some a =>
      obtain ⟨id, hreceive⟩ := receive_of_action haction
      have hopen' : (s'.receive m).1.closed = false := by
        rw [closed_receive, hs', hms m (by simp)]
        rfl
      obtain ⟨hanswers, hkept⟩ := s.act_congr id uri a h
      rw [← hreceive s hs, ← hreceive s' hs'] at hanswers hkept
      have habout : isAbout uri m = true := by simp [isAbout, haction]
      simp [exchange, habout, hanswers, ih hopen hopen' hrest hkept]

theorem eq_of_publishedFor {named : String} {version : Int} {p : Program}
    (h : PublishedFor uri (publication named version p)) : uri = named := by
  obtain ⟨_, _, h⟩ := h
  simp only [publication, notify] at h
  cases h
  rfl

theorem not_publishedFor_reply (uri : String) (id : RequestId) (result : Json) :
    ¬ PublishedFor uri (reply id result) := by
  rintro ⟨_, _, h⟩
  simp [reply, notify] at h

/-- Diagnostics are only sent in answer to a message about their document. -/
theorem isAbout_of_publishedFor {j : Json} (hj : j ∈ (s.receive m).2) (h : PublishedFor uri j) :
    isAbout uri m = true := by
  obtain ⟨-, hnone⟩ | ⟨r, hm, hreceive⟩ := s.receive_cases m
  · simp [hnone] at hj
  · rw [hreceive] at hj
    cases htopic : r.topic with
    | document named a =>
      rw [htopic] at hj
      have hnamed : uri = named := by
        cases a with
        | openText text version =>
          simp only [answer, act, openText, answers_publish, List.mem_singleton] at hj
          exact eq_of_publishedFor (hj ▸ h)
        | changeText text rest version =>
          simp only [answer, act, changeText, answers_publish, List.mem_singleton] at hj
          exact eq_of_publishedFor (hj ▸ h)
        | close => simp [answer, act] at hj
        | diagnose | beforeSave | hover =>
          simp only [answer, act, diagnose, List.mem_singleton] at hj
          exact absurd (hj ▸ h) (not_publishedFor_reply uri _ _)
      simp [isAbout, actionOn?, topic?, hm, htopic, hnamed]
    | _ =>
      obtain ⟨_, _, rfl⟩ := h
      simp [htopic, answer, invalidParameters, reply, registration, notify] at hj

theorem isAbout_of_mem_exchange {e : Json × List Json} (he : e ∈ s.exchange ms) {j : Json}
    (hj : j ∈ e.2) (h : PublishedFor uri j) : isAbout uri e.1 = true := by
  induction ms generalizing s with
  | nil => simp [exchange] at he
  | cons m ms ih =>
    obtain rfl | he := List.mem_cons.mp he
    · exact isAbout_of_publishedFor hj h
    · exact ih he

end Session

/-- Over the messages of a connection: the program of a document is what its text assembles to, and this
text is the latest one that it was given; messages about others and messages with invalid parameters
leave it as it is; and all that is sent about it is what a new connection sends on the messages about it
alone. -/
theorem documents_follow_messages (ms : List Json) (hms : ∀ m ∈ ms, endsConnection m = false)
    (uri : String) :
    let s := Session.after {} ms
    (∀ d, s.documents.get? uri = some d → d.program = some (assemble d.text)) ∧
    (s.documents.get? uri).map Document.text = latestText (actionsOn uri ms) ∧
    (∀ m, isAbout uri m = false →
      (s.receive m).1.documents.get? uri = s.documents.get? uri) ∧
    (∀ m r, Incoming.ofJson m = .request r → r.topic = .invalid →
      s.receive m = (s, [invalidParameters r.id])) ∧
    (Session.exchange {} ms).filter (fun e => isAbout uri e.1) =
      Session.exchange {} (ms.filter (isAbout uri)) ∧
    ∀ e ∈ Session.exchange {} ms, ∀ j ∈ e.2, PublishedFor uri j → isAbout uri e.1 = true := by
  intro s
  have hopen : s.closed = false := by
    simpa [s, Session.closed_after] using hms
  obtain ⟨hprogram, htext⟩ := Session.documents_after hms uri
  refine ⟨hprogram, htext, fun m hm => ?_, fun m r hm hinvalid => ?_,
    Session.exchange_filter rfl rfl hms rfl, fun e he j hj => Session.isAbout_of_mem_exchange he hj⟩
  · exact Session.get?_receive_of_none s (by simpa [isAbout] using hm)
  · rw [Session.receive_of_request hopen hm, hinvalid]
    rfl

/-- A message about a document, as an editor writes it. -/
def editorMessage (method uri : String) (document others : List (String × Json)) : Json :=
  notify method (.object (("textDocument", .object (("uri", .string uri) :: document)) :: others))

/-- A document that is closed and changed again, between messages about another one and messages with
invalid parameters. -/
theorem documents_follow_messages_closed :
    let ms := [
      editorMessage "textDocument/didOpen" "a" [("text", .string "cli")] [],
      editorMessage "textDocument/diagnostic" "b" [] [],
      editorMessage "textDocument/didClose" "a" [] [],
      editorMessage "textDocument/didChange" "a" [] [("contentChanges", .array [])],
      editorMessage "textDocument/didChange" "a" [("version", .number "2")]
        [("contentChanges", .array [.object [("text", .string "end")]])],
      editorMessage "textDocument/hover" "a" [] [("position", .string "")],
      editorMessage "textDocument/hover" "a" [] []]
    (∀ m ∈ ms, endsConnection m = false) ∧
      ms.map (isAbout "a") = [true, false, true, false, true, false, true] ∧
      (∃ d, (Session.after {} ms).documents.get? "a" = some d ∧ d.text = "end" ∧
        d.program = some (assemble "end")) ∧
      (∃ d, (Session.after {} ms).documents.get? "b" = some d ∧ d.text = "" ∧
        d.program = some (assemble "")) ∧
      (Session.exchange {} ms).filter (fun e => isAbout "a" e.1) =
        Session.exchange {} (ms.filter (isAbout "a")) := by
  intro ms
  have hfacts : (∀ m ∈ ms, endsConnection m = false) ∧
      ms.map (isAbout "a") = [true, false, true, false, true, false, true] ∧
      latestText (actionsOn "a" ms) = some "end" ∧ latestText (actionsOn "b" ms) = some "" := by
    decide +kernel
  obtain ⟨hms, habout, ha, hb⟩ := hfacts
  obtain ⟨hprogram, htext, -, -, hexchange, -⟩ := documents_follow_messages ms hms "a"
  obtain ⟨hprogram', htext', -⟩ := documents_follow_messages ms hms "b"
  rw [ha] at htext
  rw [hb] at htext'
  obtain ⟨d, hd, hend⟩ := Option.map_eq_some_iff.mp htext
  obtain ⟨d', hd', hempty⟩ := Option.map_eq_some_iff.mp htext'
  exact ⟨hms, habout, ⟨d, hd, hend, hend ▸ hprogram d hd⟩,
    ⟨d', hd', hempty, hempty ▸ hprogram' d' hd'⟩, hexchange⟩

end SegAsm.Server
