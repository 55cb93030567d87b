import SegAsm.Proofs.Server.Documents

/-! The text that an editor has next to the one that the server keeps for it. The editor replaces its
text by each text of a change in turn, and the server takes the first one alone, so that the two agree
throughout exactly if every change ends with the text it starts with. -/
namespace SegAsm.Server

namespace Action

/-- The text of an editor behind an action, from the one before it. -/
def edit (text : Option String) : Action → Option String
  | .openText text _ => some text
  | .changeText first rest _ => (first :: rest).foldl (fun _ replacement => some replacement) text
  | .close => none
  | .diagnose | .beforeSave | .hover _ => text

/-- Whether a document is opened, changed or closed. -/
def isSync : Action → Bool
  | .openText _ _ | .changeText _ _ _ | .close => true
  | _ => false

/-- The version of a text that is given. -/
def version? : Action → Option Int
  | .openText _ version | .changeText _ _ version => some version
  | _ => none

/-- Whether the last text of a change is its first one. -/
def settles : Action → Bool
  | .changeText first rest _ => rest.getLastD first == first
  | _ => true

theorem foldl_replace (text : Option String) (first : String) (rest : List String) :
    (first :: rest).foldl (fun _ replacement => some replacement) text =
      some (rest.getLastD first) := by
  induction rest generalizing text first with
  | nil => rfl
  | cons second rest ih =>
    rw [List.foldl_cons, ih, List.getLastD_cons]

theorem edit_eq_textAfter_iff {a : Action} (ha : a.isSync = true) (text : Option String) :
    a.textAfter text = a.edit text ↔ a.settles = true := by
  cases a with
  | openText | close => simp [textAfter, edit, settles]
  | changeText first rest version =>
    rw [textAfter, edit, foldl_replace, settles, Option.some_inj, beq_iff_eq, eq_comm]
  | diagnose | beforeSave | hover => simp [isSync] at ha

end Action

/-- The text of an editor behind its actions. -/
def editorText (as : List Action) : Option String :=
  as.foldl Action.edit none

/-- A valid notification that a document was opened, changed or closed. -/
def isSync (m : Json) : Bool :=
  match topic? m with
  | some (.document _ a) => a.isSync
  | _ => false

/-- Whether the change that a message makes, if it makes one, ends with its first text. -/
def settles (m : Json) : Bool :=
  match topic? m with
  | some (.document _ a) => a.settles
  | _ => true

section Messages

variable {m : Json} {ms : List Json} {uri : String} {a : Action}

theorem actionOn?_of_topic? (h : topic? m = some (.document uri a)) : actionOn? uri m = some a := by
  simp [actionOn?, h]

theorem topic?_of_actionOn? (h : actionOn? uri m = some a) : topic? m = some (.document uri a) := by
  unfold actionOn? at h
  split at h
  · rename_i named b htopic
    obtain ⟨rfl, rfl⟩ : named = uri ∧ b = a := by simpa using h
    exact htopic
  · cases h

theorem endsConnection_of_isSync (h : isSync m = true) : endsConnection m = false := by
  unfold isSync topic? at h
  unfold endsConnection
  cases hm : Incoming.ofJson m with
  | request r =>
    rw [hm] at h
    cases htopic : r.topic <;> simp_all
  | response => rfl
  | malformed => simp [hm] at h

theorem actionsOn_take_succ {k : Nat} (hm : ms[k]? = some m) (haction : actionOn? uri m = some a) :
    actionsOn uri (ms.take (k + 1)) = actionsOn uri (ms.take k) ++ [a] := by
  simp [actionsOn, List.take_add_one, hm, haction]

theorem editorText_concat (as : List Action) (a : Action) :
    editorText (as ++ [a]) = a.edit (editorText as) := by
  simp [editorText]

/-- Behind notifications of which each ends with its first text, server and editor agree. -/
theorem latestText_eq_editorText (hsync : ∀ m ∈ ms, isSync m = true)
    (hsettles : ∀ m ∈ ms, settles m = true) (uri : String) :
    latestText (actionsOn uri ms) = editorText (actionsOn uri ms) := by
  induction ms using List.reverseRecOn with
  | nil => rfl
  | append_singleton ms m ih =>
    have hbefore : latestText (actionsOn uri ms) = editorText (actionsOn uri ms) :=
      ih (fun m' hm' => hsync m' (by simp [hm'])) fun m' hm' => hsettles m' (by simp [hm'])
    cases haction : actionOn? uri m with
    | none => simpa [actionsOn, haction] using hbefore
    | some a =>
      have htopic := topic?_of_actionOn? haction
      have hconcat : actionsOn uri (ms ++ [m]) = actionsOn uri ms ++ [a] := by
        simp [actionsOn, haction]
      have ha : a.isSync = true := by simpa [isSync, htopic] using hsync m (by simp)
      have hend : a.settles = true := by simpa [settles, htopic] using hsettles m (by simp)
      rw [hconcat, latestText_concat, editorText_concat, hbefore]
      exact (Action.edit_eq_textAfter_iff ha _).mpr hend

end Messages

namespace Session

variable {ms : List Json}

theorem getElem?_exchange (s : Session) (ms : List Json) (k : Nat) :
    (s.exchange ms)[k]? = ms[k]?.map fun m => (m, ((s.after (ms.take k)).receive m).2) := by
  induction ms generalizing s k with
  | nil => rfl
  | cons m ms ih =>
    cases k with
    | zero => rfl
    | succ k => exact ih (s.receive m).1 k

/-- The diagnostics of a text that is given are sent at once. -/
theorem answers_act {a : Action} {version : Int} (h : a.version? = some version) (s : Session)
    (id : RequestId) (uri : String) :
    ∃ text, a.given? = some text ∧
      (s.act id uri a).2 = [publication uri version (assemble text)] := by
  cases a with
  | openText text v | changeText text rest v =>
    obtain rfl : v = version := by simpa [Action.version?] using h
    exact ⟨text, rfl, answers_publish s uri _ v⟩
  | close | diagnose | beforeSave | hover => simp [Action.version?] at h

end Session

/-- The server keeps the text of the editor throughout exactly if every change ends with its first
text. Then what is published behind each text that is given are the diagnostics of the text that
the editor has. -/
theorem server_keeps_editor_text_iff (ms : List Json) (hsync : ∀ m ∈ ms, isSync m = true) :
    ((∀ k uri, ((Session.after {} (ms.take k)).documents.get? uri).map Document.text =
        editorText (actionsOn uri (ms.take k))) ↔
      ∀ m ∈ ms, settles m = true) ∧
    ((∀ m ∈ ms, settles m = true) →
      ∀ k m uri a version, ms[k]? = some m → topic? m = some (.document uri a) →
        a.version? = some version →
        ∃ text, editorText (actionsOn uri (ms.take (k + 1))) = some text ∧
          (Session.exchange {} ms)[k]? =
            some (m, [Session.publication uri version (assemble text)])) := by
  have hopen (k : Nat) : ∀ m ∈ ms.take k, endsConnection m = false := fun m hm =>
    endsConnection_of_isSync (hsync m (List.mem_of_mem_take hm))
  have hagree (hsettles : ∀ m ∈ ms, settles m = true) (k : Nat) (uri : String) :
      latestText (actionsOn uri (ms.take k)) = editorText (actionsOn uri (ms.take k)) :=
    latestText_eq_editorText (fun m hm => hsync m (List.mem_of_mem_take hm))
      (fun m hm => hsettles m (List.mem_of_mem_take hm)) uri
  simp only [(Session.documents_after (hopen _) _).2]
  refine ⟨⟨fun hkept m hm => ?_, hagree⟩, fun hsettles k m uri a version hm htopic hversion => ?_⟩
  · -- Before and behind the message the texts agree, so that its change ends with its first text.
    obtain ⟨k, hk⟩ := List.mem_iff_getElem?.mp hm
    unfold settles
    split
    · rename_i uri a htopic
      have ha : a.isSync = true := by simpa [isSync, htopic] using hsync m hm
      have hbehind := hkept (k + 1) uri
      rw [actionsOn_take_succ hk (actionOn?_of_topic? htopic), latestText_concat, editorText_concat,
        hkept k uri] at hbehind
      exact (Action.edit_eq_textAfter_iff ha _).mp hbehind
    · rfl
  · have haction := actionOn?_of_topic? htopic
    obtain ⟨id, hreceive⟩ := Session.receive_of_action haction
    have hclosed : (Session.after {} (ms.take k)).closed = false := by
      simpa [Session.closed_after] using hopen k
    obtain ⟨text, hgiven, hanswers⟩ :=
      Session.answers_act hversion (Session.after {} (ms.take k)) id uri
    refine ⟨text, ?_, ?_⟩
    · rw [← hagree hsettles, actionsOn_take_succ hm haction, latestText_concat]
      cases a with
      | openText | changeText => exact hgiven
      | close | diagnose | beforeSave | hover => cases hversion
    · rw [Session.getElem?_exchange, hm, Option.map_some, hreceive _ hclosed, hanswers]

/-- Two documents, one of them changed twice. -/
theorem server_keeps_editor_text_of_two :
    let ms := [
      editorMessage "textDocument/didOpen" "a" [("text", .string "cli")] [],
      editorMessage "textDocument/didOpen" "b" [("text", .string "end")] [],
      editorMessage "textDocument/didChange" "a" [("version", .number "2")]
        [("contentChanges", .array [.object [("text", .string "x")]])],
      editorMessage "textDocument/didClose" "b" [] [],
      editorMessage "textDocument/didChange" "a" [("version", .number "3")]
        [("contentChanges", .array [.object [("text", .string "")], .object [("text", .string "")]])]]
    (∀ m ∈ ms, isSync m = true) ∧ (∀ m ∈ ms, settles m = true) ∧
      ((Session.after {} (ms.take 3)).documents.get? "a").map Document.text = some "x" ∧
      ∃ m, (Session.exchange {} ms)[2]? =
        some (m, [Session.publication "a" 2 (assemble "x")]) := by
  intro ms
  have hfacts : (∀ m ∈ ms, isSync m = true) ∧ (∀ m ∈ ms, settles m = true) ∧
      editorText (actionsOn "a" (ms.take 3)) = some "x" ∧
      ms[2]?.map topic? = some (some (.document "a" (.changeText "x" [] 2))) := by
    decide +kernel
  obtain ⟨hsync, hsettles, htext, htopic⟩ := hfacts
  obtain ⟨hkept, hpublished⟩ := server_keeps_editor_text_iff ms hsync
  obtain ⟨m, hm, htopic⟩ := Option.map_eq_some_iff.mp htopic
  obtain ⟨text, heditor, hsent⟩ := hpublished hsettles 2 m "a" _ 2 hm htopic rfl
  obtain rfl : "x" = text := Option.some.inj (htext.symm.trans heditor)
  exact ⟨hsync, hsettles, (hkept.mpr hsettles 3 "a").trans htext, m, hsent⟩

/-- Of two texts in a change the editor has the last one, and the server keeps the first one, with its
diagnostics. -/
theorem first_text_kept_of_change :
    let ms := [
      editorMessage "textDocument/didOpen" "a" [("text", .string "cli")] [],
      editorMessage "textDocument/didChange" "a" [("version", .number "2")]
        [("contentChanges", .array [.object [("text", .string "x")], .object [("text", .string "cli")]])]]
    (∀ m ∈ ms, isSync m = true) ∧ editorText (actionsOn "a" ms) = some "cli" ∧
      ((Session.after {} ms).documents.get? "a").map Document.text = some "x" ∧
      ((Session.after {} ms).documents.get? "a").bind (·.program.map (·.diagnostics.length)) =
        some 1 ∧
      (assemble "cli").diagnostics = [] := by
  decide +kernel

end SegAsm.Server
