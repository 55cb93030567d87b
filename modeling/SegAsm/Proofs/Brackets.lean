import SegAsm.Proofs.Jump
import SegAsm.Proofs.Tiling

/-! `SEGMENT` and `ENDS` as brackets. The state holds a name for the open segment also where none is
open, and that name can be written in a program; as long as no line opens a segment under it, the state
and the brackets of the source say the same. -/
namespace SegAsm

open Text

def Statement.begins? : Statement → Option String
  | .beginSegment name => some name.text
  | _ => none

def Statement.ends? : Statement → Option String
  | .endSegment name => some name.text
  | _ => none

namespace Classified

def begins? (c : Classified) : Option String :=
  c.statement?.bind Statement.begins?

def ends? (c : Classified) : Option String :=
  c.statement?.bind Statement.ends?

/-- A line opens a segment, closes one, or does neither. -/
theorem brackets_cases (c : Classified) :
    (∃ name, c.statement? = some (.beginSegment name) ∧ c.begins? = some name.text ∧
      c.ends? = none) ∨
    (∃ name, c.statement? = some (.endSegment name) ∧ c.begins? = none ∧
      c.ends? = some name.text) ∨
    (∀ name, c.statement? ≠ some (.beginSegment name)) ∧
      (∀ name, c.statement? ≠ some (.endSegment name)) ∧ c.begins? = none ∧ c.ends? = none := by
  unfold begins? ends?
  cases c.statement? with
  | none => simp
  | some st =>
    cases st with
    | beginSegment name => exact .inl ⟨name, rfl, rfl, rfl⟩
    | endSegment name => exact .inr (.inl ⟨name, rfl, rfl, rfl⟩)
    | _ => exact .inr (.inr ⟨by simp, by simp, rfl, rfl⟩)

end Classified

/-- The segment that a line asks to open. -/
def beginName? (text : String) : Option String :=
  (classify (lexemes text)).begins?

/-- The segment that a line asks to close. -/
def endName? (text : String) : Option String :=
  (classify (lexemes text)).ends?

/-- The segment that is open behind a line if `enclosed` is open before it: a segment is opened where
none is open, and whatever is open is closed. -/
def enclosedBehind (enclosed : Option String) (text : String) : Option String :=
  if (endName? text).isSome then none else enclosed <|> beginName? text

/-- The segment that the lines leave open. -/
def enclosing (lines : List String) : Option String :=
  lines.foldl enclosedBehind none

theorem enclosing_concat (lines : List String) (text : String) :
    enclosing (lines ++ [text]) = enclosedBehind (enclosing lines) text := by
  simp [enclosing]

theorem enclosedBehind_eq_some_iff {enclosed : Option String} {text name : String} :
    enclosedBehind enclosed text = some name ↔
      endName? text = none ∧
        (enclosed = some name ∨ enclosed = none ∧ beginName? text = some name) := by
  unfold enclosedBehind
  cases endName? text <;> cases enclosed <;> simp

theorem endName?_of_beginName? {text name : String} (h : beginName? text = some name) :
    endName? text = none := by
  unfold beginName? at h
  unfold endName?
  obtain ⟨-, -, -, hend⟩ | ⟨-, -, hbegin, -⟩ | ⟨-, -, -, hend⟩ :=
    (classify (lexemes text)).brackets_cases
  · exact hend
  · rw [hbegin] at h
    cases h
  · exact hend

/-- Line `j` opens a segment, and no line between it and line `i` closes it. -/
structure OpenedBy (lines : List String) (i j : Nat) (name : String) : Prop where
  lt : j < i
  begins : lines[j]?.bind beginName? = some name
  outside : enclosing (lines.take j) = none
  stays : ∀ k, j < k → k < i → lines[k]?.bind endName? = none

theorem openedBy_succ_iff {lines : List String} {i j : Nat} {text name : String}
    (htext : lines[i]? = some text) :
    OpenedBy lines (i + 1) j name ↔
      (OpenedBy lines i j name ∧ endName? text = none) ∨
        (j = i ∧ beginName? text = some name ∧ enclosing (lines.take i) = none) := by
  have hend : lines[i]?.bind endName? = endName? text := by rw [htext, Option.bind_some]
  have hbegin : lines[i]?.bind beginName? = beginName? text := by rw [htext, Option.bind_some]
  constructor
  · rintro ⟨hlt, hbegins, houtside, hstays⟩
    obtain hj | rfl := Nat.lt_succ_iff_lt_or_eq.mp hlt
    · refine .inl ⟨⟨hj, hbegins, houtside, fun k hjk hk => hstays k hjk (by omega)⟩, ?_⟩
      rw [← hend]
      exact hstays i hj (by omega)
    · exact .inr ⟨rfl, hbegin ▸ hbegins, houtside⟩
  · rintro (⟨⟨hlt, hbegins, houtside, hstays⟩, hopen⟩ | ⟨rfl, hbegins, houtside⟩)
    · refine ⟨by omega, hbegins, houtside, fun k hjk hk => ?_⟩
      obtain hk | rfl := Nat.lt_succ_iff_lt_or_eq.mp hk
      · exact hstays k hjk hk
      · rw [hend, hopen]
    · exact ⟨by omega, hbegin.trans hbegins, houtside, fun k hjk hk => by omega⟩

/-- The segment that is open in front of a line was opened by an earlier one and not closed since. -/
theorem enclosing_take_eq_some_iff {lines : List String} {i : Nat} (hi : i ≤ lines.length)
    {name : String} : enclosing (lines.take i) = some name ↔ ∃ j, OpenedBy lines i j name := by
  induction i with
  | zero =>
    refine iff_of_false (by simp [enclosing]) ?_
    rintro ⟨j, h⟩
    exact absurd h.lt (Nat.not_lt_zero j)
  | succ i ih =>
    obtain ⟨text, htext⟩ : ∃ text, lines[i]? = some text :=
      ⟨lines[i], List.getElem?_eq_getElem (by omega)⟩
    have hbefore := ih (by omega)
    rw [List.take_add_one, htext, Option.toList_some, enclosing_concat, enclosedBehind_eq_some_iff,
      hbefore]
    simp only [openedBy_succ_iff htext, exists_or, exists_and_right, exists_eq, true_and]
    constructor
    · rintro ⟨hend, hopen | ⟨houtside, hbegin⟩⟩
      · exact .inl ⟨hopen, hend⟩
      · exact .inr ⟨hbegin, houtside⟩
    · rintro (⟨hopen, hend⟩ | ⟨hbegin, houtside⟩)
      · exact ⟨hend, .inl hopen⟩
      · exact ⟨endName?_of_beginName? hbegin, .inr ⟨houtside, hbegin⟩⟩

namespace State

variable {s : State} {line : Nat} {text : String} {c : Classified}

theorem openSegment_labelled : (s.labelled line c).openSegment = s.openSegment := by
  rw [labelled_eq]
  rfl

theorem openSegment_next_of_begin {name : Lexeme} (hst : c.statement? = some (.beginSegment name)) :
    (s.next line text c).openSegment =
      if s.openSegment = noSegment then name.text else s.openSegment := by
  change (s.perform line text c).1.openSegment = _
  rw [perform_of_statement hst]
  simp only [execute, beginSegment, openSegment_labelled]
  split_ifs
  · rfl
  · exact openSegment_labelled

theorem openSegment_next_of_end {name : Lexeme} (hst : c.statement? = some (.endSegment name)) :
    (s.next line text c).openSegment = noSegment := by
  change (s.perform line text c).1.openSegment = _
  rw [perform_of_statement hst]
  simp only [execute, endSegment]
  split_ifs <;> rfl

/-- Only `SEGMENT` and `ENDS` change the open segment. -/
theorem openSegment_next_of_other (hbegin : ∀ name, c.statement? ≠ some (.beginSegment name))
    (hend : ∀ name, c.statement? ≠ some (.endSegment name)) :
    (s.next line text c).openSegment = s.openSegment := by
  change (s.perform line text c).1.openSegment = _
  obtain ⟨name, hst, -⟩ | ⟨name, hst, -⟩ | ⟨pairs, -, hp⟩ | hp := s.perform_cases line text c
  · exact absurd hst (hbegin name)
  · exact absurd hst (hend name)
  · rw [hp]
    rfl
  · rw [hp]
    rfl

/-- The name in the state is that of the enclosing segment, as long as no line opens a segment under the
name that stands for none. -/
theorem openSegment_after {lines : List String}
    (h : ∀ text ∈ lines, beginName? text ≠ some noSegment) :
    enclosing lines ≠ some noSegment ∧
      (State.after {} lines).openSegment = (enclosing lines).getD noSegment := by
  induction lines using List.reverseRecOn with
  | nil => exact ⟨by simp [enclosing], rfl⟩
  | append_singleton lines text ih =>
    obtain ⟨hnamed, hbefore⟩ := ih fun t ht => h t (List.mem_append_left _ ht)
    have hlast : beginName? text ≠ some noSegment := h text (by simp)
    rw [after_concat, enclosing_concat]
    constructor
    · rw [ne_eq, enclosedBehind_eq_some_iff]
      rintro ⟨-, hopen | ⟨-, hbegin⟩⟩
      · exact hnamed hopen
      · exact hlast hbegin
    · unfold enclosedBehind endName?
      unfold beginName? at hlast ⊢
      generalize classify (lexemes text) = c at hlast ⊢
      obtain ⟨name, hst, hbegin, hend⟩ | ⟨name, hst, hbegin, hend⟩ | ⟨hbegin', hend', hbegin, hend⟩ :=
        c.brackets_cases
      · -- The state asks whether its name stands for none; no segment was opened under that name.
        rw [openSegment_next_of_begin hst, hbefore, hend, hbegin]
        cases hopen : enclosing lines with
        | none => simp
        | some opened =>
          have hne : opened ≠ noSegment := fun heq => hnamed (hopen.trans (congrArg some heq))
          simp [hne]
      · rw [openSegment_next_of_end hst, hend]
        rfl
      · rw [openSegment_next_of_other hbegin' hend', hbefore, hend, hbegin]
        cases enclosing lines <;> rfl

/-- Nothing but its label and what follows it can make a line faulty. -/
theorem correct_record_iff :
    (s.record line text c).correct ↔
      (∀ label, c.label = some label → s.symbols.get? label.text = none) ∧
        (s.perform line text c).2.diagnostics.filter Diagnostic.isError = [] := by
  unfold LineRecord.correct
  rw [List.isEmpty_iff, record_errors, reported, List.filter_append, List.append_eq_nil_iff,
    declareLabel_accepted_iff]

theorem correct_record_begin {name : Lexeme} (hst : c.statement? = some (.beginSegment name)) :
    (s.record line text c).correct ↔
      (∀ label, c.label = some label → s.symbols.get? label.text = none) ∧
        s.openSegment = noSegment := by
  have herror : ∀ current, Diagnostic.isError
      ⟨.ofLexeme line name, .segmentAlreadyOpen name.text current⟩ = true := fun _ => rfl
  rw [correct_record_iff, perform_of_statement hst]
  simp only [execute, beginSegment, openSegment_labelled]
  by_cases hopen : s.openSegment = noSegment
  · simp [hopen]
  · simp [hopen, Emission.reject, herror]

theorem correct_record_end {name : Lexeme} (hst : c.statement? = some (.endSegment name)) :
    (s.record line text c).correct ↔
      (∀ label, c.label = some label → s.symbols.get? label.text = none) ∧
        sameFold s.openSegment name.text := by
  have herror : ∀ current, Diagnostic.isError
      ⟨.ofLexeme line name, .segmentMismatch name.text current⟩ = true := fun _ => rfl
  rw [correct_record_iff, perform_of_statement hst]
  simp only [execute, endSegment, openSegment_labelled]
  by_cases hsame : sameFold s.openSegment name.text
  · simp [hsame]
  · simp [hsame, Emission.reject, herror]

/-- A correct `ENDS` line sets the size of the open segment. -/
theorem segments_next_of_end {name : Lexeme} (hst : c.statement? = some (.endSegment name))
    (hcorrect : (s.record line text c).correct) :
    (s.next line text c).segments =
      s.segments.setSize s.openSegment (s.record line text c).address := by
  have hsame := ((correct_record_end hst).mp hcorrect).2
  have hperform : s.perform line text c = (s.labelled line c).endSegment line name :=
    perform_of_statement hst
  rw [endSegment, openSegment_labelled, if_pos hsame] at hperform
  have hsegments : (s.labelled line c).segments = s.segments := by
    rw [labelled_eq]
    rfl
  have haddress : (s.record line text c).address = (s.labelled line c).offset :=
    congrArg (fun p => p.1.offset) hperform
  rw [haddress, ← hsegments]
  exact congrArg (fun p => p.1.segments) hperform

end State

/-- The tables differ at most in the size of one segment. -/
def SegmentTable.ResizedOnly (name : String) (size : Nat) (t t' : SegmentTable) : Prop :=
  List.Forall₂ (fun seg seg' => seg'.name = seg.name ∧
    seg'.size = if nameKey seg.name = nameKey name then size else seg.size) t t'

theorem SegmentTable.resizedOnly_setSize (t : SegmentTable) (name : String) (size : Nat) :
    t.ResizedOnly name size (t.setSize name size) := by
  unfold ResizedOnly setSize
  rw [List.forall₂_map_right_iff, List.forall₂_same]
  intro seg _
  by_cases hkey : nameKey seg.name = nameKey name <;> simp [hkey]

theorem exists_of_kind {ls : List Lexeme} (hs : ∀ l ∈ ls, l.Scanned) {k : LineKind}
    (h : (classify ls).kind = k) (hk : k ≠ .invalid) :
    ∃ st, (classify ls).statement? = some st ∧ st.kind = k := by
  cases hform : (classify ls).form? with
  | none =>
    rw [Classified.kind, hform, Option.map_none, Option.getD_none] at h
    exact absurd h.symm hk
  | some f =>
    obtain ⟨st, hst, -⟩ := readFrom_of_form hs hform
    exact ⟨st, hst, (kind_of_statement? hst).symm.trans h⟩

/-- The segment in the state is the one that an earlier line opened, or stands for none. -/
theorem sameFold_enclosing_iff {lines : List String} {i : Nat} (hi : i ≤ lines.length)
    {name : String} :
    sameFold ((enclosing (lines.take i)).getD noSegment) name ↔
      (∃ j opened, OpenedBy lines i j opened ∧ sameFold opened name) ∨
        enclosing (lines.take i) = none ∧ sameFold noSegment name := by
  have hopened (opened : String) :
      enclosing (lines.take i) = some opened ↔ ∃ j, OpenedBy lines i j opened :=
    enclosing_take_eq_some_iff hi
  cases henclosing : enclosing (lines.take i) with
  | none =>
    have hnone : ¬∃ j opened, OpenedBy lines i j opened ∧ sameFold opened name := by
      rintro ⟨j, opened, hj, -⟩
      have hsome := (hopened opened).mpr ⟨j, hj⟩
      rw [henclosing] at hsome
      cases hsome
    simp [hnone]
  | some outer =>
    obtain ⟨j, hj⟩ := (hopened outer).mp henclosing
    refine ⟨fun hsame => .inl ⟨j, outer, hj, hsame⟩, ?_⟩
    rintro (⟨k, opened, hk, hsame⟩ | ⟨hnone, -⟩)
    · have hsome := (hopened opened).mpr ⟨k, hk⟩
      rw [henclosing] at hsome
      obtain rfl := Option.some.inj hsome
      exact hsame
    · cases hnone

/-- As long as no earlier line opens a segment under the name that stands for none, a `SEGMENT` line is
correct exactly if its label is new and no segment is open; an `ENDS` line is correct exactly if its
label is new and its name is, but for the case of letters, that of the segment that an earlier line
opened and no line closed since, or stands for none where none is open. It then sets the size of that
segment and no other. -/
theorem segment_brackets (source : String) (i : Nat) (text : String) (r : LineRecord)
    (htext : (splitLines source)[i]? = some text) (hr : (assemble source).lines[i]? = some r)
    (hname : ∀ t ∈ (splitLines source).take i, beginName? t ≠ some noSegment) :
    let lines := splitLines source
    let labelNew := ∀ label, (classify (lexemes text)).label = some label →
      ∀ earlier ∈ lines.take i, ¬Declares earlier label.text
    (r.kind = .beginSegment → (r.correct ↔ labelNew ∧ enclosing (lines.take i) = none)) ∧
    (r.kind = .endSegment → ∃ name, endName? text = some name ∧
      (r.correct ↔ labelNew ∧
        ((∃ j opened, OpenedBy lines i j opened ∧ sameFold opened name) ∨
          enclosing (lines.take i) = none ∧ sameFold noSegment name)) ∧
      (r.correct → (State.after {} (lines.take i)).segments.ResizedOnly
        ((enclosing (lines.take i)).getD noSegment) r.address
        (State.after {} (lines.take (i + 1))).segments)) := by
  intro lines labelNew
  obtain ⟨hi, -⟩ := List.getElem?_eq_some_iff.mp htext
  obtain ⟨hnamed, hopen⟩ := State.openSegment_after hname
  have hlabel : (∀ label, (classify (lexemes text)).label = some label →
      (State.after {} (lines.take i)).symbols.get? label.text = none) ↔ labelNew := by
    simp only [get?_after_eq_none_iff, labelNew]
  have hscanned : ∀ l ∈ lexemes text, l.Scanned := Lexeme.scanned_of_mem_lexemes
  constructor
  · intro hk
    obtain rfl := State.eq_record_of_lines htext hr (by rw [hk]; exact LineKind.noConfusion)
    rw [State.record_kind] at hk
    obtain ⟨st, hst, hkind⟩ := exists_of_kind hscanned hk LineKind.noConfusion
    cases st <;> cases hkind
    rw [State.correct_record_begin hst, hlabel, hopen]
    refine and_congr_right fun _ => ?_
    cases henclosing : enclosing (lines.take i) with
    | none => simp
    | some opened =>
      refine iff_of_false ?_ (Option.some_ne_none opened)
      rintro rfl
      exact hnamed henclosing
  · intro hk
    obtain rfl := State.eq_record_of_lines htext hr (by rw [hk]; exact LineKind.noConfusion)
    rw [State.record_kind] at hk
    obtain ⟨st, hst, hkind⟩ := exists_of_kind hscanned hk LineKind.noConfusion
    cases st with
    | endSegment name =>
      refine ⟨name.text, ?_, ?_, fun hcorrect => ?_⟩
      · rw [endName?, Classified.ends?, hst]
        rfl
      · rw [State.correct_record_end hst, hlabel, hopen, sameFold_enclosing_iff hi.le]
      · rw [State.after_take_succ htext, State.segments_next_of_end hst hcorrect, hopen]
        exact SegmentTable.resizedOnly_setSize _ _ _
    | _ => cases hkind

/-- A segment opened inside another is refused, and the outer one is closed under another spelling. -/
theorem segment_brackets_outer :
    let source := "Code SEGMENT\nx DB 1\nData SEGMENT\ny DB 2\nCODE ENDS"
    let lines := splitLines source
    let refused : LineRecord := ⟨"Data SEGMENT", 3, .beginSegment, 1, "Code", [],
      [⟨⟨⟨2, 0⟩, ⟨2, 4⟩⟩, .segmentAlreadyOpen "Data" "Code"⟩], none⟩
    let closing : LineRecord := ⟨"CODE ENDS", 5, .endSegment, 2, "Code", [], [], none⟩
    (assemble source).lines[2]? = some refused ∧ enclosing (lines.take 2) ≠ none ∧
      (assemble source).lines[4]? = some closing ∧
      (∃ j opened, OpenedBy lines 4 j opened ∧ sameFold opened "CODE") ∧
      (State.after {} (lines.take 4)).segments.ResizedOnly "Code" 2
        (State.after {} (lines.take 5)).segments := by
  intro source lines refused closing
  have hfacts : lines[2]? = some "Data SEGMENT" ∧ lines[4]? = some "CODE ENDS" ∧
      (assemble source).lines[2]? = some refused ∧ (assemble source).lines[4]? = some closing ∧
      (∀ t ∈ lines, beginName? t ≠ some noSegment) ∧ endName? "CODE ENDS" = some "CODE" ∧
      (classify (lexemes "Data SEGMENT")).label = none ∧
      enclosing (lines.take 4) = some "Code" := by
    decide +kernel
  obtain ⟨htext, htext', hrefused, hclosing, hname, hend, hlabel, henclosing⟩ := hfacts
  have hbefore : ∀ i, ∀ t ∈ lines.take i, beginName? t ≠ some noSegment :=
    fun i t ht => hname t (List.mem_of_mem_take ht)
  have hbegin := (segment_brackets source 2 _ refused htext hrefused (hbefore 2)).1 rfl
  obtain ⟨name, hname', hcorrect, hresized⟩ :=
    (segment_brackets source 4 _ closing htext' hclosing (hbefore 4)).2 rfl
  obtain rfl : name = "CODE" := Option.some.inj (hname'.symm.trans hend)
  refine ⟨hrefused, fun hnone => ?_, hclosing, ?_, ?_⟩
  · have hnew : ∀ label, (classify (lexemes "Data SEGMENT")).label = some label →
        ∀ earlier ∈ lines.take 2, ¬Declares earlier label.text := by simp [hlabel]
    exact absurd (hbegin.mpr ⟨hnew, hnone⟩) (by decide)
  · refine (hcorrect.mp rfl).2.resolve_right fun h => ?_
    have hnone := h.1
    rw [henclosing] at hnone
    cases hnone
  · have hsize := hresized rfl
    rw [henclosing] at hsize
    exact hsize

/-- The name that stands for no segment can be written: a segment opened under it does not keep others
from being opened inside, and an `ENDS` with it is correct where no segment is open. -/
theorem brackets_of_noSegment :
    (assemble "NOTHING SEGMENT\nA SEGMENT").lines.map LineRecord.correct = [true, true] ∧
      enclosing ["NOTHING SEGMENT"] = some "NOTHING" ∧
      lineKind "A SEGMENT" = .beginSegment ∧
      (assemble "NOTHING ENDS").lines.map LineRecord.correct = [true] ∧
      lineKind "NOTHING ENDS" = .endSegment := by
  decide +kernel

end SegAsm
