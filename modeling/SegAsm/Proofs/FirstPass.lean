import Mathlib.Data.List.Induction
import SegAsm.Program

/-! The first pass, line by line. A line declares the names that its text gives and touches nothing
else but for the statements on segments and assumptions; the record of a line is what `translate`
makes of it in the state behind the lines before. -/
namespace SegAsm

namespace SymbolTable

/-- A symbol is added at the end, unless its name is taken. -/
def declare (t : SymbolTable) (s : Symbol) : SymbolTable :=
  (t.add? s).getD t

theorem prefix_declare (t : SymbolTable) (s : Symbol) : t <+: t.declare s := by
  unfold declare add?
  split
  · exact List.prefix_rfl
  · exact List.prefix_append t [s]

theorem isSome_get?_iff {t : SymbolTable} {name : String} :
    (t.get? name).isSome ↔ ∃ s ∈ t, nameKey s.name = nameKey name := by
  simp [get?, List.find?_isSome]

theorem get?_of_prefix {t t' : SymbolTable} (h : t <+: t') {name : String} {s : Symbol}
    (hs : t.get? name = some s) : t'.get? name = some s :=
  h.find?_eq_some hs

theorem isSome_get?_declare (t : SymbolTable) (s : Symbol) (name : String) :
    ((t.declare s).get? name).isSome ↔ (t.get? name).isSome ∨ nameKey s.name = nameKey name := by
  by_cases htaken : (t.get? s.name).isSome
  · have hsame : t.declare s = t := by simp [declare, add?, htaken]
    rw [hsame, or_iff_left_of_imp]
    intro hkey
    obtain ⟨u, hu, hname⟩ := isSome_get?_iff.mp htaken
    exact isSome_get?_iff.mpr ⟨u, hu, hname.trans hkey⟩
  · have happend : t.declare s = t ++ [s] := by simp [declare, add?, htaken]
    rw [happend, isSome_get?_iff, isSome_get?_iff]
    simp [or_and_right, exists_or]

end SymbolTable

/-- The name that a statement declares. A text is no datum of more than a byte, and then the name
stays free. -/
def Statement.declaration? : Statement → Option (Lexeme × SymbolType)
  | .label name => some (name, .label)
  | .data type name value =>
    if value.kind = .quoted && type != .byte then none else some (name, type)
  | _ => none

/-- The names that a line declares: its label, and the name of its statement. -/
def Classified.declarations (c : Classified) : List (Lexeme × SymbolType) :=
  (c.label.map (·, .label)).toList ++ (c.statement?.bind Statement.declaration?).toList

def Declares (text name : String) : Prop :=
  ∃ d ∈ (classify (lexemes text)).declarations, nameKey d.1.text = nameKey name

namespace State

def symbolAt (s : State) (line : Nat) (d : Lexeme × SymbolType) : Symbol :=
  { name := d.1.text, segment := s.openSegment, offset := s.offset, type := d.2, line := line + 1 }

def declareAll (s : State) (line : Nat) (ds : List (Lexeme × SymbolType)) : State :=
  { s with symbols := ds.foldl (fun t d => t.declare (s.symbolAt line d)) s.symbols }

theorem declareAll_append (s : State) (line : Nat) (ds ds' : List (Lexeme × SymbolType)) :
    s.declareAll line (ds ++ ds') = (s.declareAll line ds).declareAll line ds' := by
  simp only [declareAll, List.foldl_append, symbolAt]

/-- A name is declared unless the table has it already, and then the line that has declared it is
named. -/
theorem declare_eq (s : State) (line : Nat) (name : Lexeme) (type : SymbolType) :
    s.declare line name type =
      match s.symbols.get? name.text with
      | some previous => (s, [⟨.ofLexeme line name, .duplicateIdentifier name.text previous.line⟩])
      | none => ({ s with symbols := s.symbols ++ [s.symbolAt line (name, type)] }, []) := by
  unfold declare SymbolTable.add? symbolAt
  cases hget : s.symbols.get? name.text <;> simp [hget]

theorem declare_state (s : State) (line : Nat) (name : Lexeme) (type : SymbolType) :
    (s.declare line name type).1 = s.declareAll line [(name, type)] := by
  rw [declare_eq]
  unfold declareAll
  simp only [List.foldl_cons, List.foldl_nil, SymbolTable.declare, SymbolTable.add?, symbolAt]
  split <;> rename_i hget <;> simp [hget]

theorem isSome_get?_declareAll (s : State) (line : Nat) (ds : List (Lexeme × SymbolType))
    (name : String) :
    ((s.declareAll line ds).symbols.get? name).isSome ↔
      (s.symbols.get? name).isSome ∨ ∃ d ∈ ds, nameKey d.1.text = nameKey name := by
  induction ds using List.reverseRecOn with
  | nil => simp [declareAll]
  | append_singleton ds d ih =>
    rw [declareAll_append]
    have hlast : ((s.declareAll line ds).declareAll line [d]).symbols =
        (s.declareAll line ds).symbols.declare (s.symbolAt line d) := rfl
    rw [hlast, SymbolTable.isSome_get?_declare, ih]
    simp [or_and_right, exists_or, or_assoc, symbolAt]

theorem symbols_prefix_declareAll (s : State) (line : Nat) (ds : List (Lexeme × SymbolType)) :
    s.symbols <+: (s.declareAll line ds).symbols := by
  induction ds using List.reverseRecOn with
  | nil => exact List.prefix_rfl
  | append_singleton ds d ih =>
    rw [declareAll_append]
    exact ih.trans (SymbolTable.prefix_declare _ _)

/-- The state behind the label of a line. -/
def labelled (s : State) (line : Nat) (c : Classified) : State :=
  (s.declareLabel line c.label).1

/-- What a line does behind its label. -/
def perform (s : State) (line : Nat) (text : String) (c : Classified) : State × Emission :=
  match c.statement? with
  | some statement => (s.labelled line c).execute line statement
  | none => (s.labelled line c, .reject (.invalidLine line text c.template))

/-- The state behind a line: its code has been placed. -/
def next (s : State) (line : Nat) (text : String) (c : Classified) : State :=
  let p := s.perform line text c
  { p.1 with offset := p.1.offset + p.2.code.size }

/-- The record of a line in the first pass. -/
def record (s : State) (line : Nat) (text : String) (c : Classified) : LineRecord :=
  let p := s.perform line text c
  let errors := ((s.declareLabel line c.label).2 ++ p.2.diagnostics).filter Diagnostic.isError
  { text, number := line + 1, kind := c.kind, address := p.1.offset
    segment := if c.kind = .beginSegment && errors.isEmpty then p.1.openSegment else s.openSegment
    code := p.2.code, errors
    assume := if c.kind = .assume then some p.1.assumes else none }

theorem translate_state (s : State) (line : Nat) (text : String) :
    (s.translate line text).1 = s.next line text (classify (lexemes text)) := by
  unfold translate next perform labelled
  generalize classify (lexemes text) = c
  rfl

theorem translate_record (s : State) (line : Nat) (text : String) :
    (s.translate line text).2.1 = s.record line text (classify (lexemes text)) := by
  unfold translate record perform labelled
  generalize classify (lexemes text) = c
  rfl

/-- All that is reported about a line in the first pass. -/
def reported (s : State) (line : Nat) (text : String) (c : Classified) : List Diagnostic :=
  (s.declareLabel line c.label).2 ++ (s.perform line text c).2.diagnostics

theorem translate_reported (s : State) (line : Nat) (text : String) :
    (s.translate line text).2.2 = s.reported line text (classify (lexemes text)) := by
  unfold translate reported perform labelled
  generalize classify (lexemes text) = c
  rfl

theorem translate_snd (s : State) (line : Nat) (text : String) :
    (s.translate line text).2 =
      (s.record line text (classify (lexemes text)), s.reported line text (classify (lexemes text))) :=
  Prod.ext (s.translate_record line text) (s.translate_reported line text)

theorem record_errors (s : State) (line : Nat) (text : String) (c : Classified) :
    (s.record line text c).errors = (s.reported line text c).filter Diagnostic.isError := rfl

@[simp] theorem record_kind (s : State) (line : Nat) (text : String) (c : Classified) :
    (s.record line text c).kind = c.kind := rfl

@[simp] theorem record_text (s : State) (line : Nat) (text : String) (c : Classified) :
    (s.record line text c).text = text := rfl

theorem labelled_eq (s : State) (line : Nat) (c : Classified) :
    s.labelled line c = s.declareAll line (c.label.map (·, .label)).toList := by
  unfold labelled
  cases c.label with
  | none => rfl
  | some label => exact declare_state s line label .label

theorem perform_of_statement {s : State} {line : Nat} {text : String} {c : Classified}
    {st : Statement} (h : c.statement? = some st) :
    s.perform line text c = (s.labelled line c).execute line st := by
  unfold perform
  rw [h]

theorem declareAll_declarations {s : State} {line : Nat} {c : Classified} {st : Statement}
    (h : c.statement? = some st) :
    s.declareAll line c.declarations =
      (s.labelled line c).declareAll line st.declaration?.toList := by
  rw [labelled_eq, ← declareAll_append]
  unfold Classified.declarations
  rw [h, Option.bind_some]

theorem data_state (s : State) (line : Nat) (type : SymbolType) (name value : Lexeme) :
    (s.data line type name value).1 =
      s.declareAll line (Statement.data type name value).declaration?.toList := by
  simp only [data, Statement.declaration?]
  split
  · rfl
  · exact declare_state s line name type

/-- All that a line can do to the state before its code is placed: its declarations, and behind them
a change of the open segment or of the assumptions. -/
theorem perform_cases (s : State) (line : Nat) (text : String) (c : Classified) :
    let d := s.declareAll line c.declarations
    (∃ name, c.statement? = some (.beginSegment name) ∧
      s.perform line text c = d.beginSegment line name) ∨
    (∃ name, c.statement? = some (.endSegment name) ∧
      s.perform line text c = d.endSegment line name) ∨
    (∃ pairs, c.statement? = some (.assume pairs) ∧
      s.perform line text c = ({ d with assumes := d.assumes.assume pairs }, {})) ∨
    (s.perform line text c).1 = d := by
  cases hst : c.statement? with
  | none =>
    refine .inr (.inr (.inr ?_))
    have hperform : (s.perform line text c).1 = s.labelled line c := by simp only [perform, hst]
    rw [hperform, labelled_eq]
    simp [Classified.declarations, hst]
  | some st =>
    rw [perform_of_statement hst, declareAll_declarations hst]
    -- But for the first five, a statement leaves the state behind the label as it is.
    cases st with
    | beginSegment name => exact .inl ⟨name, rfl, rfl⟩
    | endSegment name => exact .inr (.inl ⟨name, rfl, rfl⟩)
    | assume pairs => exact .inr (.inr (.inl ⟨pairs, rfl, rfl⟩))
    | label name => exact .inr (.inr (.inr (declare_state _ line name .label)))
    | data type name value => exact .inr (.inr (.inr (data_state _ line type name value)))
    | _ => exact .inr (.inr (.inr rfl))

theorem symbols_next (s : State) (line : Nat) (text : String) (c : Classified) :
    (s.next line text c).symbols = (s.declareAll line c.declarations).symbols := by
  change (s.perform line text c).1.symbols = _
  obtain ⟨name, -, h⟩ | ⟨name, -, h⟩ | ⟨pairs, -, h⟩ | h := s.perform_cases line text c
  · rw [h, beginSegment]
    split <;> rfl
  · rw [h, endSegment]
    split <;> rfl
  · rw [h]
  · rw [h]

/-- A line leaves alone what is kept from one run to the next. -/
theorem kept_next (s : State) (line : Nat) (text : String) (c : Classified) :
    (s.next line text c).resolving = s.resolving ∧
      (s.next line text c).errorLines = s.errorLines ∧
      (s.next line text c).diagnostics = s.diagnostics := by
  have hperform : (s.perform line text c).1.resolving = s.resolving ∧
      (s.perform line text c).1.errorLines = s.errorLines ∧
      (s.perform line text c).1.diagnostics = s.diagnostics := by
    obtain ⟨name, -, h⟩ | ⟨name, -, h⟩ | ⟨pairs, -, h⟩ | h := s.perform_cases line text c
    · rw [h, beginSegment]
      split <;> exact ⟨rfl, rfl, rfl⟩
    · rw [h, endSegment]
      split <;> exact ⟨rfl, rfl, rfl⟩
    · rw [h]
      exact ⟨rfl, rfl, rfl⟩
    · rw [h]
      exact ⟨rfl, rfl, rfl⟩
  exact hperform

/-- A statement that declares nothing is carried out with the table that its line leaves behind. -/
theorem symbols_labelled {s : State} {line : Nat} {c : Classified} {st : Statement}
    (h : c.statement? = some st) (hst : st.declaration? = none) (text : String) :
    (s.labelled line c).symbols = (s.next line text c).symbols := by
  rw [symbols_next, declareAll_declarations h, hst]
  rfl

theorem isSome_get?_next (s : State) (line : Nat) (text name : String) (c : Classified) :
    ((s.next line text c).symbols.get? name).isSome ↔
      (s.symbols.get? name).isSome ∨ ∃ d ∈ c.declarations, nameKey d.1.text = nameKey name := by
  rw [symbols_next]
  exact s.isSome_get?_declareAll line _ name

/-- Whatever stops an encoding is an error of its line, so a correct line has been encoded. -/
theorem exists_emission_of_correct {s : State} {line : Nat} {text : String} {c : Classified}
    {x : Except Diagnostic Emission} (hx : (s.perform line text c).2 = .ofExcept x)
    (herror : ∀ d, x = .error d → d.isError) (hcorrect : (s.record line text c).correct) :
    ∃ e, x = .ok e ∧ (s.record line text c).code = e.code ∧
      ∀ d ∈ e.diagnostics, d ∈ s.reported line text c := by
  cases x with
  | error d =>
    have hd := herror d rfl
    unfold LineRecord.correct at hcorrect
    rw [record_errors, reported, hx] at hcorrect
    simp [Emission.ofExcept, Emission.reject, hd] at hcorrect
  | ok e =>
    refine ⟨e, rfl, ?_, fun d hd => ?_⟩
    · change (s.perform line text c).2.code = _
      rw [hx]
      rfl
    · rw [reported, hx]
      exact List.mem_append_right _ hd

/-- The state behind some lines. -/
def after (s : State) (lines : List String) : State :=
  (s.firstPass 0 lines).1

theorem firstPass_append (s : State) (line : Nat) (xs ys : List String) :
    s.firstPass line (xs ++ ys) =
      let p := s.firstPass line xs
      let q := p.1.firstPass (line + xs.length) ys
      (q.1, p.2 ++ q.2) := by
  induction xs generalizing s line with
  | nil => rfl
  | cons text xs ih =>
    have hline : line + (text :: xs).length = line + 1 + xs.length := by
      rw [List.length_cons]
      omega
    simp only [List.cons_append, firstPass, ih, hline]

theorem after_concat (s : State) (lines : List String) (text : String) :
    s.after (lines ++ [text]) =
      (s.after lines).next lines.length text (classify (lexemes text)) := by
  unfold after
  rw [firstPass_append, ← translate_state]
  simp only [firstPass, Nat.zero_add]

theorem firstPass_concat (s : State) (lines : List String) (text : String) :
    (s.run (lines ++ [text])).2.firstPass = (s.run lines).2.firstPass ++
      [(s.after lines).record lines.length text (classify (lexemes text))] := by
  unfold run after
  rw [firstPass_append, ← translate_record]
  simp only [firstPass, Nat.zero_add, List.map_append, List.map_cons, List.map_nil]

theorem after_take_succ {s : State} {lines : List String} {i : Nat} {text : String}
    (h : lines[i]? = some text) :
    s.after (lines.take (i + 1)) =
      (s.after (lines.take i)).next i text (classify (lexemes text)) := by
  obtain ⟨hi, -⟩ := List.getElem?_eq_some_iff.mp h
  have hlength : (lines.take i).length = i := List.length_take_of_le (by omega)
  rw [List.take_add_one, h, Option.toList_some, after_concat, hlength]

theorem length_firstPass (s : State) (lines : List String) :
    (s.run lines).2.firstPass.length = lines.length := by
  induction lines using List.reverseRecOn with
  | nil => rfl
  | append_singleton lines text ih => simp [firstPass_concat, ih]

/-- Each line is translated in the state behind the lines before it. -/
theorem getElem?_translated (s : State) (line : Nat) (lines : List String) (i : Nat) :
    (s.firstPass line lines).2[i]? =
      lines[i]?.map fun text => ((s.firstPass line (lines.take i)).1.translate (line + i) text).2 := by
  induction lines generalizing s line i with
  | nil => rfl
  | cons text rest ih =>
    cases i with
    | zero => simp only [firstPass, List.getElem?_cons_zero, List.take_zero, Nat.add_zero, Option.map_some]
    | succ i =>
      have hline : line + 1 + i = line + (i + 1) := by omega
      have hrest := ih (s.translate line text).1 (line + 1) i
      rw [hline] at hrest
      simp only [firstPass, List.getElem?_cons_succ, List.take_succ_cons]
      exact hrest

theorem getElem?_reports (s : State) (lines : List String) (i : Nat) :
    (s.firstPass 0 lines).2[i]? =
      lines[i]?.map fun text =>
        ((s.after (lines.take i)).record i text (classify (lexemes text)),
          (s.after (lines.take i)).reported i text (classify (lexemes text))) := by
  simp only [getElem?_translated, Nat.zero_add, translate_snd, after]

theorem getElem?_firstPass (s : State) (lines : List String) (i : Nat) :
    (s.run lines).2.firstPass[i]? =
      lines[i]?.map fun text =>
        (s.after (lines.take i)).record i text (classify (lexemes text)) := by
  change ((s.firstPass 0 lines).2.map Prod.fst)[i]? = _
  rw [List.getElem?_map, getElem?_reports, Option.map_map]
  rfl

theorem text_of_firstPass {s : State} {lines : List String} {i : Nat} {text : String}
    {r : LineRecord} (htext : lines[i]? = some text)
    (h : (s.run lines).2.firstPass[i]? = some r) : r.text = text := by
  rw [getElem?_firstPass, htext, Option.map_some] at h
  rw [← Option.some.inj h, record_text]

theorem symbols_prefix_after_append (s : State) (lines rest : List String) :
    (s.after lines).symbols <+: (s.after (lines ++ rest)).symbols := by
  induction rest using List.reverseRecOn with
  | nil => simp
  | append_singleton rest text ih =>
    rw [← List.append_assoc, after_concat, symbols_next]
    exact ih.trans (symbols_prefix_declareAll _ _ _)

theorem get?_after_of_take {s : State} {lines : List String} {i : Nat} {name : String}
    {symbol : Symbol} (h : (s.after (lines.take i)).symbols.get? name = some symbol) :
    (s.after lines).symbols.get? name = some symbol := by
  have hprefix := s.symbols_prefix_after_append (lines.take i) (lines.drop i)
  rw [List.take_append_drop] at hprefix
  exact SymbolTable.get?_of_prefix hprefix h

theorem kept_after (s : State) (lines : List String) :
    (s.after lines).resolving = s.resolving ∧ (s.after lines).errorLines = s.errorLines ∧
      (s.after lines).diagnostics = s.diagnostics := by
  induction lines using List.reverseRecOn with
  | nil => exact ⟨rfl, rfl, rfl⟩
  | append_singleton lines text ih =>
    obtain ⟨hresolving, herrors, hdiagnostics⟩ :=
      (s.after lines).kept_next lines.length text (classify (lexemes text))
    rw [after_concat]
    exact ⟨hresolving.trans ih.1, herrors.trans ih.2.1, hdiagnostics.trans ih.2.2⟩

/-- A name is in the table behind some lines if it was there before or one of them declares it. -/
theorem isSome_get?_after (s : State) (lines : List String) (name : String) :
    ((s.after lines).symbols.get? name).isSome ↔
      (s.symbols.get? name).isSome ∨ ∃ text ∈ lines, Declares text name := by
  induction lines using List.reverseRecOn with
  | nil => simp [after, firstPass]
  | append_singleton lines text ih =>
    rw [after_concat, isSome_get?_next, ih]
    simp [or_and_right, exists_or, or_assoc, Declares]

end State
end SegAsm
