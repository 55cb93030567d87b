import SegAsm.Proofs.Constant
import SegAsm.Proofs.Jump
import SegAsm.Proofs.Symbol.Indexed
import SegAsm.Proofs.Tiling

/-! The symbols of a program. Each is as the first line with its name declares it and stands where that
line stands, and later runs only add symbols behind those that are there. -/
namespace SegAsm

/-- The line declares the name with this type: as the label in front of it, as a label alone, or as a
datum whose directive gives the type. A label keeps a datum of its own line from taking its name. -/
inductive DeclaresAs (text : String) : String → SymbolType → Prop
  | label {name : Lexeme} (h : (classify (lexemes text)).label = some name) :
      DeclaresAs text name.text .label
  | alone {name colon : Lexeme} (hls : behindLabel (lexemes text) = [name, colon])
      (hname : name.kind = .identifier) (hcolon : colon.IsSymbol ":") :
      DeclaresAs text name.text .label
  | data {name directive value : Lexeme} {type : SymbolType}
      (hls : behindLabel (lexemes text) = [name, directive, value])
      (hname : name.kind = .identifier) (hdirective : directive.kind = .dataDirective)
      (htype : SymbolType.ofDirective? directive.text = some type)
      (hvalue : value.kind.isNumeric ∨ value.kind = .quoted ∧ type = .byte)
      (hlabel : ∀ label, (classify (lexemes text)).label = some label →
        nameKey label.text ≠ nameKey name.text) :
      DeclaresAs text name.text type

/-- The first declaration of a name. -/
def Classified.declaration? (c : Classified) (name : String) : Option (Lexeme × SymbolType) :=
  c.declarations.find? fun d => nameKey d.1.text == nameKey name

section Line

theorem ofDirective?_of_isKeyword {l : Lexeme} (hl : l.Scanned) {type : SymbolType}
    (h : l.IsKeyword .dataDirective type.name) : SymbolType.ofDirective? l.text = some type := by
  have hsize := Lexeme.size_mem_of_isKeyword hl h
  unfold SymbolType.ofDirective?
  rw [h.2]
  cases type with
  | label => exact absurd hsize (by decide)
  | byte | word | double => decide

/-- What a line declares behind its label is asked for by its form. -/
theorem exists_form_of_declaration? {text : String} {st : Statement} {d : Lexeme × SymbolType}
    (hst : (classify (lexemes text)).statement? = some st) (hd : st.declaration? = some d) :
    ∃ f, f ≠ .assume ∧ (classify (lexemes text)).form? = some f := by
  obtain ⟨f, hform, hread⟩ := Option.bind_eq_some_iff.mp hst
  refine ⟨f, ?_, hform⟩
  rintro rfl
  have hkind := kind_of_ofLexemes? hread
  cases st <;> cases hkind
  cases hd

theorem readFrom_behindLabel {text : String} {st : Statement} {d : Lexeme × SymbolType}
    (hst : (classify (lexemes text)).statement? = some st) (hd : st.declaration? = some d) :
    st.ReadFrom (behindLabel (lexemes text)) := by
  have hs : ∀ l ∈ lexemes text, l.Scanned := Lexeme.scanned_of_mem_lexemes
  obtain ⟨f, hf, hform⟩ := exists_form_of_declaration? hst hd
  rw [← operands_eq_behindLabel hs hf hform]
  exact readFrom_of_statement? hs hst

/-- A name is declared by the label, or else by what stands behind it. -/
theorem Classified.declaration?_cases {c : Classified} {name : String} {d : Lexeme × SymbolType}
    (h : c.declaration? name = some d) :
    (∃ label, c.label = some label ∧ d = (label, .label)) ∨
      (∀ label, c.label = some label → nameKey label.text ≠ nameKey name) ∧
        ∃ st, c.statement? = some st ∧ st.declaration? = some d := by
  unfold declaration? declarations at h
  rw [List.find?_append, Option.or_eq_some_iff] at h
  obtain h | ⟨hnone, h⟩ := h
  · obtain ⟨label, hlabel, rfl⟩ :=
      Option.map_eq_some_iff.mp (Option.mem_toList.mp (List.mem_of_find?_eq_some h))
    exact .inl ⟨label, hlabel, rfl⟩
  · refine .inr ⟨fun label hlabel => ?_,
      Option.bind_eq_some_iff.mp (Option.mem_toList.mp (List.mem_of_find?_eq_some h))⟩
    rw [hlabel, Option.map_some, Option.toList_some, List.find?_eq_none] at hnone
    simpa using hnone

theorem Classified.nameKey_of_declaration? {c : Classified} {name : String}
    {d : Lexeme × SymbolType} (h : c.declaration? name = some d) :
    nameKey d.1.text = nameKey name := by
  simpa using List.find?_some h

theorem declaresAs_of_declaration? {text name : String} {d : Lexeme × SymbolType}
    (h : (classify (lexemes text)).declaration? name = some d) : DeclaresAs text d.1.text d.2 := by
  have hs : ∀ l ∈ lexemes text, l.Scanned := Lexeme.scanned_of_mem_lexemes
  have hkey := Classified.nameKey_of_declaration? h
  obtain ⟨label, hlabel, rfl⟩ | ⟨hlabel, st, hst, hd⟩ := Classified.declaration?_cases h
  · exact .label hlabel
  · have hread := readFrom_behindLabel hst hd
    generalize hls : behindLabel (lexemes text) = ls at hread
    cases hread with
    | label hname hcolon =>
      cases hd
      exact .alone hls hname hcolon
    | data hname hdirective hvalue =>
      simp only [Statement.declaration?] at hd
      split_ifs at hd with htext
      cases hd
      refine .data hls hname hdirective.1 ?_ ?_ (hkey ▸ hlabel)
      · refine ofDirective?_of_isKeyword (hs _ ?_) hdirective
        exact (behindLabel_suffix _).subset (by rw [hls]; simp)
      · simp only [LexemeKind.isConstant, Bool.or_eq_true, beq_iff_eq] at hvalue
        simp only [Bool.and_eq_true, decide_eq_true_eq, bne_iff_ne, not_and, not_not] at htext
        exact hvalue.imp_right fun hquoted => ⟨hquoted, htext hquoted⟩
    | _ => cases hd

end Line

theorem SymbolTable.mem_declare {t : SymbolTable} {symbol e : Symbol} (h : e ∈ t.declare symbol) :
    e ∈ t ∨ e = symbol ∧ t.get? symbol.name = none := by
  rw [declare_eq] at h
  split_ifs at h with htaken
  · exact .inl h
  · rw [List.mem_append, List.mem_singleton] at h
    exact h.imp_right fun he => ⟨he, Option.not_isSome_iff_eq_none.mp htaken⟩

namespace State

section Step

variable {s : State} {line : Nat} {e : Symbol}

/-- Of several declarations the first one with a new name counts. -/
theorem mem_declareAll {ds : List (Lexeme × SymbolType)} (h : e ∈ (s.declareAll line ds).symbols) :
    e ∈ s.symbols ∨ ∃ d, (ds.find? fun d => nameKey d.1.text == nameKey e.name) = some d ∧
      e = s.symbolAt line d ∧ s.symbols.get? e.name = none := by
  induction ds using List.reverseRecOn with
  | nil => exact .inl h
  | append_singleton ds d ih =>
    rw [declareAll_append] at h
    obtain h | ⟨rfl, hfree⟩ := SymbolTable.mem_declare h
    · refine (ih h).imp_right ?_
      rintro ⟨d', hfound, he, hnew⟩
      exact ⟨d', by rw [List.find?_append, hfound, Option.some_or], he, hnew⟩
    · have hnot : ¬((s.declareAll line ds).symbols.get? d.1.text).isSome :=
        Option.not_isSome_iff_eq_none.mpr hfree
      rw [isSome_get?_declareAll, not_or, Option.not_isSome_iff_eq_none] at hnot
      obtain ⟨hnew, hothers⟩ := hnot
      refine .inr ⟨d, ?_, rfl, hnew⟩
      have hnone : (ds.find? fun d' => nameKey d'.1.text == nameKey d.1.text) = none :=
        List.find?_eq_none.mpr fun d' hd' heq => hothers ⟨d', hd', by simpa using heq⟩
      change ((ds ++ [d]).find? fun d' => nameKey d'.1.text == nameKey d.1.text) = some d
      rw [List.find?_append, hnone, Option.none_or]
      simp

theorem address_record_of_kind {text : String} {c : Classified} (h : c.kind ≠ .beginSegment) :
    (s.record line text c).address = s.offset := by
  change (s.perform line text c).1.offset = s.offset
  obtain ⟨name, hst, -⟩ | ⟨name, -, hp⟩ | ⟨pairs, -, hp⟩ | hp := s.perform_cases line text c
  · exact absurd (kind_of_statement? hst) h
  · rw [hp, endSegment]
    split <;> rfl
  · rw [hp]
    rfl
  · rw [hp]
    rfl

end Step

/-- A symbol behind some lines was there before, or it is declared by one of them and its name was
free until then. -/
theorem exists_declaration {s : State} {lines : List String} {e : Symbol}
    (h : e ∈ (s.after lines).symbols) :
    e ∈ s.symbols ∨ ∃ i text d, lines[i]? = some text ∧
      (classify (lexemes text)).declaration? e.name = some d ∧
      e = (s.after (lines.take i)).symbolAt i d ∧
      (s.after (lines.take i)).symbols.get? e.name = none := by
  induction lines using List.reverseRecOn with
  | nil => exact .inl h
  | append_singleton lines text ih =>
    rw [after_concat, symbols_next] at h
    obtain h | ⟨d, hd, he, hfree⟩ := mem_declareAll h
    · refine (ih h).imp_right ?_
      rintro ⟨i, text', d, htext, hd, hrest⟩
      have hi := (List.getElem?_eq_some_iff.mp htext).1
      refine ⟨i, text', d, ?_, hd, ?_⟩
      · rw [List.getElem?_append_left hi, htext]
      · rwa [List.take_append_of_le_length (by omega)]
    · refine .inr ⟨lines.length, text, d, List.getElem?_concat_length, hd, ?_⟩
      rw [List.take_left]
      exact ⟨he, hfree⟩

/-- Each line of the text has its record. -/
theorem exists_line {s : State} {lines : List String} {i : Nat} {text : String}
    (htext : lines[i]? = some text) :
    ∃ r, (s.run lines).2.lines[i]? = some r ∧
      r.SamePlace ((s.after (lines.take i)).record i text (classify (lexemes text))) := by
  obtain ⟨hi, -⟩ := List.getElem?_eq_some_iff.mp htext
  obtain ⟨r, hr⟩ : ∃ r, (s.run lines).2.lines[i]? = some r :=
    ⟨_, List.getElem?_eq_getElem (by rwa [length_lines])⟩
  obtain ⟨r₀, h₀, -, hplace⟩ := exists_firstPass_of_lines hr
  rw [getElem?_firstPass, htext, Option.map_some, Option.some.injEq] at h₀
  subst h₀
  exact ⟨r, hr, hplace⟩

/-- A line stands where its symbols do, unless it opens a segment. -/
theorem exists_line_of_symbolAt {s : State} {lines : List String} {i : Nat} {text : String}
    (htext : lines[i]? = some text) (d : Lexeme × SymbolType) :
    ∃ r, (s.run lines).2.lines[i]? = some r ∧ (r.kind ≠ .beginSegment →
      ((s.after (lines.take i)).symbolAt i d).segment = r.segment ∧
        ((s.after (lines.take i)).symbolAt i d).offset = r.address) := by
  obtain ⟨r, hr, hplace⟩ := exists_line (s := s) htext
  refine ⟨r, hr, fun hkind => ?_⟩
  rw [hplace.kind, record_kind] at hkind
  rw [hplace.segment, hplace.address, record_segment_of_kind hkind, address_record_of_kind hkind]
  exact ⟨rfl, rfl⟩

section Changes

/-- The tables of the state are those after some changes of empty ones. -/
def Built (s : State) : Prop :=
  ∃ changes : List TableChange, changes.foldl TableChange.onSegments [] = s.segments ∧
    changes.foldl TableChange.onSymbols [] = s.symbols

/-- A line adds a segment or sets the size of one, if it does anything to the segments. -/
theorem exists_changes_segments (s : State) (line : Nat) (text : String) (c : Classified) :
    ∃ changes : List TableChange,
      changes.foldl TableChange.onSegments s.segments = (s.next line text c).segments ∧
      ∀ t, changes.foldl TableChange.onSymbols t = t := by
  change ∃ changes : List TableChange,
    changes.foldl TableChange.onSegments s.segments = (s.perform line text c).1.segments ∧ _
  obtain ⟨name, -, hp⟩ | ⟨name, -, hp⟩ | ⟨pairs, -, hp⟩ | hp := s.perform_cases line text c
  · rw [hp, beginSegment]
    split
    · exact ⟨[.addSegment name.text], rfl, fun _ => rfl⟩
    · exact ⟨[], rfl, fun _ => rfl⟩
  · rw [hp, endSegment]
    split
    · exact ⟨[.setSize s.openSegment s.offset], rfl, fun _ => rfl⟩
    · exact ⟨[], rfl, fun _ => rfl⟩
  · rw [hp]
    exact ⟨[], rfl, fun _ => rfl⟩
  · rw [hp]
    exact ⟨[], rfl, fun _ => rfl⟩

theorem foldl_onSegments_declare (symbols : List Symbol) (t : SegmentTable) :
    (symbols.map TableChange.declare).foldl TableChange.onSegments t = t := by
  induction symbols with
  | nil => rfl
  | cons symbol symbols ih => exact ih

theorem Built.next {s : State} (h : s.Built) (line : Nat) (text : String) (c : Classified) :
    (s.next line text c).Built := by
  obtain ⟨changes, hsegments, hsymbols⟩ := h
  obtain ⟨placing, hplaced, hkept⟩ := s.exists_changes_segments line text c
  let declaring := (c.declarations.map (s.symbolAt line)).map TableChange.declare
  refine ⟨changes ++ declaring ++ placing, ?_, ?_⟩
  · rw [List.foldl_append, List.foldl_append, hsegments, foldl_onSegments_declare, hplaced]
  · rw [List.foldl_append, List.foldl_append, hsymbols, hkept, symbols_next, List.foldl_map,
      List.foldl_map]
    rfl

theorem Built.after {s : State} (h : s.Built) (lines : List String) : (s.after lines).Built := by
  induction lines using List.reverseRecOn with
  | nil => exact h
  | append_singleton lines text ih =>
    rw [after_concat]
    exact ih.next lines.length text _

end Changes

section Runs

/-- The programs of several runs, one after the other. -/
def programs (s : State) : List (List String) → List Program
  | [] => []
  | lines :: rest => (s.run lines).2 :: (s.run lines).1.programs rest

variable {s : State} {p : Program}

theorem symbols_prefix_run (s : State) (lines : List String) :
    s.symbols <+: (s.run lines).2.symbols :=
  s.symbols_prefix_after_append [] lines

theorem symbols_prefix_programs {runs : List (List String)} (h : p ∈ s.programs runs) :
    s.symbols <+: p.symbols := by
  induction runs generalizing s with
  | nil => cases h
  | cons lines rest ih =>
    have hrun : s.symbols <+: (s.run lines).1.symbols := s.symbols_prefix_run lines
    obtain rfl | h := List.mem_cons.mp h
    · exact hrun
    · exact hrun.trans (ih h)

theorem pairwise_programs (s : State) (runs : List (List String)) :
    (s.programs runs).Pairwise fun p q => p.symbols <+: q.symbols := by
  induction runs generalizing s with
  | nil => exact .nil
  | cons lines rest ih =>
    refine .cons (fun q hq => ?_) (ih _)
    have hrun : (s.run lines).1.symbols <+: q.symbols := symbols_prefix_programs hq
    exact hrun

theorem Built.programs {runs : List (List String)} (hs : s.Built) (h : p ∈ s.programs runs) :
    ∃ changes, (IndexedTables.after changes).segments.items = p.segments ∧
      (IndexedTables.after changes).symbols.items = p.symbols := by
  induction runs generalizing s with
  | nil => cases h
  | cons lines rest ih =>
    have hrun : (s.run lines).1.Built := hs.after lines
    obtain rfl | h := List.mem_cons.mp h
    · obtain ⟨changes, hsegments, hsymbols⟩ := hrun
      obtain ⟨hitems, hitems'⟩ := IndexedTables.items_after changes
      exact ⟨changes, hitems.trans hsegments, hitems'.trans hsymbols⟩
    · exact ih hrun h

end Runs
end State

/-- The names of the symbols differ. The names are those that some line declares, and each symbol is as
the first such line says: the type is that of the declaration, and the place is that of the line, unless
the line opens a segment. A search through the entries of the tables finds what an index finds, after any
changes, and all tables of a program come from such changes. Later runs leave the symbols alone and add
others behind them. -/
theorem symbols_as_declared (source : String) :
    Distinct ((assemble source).symbols.map Symbol.name) ∧
    (∀ name, ((assemble source).symbols.get? name).isSome ↔
      ∃ text ∈ Text.splitLines source, Declares text name) ∧
    (∀ e ∈ (assemble source).symbols, 0 < e.line ∧ ∃ text r,
      (Text.splitLines source)[e.line - 1]? = some text ∧
      (assemble source).lines[e.line - 1]? = some r ∧
      DeclaresAs text e.name e.type ∧
      (∀ earlier ∈ (Text.splitLines source).take (e.line - 1), ¬Declares earlier e.name) ∧
      (r.kind ≠ .beginSegment → e.segment = r.segment ∧ e.offset = r.address)) ∧
    (∀ changes name,
      SegmentTable.get? (IndexedTables.after changes).segments.items name =
        (IndexedTables.after changes).segments.get? name ∧
      SymbolTable.get? (IndexedTables.after changes).symbols.items name =
        (IndexedTables.after changes).symbols.get? name) ∧
    (∀ runs, ∀ p ∈ State.programs {} runs, ∃ changes,
      (IndexedTables.after changes).segments.items = p.segments ∧
      (IndexedTables.after changes).symbols.items = p.symbols) ∧
    ∀ (s : State) (runs : List (List String)),
      (∀ p ∈ s.programs runs, s.symbols <+: p.symbols) ∧
      (s.programs runs).Pairwise fun p q => p.symbols <+: q.symbols := by
  have hbuilt : State.Built {} := ⟨[], rfl, rfl⟩
  refine ⟨?_, ?_, ?_, ?_, fun runs p hp => hbuilt.programs hp, ?_⟩
  · have hmem : assemble source ∈ State.programs {} [Text.splitLines source] :=
      List.mem_singleton_self _
    obtain ⟨changes, -, hitems⟩ := hbuilt.programs hmem
    rw [← hitems]
    exact (IndexedTables.consistent_after changes).symbols.distinct
  · intro name
    rw [symbols_assemble, isSome_get?_after_iff]
  · intro e he
    rw [symbols_assemble] at he
    obtain hnone | ⟨i, text, d, htext, hd, rfl, hfree⟩ := State.exists_declaration he
    · cases hnone
    · obtain ⟨r, hr, hplace⟩ := State.exists_line_of_symbolAt htext d
      exact ⟨Nat.succ_pos i, text, r, htext, hr, declaresAs_of_declaration? hd,
        get?_after_eq_none_iff.mp hfree, hplace⟩
  · intro changes name
    obtain ⟨hsegments, hsymbols⟩ := IndexedTables.get?_after changes name
    exact ⟨hsegments.symm, hsymbols.symm⟩
  · exact fun s runs => ⟨fun p => State.symbols_prefix_programs, s.pairwise_programs runs⟩

theorem symbols_as_declared_behind_labels :
    let source := "L: S SEGMENT\nx: X DW 5\nl DB 1\ny dd 7\nS ENDS"
    let y : Symbol := ⟨"y", "S", 3, .double, 4⟩
    (assemble source).symbols = [⟨"L", "NOTHING", 0, .label, 1⟩, ⟨"x", "S", 0, .label, 2⟩, y] ∧
      ∃ r, (assemble source).lines[3]? = some r ∧ DeclaresAs r.text y.name y.type ∧
        y.segment = r.segment ∧ y.offset = r.address := by
  intro source y
  have hsymbols : (assemble source).symbols =
      [⟨"L", "NOTHING", 0, .label, 1⟩, ⟨"x", "S", 0, .label, 2⟩, y] := by decide +kernel
  have hrecord : ((assemble source).lines[3]?).map (fun r => (r.kind, r.text)) =
      some (.dataDeclaration, "y dd 7") := by decide +kernel
  have htext : (Text.splitLines source)[3]? = some "y dd 7" := by decide +kernel
  have hy : y ∈ (assemble source).symbols := by rw [hsymbols]; simp
  obtain ⟨-, text, r, hline, hr, hdeclares, -, hplace⟩ := (symbols_as_declared source).2.2.1 y hy
  change (assemble source).lines[3]? = some r at hr
  change (Text.splitLines source)[3]? = some text at hline
  rw [hr, Option.map_some, Option.some.injEq, Prod.mk.injEq] at hrecord
  rw [htext, Option.some.injEq] at hline
  refine ⟨hsymbols, r, hr, ?_, hplace (by rw [hrecord.1]; decide)⟩
  rwa [hrecord.2, hline]

end SegAsm
