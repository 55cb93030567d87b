import SegAsm.Proofs.ErrorLines
import SegAsm.Proofs.Lexeme.Place
import SegAsm.Proofs.Operands

/-! The ranges of diagnostics. Each one is a part of the code of its line; only the range of a line
without a form is narrowed by blanks that it does not hold, those behind the comment, and can end
before it starts. -/
namespace SegAsm

theorem MemoryOperand.ReadFrom.name_mem {m : MemoryOperand} {os : List Lexeme}
    (h : m.ReadFrom os) : m.name ∈ os := by
  induction h with
  | plain => exact List.mem_cons_self
  | within _ _ _ ih => exact List.mem_cons_of_mem _ (List.mem_cons_of_mem _ ih)

theorem Statement.ReadFrom.lexemes_sublist {st : Statement} {os : List Lexeme}
    (h : st.ReadFrom os) : st.lexemes.Sublist os := by
  cases h with
  | inc _ h => exact (List.singleton_sublist.mpr h.name_mem).cons_cons _
  | cmp _ _ _ h => exact (((List.singleton_sublist.mpr h.name_mem).cons _).cons_cons _).cons _
  | add _ h | xor _ h =>
    exact ((List.singleton_sublist.mpr h.name_mem).append (List.sublist_cons_self _ _)).cons _
  | _ => simp [Statement.lexemes]

/-- The label and the statement are read from left to right. -/
theorem label_statement_sublist {ls : List Lexeme} (hs : ∀ l ∈ ls, l.Scanned) :
    ((classify ls).label.toList ++
      ((classify ls).statement?.map Statement.lexemes).getD []).Sublist ls := by
  have hsplit : ((classify ls).label.toList ++ (classify ls).operands).Sublist ls := by
    by_cases h : startsWithLabel (template ls)
    · rw [classify_of_startsWithLabel h]
      cases ls with
      | nil => exact List.Sublist.refl _
      | cons l ls => exact (List.drop_sublist 1 ls).cons_cons l
    · rw [classify_of_not_startsWithLabel h]
      exact List.Sublist.refl ls
  refine List.Sublist.trans (List.Sublist.append_left ?_ _) hsplit
  cases hst : (classify ls).statement? with
  | none => exact List.nil_sublist _
  | some st => exact (readFrom_of_statement? hs hst).lexemes_sublist

theorem Diagnostic.Spans.inside {i : Nat} {text : String} {d : Diagnostic}
    (h : d.Spans i (lexemes text)) :
    d.range.stop.line = i ∧ 0 ≤ d.range.start.char ∧
      d.range.start.char ≤ d.range.stop.char ∧
      d.range.stop.char ≤ byteLength (codePart text) := by
  obtain ⟨first, last, hrange, hlexemes⟩ := h
  have horder : first.start ≤ last.stop ∧ last.stop ≤ byteLength (codePart text) := by
    have hself (l : Lexeme) : l.start ≤ l.stop := Nat.le_add_right _ _
    obtain ⟨rfl, hmem⟩ | hpair := hlexemes
    · exact ⟨hself first, stop_le_of_mem_lexemes hmem⟩
    · have hlast : last ∈ lexemes text := hpair.subset (by simp)
      have hbehind : first.stop ≤ last.start := by
        have hpairwise := (pairwise_scanFrom 0 (codePart text)).sublist hpair
        simpa using hpairwise
      have hfirst := hself first
      have hstop := hself last
      exact ⟨by omega, stop_le_of_mem_lexemes hlast⟩
  rw [hrange]
  exact ⟨rfl, Int.natCast_nonneg _, Int.ofNat_le.mpr horder.1, Int.ofNat_le.mpr horder.2⟩

/-- How many blanks stand in front of the code of a line. -/
def leadingBlanks (text : String) : Nat :=
  ((codePart text).takeWhile Text.isBlank).length

/-- How many blanks stand at the end of the comment of a line. -/
def commentBlanks (text : String) : Nat :=
  ((commentPart text).reverse.takeWhile Text.isBlank).length

section Blanks

variable {p : Char → Bool}

theorem takeWhile_append_cons_of_neg {c : Char} (hc : p c = false) (cs ds : List Char) :
    (cs ++ c :: ds).takeWhile p = cs.takeWhile p := by
  rw [List.takeWhile_append]
  split_ifs with hall
  · rw [List.takeWhile_cons_of_neg (by simp [hc]), List.append_nil]
    exact ((List.takeWhile_prefix p).eq_of_length hall).symm
  · rfl

theorem length_sub_dropWhile (cs : List Char) :
    cs.length - (cs.dropWhile p).length = (cs.takeWhile p).length := by
  have hlength := congrArg List.length (List.takeWhile_append_dropWhile (p := p) (l := cs))
  rw [List.length_append] at hlength
  omega

theorem length_sub_rdropWhile (cs : List Char) :
    cs.length - (cs.rdropWhile p).length = (cs.reverse.takeWhile p).length := by
  rw [← length_sub_dropWhile, List.rdropWhile, List.length_reverse, List.length_reverse]

end Blanks

theorem range_invalidLine (line : Nat) (text template : String) :
    (Diagnostic.invalidLine line text template).range =
      ⟨⟨line, (text.toList.takeWhile Text.isBlank).length⟩,
        ⟨line, byteLength (codePart text) -
          ((text.toList.dropWhile Text.isBlank).reverse.takeWhile Text.isBlank).length⟩⟩ := by
  simp only [Diagnostic.invalidLine, Range.trim, Range.ofLine, Text.toList_popWhile,
    length_sub_dropWhile, length_sub_rdropWhile, Int.zero_add]

/-- A comment moves the end of the range by its own blanks; a line without one is narrowed by its
own. -/
theorem invalidLine_inside (line : Nat) (text template : String) :
    let r := (Diagnostic.invalidLine line text template).range
    r.stop.line = line ∧ 0 ≤ r.start.char ∧ r.stop.char ≤ byteLength (codePart text) ∧
      (r.start.char ≤ r.stop.char ↔
        leadingBlanks text + commentBlanks text ≤ byteLength (codePart text)) := by
  rw [range_invalidLine]
  refine ⟨rfl, Int.natCast_nonneg _, by dsimp only; omega, ?_⟩
  have hle := length_le_byteLength (codePart text)
  have hsplit : codePart text ++ commentPart text = text.toList :=
    List.takeWhile_append_dropWhile
  unfold leadingBlanks commentBlanks
  obtain hnone | ⟨cs, hcs⟩ := comment_cases text.toList
  · change commentPart text = [] at hnone
    rw [hnone, List.append_nil] at hsplit
    rw [hnone, ← hsplit]
    have hfront := length_sub_dropWhile (p := Text.isBlank) (codePart text)
    have hback := length_sub_rdropWhile (p := Text.isBlank) ((codePart text).dropWhile Text.isBlank)
    have hshort := ((codePart text).dropWhile_sublist Text.isBlank).length_le
    simp only [List.reverse_nil, List.takeWhile_nil, List.length_nil]
    omega
  · -- The semicolon keeps the blanks of the code and those of the comment apart.
    change commentPart text = ';' :: cs at hcs
    rw [hcs] at hsplit
    rw [hcs, ← hsplit, takeWhile_append_cons_of_neg (by decide)]
    have hdrop : (codePart text ++ ';' :: cs).dropWhile Text.isBlank =
        (codePart text).dropWhile Text.isBlank ++ ';' :: cs := by
      rw [List.dropWhile_append]
      split_ifs with hempty
      · rw [List.isEmpty_iff.mp hempty]
        rfl
      · rfl
    rw [hdrop, List.reverse_append, List.reverse_cons, List.append_assoc, List.singleton_append,
      takeWhile_append_cons_of_neg (by decide), takeWhile_append_cons_of_neg (by decide)]
    dsimp only
    omega

namespace State

variable {s : State} {lines : List String} {i : Nat} {text : String}

/-- What the two passes report is about the lexemes of a line, or that it has no form. -/
theorem exists_of_mem_diagnostics (hs : s.diagnostics = []) {d : Diagnostic}
    (h : d ∈ (s.run lines).2.diagnostics) :
    ∃ i text, lines[i]? = some text ∧ (d.Spans i (lexemes text) ∨
      (classify (lexemes text)).statement? = none ∧
        ∃ template, d = .invalidLine i text template) := by
  rw [diagnostics_run, hs, List.nil_append] at h
  rcases List.mem_append.mp h with h | h
  · obtain ⟨x, hx, hd⟩ := List.mem_flatMap.mp h
    obtain ⟨i, hi⟩ := List.mem_iff_getElem?.mp hx
    rw [getElem?_reports] at hi
    obtain ⟨text, htext, rfl⟩ := Option.map_eq_some_iff.mp hi
    refine ⟨i, text, htext, ?_⟩
    obtain hspans | ⟨hnone, heq⟩ := spans_reported _ i text _ d hd
    · exact .inl (hspans.mono (label_statement_sublist Lexeme.scanned_of_mem_lexemes))
    · exact .inr ⟨hnone, _, heq⟩
  · obtain ⟨r, hr, hd⟩ := List.mem_flatMap.mp h
    obtain ⟨i, hi⟩ := List.mem_iff_getElem?.mp hr
    obtain ⟨j, target, hst, hspans⟩ := spans_resolveJump _ i (number_of_firstPass hi) d hd
    rw [getElem?_firstPass] at hi
    obtain ⟨text, htext, rfl⟩ := Option.map_eq_some_iff.mp hi
    refine ⟨i, text, htext, .inl (hspans.mono ?_)⟩
    have hread := readFrom_of_statement? Lexeme.scanned_of_mem_lexemes hst
    exact hread.lexemes_sublist.trans (operands_suffix _).sublist

theorem mem_diagnostics_of_reported (h : lines[i]? = some text) {d : Diagnostic}
    (hd : d ∈ (s.after (lines.take i)).reported i text (classify (lexemes text))) :
    d ∈ (s.run lines).2.diagnostics := by
  have hreport := s.getElem?_reports lines i
  rw [h, Option.map_some] at hreport
  rw [diagnostics_run]
  exact List.mem_append_left _ (List.mem_append_right _ (List.mem_flatMap.mpr
    ⟨_, List.mem_of_getElem? hreport, hd⟩))

theorem invalidLine_mem_diagnostics (h : lines[i]? = some text)
    (hnone : (classify (lexemes text)).statement? = none) :
    ∃ template, Diagnostic.invalidLine i text template ∈ (s.run lines).2.diagnostics := by
  refine ⟨(classify (lexemes text)).template, mem_diagnostics_of_reported h ?_⟩
  simp [reported, perform, hnone, Emission.reject]

end State

/-- Every range starts and ends on one line of the source, inside its code. On a line none ends
before it starts, unless the line has no form and the blanks in front of it and behind its comment
outnumber the bytes of its code. -/
theorem diagnostic_ranges (source : String) :
    (∀ d ∈ (assemble source).diagnostics, ∃ (i : Nat) (text : String),
      (Text.splitLines source)[i]? = some text ∧ d.range.start.line = i ∧ d.range.stop.line = i ∧
        0 ≤ d.range.start.char ∧ d.range.stop.char ≤ byteLength (codePart text)) ∧
    ∀ (i : Nat) (text : String), (Text.splitLines source)[i]? = some text →
      ((∀ d ∈ (assemble source).diagnostics, d.range.start.line = i →
          d.range.start.char ≤ d.range.stop.char) ↔
        ((classify (lexemes text)).statement? = none →
          leadingBlanks text + commentBlanks text ≤ byteLength (codePart text))) := by
  refine ⟨fun d hd => ?_, fun i text htext => ⟨fun hall hnone => ?_, fun hfits d hd hline => ?_⟩⟩
  · obtain ⟨i, text, htext, hspans | ⟨-, template, rfl⟩⟩ := State.exists_of_mem_diagnostics rfl hd
    · obtain ⟨hstop, hfirst, -, hlast⟩ := hspans.inside
      exact ⟨i, text, htext, hspans.on, hstop, hfirst, hlast⟩
    · obtain ⟨hstop, hfirst, hlast, -⟩ := invalidLine_inside i text template
      exact ⟨i, text, htext, rfl, hstop, hfirst, hlast⟩
  · obtain ⟨template, hmem⟩ := State.invalidLine_mem_diagnostics htext hnone
    exact (invalidLine_inside i text template).2.2.2.mp (hall _ hmem rfl)
  · obtain ⟨j, text', htext', hspans | ⟨hnone, template, rfl⟩⟩ :=
      State.exists_of_mem_diagnostics rfl hd
    · exact hspans.inside.2.2.1
    · obtain rfl : j = i := Int.ofNat_inj.mp hline
      obtain rfl : text' = text := Option.some.inj (htext'.symm.trans htext)
      exact (invalidLine_inside j text' template).2.2.2.mpr (hfits hnone)

/-- Two blanks behind the comment of a longer line only narrow its range. -/
theorem diagnostic_ranges_short_comment :
    let source := "or al, bx\n\tno such line; \t"
    (assemble source).diagnostics.map Diagnostic.range =
        [⟨⟨0, 3⟩, ⟨0, 9⟩⟩, ⟨⟨1, 1⟩, ⟨1, 11⟩⟩] ∧
      leadingBlanks "\tno such line; \t" = 1 ∧ commentBlanks "\tno such line; \t" = 2 ∧
      ∀ d ∈ (assemble source).diagnostics, d.range.start.line = 1 →
        d.range.start.char ≤ d.range.stop.char := by
  intro source
  have hline : (Text.splitLines source)[1]? = some "\tno such line; \t" := by decide
  refine ⟨by decide +kernel, by decide, by decide, ?_⟩
  exact ((diagnostic_ranges source).2 1 _ hline).mpr fun _ => by decide

/-- Six blanks behind the comment of a line of three bytes: its range ends before it starts. -/
theorem range_of_comment_blanks :
    (assemble "a b;      ").diagnostics.map Diagnostic.range = [⟨⟨0, 0⟩, ⟨0, -3⟩⟩] := by
  decide +kernel

end SegAsm
