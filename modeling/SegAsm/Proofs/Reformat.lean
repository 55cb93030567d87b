import SegAsm.Proofs.Layout
import SegAsm.Proofs.Simulation
import SegAsm.Proofs.Text.Lines

/-! Assembling a source that has been laid out. Every line keeps its lexemes, so the source
assembles to the same tables, and every line that is not empty to the same code at the same place. -/
namespace SegAsm

open Text Layout

namespace Layout

/-- Laying out makes no line of two and no two lines one. -/
theorem pieces_reformat (source : String) :
    pieces (reformat source) = (pieces source).map (layoutLine (column (assemble source))) := by
  have hone : ∀ line ∈ (pieces source).map (layoutLine (column (assemble source))), OneLine line := by
    rw [List.forall_mem_map]
    intro piece hpiece hmem
    exact (mem_layoutLine hmem).elim (by decide) (of_mem_pieces hpiece).2
  apply pieces_joined hone
  unfold pieces
  simp [List.splitOn_ne_nil]

end Layout

/-- Lines with the same words do the same. -/
theorem lineAlike_of_texts {text text' : String}
    (h : texts (codePart text) = texts (codePart text')) : LineAlike (· = ·) text text' := by
  rw [← map_text_lexemes, ← map_text_lexemes] at h
  have hscanned (line : String) : ∀ l ∈ lexemes line, l.Scanned := Lexeme.scanned_of_mem_lexemes
  have halike : List.Forall₂ (Lexeme.Alike (· = ·)) (lexemes text) (lexemes text') := by
    have hlength : (lexemes text).length = (lexemes text').length := by
      simpa using congrArg List.length h
    refine forall₂_of_getElem? hlength fun i l l' hl hl' => ?_
    have htext : l.text = l'.text := by
      have hi := congrArg (·[i]?) h
      rw [List.getElem?_map, List.getElem?_map, hl, hl'] at hi
      exact Option.some.inj hi
    refine ⟨?_, htext, fun _ => htext⟩
    rw [(hscanned text l (List.mem_of_getElem? hl)).kind_eq,
      (hscanned text' l' (List.mem_of_getElem? hl')).kind_eq, htext]
  refine classify_alike_of_template likeness_eq (hscanned text) halike ?_
  have htokens : (lexemes text).map Lexeme.token = (lexemes text').map Lexeme.token :=
    map_eq_of_forall₂ halike fun l l' hl => by
      unfold Lexeme.token
      rw [hl.kind, hl.text]
  unfold template
  rw [htokens]

theorem texts_chomp (line : String) : texts (codePart (chomp line)) = texts (codePart line) := by
  unfold codePart chomp
  rw [String.toList_ofList]
  exact texts_dropReturn line.toList

/-- The record of a line but for its text and the reasons for which it is not correct. -/
def LineRecord.essence (r : LineRecord) : LineRecord × Bool :=
  ({ r with text := "", errors := [] }, r.correct)

/-- What the lines that are not empty come to. -/
def essences (rs : List LineRecord) : List (LineRecord × Bool) :=
  (rs.filter (·.kind ≠ .empty)).map LineRecord.essence

theorem essences_append (rs rs' : List LineRecord) :
    essences (rs ++ rs') = essences rs ++ essences rs' := by
  unfold essences
  rw [List.filter_append, List.map_append]

/-- The programs have the same tables, and every line that is not empty comes to the same in both
passes, but for texts and reasons. -/
structure Program.SameOutcome (p q : Program) : Prop where
  segments : p.segments = q.segments
  symbols : p.symbols = q.symbols
  errorLines : p.errorLines = q.errorLines
  firstPass : essences p.firstPass = essences q.firstPass
  lines : essences p.lines = essences q.lines

namespace Program

theorem SameOutcome.symm {p q : Program} (h : p.SameOutcome q) : q.SameOutcome p :=
  ⟨h.segments.symm, h.symbols.symm, h.errorLines.symm, h.firstPass.symm, h.lines.symm⟩

theorem SameOutcome.trans {p q r : Program} (h : p.SameOutcome q) (h' : q.SameOutcome r) :
    p.SameOutcome r :=
  ⟨h.segments.trans h'.segments, h.symbols.trans h'.symbols, h.errorLines.trans h'.errorLines,
    h.firstPass.trans h'.firstPass, h.lines.trans h'.lines⟩

theorem Alike.sameOutcome {p q : Program} (h : p.Alike (· = ·) q) : p.SameOutcome q := by
  have hessence : ∀ r r' : LineRecord, r.Alike (· = ·) r' → r.essence = r'.essence := by
    intro r r' hr
    unfold LineRecord.essence
    rw [hr.number, hr.kind, hr.address, hr.segment, hr.code, hr.correct, hr.assume]
  have hkind : ∀ r r' : LineRecord, r.Alike (· = ·) r' →
      decide (r.kind ≠ .empty) = decide (r'.kind ≠ .empty) := fun r r' hr => by rw [hr.kind]
  refine ⟨?_, ?_, h.errorLines, map_filter_eq_of_forall₂ h.firstPass hkind hessence,
    map_filter_eq_of_forall₂ h.lines hkind hessence⟩
  · have hsegments : List.Forall₂ (· = ·) p.segments q.segments := h.segments.imp fun s s' hs => by
      obtain ⟨hname, hsize⟩ := hs
      cases s
      cases s'
      rw [Segment.mk.injEq]
      exact ⟨hname, hsize⟩
    rwa [List.forall₂_eq_eq_eq] at hsegments
  · have hsymbols : List.Forall₂ (· = ·) p.symbols q.symbols := h.symbols.imp fun s s' hs => by
      obtain ⟨hname, hsegment, hoffset, htype, hline⟩ := hs
      cases s
      cases s'
      rw [Symbol.mk.injEq]
      exact ⟨hname, hsegment, hoffset, htype, hline⟩
    rwa [List.forall₂_eq_eq_eq] at hsymbols

end Program

namespace State

variable (s : State) (lines : List String) {text : String} (h : lexemes text = [])
include h

theorem after_concat_empty : s.after (lines ++ [text]) = s.after lines := by
  rw [after_concat, h]
  rfl

/-- An empty line at the end changes nothing. -/
theorem run_concat_empty : (s.run (lines ++ [text])).2.SameOutcome (s.run lines).2 := by
  have hafter := after_concat_empty s lines h
  generalize hr : (s.after lines).record lines.length text (classify (lexemes text)) = r
  have hrecord : r.kind = .empty ∧ r.correct = true := by
    rw [← hr, h]
    exact ⟨rfl, rfl⟩
  have hsame : ((s.after lines).resolveJump r).1 = r := by
    unfold resolveJump
    rw [hrecord.1]
    rfl
  have hfirst := s.firstPass_concat lines text
  rw [hr] at hfirst
  have hskip : essences [r] = [] := by
    unfold essences
    rw [List.filter_cons_of_neg (by simp [hrecord.1])]
    rfl
  refine ⟨congrArg State.segments hafter, congrArg State.symbols hafter, ?_, ?_, ?_⟩
  · -- The line is correct and no jump, so that neither pass finds an error on it.
    rw [errorLines_run, errorLines_run, hfirst]
    unfold faultyLines failedJumps
    rw [hfirst, hafter]
    simp [hrecord.2, hsame]
  · rw [hfirst, essences_append, hskip, List.append_nil]
  · rw [lines_run, lines_run, hfirst, hafter, List.map_append, essences_append, List.map_singleton,
      hsame, hskip, List.append_nil]

end State

theorem run_pieces (source : String) :
    (State.run {} ((pieces source).map chomp)).2.SameOutcome (assemble source) := by
  unfold assemble
  obtain hlines | hlines := map_chomp_pieces source
  · rw [hlines]
    exact ⟨rfl, rfl, rfl, rfl, rfl⟩
  · rw [hlines]
    exact State.run_concat_empty {} _ (by decide +kernel)

/-- Laying a source out does not change what it assembles to, if all of its white characters are
separators of lexemes. -/
theorem reformat_sameOutcome (source : String) (hwhite : PlainWhite source.toList) :
    (assemble (reformat source)).SameOutcome (assemble source) := by
  -- A last line of blanks is lost, but as a piece it is still there: the pieces correspond.
  have hlines : List.Forall₂ (LineAlike (· = ·)) ((pieces (reformat source)).map chomp)
      ((pieces source).map chomp) := by
    rw [pieces_reformat, List.map_map, List.forall₂_map_left_iff, List.forall₂_map_right_iff,
      List.forall₂_same]
    intro piece hpiece
    apply lineAlike_of_texts
    rw [Function.comp_apply, texts_chomp, texts_chomp]
    exact texts_layoutLine _ (hwhite.mono (of_mem_pieces hpiece).1)
  have hstart : State.Alike (· = ·) {} {} := ⟨.nil, .nil, rfl, rfl, Iff.rfl, rfl, rfl⟩
  have halike := State.run_alike likeness_eq hstart hlines
    (fun i text _ name t _ _ ht => by rw [ht]) rfl
  exact (run_pieces (reformat source)).symm.trans (halike.sameOutcome.trans (run_pieces source))

end SegAsm
