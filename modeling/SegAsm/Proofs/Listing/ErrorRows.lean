import SegAsm.Proofs.Listing.Lines
import SegAsm.Proofs.Reading
import SegAsm.WebView.Session

/-! The error tag in a listing. It stands before the rows of the lines that are not correct and
nowhere else: an empty line is correct, and no name in a table can look like the tag. -/
namespace SegAsm

theorem eq_nil_of_behindLabel {ls : List Lexeme} (h : wordsFrom none (behindLabel ls) = []) :
    ls = [] := by
  match ls with
  | [] => rfl
  | [_] | [_, _] => cases h
  | name :: colon :: l :: rest =>
    simp only [behindLabel] at h
    split_ifs at h <;> cases h

/-- Only a line without lexemes is empty. -/
theorem eq_nil_of_kind_empty {ls : List Lexeme} (hs : ∀ l ∈ ls, l.Scanned)
    (h : (classify ls).kind = .empty) : ls = [] := by
  have hform : (classify ls).form? = some .empty := by
    unfold Classified.kind at h
    cases hf : (classify ls).form? with
    | none => simp [hf] at h
    | some f =>
      rw [hf] at h
      cases f with
      | empty => rfl
      | _ => cases h
  have hwords : wordsFrom none (behindLabel ls) = [] :=
    (form?_iff_wordsFrom (valid_of_form? hs hform) (by decide)).mp hform
  exact eq_nil_of_behindLabel hwords

namespace State

variable {s : State} {lines : List String} {r : LineRecord}

theorem errors_record_of_empty (s : State) (line : Nat) (text : String) :
    (s.record line text (classify [])).errors = [] := by
  have hc : classify [] = ⟨none, [], ""⟩ := by decide +kernel
  rw [hc]
  rfl

theorem correct_of_kind_empty (h : r ∈ (s.run lines).2.lines) (hkind : r.kind = .empty) :
    r.correct := by
  obtain ⟨i, hi⟩ := List.mem_iff_getElem?.mp h
  obtain ⟨r₀, h₀, rfl, hplace⟩ := exists_firstPass_of_lines hi
  have hkind₀ : r₀.kind = .empty := hplace.kind.symm.trans hkind
  have hjump : ¬ (r₀.kind = .jump ∧ r₀.correct) := by
    rw [hkind₀]
    exact fun h => absurd h.1 (by decide)
  rw [resolveJump_of_not hjump]
  rw [getElem?_firstPass] at h₀
  obtain ⟨text, -, rfl⟩ := Option.map_eq_some_iff.mp h₀
  rw [record_kind] at hkind₀
  rw [eq_nil_of_kind_empty Lexeme.scanned_of_mem_lexemes hkind₀]
  unfold LineRecord.correct
  rw [errors_record_of_empty]
  rfl

theorem number_of_lines {i : Nat} (h : (s.run lines).2.lines[i]? = some r) : r.number = i + 1 := by
  obtain ⟨r₀, h₀, rfl, hplace⟩ := exists_firstPass_of_lines h
  rw [hplace.number, number_of_firstPass h₀]

theorem number_mem_errorLines_iff (hs : s.errorLines = []) (h : r ∈ (s.run lines).2.lines) :
    r.number ∈ (s.run lines).2.errorLines ↔ r.correct = false := by
  obtain ⟨i, hi⟩ := List.mem_iff_getElem?.mp h
  have hnumber := number_of_lines hi
  rw [errorLines_run, hs, List.nil_append, List.mem_append, mem_faultyLines_or_failedJumps_iff,
    hnumber, Nat.add_sub_cancel, hi]
  simp

theorem filter_errorLines (hs : s.errorLines = []) (lines : List String) :
    (s.run lines).2.lines.filter (·.number ∈ (s.run lines).2.errorLines) =
      (s.run lines).2.lines.filter (!·.correct) := by
  apply List.filter_congr
  intro r hr
  rw [Bool.eq_iff_iff, decide_eq_true_iff, number_mem_errorLines_iff hs hr, Bool.not_eq_true']

end State

/-- A line is found not to be correct in the first pass or in the second, but not in both. -/
theorem length_faulty_passes {resolve : LineRecord → LineRecord}
    (h : ∀ r, (resolve r).correct → r.correct) (rs : List LineRecord) :
    (rs.filter (!·.correct)).length + (rs.filter fun r => r.correct && !(resolve r).correct).length =
      ((rs.map resolve).filter (!·.correct)).length := by
  induction rs with
  | nil => rfl
  | cons r rs ih =>
    have hr := h r
    cases hfirst : r.correct <;> cases hsecond : (resolve r).correct <;>
      simp [hfirst, hsecond] at hr ih ⊢ <;> omega

theorem State.length_errorLines {s : State} (hs : s.errorLines = []) (lines : List String) :
    (s.run lines).2.errorLines.length = ((s.run lines).2.lines.filter (!·.correct)).length := by
  rw [errorLines_run, hs, List.nil_append, List.length_append, faultyLines, failedJumps,
    List.length_map, List.length_map, lines_run]
  exact length_faulty_passes (fun r => correct_of_resolveJump) _

namespace Listing

open Text

/-- Whether a line starts with the error tag. -/
def isTagged (line : String) : Bool :=
  errorTag.toList.isPrefixOf line.toList

theorem isTagged_iff {line : String} : isTagged line ↔ errorTag.toList <+: line.toList :=
  List.isPrefixOf_iff_prefix

/-- A line in the colour of errors. -/
def coloured (line : String) : String :=
  "\x1b[31m" ++ line ++ "\x1b[0m"

theorem highlight_eq (lines : List String) :
    highlight lines = lines.map fun line => if isTagged line then coloured line else line := rfl

theorem isTagged_of_head {line : String} (h : line.toList.head? ≠ some 'S') :
    isTagged line = false :=
  isPrefixOf_of_head rfl h

theorem isTagged_row {r : LineRecord} (hempty : r.kind = .empty → r.correct) :
    isTagged (row r) = !r.correct := by
  by_cases hkind : r.kind = .empty
  · rw [row, if_pos hkind, hempty hkind]
    decide
  · rw [row_eq hkind]
    cases hcorrect : r.correct with
    | false =>
      rw [Bool.not_false, isTagged_iff]
      simp only [Bool.false_eq_true, if_false, String.toList_append, List.append_assoc]
      exact List.prefix_append _ _
    | true =>
      obtain ⟨c, rest, hplace, hc⟩ := exists_cons_place r
      apply isTagged_of_head
      simp only [if_true, String.toList_append, hplace, String.toList_empty, List.nil_append,
        List.cons_append, List.head?_cons, ne_eq, Option.some_inj]
      rintro rfl
      exact absurd hc (by decide)

/-- No name without blanks that is filled up to eight columns looks like the tag, in which one blank
alone stands behind the first word. -/
theorem isTagged_of_name {name line : String} (hname : IsWord name)
    (h : (padRight 8 name).toList <+: line.toList) : isTagged line = false := by
  rw [Bool.eq_false_iff, ne_eq, isTagged_iff]
  intro htag
  have hblank : ' ' ∉ name.toList := hname.not_mem (by decide)
  have hlist : (padRight 8 name).toList = name.toList ++ List.replicate (8 - name.length) ' ' := by
    rw [padRight, String.toList_ofList]
  have hlength : (padRight 8 name).toList.length = name.length + (8 - name.length) := by
    rw [hlist, List.length_append, List.length_replicate, String.length_toList]
  have height : "Syntax e".toList.length = 8 := rfl
  have hstart : "Syntax e".toList <+: (padRight 8 name).toList := by
    apply List.prefix_of_prefix_length_le (List.IsPrefix.trans (by decide) htag) h
    omega
  obtain hshort | hlong := Nat.lt_or_ge name.length 8
  · -- The name is filled up with a blank where the tag has a letter.
    have hequal := hstart.eq_of_length (by omega)
    have hfill : 8 - name.length = 7 - name.length + 1 := by omega
    rw [hlist, hfill, List.replicate_succ', ← List.append_assoc] at hequal
    have hlast := congrArg List.getLast? hequal
    rw [List.getLast?_concat] at hlast
    cases hlast
  · have hinside : "Syntax e".toList <+: name.toList := by
      rw [hlist] at hstart
      apply List.prefix_of_prefix_length_le hstart (List.prefix_append _ _)
      rw [height, String.length_toList]
      exact hlong
    exact hblank (hinside.subset (by decide))

theorem isTagged_table {α : Type} {title : String} (htitle : isTagged title = false)
    {xs : List α} {name cells : α → String} (h : ∀ x ∈ xs, IsWord (name x)) :
    ∀ line ∈ title :: xs.map fun x => padRight 8 (name x) ++ cells x, isTagged line = false := by
  refine List.forall_mem_cons.mpr ⟨htitle, ?_⟩
  intro line hline
  obtain ⟨x, hx, rfl⟩ := List.mem_map.mp hline
  apply isTagged_of_name (h x hx)
  rw [String.toList_append]
  exact List.prefix_append _ _

theorem isTagged_assumeRows {t : AssumeTable} (h : t.Named) :
    ∀ line ∈ assumeRows t, isTagged line = false := by
  simp only [assumeRows, String.append_assoc]
  exact isTagged_table (by decide) fun s _ => h s

theorem isTagged_errorSummary (ns : List Int) : ∀ line ∈ errorSummary ns, isTagged line = false := by
  have hcount : ∀ rest, isTagged ("Errors: " ++ rest) = false := by
    intro rest
    apply isTagged_of_head
    simp [String.toList_append]
  have hlines : ∀ rest, isTagged ("Error lines: " ++ rest) = false := by
    intro rest
    apply isTagged_of_head
    simp [String.toList_append]
  refine List.forall_mem_cons.mpr ⟨hcount _, ?_⟩
  split_ifs
  · simp
  · exact List.forall_mem_singleton.mpr (hlines _)

theorem isTagged_tableLines {p : Program} (h : p.Named) :
    ∀ line ∈ tableLines p, isTagged line = false := by
  have hempty : ∀ line ∈ [""], isTagged line = false := by decide
  have hsegments : ∀ line ∈ segmentRows p.segments, isTagged line = false := by
    simp only [segmentRows, String.append_assoc]
    exact isTagged_table (by decide) h.segments
  have hsymbols : ∀ line ∈ symbolRows p.symbols, isTagged line = false := by
    simp only [symbolRows, String.append_assoc]
    exact isTagged_table (by decide) fun s hs => (h.symbols s hs).1
  simp only [tableLines, List.forall_mem_append]
  exact ⟨⟨⟨⟨⟨hempty, hsegments⟩, hempty⟩, hsymbols⟩, hempty⟩, isTagged_errorSummary _⟩

theorem isTagged_rowsBehind {r : LineRecord} (h : ∀ t ∈ r.assume, t.Named) (o : Options) :
    ∀ line ∈ rowsBehind o r, isTagged line = false := by
  obtain hnone | ⟨t, ht, htable⟩ := rowsBehind_cases o r
  · simp [hnone]
  · rw [htable]
    exact isTagged_assumeRows (h t ht)

theorem filter_of_untagged {lines : List String} (h : ∀ line ∈ lines, isTagged line = false) :
    lines.filter isTagged = [] := by
  rw [List.filter_eq_nil_iff]
  intro line hline
  rw [h line hline]
  decide

theorem highlight_append (xs ys : List String) :
    highlight (xs ++ ys) = highlight xs ++ highlight ys :=
  List.map_append

theorem highlight_of_untagged {lines : List String} (h : ∀ line ∈ lines, isTagged line = false) :
    highlight lines = lines := by
  rw [highlight_eq]
  refine (List.map_congr_left fun line hline => ?_).trans lines.map_id'
  rw [h line hline]
  rfl

section Rows

variable {o : Options} {rs : List LineRecord} (hrow : ∀ r ∈ rs, isTagged (row r) = !r.correct)
  (hbehind : ∀ r ∈ rs, ∀ line ∈ rowsBehind o r, isTagged line = false)
include hrow hbehind

theorem filter_rows : (rows o rs).filter isTagged = (rs.filter (!·.correct)).map row := by
  rw [rows_eq]
  induction rs with
  | nil => rfl
  | cons r rs ih =>
    obtain ⟨hr, hrows⟩ := List.forall_mem_cons.mp hrow
    obtain ⟨hb, hrest⟩ := List.forall_mem_cons.mp hbehind
    rw [List.flatMap_cons, List.filter_append, ih hrows hrest, List.filter_cons, List.filter_cons,
      hr, filter_of_untagged hb]
    split_ifs <;> rfl

theorem highlight_rows :
    highlight (rows o rs) =
      rs.flatMap fun r => (if r.correct then row r else coloured (row r)) :: rowsBehind o r := by
  rw [rows_eq, highlight_eq, List.map_flatMap]
  refine List.flatMap_congr fun r hr => ?_
  rw [List.map_cons, hrow r hr, ← highlight_eq, highlight_of_untagged (hbehind r hr)]
  cases r.correct <;> rfl

end Rows

/-- In a listing the error tag stands before the rows of the lines whose numbers are among the error
lines and nowhere else. So there are as many as the summary and the message to the page say, and
these rows are the ones that are coloured. -/
theorem tagged_rows_are_errorLines (o : Options) (source : String) :
    let p := assemble source
    let count := (render o p).countP isTagged
    (render o p).filter isTagged = (p.lines.filter (·.number ∈ p.errorLines)).map row ∧
    count = p.errorCount ∧
    (errorSummaryOf p).head? = some ("Errors: " ++ decimal count) ∧
    WebView.listingMessage o source = .object [("type", .string "listing"),
      ("text", .string (String.intercalate "\n" (render o p))), ("errors", .ofNat count)] ∧
    render o p = p.lines.flatMap (fun r => row r :: rowsBehind o r) ++ tableLines p ∧
    highlight (render o p) =
      p.lines.flatMap (fun r =>
        (if r.number ∈ p.errorLines then coloured (row r) else row r) :: rowsBehind o r) ++
      tableLines p := by
  intro p count
  have hnamed : p.Named := named_assemble source
  have hrow : ∀ r ∈ p.lines, isTagged (row r) = !r.correct := fun r hr =>
    isTagged_row (State.correct_of_kind_empty hr)
  have hbehind : ∀ r ∈ p.lines, ∀ line ∈ rowsBehind o r, isTagged line = false := fun r hr =>
    isTagged_rowsBehind (hnamed.assumes r hr) o
  have htables := isTagged_tableLines hnamed
  have herror : ∀ r ∈ p.lines, r.number ∈ p.errorLines ↔ r.correct = false := fun r =>
    State.number_mem_errorLines_iff rfl
  have hfilter : p.lines.filter (·.number ∈ p.errorLines) = p.lines.filter (!·.correct) :=
    State.filter_errorLines rfl _
  have htagged : (render o p).filter isTagged =
      (p.lines.filter (·.number ∈ p.errorLines)).map row := by
    rw [render_eq, List.filter_append, filter_rows hrow hbehind, filter_of_untagged htables,
      List.append_nil, hfilter]
  have hcount : count = p.errorCount := by
    change (render o p).countP isTagged = p.errorCount
    rw [List.countP_eq_length_filter, htagged, List.length_map, hfilter]
    exact (State.length_errorLines rfl _).symm
  refine ⟨htagged, hcount, ?_, ?_, render_eq o p, ?_⟩
  · rw [hcount]
    unfold errorSummaryOf errorSummary
    rw [List.head?_cons, List.length_map]
    rfl
  · rw [hcount]
    rfl
  · rw [render_eq, highlight_append, highlight_rows hrow hbehind, highlight_of_untagged htables]
    refine congrArg (· ++ tableLines p) (List.flatMap_congr fun r hr => ?_)
    simp only [herror r hr]
    cases r.correct <;> rfl

/-- The first word of the tag as the name of a segment and of a label. -/
theorem tagged_rows_among_lookalikes :
    let p := assemble "Syntax SEGMENT\nJMP y\n\nSyntax:"
    p.errorLines = [2] ∧ (render {} p).countP isTagged = 1 ∧
      (render {} p).filter isTagged = (p.lines.filter (·.number ∈ [2])).map row := by
  intro p
  have herrors : p.errorLines = [2] := by decide +kernel
  have hone : p.errorCount = 1 := congrArg List.length herrors
  obtain ⟨htagged, hcount, -⟩ := tagged_rows_are_errorLines {} "Syntax SEGMENT\nJMP y\n\nSyntax:"
  refine ⟨herrors, hcount.trans hone, ?_⟩
  rw [← herrors]
  exact htagged

end Listing
end SegAsm
