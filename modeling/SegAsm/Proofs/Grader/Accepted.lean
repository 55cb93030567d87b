import SegAsm.Grader.Grade
import SegAsm.Proofs.Listing.Lines
import SegAsm.Proofs.Text.Blank

/-! A listing that was written for a source is accepted for it. Comparing it drops the header, turns
CRLF into LF and trims the lines, and no line of a listing is lost by that or taken for a header. -/
namespace SegAsm

namespace Grader

open Text Listing

theorem normalize_joined {lines : List String} {last : String}
    (hlines : ∀ line ∈ lines, OneLine line) (hlast : OneLine last) :
    normalize (String.intercalate "\n" (lines ++ [last])) =
      ((dropHeader (lines.map chomp ++ [last])).map dropBlankEnd).rdropWhile String.isEmpty := by
  have hkept : ∀ line ∈ lines.map chomp ++ [last], OneLine line := by
    rw [List.forall_mem_append, List.forall_mem_map, List.forall_mem_singleton]
    exact ⟨fun line hline => (hlines line hline).chomp, hlast⟩
  unfold normalize
  rw [replaceAny_joined hlines hlast, String.ofList_toList, pieces_joined hkept (by simp),
    toList_popWhile]

theorem isGeneratedLine_chomp (line : String) :
    isGeneratedLine (chomp line) = isGeneratedLine line := by
  unfold isGeneratedLine
  rw [Bool.eq_iff_iff, List.isPrefixOf_iff_prefix, List.isPrefixOf_iff_prefix, toList_chomp]
  constructor
  · exact fun h => h.trans (prefix_dropReturn _)
  · intro h
    unfold dropReturn
    split_ifs with hreturn
    · obtain ⟨init, hinit⟩ := List.getLast?_eq_some_iff.mp hreturn
      rw [hinit] at h ⊢
      rw [List.dropLast_concat]
      refine (List.prefix_concat_iff.mp h).resolve_left fun hmark => ?_
      have hlast := congrArg List.getLast? hmark
      rw [List.getLast?_concat] at hlast
      exact absurd hlast (by decide)
    · exact h

theorem dropHeader_map_chomp (lines : List String) :
    dropHeader (lines.map chomp) = (dropHeader lines).map chomp := by
  match lines with
  | [] => rfl
  | [a] =>
    simp only [List.map_cons, List.map_nil, dropHeader, isGeneratedLine_chomp]
    split_ifs <;> rfl
  | a :: b :: rest =>
    simp only [List.map_cons, dropHeader, isGeneratedLine_chomp]
    split_ifs <;> rfl

/-- A header with a time is dropped. -/
theorem dropHeader_lines {h : Header} {m : Moment} (htime : h.generated = some m)
    (hset : m ≠ .origin) (hmark : isGeneratedLine h.title = false) (lines : List String) :
    dropHeader (h.lines ++ lines) = lines := by
  have hline : isGeneratedLine (Header.generatedMark ++ m.text) := by
    unfold isGeneratedLine
    rw [List.isPrefixOf_iff_prefix, String.toList_append]
    exact List.prefix_append _ _
  unfold Header.lines
  rw [htime]
  simp only [if_neg hset]
  split_ifs
  · cases lines <;> simp [dropHeader, hline]
  · simp [dropHeader, hline, hmark]

theorem mismatches_self (lines : List String) : mismatches lines lines = [] := by
  have hfill : fillTo lines.length lines = lines := by simp [fillTo]
  unfold mismatches
  rw [hfill, List.filterMap_eq_nil_iff]
  rintro ⟨⟨e, s⟩, i⟩ hmem
  have hpair : (e, s) ∈ lines.zip lines := List.fst_mem_of_mem_zipIdx hmem
  obtain ⟨k, hk⟩ := List.mem_iff_getElem?.mp hpair
  obtain ⟨he, hs⟩ := List.getElem?_zip_eq_some.mp hk
  have heq : e = s := Option.some.inj (he.symm.trans hs)
  simp [heq]

end Grader

namespace Listing

open Text

theorem Moment.oneLine_text (m : Moment) : OneLine m.text := by
  have htwo : ∀ n, OneLine (twoDigits n) := fun n =>
    (oneLine_of_isWord (isWord_decimal n)).padLeft '0' (by decide) 2
  have hyear := (oneLine_of_isWord (isWord_decimal m.year)).padLeft '0' (by decide) 4
  have hslash : OneLine "/" := by decide
  have hblank : OneLine " " := by decide
  have hcolon : OneLine ":" := by decide
  have hmonth := ((htwo m.day).append hslash).append (htwo m.month)
  have hdate := (hmonth.append hslash).append hyear
  have hhour := (hdate.append hblank).append (htwo m.hour)
  have hminute := (hhour.append hcolon).append (htwo m.minute)
  exact (hminute.append hcolon).append (htwo m.second)

theorem Header.oneLine_of_mem_lines {h : Header} (htitle : OneLine h.title) :
    ∀ line ∈ h.lines, OneLine line := by
  unfold lines
  rw [List.forall_mem_append]
  constructor
  · split_ifs
    · simp
    · exact List.forall_mem_singleton.mpr htitle
  · cases h.generated with
    | none => simp
    | some m =>
      dsimp only
      split_ifs
      · simp
      · exact List.forall_mem_singleton.mpr (OneLine.append (by decide) m.oneLine_text)

/-- The last character is a digit. -/
def EndsInDigit (s : String) : Prop :=
  ∃ c, s.toList.getLast? = some c ∧ c.isDigit

theorem endsInDigit_decimal (n : Nat) : EndsInDigit (decimal n) := by
  have hne : Nat.toDigits 10 n ≠ [] := Nat.toDigits_ne_nil
  unfold EndsInDigit
  rw [decimal, String.toList_ofList, List.getLast?_eq_some_getLast hne]
  refine ⟨_, rfl, ?_⟩
  exact Nat.isDigit_of_mem_toDigits (by decide) (by decide) (List.getLast_mem hne)

theorem EndsInDigit.append {t : String} (h : EndsInDigit t) (s : String) : EndsInDigit (s ++ t) := by
  obtain ⟨c, hlast, hc⟩ := h
  refine ⟨c, ?_, hc⟩
  rw [String.toList_append, List.getLast?_append, hlast, Option.some_or]

theorem EndsInDigit.intercalate {w : String} (h : EndsInDigit w) (glue : String) (ws : List String) :
    EndsInDigit (String.intercalate glue (ws ++ [w])) := by
  induction ws with
  | nil => simpa using h
  | cons v ws ih =>
    rw [List.cons_append, String.intercalate_cons_of_ne_nil (by simp)]
    exact ih.append _

/-- A listing ends with a number. -/
theorem exists_last_render (o : Options) (p : Program) :
    ∃ init last, render o p = init ++ [last] ∧ EndsInDigit last := by
  have hsummary : ∃ init last, errorSummaryOf p = init ++ [last] ∧ EndsInDigit last := by
    unfold errorSummaryOf errorSummary
    obtain hnil | ⟨ns, n, hns⟩ := List.eq_nil_or_concat p.errorLines
    · rw [hnil]
      exact ⟨[], _, rfl, (endsInDigit_decimal 0).append _⟩
    · have hlast : EndsInDigit (String.intercalate " " ((p.errorLines.map Int.ofNat).map signed)) := by
        rw [hns, List.concat_eq_append, List.map_append, List.map_append]
        exact (endsInDigit_decimal n).intercalate " " _
      rw [if_neg (by simp [hns])]
      exact ⟨[_], _, rfl, hlast.append _⟩
  obtain ⟨init, last, hlines, hlast⟩ := hsummary
  unfold render
  rw [hlines, ← List.append_assoc]
  exact ⟨_, last, rfl, hlast⟩

end Listing

namespace Grader

open Text Listing

theorem chomp_of_endsInDigit {line : String} (h : EndsInDigit line) : chomp line = line := by
  obtain ⟨c, hlast, hc⟩ := h
  have hreturn : ¬ line.toList.getLast? = some '\r' := by
    rw [hlast, Option.some_inj]
    rintro rfl
    exact absurd hc (by decide)
  rw [chomp, dropReturn, if_neg hreturn, String.ofList_toList]

theorem dropBlankEnd_of_endsInDigit {line : String} (h : EndsInDigit line) :
    dropBlankEnd line = line := by
  obtain ⟨c, hlast, hc⟩ := h
  have hblank : isBlank c = false := by
    rw [isBlank, Bool.or_eq_false_iff, beq_eq_false_iff_ne, beq_eq_false_iff_ne]
    constructor <;> rintro rfl <;> exact absurd hc (by decide)
  obtain ⟨init, hinit⟩ := List.getLast?_eq_some_iff.mp hlast
  rw [dropBlankEnd, toList_popWhile, hinit, List.rdropWhile_concat_neg _ _ _ (by simp [hblank]),
    ← hinit, String.ofList_toList]

theorem isGeneratedLine_of_head {line : String} (h : line.toList.head? ≠ some 'G') :
    isGeneratedLine line = false :=
  isPrefixOf_of_head rfl h

theorem isGeneratedLine_row (r : LineRecord) : isGeneratedLine (row r) = false := by
  by_cases hempty : r.kind = .empty
  · rw [row, if_pos hempty]
    decide
  · obtain ⟨c, rest, hplace, hc⟩ := exists_cons_place r
    have hG : c ≠ 'G' := by
      rintro rfl
      exact absurd hc (by decide)
    apply isGeneratedLine_of_head
    rw [row_eq hempty]
    split_ifs
    · simp [String.toList_append, hplace, hG]
    · simp [String.toList_append, errorTag]

/-- The first two lines of a listing are rows of lines, titles of tables or empty. -/
theorem exists_cons_cons_render (o : Options) (p : Program) :
    ∃ first second rest, render o p = first :: second :: rest ∧
      isGeneratedLine first = false ∧ isGeneratedLine second = false := by
  have hempty : isGeneratedLine "" = false := by decide
  rw [render_eq, rows_eq]
  cases p.lines with
  | nil => exact ⟨"", "Segment  Size", _, rfl, hempty, by decide⟩
  | cons r rs =>
    have hrow := isGeneratedLine_row r
    obtain hnone | ⟨t, -, htable⟩ := rowsBehind_cases o r
    · rw [List.flatMap_cons, hnone]
      cases rs with
      | nil => exact ⟨row r, "", _, rfl, hrow, hempty⟩
      | cons r' rs => exact ⟨row r, row r', _, rfl, hrow, isGeneratedLine_row r'⟩
    · rw [List.flatMap_cons, htable]
      exact ⟨row r, "Segment  Register", _, rfl, hrow, by decide⟩

theorem dropHeader_render (o : Options) (p : Program) :
    dropHeader (render o p) = render o p := by
  obtain ⟨first, second, rest, hlines, hfirst, hsecond⟩ := exists_cons_cons_render o p
  rw [hlines]
  simp [dropHeader, hfirst, hsecond]

/-- A line without a carriage return and then without blanks at its end. -/
def trimmed (line : String) : String :=
  dropBlankEnd (chomp line)

theorem rdropWhile_render (o : Options) (p : Program) :
    ((render o p).map trimmed).rdropWhile String.isEmpty = (render o p).map trimmed := by
  obtain ⟨init, last, hlines, hlast⟩ := exists_last_render o p
  have hkept : trimmed last = last := by
    rw [trimmed, chomp_of_endsInDigit hlast, dropBlankEnd_of_endsInDigit hlast]
  have hne : last ≠ "" := by
    rintro rfl
    obtain ⟨c, hc, -⟩ := hlast
    cases hc
  rw [hlines, List.map_append, List.map_singleton, hkept]
  exact List.rdropWhile_concat_neg _ _ _ (by simpa using hne)

theorem oneLine_render (o : Options) (source : String) :
    ∀ line ∈ render o (assemble source), OneLine line :=
  oneLine_of_mem_render (named_assemble source) fun _ => oneLine_text_of_mem

/-- The lines of a reference are the lines of the listing, trimmed. -/
theorem referenceLines_eq (o : Options) (source : String) :
    referenceLines o source = (render o (assemble source)).map trimmed := by
  have hone := oneLine_render o source
  have hheader := dropHeader_render o (assemble source)
  have hempty := rdropWhile_render o (assemble source)
  obtain ⟨init, last, hlines, hlast⟩ := exists_last_render o (assemble source)
  unfold referenceLines
  rw [hlines] at hone hheader hempty ⊢
  obtain ⟨hinit, hend⟩ := List.forall_mem_append.mp hone
  have hchomp : init.map chomp ++ [last] = (init ++ [last]).map chomp := by
    rw [List.map_append, List.map_singleton, chomp_of_endsInDigit hlast]
  rw [normalize_joined hinit (hend last (List.mem_singleton_self last)), hchomp,
    dropHeader_map_chomp, hheader, List.map_map]
  exact hempty

/-- A header with a time and the line end behind the last line are all that a written listing has more
than its lines. -/
theorem normalize_document (o : Options) (source : String) {h : Header} {m : Moment}
    (htime : h.generated = some m) (hset : m ≠ .origin) (htitle : OneLine h.title)
    (hmark : isGeneratedLine h.title = false) :
    normalize (document h (render o (assemble source))) =
      (render o (assemble source)).map trimmed := by
  have hone : ∀ line ∈ h.lines ++ render o (assemble source), OneLine line :=
    List.forall_mem_append.mpr ⟨Header.oneLine_of_mem_lines htitle, oneLine_render o source⟩
  have hchomp : (h.lines ++ render o (assemble source)).map chomp ++ [""] =
      (h.lines ++ (render o (assemble source) ++ [""])).map chomp := by
    simp only [List.map_append, List.append_assoc]
    rfl
  have hempty : trimmed "" = "" := by decide +kernel
  unfold document
  rw [unlines_eq, normalize_joined hone (by decide), hchomp, dropHeader_map_chomp,
    dropHeader_lines htime hset hmark, List.map_map]
  change ((render o (assemble source) ++ [""]).map trimmed).rdropWhile String.isEmpty = _
  rw [List.map_append, List.map_singleton, hempty, List.rdropWhile_concat_pos _ _ _ rfl,
    rdropWhile_render]

/-- A listing that is written for a source, with a header that has a time and a title that is one line
and not a line with a time, is accepted for that source: after both are normalized its lines are those
of the reference, and there is no mismatch. -/
theorem written_listing_accepted (o : Options) (source : String) (h : Header) (m : Moment)
    (htime : h.generated = some m) (hset : m ≠ .origin) (htitle : OneLine h.title)
    (hmark : isGeneratedLine h.title = false) :
    let written := document h (render o (assemble source))
    normalize written = referenceLines o source ∧
    normalize written = (render o (assemble source)).map trimmed ∧
    mismatches (referenceLines o source) (normalize written) = [] ∧
    ∀ s : Submission, s.reference = source → s.listing = some written → s.fault? o = none := by
  intro written
  have hlines : normalize written = (render o (assemble source)).map trimmed :=
    normalize_document o source htime hset htitle hmark
  have hsame : normalize written = referenceLines o source := by rw [hlines, referenceLines_eq]
  have hnone : mismatches (referenceLines o source) (normalize written) = [] := by
    rw [hsame]
    exact mismatches_self _
  refine ⟨hsame, hlines, hnone, fun s hreference hlisting => ?_⟩
  unfold Submission.fault?
  rw [hreference, hlisting]
  simp [hnone]

/-- The first line keeps a carriage return, the third is not correct and the last is empty. -/
theorem written_listing_accepted_crlf :
    let o : Options := { assume := true }
    let source := "ASSUME DS:d ;\r\r\nx DB 5 \t\r\nJMP y\r\n\r\n"
    let h : Header := { title := "Lab 1\r", generated := some ⟨2024, 5, 17, 9, 30, 0⟩ }
    let written := document h (render o (assemble source))
    OneLine h.title ∧ isGeneratedLine h.title = false ∧
      (assemble source).errorLines = [3] ∧
      normalize written = referenceLines o source ∧
      mismatches (referenceLines o source) (normalize written) = [] := by
  intro o source h written
  have htitle : OneLine h.title := by decide
  have hmark : isGeneratedLine h.title = false := by decide
  have herrors : (assemble source).errorLines = [3] := by decide +kernel
  obtain ⟨hsame, -, hnone, -⟩ :=
    written_listing_accepted o source h ⟨2024, 5, 17, 9, 30, 0⟩ rfl (by decide) htitle hmark
  exact ⟨htitle, hmark, herrors, hsame, hnone⟩

end Grader
end SegAsm
