import SegAsm.Hover
import SegAsm.Proofs.Append
import SegAsm.Proofs.AssumeLine
import SegAsm.Proofs.Names

/-! What the segment registers are assumed to address. An `ASSUME` line stores its pairs one after the
other and nothing else, and the tables that the lines have recorded give the one in force on each line. -/
namespace SegAsm

open Text

/-- The lexemes write pairs of a segment register and a name, with a comma between each two. -/
inductive WritesPairs : List Lexeme → List (SegmentRegister × String) → Prop
  | last {segment colon name : Lexeme} {r : SegmentRegister} (hpair : IsPair segment colon name)
      (hr : SegmentRegister.ofName? segment.text = some r) :
      WritesPairs [segment, colon, name] [(r, name.text)]
  | more {segment colon name comma : Lexeme} {r : SegmentRegister} {ls : List Lexeme}
      {ps : List (SegmentRegister × String)} (hpair : IsPair segment colon name)
      (hr : SegmentRegister.ofName? segment.text = some r) (hcomma : comma.IsSymbol ",")
      (h : WritesPairs ls ps) :
      WritesPairs (segment :: colon :: name :: comma :: ls) ((r, name.text) :: ps)

/-- Behind a label, if there is one, the line says `ASSUME` and the pairs. -/
def AssumesPairs (text : String) (ps : List (SegmentRegister × String)) : Prop :=
  ∃ directive ls, behindLabel (lexemes text) = directive :: ls ∧
    directive.IsKeyword .directive "ASSUME" ∧ WritesPairs ls ps

namespace WritesPairs

variable {ls : List Lexeme} {ps : List (SegmentRegister × String)}

theorem ne_nil (h : WritesPairs ls ps) : ps ≠ [] := by
  cases h <;> exact List.cons_ne_nil _ _

theorem isPairList (h : WritesPairs ls ps) : IsPairList ls := by
  induction h with
  | last hpair => exact hpair
  | more hpair _ hcomma _ ih => exact ⟨hpair, hcomma, ih⟩

end WritesPairs

namespace AssumeTable

/-- Stores the names of pairs one after the other, in upper case. -/
def overwrite (t : AssumeTable) (ps : List (SegmentRegister × String)) : AssumeTable :=
  ps.foldl (fun t p => t.set p.1 (upperString p.2)) t

/-- The last pair of a register gives its name, and a register without one keeps what it had. -/
theorem get_overwrite (t : AssumeTable) (ps : List (SegmentRegister × String)) (r : SegmentRegister) :
    (t.overwrite ps).get r =
      ((ps.reverse.find? fun p => p.1 = r).map fun p => upperString p.2).getD (t.get r) := by
  unfold overwrite
  induction ps using List.reverseRecOn with
  | nil => rfl
  | append_singleton ps p ih =>
    rw [List.foldl_append, List.foldl_cons, List.foldl_nil, get_set, List.reverse_concat]
    by_cases hr : r = p.1
    · rw [if_pos hr, List.find?_cons_of_pos (by simp [hr])]
      rfl
    · rw [if_neg hr, List.find?_cons_of_neg (by simpa using Ne.symm hr)]
      exact ih

section Scan

variable {segment colon name comma : Lexeme} {r : SegmentRegister}

/-- A pair replaces the register and the name that are kept in mind, and stores nothing yet. -/
theorem assumeFrom_pair (hpair : IsPair segment colon name)
    (hr : SegmentRegister.ofName? segment.text = some r) (t : AssumeTable) (r' : SegmentRegister)
    (name' : String) (ls : List Lexeme) :
    t.assumeFrom r' name' (segment :: colon :: name :: ls) =
      t.assumeFrom r (upperString name.text) ls := by
  have hcolon : colon.kind = .symbol ∧ colon.text = ":" := hpair.isColon
  have hnamed : SegmentRegister.ofOperand segment.text = r := by
    rw [SegmentRegister.ofOperand, hr, Option.getD_some]
  rw [assumeFrom, if_pos hpair.isSegment, assumeFrom, if_neg (by simp [hcolon]),
    if_neg (by simp [hcolon]), if_neg (by simp [hcolon]), assumeFrom, if_neg (by simp [hpair.isName]),
    if_pos hpair.isName, hnamed]

theorem assumeFrom_comma (hcomma : comma.IsSymbol ",") (t : AssumeTable) (r : SegmentRegister)
    (name : String) (ls : List Lexeme) :
    t.assumeFrom r name (comma :: ls) = (t.set r name).assumeFrom r name ls := by
  rw [assumeFrom, if_neg (by simp [hcomma.1]), if_neg (by simp [hcomma.1]), if_pos hcomma.2]

end Scan

/-- Whatever register and name are kept in mind at first, nothing of them gets into the table. -/
theorem assumeFrom_eq_overwrite {ls : List Lexeme} {ps : List (SegmentRegister × String)}
    (h : WritesPairs ls ps) (t : AssumeTable) (r : SegmentRegister) (name : String) :
    t.assumeFrom r name ls = t.overwrite ps := by
  induction h generalizing t r name with
  | last hpair hr =>
    rw [assumeFrom_pair hpair hr]
    rfl
  | more hpair hr hcomma _ ih =>
    rw [assumeFrom_pair hpair hr, assumeFrom_comma hcomma, ih]
    rfl

end AssumeTable

section Line

theorem mergePairs_cons (w : String) (ws : List String) : ∃ vs, mergePairs (w :: ws) = w :: vs := by
  rw [mergePairs]
  split_ifs
  · exact ⟨_, rfl⟩
  · exact ⟨_, rfl⟩

/-- An `ASSUME` line has the label that it starts with. -/
theorem operands_of_isAssumeLine {ls : List Lexeme} (hs : ∀ l ∈ ls, l.Scanned)
    (h : IsAssumeLine ls) :
    (classify ls).form? = some .assume ∧ (classify ls).operands = behindLabel ls := by
  have hform := (form?_assume_iff hs).mpr (hasOnePair_of_isAssumeLine hs h).1
  refine ⟨hform, ?_⟩
  have hvalid := valid_of_form? hs hform
  have hstand : List.Forall₂ Lexeme.StandsFor ls (shownAs ls) :=
    (List.forall₂_and_left _ _).mpr ⟨hvalid, (forall₂_shown hvalid).2⟩
  have hwords := unlabelled_eq_words_iff.mp ((form?_eq_some_iff hvalid).mp hform)
  rw [classify_operands hvalid]
  generalize shownAs ls = ws at hstand hwords
  rcases behindLabel_cases ls with hls | ⟨label, colon, hlabel, hcolon, hls⟩
  · -- The first word is the `ASSUME`.
    unfold IsAssumeLine at h
    rw [hls] at h ⊢
    cases hstand with
    | nil => exact h.elim
    | @cons directive w pairs ws hw _ =>
      obtain ⟨vs, hvs⟩ := mergePairs_cons w ws
      rw [if_neg]
      rw [hvs, h.1.word_eq hw]
      exact fun hlabelled => absurd (List.cons_prefix_cons.mp hlabelled.1).1 (by decide)
  · -- The first word is that of the label, so that the words are those of a line with one.
    rw [hls] at hstand
    generalize behindLabel ls = rest at hls hstand
    subst hls
    obtain _ | @⟨_, w, _, ws, hw, _⟩ := hstand
    obtain ⟨vs, hvs⟩ := mergePairs_cons w ws
    rw [hvs, hw.eq_identifier hlabel] at hwords ⊢
    rw [if_pos]
    · rfl
    · obtain hplain | ⟨-, hlabelled⟩ := hwords
      · exact absurd (List.cons.inj hplain).1 (by decide)
      · rw [hlabelled]
        decide

theorem AssumesPairs.statement {text : String} {ps : List (SegmentRegister × String)}
    (h : AssumesPairs text ps) :
    ∃ ls, (classify (lexemes text)).statement? = some (.assume ls) ∧ WritesPairs ls ps := by
  obtain ⟨directive, ls, hbehind, hdirective, hpairs⟩ := h
  have hline : IsAssumeLine (lexemes text) := by
    unfold IsAssumeLine
    rw [hbehind]
    exact ⟨hdirective, hpairs.isPairList⟩
  obtain ⟨hform, hoperands⟩ := operands_of_isAssumeLine Lexeme.scanned_of_mem_lexemes hline
  refine ⟨ls, ?_, hpairs⟩
  rw [Classified.statement?, hform, Option.bind_some, hoperands, hbehind]
  rfl

end Line

namespace State

variable {s : State} {line : Nat} {text : String} {c : Classified}

theorem assumes_of_assume {pairs : List Lexeme} (h : c.statement? = some (.assume pairs)) :
    (s.next line text c).assumes = s.assumes.assume pairs := by
  change (s.perform line text c).1.assumes = _
  rw [perform_of_statement h, labelled_eq]
  rfl

/-- A line leaves behind the table that it records, and the one before it if it records none. -/
theorem assumes_next (s : State) (line : Nat) (text : String) (c : Classified) :
    (s.next line text c).assumes = ((s.record line text c).assume).getD s.assumes := by
  by_cases hk : c.kind = .assume
  · have hrecord : (s.record line text c).assume = some (s.perform line text c).1.assumes := if_pos hk
    rw [hrecord]
    rfl
  · have hrecord : (s.record line text c).assume = none := if_neg hk
    rw [hrecord, Option.getD_none]
    change (s.perform line text c).1.assumes = _
    obtain ⟨name, -, h⟩ | ⟨name, -, h⟩ | ⟨pairs, hst, -⟩ | h := s.perform_cases line text c
    · rw [h, beginSegment]
      split <;> rfl
    · rw [h, endSegment]
      split <;> rfl
    · exact absurd (kind_of_statement? hst) hk
    · rw [h]
      rfl

/-- The last table that the first pass recorded is the one that it left behind. -/
theorem assumes_after (s : State) (lines : List String) :
    (s.after lines).assumes =
      ((s.run lines).2.firstPass.filterMap LineRecord.assume).getLast?.getD s.assumes := by
  induction lines using List.reverseRecOn with
  | nil => rfl
  | append_singleton lines text ih =>
    rw [after_concat, assumes_next, ih, firstPass_concat, List.filterMap_append]
    cases hassume : ((s.after lines).record lines.length text (classify (lexemes text))).assume with
    | none => simp [hassume]
    | some t => simp [hassume]

theorem filterMap_assume_lines (s : State) (lines : List String) (n : Nat) :
    ((s.run lines).2.lines.take n).filterMap LineRecord.assume =
      ((s.run lines).2.firstPass.take n).filterMap LineRecord.assume := by
  rw [lines_run, ← List.map_take, List.filterMap_map]
  refine List.filterMap_congr fun r hr => ?_
  exact (samePlace_of_mem (List.mem_of_mem_take hr)).assume

/-- The tables recorded up to a line say what the first pass assumed behind it. -/
theorem assumes_after_take (s : State) (lines : List String) (n : Nat) :
    (s.after (lines.take n)).assumes =
      (((s.run lines).2.lines.take n).filterMap LineRecord.assume).getLast?.getD s.assumes := by
  have htake : (s.run lines).2.firstPass.take n = (s.run (lines.take n)).2.firstPass := by
    have happend := s.take_firstPass_append (lines.take n) (lines.drop n)
    rw [List.take_append_drop, List.length_take, ← s.length_firstPass lines] at happend
    rw [← happend, ← List.take_eq_take_min]
  rw [assumes_after, filterMap_assume_lines, htake]

end State

/-- In any state, an `ASSUME` line overwrites the slots of its registers in the order of its pairs, so
that the last pair of a register counts and the other registers keep their segments. On every line of a
program the table that is shown is the one that the first pass had behind it. -/
theorem assumptions_follow_lines :
    (∀ (s : State) (line : Nat) (text : String) (ps : List (SegmentRegister × String)),
      AssumesPairs text ps →
        ps ≠ [] ∧ (s.translate line text).2.1.kind = .assume ∧
        (s.translate line text).1.assumes = s.assumes.overwrite ps ∧
        ∀ r, (s.translate line text).1.assumes.get r =
          ((ps.reverse.find? fun p => p.1 = r).map fun p => upperString p.2).getD (s.assumes.get r)) ∧
    ∀ (source : String) (i : Nat), Hover.assumesOn (assemble source) i =
      (State.after {} ((splitLines source).take (i + 1))).assumes := by
  constructor
  · intro s line text ps h
    obtain ⟨ls, hst, hpairs⟩ := h.statement
    have htable : (s.translate line text).1.assumes = s.assumes.overwrite ps := by
      rw [State.translate_state, State.assumes_of_assume hst]
      exact AssumeTable.assumeFrom_eq_overwrite hpairs _ _ _
    refine ⟨hpairs.ne_nil, ?_, htable, fun r => ?_⟩
    · rw [State.translate_record, State.record_kind, kind_of_statement? hst]
      rfl
    · rw [htable, AssumeTable.get_overwrite]
  · intro source i
    exact (State.assumes_after_take {} (splitLines source) (i + 1)).symm

/-- The label is taken, so that the line is not correct; its pairs count all the same. -/
theorem assumptions_of_incorrect_line :
    AssumesPairs "L: ASSUME ds:a, e\u017f:b, DS:c" [(.ds, "a"), (.es, "b"), (.ds, "c")] ∧
      ((State.after {} ["L: CLI"]).translate 1 "L: ASSUME ds:a, e\u017f:b, DS:c").2.1.correct = false ∧
      ((State.after {} ["L: CLI"]).translate 1 "L: ASSUME ds:a, e\u017f:b, DS:c").1.assumes =
        { es := "B", ds := "C" } ∧
      Hover.assumesOn (assemble "L: CLI\nL: ASSUME ds:a, e\u017f:b, DS:c\nCLI") 2 =
        { es := "B", ds := "C" } := by
  have hlexemes : behindLabel (lexemes "L: ASSUME ds:a, e\u017f:b, DS:c") =
      [⟨"ASSUME", .directive, 3⟩, ⟨"ds", .segmentRegister, 10⟩, ⟨":", .symbol, 12⟩,
        ⟨"a", .identifier, 13⟩, ⟨",", .symbol, 14⟩, ⟨"e\u017f", .segmentRegister, 16⟩,
        ⟨":", .symbol, 19⟩, ⟨"b", .identifier, 20⟩, ⟨",", .symbol, 21⟩,
        ⟨"DS", .segmentRegister, 23⟩, ⟨":", .symbol, 25⟩, ⟨"c", .identifier, 26⟩] := by
    decide +kernel
  have hpairs : AssumesPairs "L: ASSUME ds:a, e\u017f:b, DS:c" [(.ds, "a"), (.es, "b"), (.ds, "c")] := by
    refine ⟨_, _, hlexemes, ⟨rfl, by decide⟩, ?_⟩
    refine .more ⟨rfl, ⟨rfl, rfl⟩, rfl⟩ (by decide) ⟨rfl, rfl⟩ ?_
    refine .more ⟨rfl, ⟨rfl, rfl⟩, rfl⟩ (by decide) ⟨rfl, rfl⟩ ?_
    exact .last ⟨rfl, ⟨rfl, rfl⟩, rfl⟩ (by decide)
  obtain ⟨hline, hshown⟩ := assumptions_follow_lines
  have htable := (hline (State.after {} ["L: CLI"]) 1 _ _ hpairs).2.2.1
  refine ⟨hpairs, by decide +kernel, htable.trans (by decide +kernel), (hshown _ 2).trans ?_⟩
  decide +kernel

end SegAsm
