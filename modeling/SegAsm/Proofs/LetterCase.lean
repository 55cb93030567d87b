import SegAsm.Proofs.Lexeme.Texts
import SegAsm.Proofs.Reading
import SegAsm.Proofs.Simulation
import SegAsm.Proofs.Text.Replace
import SegAsm.Proofs.Tiling

/-! The case of letters. Sources whose words differ at most in the case of ASCII letters assemble to
the same code, unless an invalid lexeme holds the letters of `ASSUME`: there the case decides whether
the line is searched for pairs, and with it whether the line has a label. -/
namespace SegAsm

open Text

/-- The lexemes differ at most in the case of letters, and not at all if they are text constants. -/
def Lexeme.SameLetters (l l' : Lexeme) : Prop :=
  Text.SameLetters l.text l'.text ∧ (l.kind = .quoted → l.text = l'.text)

/-- The lexemes of the lines differ at most in the case of letters, whatever stands between them. -/
def SameWords (text text' : String) : Prop :=
  List.Forall₂ Lexeme.SameLetters (lexemes text) (lexemes text')

/-- An invalid lexeme of the line holds `ASSUME` in capitals. -/
def HidesAssume (ls : List Lexeme) : Prop :=
  ∃ l ∈ ls, l.kind = .invalid ∧ "ASSUME".toList <:+: l.text.toList

instance (s t : String) : Decidable (Text.SameLetters s t) :=
  inferInstanceAs (Decidable (_ = _))

instance (l l' : Lexeme) : Decidable (Lexeme.SameLetters l l') :=
  inferInstanceAs (Decidable (_ ∧ _))

instance (text text' : String) : Decidable (SameWords text text') :=
  inferInstanceAs (Decidable (List.Forall₂ _ _ _))

instance (ls : List Lexeme) : Decidable (HidesAssume ls) :=
  inferInstanceAs (Decidable (∃ l ∈ ls, _))

theorem SameWords.alike {text text' : String} (h : SameWords text text') :
    List.Forall₂ (Lexeme.Alike Text.SameLetters) (lexemes text) (lexemes text') := by
  have hscanned (line : String) : ∀ l ∈ lexemes line, l.Scanned := Lexeme.scanned_of_mem_lexemes
  refine forall₂_of_getElem? h.length_eq fun i l l' hl hl' => ?_
  obtain ⟨_, hother, hletters⟩ := exists_of_forall₂ h hl
  obtain rfl := Option.some.inj (hl'.symm.trans hother)
  refine ⟨?_, hletters.1, hletters.2⟩
  rw [(hscanned _ l (List.mem_of_getElem? hl)).kind_eq,
    (hscanned _ l' (List.mem_of_getElem? hl')).kind_eq, hletters.1.ofWord_eq]

section Token

variable {l : Lexeme} (hs : l.Scanned) (hk : l.kind = .invalid)
include hs hk

theorem toList_token_of_invalid :
    l.token.toList = "<Error lexeme ".toList ++ (l.text.toList ++ ['>']) := by
  have hne : l.text.isEmpty = false := by
    rw [Bool.eq_false_iff, Ne, String.isEmpty_iff]
    rintro hempty
    exact hs.ne_nil (by rw [hempty]; rfl)
  simp [Lexeme.token, hk, hne]

theorem infix_token_of_invalid :
    "ASSUME".toList <:+: l.token.toList ↔ "ASSUME".toList <:+: l.text.toList := by
  have hclear : isClear ["ASSUME"] "<Error lexeme ".toList := by decide
  rw [toList_token_of_invalid hs hk, infix_append_iff hclear, List.infix_concat_iff]
  refine or_iff_right fun hsuffix => ?_
  have hlast := hsuffix.getLast (by decide)
  rw [List.getLast_concat] at hlast
  exact absurd hlast (by decide)

/-- No occurrence of `DB C_STR` reaches into an invalid lexeme. -/
theorem isClear_token_of_invalid (hblank : ' ' ∉ l.text.toList) :
    isClear ["DB C_STR"] (' ' :: l.token.toList) := by
  have hfront : isClear ["DB C_STR"] (' ' :: "<Error lexeme ".toList) := by decide
  have hback : ∀ cs : List Char, ' ' ∉ cs → isClear ["DB C_STR"] (cs ++ ['>']) := by
    intro cs
    induction cs with
    | nil => intro _; decide
    | cons c cs ih =>
      intro hcs
      rw [List.cons_append]
      refine isClear_cons_iff.mpr ⟨fun w hw => ?_, ih fun h => hcs (List.mem_cons_of_mem _ h)⟩
      obtain rfl := List.mem_singleton.mp hw
      refine ⟨fun hpre => ?_, fun hpre => ?_⟩
      · exact absurd (hpre.mem (a := '>') (by simp)) (by decide)
      · have hblank' : ' ' ∈ "DB C_STR".toList := by decide
        have hmem := hpre.mem hblank'
        rw [← List.cons_append, List.mem_append] at hmem
        exact hmem.elim hcs (by decide)
  rw [toList_token_of_invalid hs hk, ← List.cons_append]
  exact isClear_append hfront (hback _ hblank)

end Token

theorem infix_spaced_tokens_iff {ls : List Lexeme} (hs : ∀ l ∈ ls, l.Scanned) :
    "ASSUME".toList <:+: spaced (ls.map Lexeme.token) ↔
      (∃ l ∈ ls, l.kind ≠ .invalid ∧ "ASSUME".toList <:+: l.token.toList) ∨ HidesAssume ls := by
  constructor
  · intro hinside
    obtain hnil | ⟨t, ht, hword⟩ :=
      exists_infix_of_infix_spaced (w := []) (by decide) (by decide) hinside
    · exact absurd hnil (by decide)
    · obtain ⟨l, hl, rfl⟩ := List.mem_map.mp ht
      by_cases hk : l.kind = .invalid
      · exact .inr ⟨l, hl, hk, (infix_token_of_invalid (hs l hl) hk).mp hword⟩
      · exact .inl ⟨l, hl, hk, hword⟩
  · intro hword
    obtain ⟨l, hl, hinside⟩ : ∃ l ∈ ls, "ASSUME".toList <:+: l.token.toList := by
      obtain ⟨l, hl, -, hinside⟩ | ⟨l, hl, hk, hinside⟩ := hword
      · exact ⟨l, hl, hinside⟩
      · exact ⟨l, hl, (infix_token_of_invalid (hs l hl) hk).mpr hinside⟩
    have hmem : ' ' :: l.token.toList ∈
        (ls.map Lexeme.token).map fun w => ' ' :: w.toList :=
      List.mem_map_of_mem (List.mem_map_of_mem hl)
    rw [spaced, List.flatMap_def]
    exact hinside.trans ((List.suffix_cons _ _).isInfix.trans (List.infix_of_mem_flatten hmem))

section Label

variable {ls ls' : List Lexeme} (hs : ∀ l ∈ ls, l.Scanned) (hs' : ∀ l ∈ ls', l.Scanned)
  (h : List.Forall₂ (Lexeme.Alike Text.SameLetters) ls ls')
include hs hs' h

/-- The tokens before the first invalid lexeme are the same. -/
theorem sameUpTo_spaced (hinvalid : ∃ l ∈ ls, l.kind = .invalid) :
    SameUpTo '<' (spaced (ls.map Lexeme.token)) (spaced (ls'.map Lexeme.token)) := by
  induction h with
  | nil => simp at hinvalid
  | @cons l l' ls ls' hl _ ih =>
    rw [List.forall_mem_cons] at hs hs'
    rw [List.map_cons, List.map_cons, spaced_cons, spaced_cons]
    by_cases hk : l.kind = .invalid
    · rw [toList_token_of_invalid hs.1 hk, toList_token_of_invalid hs'.1 (hl.kind ▸ hk)]
      exact ⟨[' '], _, _, rfl, rfl⟩
    · obtain ⟨k, hmem, hinv⟩ := hinvalid
      obtain rfl | hmem := List.mem_cons.mp hmem
      · exact absurd hinv hk
      · rw [hl.token_eq likeness_sameLetters ⟨hs.1, hk⟩]
        exact (ih hs.2 hs'.2 ⟨k, hmem, hinv⟩).append_left (' ' :: l'.token.toList)

theorem prefix_spaced_tokens_iff {p : List Char} (hp : '<' ∉ p) :
    p <+: spaced (ls.map Lexeme.token) ↔ p <+: spaced (ls'.map Lexeme.token) := by
  by_cases hinvalid : ∃ l ∈ ls, l.kind = .invalid
  · exact (sameUpTo_spaced hs hs' h hinvalid).prefix_iff hp
  · rw [map_token_eq likeness_sameLetters hs h (by simpa using hinvalid)]

theorem declares_text_iff (hblank : ∀ l ∈ ls, ' ' ∉ l.text.toList)
    (hblank' : ∀ l ∈ ls', ' ' ∉ l.text.toList) :
    "DB C_STR".toList <:+: spaced (ls.map Lexeme.token) ↔
      "DB C_STR".toList <:+: spaced (ls'.map Lexeme.token) := by
  induction h with
  | nil => rfl
  | @cons l l' ls ls' hl htail ih =>
    rw [List.forall_mem_cons] at hs hs' hblank hblank'
    have hrest := ih hs.2 hs'.2 hblank.2 hblank'.2
    rw [List.map_cons, List.map_cons, spaced_cons, spaced_cons, ← List.cons_append,
      ← List.cons_append]
    by_cases hk : l.kind = .invalid
    · rw [infix_append_iff (isClear_token_of_invalid hs.1 hk hblank.1),
        infix_append_iff (isClear_token_of_invalid hs'.1 (hl.kind ▸ hk) hblank'.1)]
      exact hrest
    · rw [hl.token_eq likeness_sameLetters ⟨hs.1, hk⟩]
      exact infix_append_congr (by decide) (fun p => prefix_spaced_tokens_iff hs.2 hs'.2 htail)
        hrest _

omit hs' in
theorem keyword_assume_iff :
    (∃ l ∈ ls, l.kind ≠ .invalid ∧ "ASSUME".toList <:+: l.token.toList) ↔
      ∃ l ∈ ls', l.kind ≠ .invalid ∧ "ASSUME".toList <:+: l.token.toList := by
  induction h with
  | nil => simp
  | @cons l l' ls ls' hl _ ih =>
    rw [List.forall_mem_cons] at hs
    rw [List.exists_mem_cons_iff, List.exists_mem_cons_iff, ih hs.2, ← hl.kind]
    refine or_congr (and_congr_right fun hk => ?_) Iff.rfl
    rw [hl.token_eq likeness_sameLetters ⟨hs.1, hk⟩]

/-- The tokens hold `ASSUME` as a keyword, or hidden in an invalid lexeme. -/
theorem assume_infix_iff (hassume : HidesAssume ls ↔ HidesAssume ls') :
    "ASSUME".toList <:+: spaced (ls.map Lexeme.token) ↔
      "ASSUME".toList <:+: spaced (ls'.map Lexeme.token) := by
  rw [infix_spaced_tokens_iff hs, infix_spaced_tokens_iff hs', keyword_assume_iff hs h, hassume]

end Label

section Template

variable {cs ds : List Char}

/-- The words that decide how a template is merged are kept by the merging of registers. -/
theorem infix_mergeRegisters_iff {w : String} (hw : w ∈ ["ASSUME", "DB C_STR"]) (cs : List Char) :
    w.toList <:+: mergeRegisters cs ↔ w.toList <:+: cs := by
  have hclear : ∀ w ∈ ["ASSUME", "DB C_STR"],
      ∀ qs ∈ [["reg", "r16a", "r16", "r32", "r8"], ["[ ADDR ]", "[ r16a ]", "[ r32 ]"]],
        isClear qs w.toList ∧ ∀ q ∈ qs, isClear [w] q.toList := by decide
  obtain ⟨hsingle, hover⟩ := hclear w hw ["reg", "r16a", "r16", "r32", "r8"] (by simp)
  obtain ⟨hpair, hover'⟩ := hclear w hw ["[ ADDR ]", "[ r16a ]", "[ r32 ]"] (by simp)
  unfold mergeRegisters
  rw [infix_replaceAny_iff (by decide) hsingle hover,
    infix_replaceAny_iff (by decide) hpair hover']

theorem infix_mergeText_iff (cs : List Char) :
    "ASSUME".toList <:+: mergeText cs ↔ "ASSUME".toList <:+: cs := by
  unfold mergeText
  split_ifs
  · rfl
  · exact infix_replaceAny_iff (by decide) (by decide) (by decide) cs

theorem Text.SameUpTo.mergeRegisters (h : SameUpTo '<' cs ds) :
    SameUpTo '<' (SegAsm.mergeRegisters cs) (SegAsm.mergeRegisters ds) :=
  (h.replaceAny (by decide) (by decide) _).replaceAny (by decide) (by decide) _

theorem Text.SameUpTo.mergeText (h : SameUpTo '<' cs ds)
    (htext : "DB C_STR".toList <:+: cs ↔ "DB C_STR".toList <:+: ds) :
    SameUpTo '<' (SegAsm.mergeText cs) (SegAsm.mergeText ds) := by
  unfold SegAsm.mergeText
  simp only [occurs_eq_true_iff, htext]
  split_ifs
  · exact h
  · exact h.replaceAny (by decide) (by decide) _

theorem Text.SameUpTo.mergeAssumes (h : SameUpTo '<' cs ds)
    (hassume : "ASSUME".toList <:+: cs ↔ "ASSUME".toList <:+: ds) :
    SameUpTo '<' (SegAsm.mergeAssumes cs) (SegAsm.mergeAssumes ds) := by
  unfold SegAsm.mergeAssumes
  simp only [occurs_eq_true_iff, hassume]
  split_ifs
  · exact h.replaceAny (by decide) (by decide) _
  · exact h

theorem startsWithLabel_eq {t t' : String} (h : SameUpTo '<' t.toList t'.toList) :
    startsWithLabel t = startsWithLabel t' := by
  have hne (u : String) (hu : '<' ∈ u.toList) : (u != "ID :") = true := by
    rw [bne_iff_ne]
    rintro rfl
    exact absurd hu (by decide)
  unfold startsWithLabel
  rw [hne t h.mem.1, hne t' h.mem.2, Bool.true_and, Bool.true_and, Bool.eq_iff_iff,
    List.isPrefixOf_iff_prefix, List.isPrefixOf_iff_prefix]
  exact h.prefix_iff (by decide)

end Template

/-- Two templates with an invalid lexeme agree up to its mark. -/
theorem sameUpTo_template {ls ls' : List Lexeme}
    (hspaced : SameUpTo '<' (spaced (ls.map Lexeme.token)) (spaced (ls'.map Lexeme.token)))
    (hinside : ∀ w ∈ ["ASSUME", "DB C_STR"], (w.toList <:+: spaced (ls.map Lexeme.token) ↔
      w.toList <:+: spaced (ls'.map Lexeme.token))) :
    SameUpTo '<' (template ls).toList (template ls').toList := by
  have hcons (ms : List Lexeme) (hmem : '<' ∈ spaced (ms.map Lexeme.token)) :
      spaced (ms.map Lexeme.token) =
        ' ' :: (String.intercalate " " (ms.map Lexeme.token)).toList := by
    refine spaced_eq_cons fun hnil => ?_
    rw [hnil] at hmem
    exact absurd hmem List.not_mem_nil
  obtain ⟨hmem, hmem'⟩ := hspaced.mem
  rw [hcons ls hmem, hcons ls' hmem'] at hspaced hinside
  have hclear : ∀ w ∈ ["ASSUME", "DB C_STR"], isClear [w] [' '] := by decide
  have hword : ∀ w ∈ ["ASSUME", "DB C_STR"],
      (w.toList <:+: (String.intercalate " " (ls.map Lexeme.token)).toList ↔
        w.toList <:+: (String.intercalate " " (ls'.map Lexeme.token)).toList) := by
    intro w hw
    have hblank := infix_append_iff (hclear w hw)
    exact (hblank _).symm.trans ((hinside w hw).trans (hblank _))
  have hregisters := (hspaced.of_cons (by decide)).mergeRegisters
  unfold template
  rw [String.toList_ofList, String.toList_ofList]
  refine (hregisters.mergeText ?_).mergeAssumes ?_
  · rw [infix_mergeRegisters_iff (by simp), infix_mergeRegisters_iff (by simp)]
    exact hword _ (by simp)
  · rw [infix_mergeText_iff, infix_mergeText_iff, infix_mergeRegisters_iff (by simp),
      infix_mergeRegisters_iff (by simp)]
    exact hword _ (by simp)

/-- Lines whose words differ in case alone do the same, if both or none hide an `ASSUME`. -/
theorem lineAlike_of_sameWords {text text' : String} (h : SameWords text text')
    (hassume : HidesAssume (lexemes text) ↔ HidesAssume (lexemes text')) :
    LineAlike Text.SameLetters text text' := by
  have hs : ∀ l ∈ lexemes text, l.Scanned := Lexeme.scanned_of_mem_lexemes
  have hs' : ∀ l ∈ lexemes text', l.Scanned := Lexeme.scanned_of_mem_lexemes
  have hblank (line : String) : ∀ l ∈ lexemes line, ' ' ∉ l.text.toList := fun l hl hmem => by
    have hchars := (of_mem_texts (map_text_lexemes line ▸ List.mem_map_of_mem hl)).1
    exact absurd (hchars ' ' hmem).2 (by decide)
  have halike := h.alike
  -- Only an invalid lexeme is shown with its own letters: without one the templates are equal, and
  -- with one both lines have no form, so that only the label in front of them is left to compare.
  by_cases hinvalid : ∃ l ∈ lexemes text, l.kind = .invalid
  · refine classify_alike likeness_sameLetters hs halike (startsWithLabel_eq ?_) ?_
    · refine sameUpTo_template (sameUpTo_spaced hs hs' halike hinvalid) fun w hw => ?_
      obtain rfl | rfl : w = "ASSUME" ∨ w = "DB C_STR" := by simpa using hw
      · exact assume_infix_iff hs hs' halike hassume
      · exact declares_text_iff hs hs' halike (hblank text) (hblank text')
    · obtain ⟨l, hl, hk⟩ := hinvalid
      obtain ⟨i, hi⟩ := List.mem_iff_getElem?.mp hl
      obtain ⟨l', hi', hl'⟩ := exists_of_forall₂ halike hi
      rw [form?_eq_none_of_invalid hs hl hk,
        form?_eq_none_of_invalid hs' (List.mem_of_getElem? hi') (hl'.kind ▸ hk)]
  · have htemplate : template (lexemes text) = template (lexemes text') := by
      unfold template
      rw [map_token_eq likeness_sameLetters hs halike (by simpa using hinvalid)]
    exact classify_alike_of_template likeness_sameLetters hs halike htemplate

namespace State

variable {s : State} {lines : List String}

theorem keys_subset_after (i : Nat) :
    (s.after (lines.take i)).segments.keys ⊆ (s.after lines).segments.keys := by
  induction lines using List.reverseRecOn with
  | nil =>
    rw [List.take_nil]
    exact List.Subset.refl _
  | append_singleton lines text ih =>
    by_cases hi : i ≤ lines.length
    · rw [List.take_append_of_le_length hi, after_concat]
      exact fun key hkey => keys_subset_next _ _ _ _ (ih hkey)
    · rw [List.take_of_length_le (by simp; omega)]
      exact List.Subset.refl _

theorem mem_keys_next_of_begin {line : Nat} {text : String} {c : Classified} {name : Lexeme}
    (hst : c.statement? = some (.beginSegment name)) (hopen : s.openSegment = noSegment) :
    nameKey name.text ∈ (s.next line text c).segments.keys := by
  change nameKey name.text ∈ (s.perform line text c).1.segments.keys
  have hlabelled : (s.labelled line c).openSegment = noSegment := by
    rw [labelled_eq]
    exact hopen
  rw [perform_of_statement hst, execute, beginSegment, if_pos hlabelled]
  exact SegmentTable.mem_keys_add _ _

/-- Where no segment has the name that stands for none, no line opens one under it. -/
theorem separates_of_free (hfree : nameKey noSegment ∉ (s.after lines).segments.keys) {i : Nat}
    {text : String} (htext : lines[i]? = some text) :
    (s.after (lines.take i)).Separates Text.SameLetters (classify (lexemes text)) := by
  intro name t hst hopen ht
  have hkey : nameKey name.text ∈ (s.after (lines.take (i + 1))).segments.keys := by
    rw [after_take_succ htext]
    exact mem_keys_next_of_begin hst hopen
  have hne : nameKey name.text ≠ nameKey noSegment := fun heq =>
    hfree (heq ▸ keys_subset_after (i + 1) hkey)
  refine iff_of_false (fun heq => hne (heq ▸ rfl)) fun heq => hne ?_
  rw [ht.nameKey_eq, heq]

end State

/-- What a line comes to: its kind, its place, its code and whether it is correct. -/
def LineRecord.outcome (r : LineRecord) : LineKind × Nat × Code × Bool :=
  (r.kind, r.address, r.code, r.correct)

/-- Sources whose words differ in the case of letters alone assemble alike: every line comes to the
same in both passes, and the tables agree but for the spelling of names. No segment may have the name
that stands for none, and a line may hide an `ASSUME` in an invalid lexeme only if the other does. -/
theorem letter_case_immaterial (source source' : String)
    (hwords : List.Forall₂ SameWords (splitLines source) (splitLines source'))
    (hassume : List.Forall₂
      (fun text text' => HidesAssume (lexemes text) ↔ HidesAssume (lexemes text'))
      (splitLines source) (splitLines source'))
    (hname : ∀ seg ∈ (assemble source).segments, nameKey seg.name ≠ nameKey noSegment) :
    let p := assemble source
    let p' := assemble source'
    p.lines.map LineRecord.outcome = p'.lines.map LineRecord.outcome ∧
      p.firstPass.map LineRecord.outcome = p'.firstPass.map LineRecord.outcome ∧
      p.errorLines = p'.errorLines ∧
      p.segments.map Segment.size = p'.segments.map Segment.size ∧
      p.symbols.map (fun s => (s.offset, s.type)) = p'.symbols.map fun s => (s.offset, s.type) := by
  have hfree : nameKey noSegment ∉ (State.after {} (splitLines source)).segments.keys := by
    intro hmem
    obtain ⟨seg, hseg, hkey⟩ := List.mem_map.mp hmem
    exact hname seg hseg hkey
  have hlines : List.Forall₂ (LineAlike Text.SameLetters) (splitLines source)
      (splitLines source') := by
    refine forall₂_of_getElem? hwords.length_eq fun i text text' htext htext' => ?_
    obtain ⟨_, hother, hsame⟩ := exists_of_forall₂ hwords htext
    obtain rfl := Option.some.inj (htext'.symm.trans hother)
    obtain ⟨_, hother, hhides⟩ := exists_of_forall₂ hassume htext
    obtain rfl := Option.some.inj (htext'.symm.trans hother)
    exact lineAlike_of_sameWords hsame hhides
  have hstart : State.Alike Text.SameLetters {} {} :=
    ⟨.nil, .nil, rfl, likeness_sameLetters.noSegment, Iff.rfl, rfl, rfl⟩
  obtain ⟨hfinal, hfirst, hsegments, hsymbols, herrors⟩ := State.run_alike likeness_sameLetters
    hstart hlines (fun i text htext => State.separates_of_free hfree htext) rfl
  have houtcome : ∀ r r' : LineRecord, r.Alike Text.SameLetters r' → r.outcome = r'.outcome :=
    fun r r' hr => by
      rw [LineRecord.outcome, hr.kind, hr.address, hr.code, hr.correct]
      rfl
  refine ⟨map_eq_of_forall₂ hfinal houtcome, map_eq_of_forall₂ hfirst houtcome, herrors,
    map_eq_of_forall₂ hsegments fun s s' hs => hs.size,
    map_eq_of_forall₂ hsymbols fun s s' hs => ?_⟩
  rw [hs.offset, hs.type]

/-- Two spellings of a program with a text, a jump and a line that is not correct. -/
theorem letter_case_immaterial_mixed :
    let source := "c segment\nx db 'Ab'\nl: jmp L\n?a\nc ends"
    let source' := "C SEGMENT ; open\nX DB 'Ab'\n\tL :Jmp l\n?A\nC Ends"
    (assemble source).lines.map LineRecord.size = [0, 2, 3, 0, 0] ∧
      (assemble source').lines.map LineRecord.outcome =
        (assemble source).lines.map LineRecord.outcome ∧
      (assemble source').errorLines = [4] := by
  intro source source'
  have hfacts : List.Forall₂ SameWords (splitLines source) (splitLines source') ∧
      List.Forall₂ (fun text text' => HidesAssume (lexemes text) ↔ HidesAssume (lexemes text'))
        (splitLines source) (splitLines source') ∧
      (∀ seg ∈ (assemble source).segments, nameKey seg.name ≠ nameKey noSegment) ∧
      (assemble source).lines.map LineRecord.size = [0, 2, 3, 0, 0] ∧
      (assemble source).errorLines = [4] := by
    decide +kernel
  obtain ⟨hwords, hassume, hname, hsizes, herrors⟩ := hfacts
  obtain ⟨hlines, -, hsame, -, -⟩ := letter_case_immaterial source source' hwords hassume hname
  exact ⟨hsizes, hlines.symm, hsame.symm.trans herrors⟩

/-- In an invalid lexeme the letters of `ASSUME` count only in capitals: the same words declare a label
in one spelling and none in the other. -/
theorem label_of_hidden_assume :
    SameWords "x , es:y : _ASSUME" "x , es:y : _assume" ∧
      (assemble "x , es:y : _ASSUME").symbols.map Symbol.type = [.label] ∧
      (assemble "x , es:y : _assume").symbols.map Symbol.type = [] := by
  decide +kernel

end SegAsm
