import SegAsm.Proofs.Layout.Tidy
import SegAsm.Proofs.Reformat

/-! Laying out a source again. A line that has been laid out comes out as the line that it was made
from, whatever the columns are; so only the column, which the labels of the source decide, can make
a second layout differ from the first. -/
namespace SegAsm

open Text Layout

namespace LexemeKind

theorem not_white_of_wordChar {c : Char} (h : isWordChar (fold c)) : isWhite c = false := by
  rw [Bool.eq_false_iff]
  intro hwhite
  have hcode : c.toNat ≤ 32 ∨ 128 ≤ c.toNat := by
    simp only [isWhite, Bool.or_eq_true, Bool.and_eq_true, decide_eq_true_eq, beq_iff_eq] at hwhite
    omega
  unfold fold at h
  split_ifs at h with hupper hlong hkelvin
  · have hbounds : 65 ≤ c.toNat ∧ c.toNat ≤ 90 := of_decide_eq_true hupper
    omega
  · exact absurd hwhite (by rw [hlong]; decide)
  · exact absurd hwhite (by rw [hkelvin]; decide)
  · simp only [isWordChar, Bool.or_eq_true, Bool.and_eq_true, decide_eq_true_eq] at h
    obtain hdigit | ⟨hfirst, hlast⟩ := h
    · obtain ⟨hfirst, hlast⟩ := Bool.and_eq_true_iff.mp hdigit
      have hfirst' : 48 ≤ c.toNat := of_decide_eq_true hfirst
      have hlast' : c.toNat ≤ 57 := of_decide_eq_true hlast
      omega
    · have hfirst' : 97 ≤ c.toNat := hfirst
      have hlast' : c.toNat ≤ 122 := hlast
      omega

end LexemeKind

namespace Layout

/-- A label, and code behind it that collapsing leaves as it is. -/
structure Headed (name : String) (rest : List Char) : Prop where
  kind : LexemeKind.ofWord name.toList = .identifier
  word : texts name.toList = [name]
  nonempty : rest ≠ []
  tidy : Tidy false rest
  trimmed : Trimmed rest
  code : ';' ∉ rest

/-- A label and the code behind it, laid out. -/
def headed (column : Nat) (name : String) (rest : List Char) : List Char :=
  name.toList ++ ':' :: blanks (max 1 (column - name.utf8ByteSize - 1)) ++ rest

theorem white_blanks (n : Nat) : ∀ c ∈ blanks n, isWhite c := fun c hc => by
  rw [List.eq_of_mem_replicate hc]
  decide

theorem foldl_push_blanks {n : Nat} (hn : 0 < n) {s : Collapsed} (hs : s.inText = false) :
    (blanks n).foldl Collapsed.push s = s.push ' ' := by
  have hpush (t : Collapsed) (ht : t.inText = false) : t.push ' ' = { t with pending := true } :=
    Collapsed.push_of_blank ht rfl
  induction n, hn using Nat.le_induction with
  | base => rfl
  | succ n _ ih =>
    unfold blanks at ih ⊢
    rw [List.replicate_succ', List.foldl_concat, ih, hpush s hs]
    exact hpush { s with pending := true } hs

/-- Code with a label in front is laid out by it. -/
theorem layoutCode_of_label {code : List Char} {first second third : Lexeme} {ls : List Lexeme}
    (hlexemes : lexemes (String.ofList code) = first :: second :: third :: ls)
    (hkind : first.kind = .identifier) (hcolon : second.text = ":") (column : Nat) :
    layoutCode column code =
      headed column first.text (trimWhite ((code.dropWhile (· ≠ ':')).drop 1)) := by
  unfold layoutCode
  simp only [hlexemes, hkind, hcolon]
  rfl

namespace Headed

variable {name : String} {rest : List Char} (h : Headed name rest)
include h

theorem wordChar {c : Char} (hc : c ∈ name.toList) : LexemeKind.isWordChar (fold c) :=
  LexemeKind.isWordChar_of_identifier h.kind hc

theorem not_mem_name {c : Char} (hc : LexemeKind.isWordChar (fold c) = false) : c ∉ name.toList :=
  fun hmem => Bool.false_ne_true (hc.symm.trans (h.wordChar hmem))

theorem name_ne_nil : name.toList ≠ [] := by
  intro hnil
  have hword := h.word
  rw [hnil, texts_nil] at hword
  cases hword

theorem trimmed_append (gap : List Char) : Trimmed (name.toList ++ ':' :: gap ++ rest) := by
  constructor
  · intro c hc
    rw [List.append_assoc, List.head?_append_of_ne_nil _ h.name_ne_nil] at hc
    exact LexemeKind.not_white_of_wordChar (h.wordChar (List.mem_of_head? hc))
  · intro c hc
    rw [List.getLast?_append_of_ne_nil _ h.nonempty] at hc
    exact h.trimmed.last c hc

theorem foldl_turn_name : name.toList.foldl turn false = false :=
  foldl_turn_of_no_quote (h.not_mem_name (by decide)) false

theorem tidy_name : Tidy false name.toList :=
  .of_no_blank fun _ hc => isBlank_of_not_white (LexemeKind.not_white_of_wordChar (h.wordChar hc))

/-- With one space behind the colon, a label and its code are tidy. -/
theorem tidy_append : Tidy false (name.toList ++ ':' :: ' ' :: rest) := by
  apply h.tidy_name.append
  rw [h.foldl_turn_name]
  refine ⟨fun _ hblank => absurd hblank (by decide), fun _ _ => ⟨rfl, ?_⟩, h.tidy⟩
  obtain ⟨c, cs, rfl⟩ := List.exists_cons_of_ne_nil h.nonempty
  exact ⟨c, rfl, isBlank_of_not_white (h.trimmed.head c rfl)⟩

theorem collapse_headed (column : Nat) {gap : List Char} (hgap : ∀ c ∈ gap, isWhite c) :
    collapse (headed column name rest ++ gap) = name.toList ++ ':' :: ' ' :: rest := by
  have htrim : trimWhite (headed column name rest ++ gap) = headed column name rest := by
    rw [trimWhite_append_white hgap]
    exact (h.trimmed_append _).trimWhite_eq
  -- The blanks behind the colon are read like one.
  have hread : (headed column name rest).foldl Collapsed.push {} =
      (name.toList ++ ':' :: ' ' :: rest).foldl Collapsed.push {} := by
    have hname := foldl_push_of_tidy h.tidy_name []
    rw [h.foldl_turn_name] at hname
    have hcolon : (Collapsed.push (name.toList.foldl Collapsed.push {}) ':').inText = false := by
      rw [hname]
      rfl
    unfold headed
    rw [List.append_assoc, List.cons_append, List.foldl_append, List.foldl_append, List.foldl_cons,
      List.foldl_cons, List.foldl_append, foldl_push_blanks (by omega) hcolon, List.foldl_cons]
  unfold collapse
  rw [htrim, hread, foldl_push_of_tidy h.tidy_append, List.append_nil, List.reverse_reverse]

theorem texts_headed (column : Nat) :
    texts (headed column name rest) = name :: ":" :: texts rest := by
  unfold headed
  rw [List.append_assoc, List.cons_append, texts_append_symbol (by decide), h.word,
    texts_blanks_append]
  rfl

theorem semicolon_not_mem : ';' ∉ name.toList ++ ':' :: ' ' :: rest := by
  simp [h.not_mem_name (c := ';') (by decide), h.code]

theorem texts_rest_ne_nil : texts rest ≠ [] := by
  obtain ⟨c, cs, hcs⟩ := List.exists_cons_of_ne_nil h.nonempty
  have hc : isWhite c = false := h.trimmed.head c (by rw [hcs]; rfl)
  obtain ⟨w, hw, -⟩ := exists_mem_texts (hcs ▸ List.mem_cons_self) (isSeparator_of_not_white hc)
  exact List.ne_nil_of_mem hw

/-- The label of the code is found again. -/
theorem layoutCode_eq (column : Nat) :
    layoutCode column (name.toList ++ ':' :: ' ' :: rest) = headed column name rest := by
  have htexts := map_text_lexemes (String.ofList (name.toList ++ ':' :: ' ' :: rest))
  rw [codePart_ofList h.semicolon_not_mem, texts_append_symbol (by decide), h.word,
    texts_separator (by decide)] at htexts
  obtain ⟨first, ls, hlexemes, hfirst, hls⟩ := List.map_eq_cons_iff.mp htexts
  obtain ⟨second, ls, rfl, hsecond, hls⟩ := List.map_eq_cons_iff.mp hls
  obtain ⟨third, ls, rfl⟩ : ∃ third rest, ls = third :: rest := by
    apply List.exists_cons_of_ne_nil
    rintro rfl
    exact h.texts_rest_ne_nil hls.symm
  have hkind : first.kind = .identifier := by
    have hscanned : first.Scanned :=
      Lexeme.scanned_of_mem_lexemes first (hlexemes ▸ List.mem_cons_self)
    rw [hscanned.kind_eq, hfirst, h.kind]
  have htrim : trimWhite (' ' :: rest) = rest := by
    have hspace : ∀ c ∈ [' '], isWhite c := List.forall_mem_singleton.mpr (by decide)
    rw [← List.singleton_append, trimWhite_white_append hspace, h.trimmed.trimWhite_eq]
  rw [layoutCode_of_label hlexemes hkind hsecond, behind_colon (h.not_mem_name (by decide)), htrim,
    hfirst]

end Headed

/-- Where tidy code starts with a label, what is behind the colon is tidy from its first character
that is not white. -/
theorem headed_of_label {before behind : List Char} {name : String}
    (htidy : Tidy false (before ++ ':' :: behind)) (htrimmed : Trimmed (before ++ ':' :: behind))
    (hcomment : ';' ∉ behind) (hname : texts before = [name])
    (hkind : LexemeKind.ofWord name.toList = .identifier) (hbehind : behind ≠ []) :
    Headed name (trimWhite behind) := by
  have hlast : ∀ c ∈ behind.getLast?, isWhite c = false := by
    intro c hc
    apply htrimmed.last
    rwa [List.append_cons, List.getLast?_append_of_ne_nil _ hbehind]
  have hsplit := takeWhile_append_trimWhite hlast
  have hnonempty : trimWhite behind ≠ [] := by
    intro hnil
    rw [hnil, List.append_nil, List.takeWhile_eq_self_iff] at hsplit
    have hwhite := hsplit _ (List.getLast_mem hbehind)
    rw [hlast _ (List.getLast?_eq_some_getLast hbehind)] at hwhite
    cases hwhite
  have hquote : '\x27' ∉ before ++ ':' :: behind.takeWhile isWhite := by
    rw [List.mem_append, List.mem_cons]
    rintro (hmem | hmem | hmem)
    · obtain ⟨w, hw, hquote⟩ := exists_mem_texts hmem (by decide)
      rw [hname, List.mem_singleton] at hw
      rw [hw] at hquote
      exact absurd (LexemeKind.isWordChar_of_identifier hkind hquote) (by decide)
    · exact absurd hmem (by decide)
    · exact absurd (List.mem_takeWhile_imp hmem) (by decide)
  refine ⟨hkind, ?_, hnonempty, ?_, trimmed_trimWhite behind, fun hmem => ?_⟩
  · exact (of_mem_texts (hname ▸ List.mem_singleton_self name)).2
  · rw [← hsplit, ← List.cons_append, ← List.append_assoc] at htidy
    have hrest := htidy.of_append
    rwa [foldl_turn_of_no_quote hquote] at hrest
  · exact hcomment (trimWhite_subset behind hmem)

theorem indented_eq (column : Nat) (code : List Char) :
    ∃ n, layoutCode.indented column (String.ofList code) = blanks n ++ code := by
  unfold layoutCode.indented
  dsimp only
  rw [String.toList_ofList]
  split_ifs
  · exact ⟨column, rfl⟩
  · exact ⟨0, rfl⟩

/-- A label starts the code, with more behind its colon, or the code is indented. -/
theorem label_or_indented (code : List Char) :
    (∃ first second third ls, lexemes (String.ofList code) = first :: second :: third :: ls ∧
        first.kind = .identifier ∧ second.text = ":") ∨
      ∀ column, ∃ n, layoutCode column code = blanks n ++ code := by
  rw [or_iff_not_imp_left]
  intro hlabel column
  obtain ⟨n, hn⟩ := indented_eq column code
  refine ⟨n, ?_⟩
  rw [← hn]
  unfold layoutCode
  dsimp only
  split
  · rename_i first second third ls hlexemes
    rw [if_neg]
    intro hboth
    exact hlabel ⟨first, second, third, ls, hlexemes, by simpa using hboth⟩
  · rfl

/-- Code is laid out by its label, or it is indented. -/
theorem layoutCode_cases {code : List Char} (htidy : Tidy false code) (htrimmed : Trimmed code)
    (hcomment : ';' ∉ code) :
    (∃ name rest, Headed name rest ∧ ∀ column, layoutCode column code = headed column name rest) ∨
      ∀ column, ∃ n, layoutCode column code = blanks n ++ code := by
  refine (label_or_indented code).imp_left ?_
  rintro ⟨first, second, third, ls, hlexemes, hkind, hcolon⟩
  obtain ⟨before, behind, rfl, hbefore, hname⟩ :=
    exists_label hlexemes (codePart_ofList hcomment) hkind hcolon
  have hscanned : first.Scanned :=
    Lexeme.scanned_of_mem_lexemes first (hlexemes ▸ List.mem_cons_self)
  have hbehind : behind ≠ [] := by
    rintro rfl
    have htexts := map_text_lexemes (String.ofList (before ++ [':']))
    rw [codePart_ofList hcomment, texts_append_symbol (by decide), hname, hlexemes, texts_nil]
      at htexts
    exact absurd (congrArg List.length htexts) (by simp)
  refine ⟨first.text, trimWhite behind, ?_, fun column => ?_⟩
  · apply headed_of_label htidy htrimmed _ hname (hscanned.kind_eq.symm.trans hkind) hbehind
    exact fun hmem => hcomment (List.mem_append_right _ (List.mem_cons_of_mem _ hmem))
  · rw [layoutCode_of_label hlexemes hkind hcolon, behind_colon hbefore]

section LaidOut

variable {code gap : List Char}

theorem laidOut_eq (column : Nat) (hcode : ';' ∉ code) :
    laidOut column code =
      if (collapse code).isEmpty then [] else layoutCode column (collapse code) := by
  unfold laidOut
  rw [takeWhile_code hcode]

theorem semicolon_not_mem_laidOut (column : Nat) (code : List Char) :
    ';' ∉ laidOut column code := fun hmem =>
  (mem_laidOut hmem).elim (by decide) (semicolon_not_mem_code code)

/-- A line without code stays one; other code is laid out by its label, or it is indented. -/
theorem laidOut_cases (hcode : ';' ∉ code) :
    (collapse code = [] ∧ ∀ column, laidOut column code = []) ∨
      (∃ name rest, Headed name rest ∧ ∀ column, laidOut column code = headed column name rest) ∨
      (collapse code ≠ [] ∧ ∀ column, ∃ n, laidOut column code = blanks n ++ collapse code) := by
  by_cases hempty : collapse code = []
  · refine .inl ⟨hempty, fun column => ?_⟩
    rw [laidOut_eq column hcode, hempty]
    rfl
  · have hlaid (column : Nat) : laidOut column code = layoutCode column (collapse code) := by
      rw [laidOut_eq column hcode, if_neg (by simp [hempty])]
    have hcomment : ';' ∉ collapse code := fun hmem =>
      (mem_collapse hmem).elim (by decide) hcode
    simp only [hlaid]
    right
    exact (layoutCode_cases (tidy_collapse code) (trimmed_collapse code) hcomment).imp_right
      fun hindented => ⟨hempty, hindented⟩

/-- White characters around code that has been collapsed are trimmed off. -/
theorem collapse_white_collapse {front : List Char} (hfront : ∀ c ∈ front, isWhite c)
    (hgap : ∀ c ∈ gap, isWhite c) (code : List Char) :
    collapse (front ++ collapse code ++ gap) = collapse code := by
  have htrim : trimWhite (front ++ collapse code ++ gap) = trimWhite (collapse code) := by
    rw [trimWhite_append_white hgap, trimWhite_white_append hfront]
  have hself := collapse_of_tidy (tidy_collapse code) (trimmed_collapse code)
  unfold collapse at hself htrim ⊢
  rw [htrim, hself]

/-- Code that has been laid out is laid out as it was before. -/
theorem laidOut_laidOut (column column' : Nat) (hcode : ';' ∉ code) (hgap : gap ⊆ [' ']) :
    laidOut column' (laidOut column code ++ gap) = laidOut column' code := by
  have hwhite : ∀ c ∈ gap, isWhite c := fun c hc => by
    rw [List.mem_singleton.mp (hgap hc)]
    decide
  have hcode' : ';' ∉ laidOut column code ++ gap := fun hmem =>
    (List.mem_append.mp hmem).elim (semicolon_not_mem_laidOut column code) fun hmem =>
      absurd (List.mem_singleton.mp (hgap hmem)) (by decide)
  rw [laidOut_eq column' hcode']
  obtain ⟨-, hnone⟩ | ⟨name, rest, hheaded, hlaid⟩ | ⟨hne, hlaid⟩ := laidOut_cases hcode
  · have hnil : trimWhite gap = [] := by
      rw [← List.nil_append gap, trimWhite_append_white hwhite, trimWhite_nil]
    rw [hnone, hnone, List.nil_append]
    unfold collapse
    rw [hnil]
    rfl
  · rw [hlaid, hlaid, hheaded.collapse_headed column hwhite, hheaded.layoutCode_eq, if_neg]
    simp
  · obtain ⟨n, hn⟩ := hlaid column
    rw [hn, collapse_white_collapse (white_blanks n) hwhite, laidOut_eq column' hcode]

/-- The texts of the lexemes do not depend on the column. -/
theorem texts_laidOut_eq (column column' : Nat) (hcode : ';' ∉ code) :
    texts (laidOut column code) = texts (laidOut column' code) := by
  obtain ⟨-, hnone⟩ | ⟨name, rest, hheaded, hlaid⟩ | ⟨-, hlaid⟩ := laidOut_cases hcode
  · rw [hnone, hnone]
  · rw [hlaid, hlaid, hheaded.texts_headed, hheaded.texts_headed]
  · obtain ⟨n, hn⟩ := hlaid column
    obtain ⟨n', hn'⟩ := hlaid column'
    rw [hn, hn', texts_blanks_append, texts_blanks_append]

/-- No white character stands at the end of code that is laid out. -/
theorem last_laidOut (column : Nat) (hcode : ';' ∉ code) :
    ∀ c ∈ (laidOut column code).getLast?, isWhite c = false := by
  obtain ⟨-, hnone⟩ | ⟨name, rest, hheaded, hlaid⟩ | ⟨hne, hlaid⟩ := laidOut_cases hcode
  · rw [hnone]
    exact fun c hc => by cases hc
  · rw [hlaid]
    exact (hheaded.trimmed_append _).last
  · obtain ⟨n, hn⟩ := hlaid column
    rw [hn, List.getLast?_append_of_ne_nil _ hne]
    exact (trimmed_collapse code).last

end LaidOut

/-- How a line divides: the code, the comment from its semicolon on, and a carriage return at the
end. -/
structure Divides (code comment ending : List Char) : Prop where
  code_clear : ';' ∉ code
  comment_cases : comment = [] ∨ ∃ cs, comment = ';' :: cs
  ending_cases : ending = ['\r'] ∨ ending = [] ∧ (code ++ comment).getLast? ≠ some '\r'

/-- The blank between code and comment. -/
def gapBetween (code comment : List Char) : List Char :=
  if code.isEmpty || comment.isEmpty then [] else [' ']

theorem gapBetween_subset (code comment : List Char) : gapBetween code comment ⊆ [' '] := by
  unfold gapBetween
  split_ifs <;> simp

theorem exists_divides (line : String) : ∃ code comment ending,
    Divides code comment ending ∧ line = String.ofList (code ++ comment ++ ending) := by
  refine ⟨(dropReturn line.toList).takeWhile (· ≠ ';'), (dropReturn line.toList).dropWhile (· ≠ ';'),
    if line.toList.getLast? = some '\r' then ['\r'] else [], ⟨semicolon_not_mem_code _,
    comment_cases _, ?_⟩, ?_⟩
  · rw [List.takeWhile_append_dropWhile]
    unfold dropReturn
    split_ifs with hreturn
    · exact .inl rfl
    · exact .inr ⟨rfl, hreturn⟩
  · rw [List.takeWhile_append_dropWhile]
    unfold dropReturn
    split_ifs with hreturn
    · obtain ⟨init, hinit⟩ := List.getLast?_eq_some_iff.mp hreturn
      rw [hinit, List.dropLast_concat, ← hinit, String.ofList_toList]
    · rw [List.append_nil, String.ofList_toList]

namespace Divides

variable {code comment ending : List Char} (h : Divides code comment ending)
include h

theorem dropReturn_eq : dropReturn (code ++ comment ++ ending) = code ++ comment := by
  unfold dropReturn
  obtain rfl | ⟨rfl, hlast⟩ := h.ending_cases
  · rw [if_pos (List.getLast?_concat ..), List.dropLast_concat]
  · rw [List.append_nil, if_neg hlast]

theorem ending_eq : (if (code ++ comment ++ ending).getLast? = some '\r' then ['\r'] else []) =
    ending := by
  obtain rfl | ⟨rfl, hlast⟩ := h.ending_cases
  · rw [if_pos (List.getLast?_concat ..)]
  · rw [List.append_nil, if_neg hlast]

theorem code_chars : ∀ c ∈ code, decide (c ≠ ';') = true := fun _ hc =>
  decide_eq_true fun heq => h.code_clear (heq ▸ hc)

theorem takeWhile_eq : (code ++ comment).takeWhile (· ≠ ';') = code := by
  rw [List.takeWhile_append_of_pos h.code_chars]
  obtain rfl | ⟨cs, rfl⟩ := h.comment_cases <;> simp

theorem dropWhile_eq : (code ++ comment).dropWhile (· ≠ ';') = comment := by
  rw [List.dropWhile_append_of_pos h.code_chars]
  obtain rfl | ⟨cs, rfl⟩ := h.comment_cases <;> simp

theorem layoutLine_eq (column : Nat) :
    layoutLine column (String.ofList (code ++ comment ++ ending)) =
      String.ofList (laidOut column code ++ gapBetween (laidOut column code) comment ++ comment ++
        ending) := by
  unfold layoutLine
  simp only [String.toList_ofList, h.dropReturn_eq, h.ending_eq, h.takeWhile_eq, h.dropWhile_eq,
    ← laidOut_eq column h.code_clear]
  rfl

/-- A line that is laid out divides into its code with the blank behind it, and the rest. -/
theorem divides_laidOut (column : Nat) :
    Divides (laidOut column code ++ gapBetween (laidOut column code) comment) comment ending := by
  refine ⟨fun hmem => ?_, h.comment_cases,
    h.ending_cases.imp_right fun ⟨hending, hlast⟩ => ⟨hending, ?_⟩⟩
  · obtain hmem | hmem := List.mem_append.mp hmem
    · exact semicolon_not_mem_laidOut column code hmem
    · exact absurd (List.mem_singleton.mp (gapBetween_subset _ _ hmem)) (by decide)
  · by_cases hcomment : comment = []
    · subst hcomment
      have hgap : gapBetween (laidOut column code) [] = [] := by simp [gapBetween]
      rw [hgap, List.append_nil, List.append_nil]
      intro hreturn
      exact absurd (last_laidOut column h.code_clear _ hreturn) (by decide)
    · rwa [List.getLast?_append_of_ne_nil _ hcomment] at hlast ⊢

theorem texts_codePart :
    texts (codePart (String.ofList (code ++ comment ++ ending))) = texts code := by
  unfold codePart
  rw [String.toList_ofList, ← texts_dropReturn, h.dropReturn_eq, h.takeWhile_eq]

theorem texts_layoutLine_eq (column : Nat) :
    texts (codePart (layoutLine column (String.ofList (code ++ comment ++ ending)))) =
      texts (laidOut column code) := by
  rw [h.layoutLine_eq, (h.divides_laidOut column).texts_codePart]
  refine texts_append_separators (fun c hc => ?_) _
  rw [List.mem_singleton.mp (gapBetween_subset _ _ hc)]
  decide

end Divides

/-- A line that has been laid out comes out as the line that it was made from. -/
theorem layoutLine_layoutLine (column column' : Nat) (line : String) :
    layoutLine column' (layoutLine column line) = layoutLine column' line := by
  obtain ⟨code, comment, ending, h, rfl⟩ := exists_divides line
  rw [h.layoutLine_eq column, (h.divides_laidOut column).layoutLine_eq,
    laidOut_laidOut column column' h.code_clear (gapBetween_subset _ _), h.layoutLine_eq]

theorem texts_layoutLine_congr (column column' : Nat) (line : String) :
    texts (codePart (layoutLine column line)) = texts (codePart (layoutLine column' line)) := by
  obtain ⟨code, comment, ending, h, rfl⟩ := exists_divides line
  rw [h.texts_layoutLine_eq, h.texts_layoutLine_eq, texts_laidOut_eq column column' h.code_clear]

/-- White characters in comments are of no account. -/
theorem texts_layoutLine_of_code (column : Nat) {line : String} (hwhite : PlainWhite (codePart line)) :
    texts (codePart (layoutLine column line)) = texts (codePart line) := by
  obtain ⟨code, comment, ending, h, rfl⟩ := exists_divides line
  have hcode : PlainWhite code := by
    apply hwhite.mono
    unfold codePart
    rw [String.toList_ofList, List.append_assoc, List.takeWhile_append_of_pos h.code_chars]
    exact List.subset_append_left _ _
  rw [h.texts_layoutLine_eq, h.texts_codePart, texts_laidOut column hcode,
    takeWhile_code h.code_clear]

end Layout

/-- Sources whose lines have the same words assemble to the same. -/
theorem sameOutcome_of_texts {source source' : String}
    (h : List.Forall₂ (fun line line' => texts (codePart line) = texts (codePart line'))
      (pieces source) (pieces source')) : (assemble source).SameOutcome (assemble source') := by
  have hlines : List.Forall₂ (LineAlike (· = ·)) ((pieces source).map chomp)
      ((pieces source').map chomp) := by
    rw [List.forall₂_map_left_iff, List.forall₂_map_right_iff]
    refine h.imp fun line line' hline => lineAlike_of_texts ?_
    rw [texts_chomp, texts_chomp, hline]
  have hstart : State.Alike (· = ·) {} {} := ⟨.nil, .nil, rfl, rfl, Iff.rfl, rfl, rfl⟩
  have halike := State.run_alike likeness_eq hstart hlines
    (fun i text _ name t _ _ ht => by rw [ht]) rfl
  exact (run_pieces source).symm.trans (halike.sameOutcome.trans (run_pieces source'))

namespace Layout

theorem column_eq_of_sameOutcome {p q : Program} (h : p.SameOutcome q) : column p = column q := by
  unfold column
  rw [h.symbols]

theorem pieces_reformat_reformat (source : String) :
    pieces (reformat (reformat source)) =
      (pieces source).map (layoutLine (column (assemble (reformat source)))) := by
  rw [pieces_reformat, pieces_reformat, List.map_map]
  exact List.map_congr_left fun line _ => layoutLine_layoutLine _ _ line

theorem reformat_inj_pieces {source source' : String} :
    reformat source = reformat source' ↔ pieces (reformat source) = pieces (reformat source') := by
  refine ⟨congrArg pieces, fun h => ?_⟩
  rw [pieces_reformat, pieces_reformat] at h
  unfold reformat
  dsimp only
  rw [h]

/-- A second layout changes nothing just when its column lays the lines out as the first one did. -/
theorem reformat_reformat_iff (source : String) :
    reformat (reformat source) = reformat source ↔
      ∀ line ∈ pieces source, layoutLine (column (assemble (reformat source))) line =
        layoutLine (column (assemble source)) line := by
  rw [reformat_inj_pieces, pieces_reformat_reformat, pieces_reformat, List.map_inj_left]

/-- Where the lines keep their words, the labels and with them the column are the same. -/
theorem column_reformat {source : String}
    (h : ∀ line ∈ pieces source,
      texts (codePart (layoutLine (column (assemble source)) line)) = texts (codePart line)) :
    column (assemble (reformat source)) = column (assemble source) := by
  apply column_eq_of_sameOutcome
  apply sameOutcome_of_texts
  rw [pieces_reformat, List.forall₂_map_left_iff, List.forall₂_same]
  exact h

end Layout

/-- A source is laid out once and for all by two layouts, and by one if no white characters but
separators of lexemes stand in its code. -/
theorem reformat_settles (source : String) :
    (reformat (reformat source) = reformat source ↔
      ∀ line ∈ pieces source, layoutLine (column (assemble (reformat source))) line =
        layoutLine (column (assemble source)) line) ∧
    ((∀ line ∈ pieces source, PlainWhite (codePart line)) →
      reformat (reformat source) = reformat source) ∧
    reformat (reformat (reformat source)) = reformat (reformat source) := by
  refine ⟨reformat_reformat_iff source, fun hwhite => ?_, ?_⟩
  · rw [reformat_reformat_iff]
    intro line _
    rw [column_reformat fun line hline => texts_layoutLine_of_code _ (hwhite line hline)]
  · rw [reformat_reformat_iff]
    intro line _
    rw [column_reformat]
    -- The words of a line that has been laid out are the same for every column.
    rw [pieces_reformat, List.forall_mem_map]
    intro line _
    rw [layoutLine_layoutLine]
    exact texts_layoutLine_congr _ _ line

/-- A label, a text constant and a comment with a space that does not break. -/
theorem reformat_settles_at_once :
    let source := "\tlong :dec   ax ;\u00a0go\r\n x  db 'a  b'\njmp\tlong;"
    (∀ line ∈ pieces source, PlainWhite (codePart line)) ∧
      reformat source = "long: dec ax ;\u00a0go\r\nx db 'a  b'\n      jmp long ;" ∧
      reformat (reformat source) = reformat source := by
  intro source
  have hfacts : (pieces source).all (fun line =>
        (codePart line).all fun c => !isWhite c || isSeparator c) = true ∧
      reformat source = "long: dec ax ;\u00a0go\r\nx db 'a  b'\n      jmp long ;" := by
    decide +kernel
  obtain ⟨hall, hlayout⟩ := hfacts
  have hwhite : ∀ line ∈ pieces source, PlainWhite (codePart line) := fun line hline c hc hc' => by
    have hchar := List.all_eq_true.mp (List.all_eq_true.mp hall line hline) c hc
    simpa [hc'] using hchar
  exact ⟨hwhite, hlayout, (reformat_settles source).2.1 hwhite⟩

/-- A label behind a space that does not break is found by the second layout only. -/
theorem reformat_twice_of_hidden_label :
    reformat "\u00a0lab: cli\ncli" = "lab: cli\n  cli" ∧
      reformat "lab: cli\n  cli" = "lab: cli\n     cli" := by
  decide +kernel

end SegAsm
