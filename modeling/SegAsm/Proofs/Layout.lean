import Mathlib.Data.List.Induction
import SegAsm.Layout
import SegAsm.Proofs.Lexeme.Place
import SegAsm.Proofs.Lexeme.Texts
import SegAsm.Proofs.Text.Blank

/-! Laying out a line. Blanks are added and dropped only where they end no word, so the texts of the
lexemes stay as they are. -/
namespace SegAsm

open Text

/-- Every white character is one that the scanner takes for a separator. -/
def PlainWhite (cs : List Char) : Prop :=
  ∀ c ∈ cs, isWhite c → isSeparator c

theorem PlainWhite.mono {cs ds : List Char} (h : PlainWhite cs) (hsub : ds ⊆ cs) : PlainWhite ds :=
  fun c hc => h c (hsub hc)

section Trim

variable {cs : List Char} (h : PlainWhite cs)
include h

theorem texts_dropWhile : texts (cs.dropWhile isWhite) = texts cs := by
  have hws : ∀ c ∈ cs.takeWhile isWhite, isSeparator c := fun c hc =>
    h c ((List.takeWhile_prefix _).subset hc) (List.mem_takeWhile_imp hc)
  rw [← texts_separators_append hws, List.takeWhile_append_dropWhile]

theorem texts_rdropWhile : texts (cs.rdropWhile isWhite) = texts cs := by
  have hws : ∀ c ∈ cs.rtakeWhile isWhite, isSeparator c := fun c hc =>
    h c ((List.rtakeWhile_suffix _ _).subset hc) (List.mem_rtakeWhile_imp hc)
  rw [← texts_append_separators hws, List.rdropWhile_append_rtakeWhile]

theorem texts_trimWhite : texts (trimWhite cs) = texts cs := by
  rw [trimWhite_eq, texts_rdropWhile (h.mono (List.dropWhile_suffix _).subset), texts_dropWhile h]

end Trim

namespace Layout

/-- What has been read, with one blank for the blanks that wait. -/
def Collapsed.output (s : Collapsed) : List Char :=
  s.done.reverse ++ if s.pending then [' '] else []

/-- A step adds the character to the output, with the blank that waits, or makes it wait. -/
theorem Collapsed.push_cases (s : Collapsed) (c : Char) :
    ((s.push c).done = c :: (if s.pending then ' ' :: s.done else s.done) ∧
        (s.push c).pending = false) ∨
      (isBlank c ∧ (s.push c).done = s.done ∧ (s.push c).pending = true) := by
  unfold push
  dsimp only
  generalize (if c = '\x27' then !s.inText else s.inText) = inText
  by_cases h : (!inText && isBlank c) = true
  · rw [if_pos h]
    exact .inr ⟨(Bool.and_eq_true_iff.mp h).2, rfl, rfl⟩
  · rw [if_neg h]
    exact .inl ⟨rfl, rfl⟩

/-- Whatever follows, the output read so far stands for the characters read. -/
theorem texts_foldl_push (cs : List Char) :
    ∀ rest, texts ((cs.foldl Collapsed.push {}).output ++ rest) = texts (cs ++ rest) := by
  induction cs using List.reverseRecOn with
  | nil => intro rest; rfl
  | append_singleton cs c ih =>
    intro rest
    rw [List.foldl_append, List.foldl_cons, List.foldl_nil, List.append_assoc,
      List.singleton_append]
    generalize cs.foldl Collapsed.push {} = s at ih
    obtain ⟨hdone, hpending⟩ | ⟨hblank, hdone, hpending⟩ := s.push_cases c
    · have hpush : (s.push c).output = s.output ++ [c] := by
        unfold Collapsed.output
        rw [hdone, hpending]
        cases s.pending <;> simp
      rw [hpush, List.append_assoc, List.singleton_append, ih]
    · -- The blank that waits stands for `c` and for the blanks that waited before it.
      have hpush : (s.push c).output = s.done.reverse ++ [' '] := by
        unfold Collapsed.output
        rw [hdone, hpending]
        rfl
      have hc : isSeparator c := by
        simp only [isBlank, Bool.or_eq_true, beq_iff_eq] at hblank
        obtain rfl | rfl := hblank <;> decide
      have htexts : texts s.output = texts s.done.reverse := by
        unfold Collapsed.output
        refine texts_append_separators (fun d hd => ?_) _
        split_ifs at hd
        · obtain rfl := List.mem_singleton.mp hd
          decide
        · exact absurd hd List.not_mem_nil
      rw [hpush, List.append_assoc, List.singleton_append, ← ih, texts_append_separator (by decide),
        texts_append_separator hc, htexts]

theorem texts_collapse {code : List Char} (h : PlainWhite code) :
    texts (collapse code) = texts code := by
  have hfold := texts_foldl_push (trimWhite code) []
  rw [List.append_nil, List.append_nil, texts_trimWhite h] at hfold
  rw [← hfold, collapse]
  unfold Collapsed.output
  split_ifs
  · rw [texts_append_separator (by decide), texts_nil, List.append_nil]
  · rw [List.append_nil]

theorem mem_collapse {code : List Char} {c : Char} (h : c ∈ collapse code) :
    c = ' ' ∨ c ∈ code := by
  have hfold : ∀ (cs : List Char) (s : Collapsed), c ∈ (cs.foldl Collapsed.push s).done →
      c = ' ' ∨ c ∈ s.done ∨ c ∈ cs := by
    intro cs
    induction cs with
    | nil => exact fun s hc => .inr (.inl hc)
    | cons d cs ih =>
      intro s hc
      obtain hblank | hdone | hcs := ih (s.push d) hc
      · exact .inl hblank
      · obtain ⟨hpush, -⟩ | ⟨-, hpush, -⟩ := s.push_cases d
        · rw [hpush] at hdone
          obtain rfl | hdone := List.mem_cons.mp hdone
          · exact .inr (.inr List.mem_cons_self)
          · split_ifs at hdone
            · exact (List.mem_cons.mp hdone).imp_right .inl
            · exact .inr (.inl hdone)
        · rw [hpush] at hdone
          exact .inr (.inl hdone)
      · exact .inr (.inr (List.mem_cons_of_mem _ hcs))
  obtain hblank | hdone | hcs := hfold _ _ (List.mem_reverse.mp h)
  · exact .inl hblank
  · exact absurd hdone List.not_mem_nil
  · exact .inr (trimWhite_subset code hcs)

theorem texts_blanks_append (n : Nat) (cs : List Char) : texts (blanks n ++ cs) = texts cs := by
  refine texts_separators_append (fun c hc => ?_) cs
  rw [List.eq_of_mem_replicate hc]
  decide

theorem texts_indented (column : Nat) (text : String) :
    texts (layoutCode.indented column text) = texts text.toList := by
  unfold layoutCode.indented
  dsimp only
  split_ifs
  · exact texts_blanks_append column _
  · rfl

theorem takeWhile_code {code : List Char} (h : ';' ∉ code) : code.takeWhile (· ≠ ';') = code :=
  List.takeWhile_eq_self_iff.mpr fun _ hc => decide_eq_true fun heq => h (heq ▸ hc)

theorem codePart_ofList {code : List Char} (h : ';' ∉ code) :
    codePart (String.ofList code) = code := by
  unfold codePart
  rw [String.toList_ofList, takeWhile_code h]

theorem behind_colon {before : List Char} (h : ':' ∉ before) (behind : List Char) :
    ((before ++ ':' :: behind).dropWhile (· ≠ ':')).drop 1 = behind := by
  have hall : ∀ c ∈ before, decide (c ≠ ':') = true := fun c hc =>
    decide_eq_true fun heq => h (heq ▸ hc)
  rw [List.dropWhile_append_of_pos hall]
  rfl

/-- The word in front of the first `:` of a code that has a label is the label. -/
theorem eq_singleton_of_label {a x : String} {xs ys zs : List String} (ha : a ∉ xs) (hx : x ≠ a)
    (h : xs ++ a :: ys = x :: a :: zs) : xs = [x] := by
  match xs with
  | [] => exact absurd (List.cons.inj h).1.symm hx
  | [y] => rw [(List.cons.inj h).1]
  | y :: b :: xs =>
    have hb : b = a := (List.cons.inj (List.cons.inj h).2).1
    exact absurd (hb ▸ List.mem_cons_of_mem y List.mem_cons_self) ha

/-- A code that starts with a label: the label alone stands in front of the first `:`. -/
theorem exists_label {code : List Char} {first second : Lexeme} {rest : List Lexeme}
    (hlexemes : lexemes (String.ofList code) = first :: second :: rest)
    (hcode : codePart (String.ofList code) = code) (hkind : first.kind = .identifier)
    (hcolon : second.text = ":") :
    ∃ before behind, code = before ++ ':' :: behind ∧ ':' ∉ before ∧
      texts before = [first.text] := by
  have htexts := map_text_lexemes (String.ofList code)
  rw [hcode, hlexemes, List.map_cons, List.map_cons, hcolon] at htexts
  have hfirst : first ∈ lexemes (String.ofList code) := by
    rw [hlexemes]
    exact List.mem_cons_self
  have hne : first.text ≠ ":" := by
    intro heq
    have hsymbol := (Lexeme.scanned_of_mem_lexemes first hfirst).kind_eq
    rw [heq, hkind] at hsymbol
    exact absurd hsymbol (by decide)
  have hmem : ":" ∈ texts code := by
    rw [← htexts]
    exact List.mem_cons_of_mem _ List.mem_cons_self
  obtain ⟨before, behind, hsplit, hbefore⟩ :=
    List.eq_append_cons_of_mem ((of_mem_texts hmem).1 ':' (by decide)).1
  refine ⟨before, behind, hsplit, hbefore, ?_⟩
  have hparts : texts code = texts before ++ ":" :: texts behind := by
    rw [hsplit, texts_append_symbol (by decide)]
    rfl
  refine eq_singleton_of_label (fun hmem => ?_) hne (hparts.symm.trans htexts.symm)
  exact hbefore ((of_mem_texts hmem).1 ':' (by decide)).1

theorem texts_layoutCode (column : Nat) {code : List Char} (hwhite : PlainWhite code)
    (hcomment : ';' ∉ code) : texts (layoutCode column code) = texts code := by
  have hcode := codePart_ofList hcomment
  have hindented := texts_indented column (String.ofList code)
  rw [String.toList_ofList] at hindented
  unfold layoutCode
  dsimp only
  split
  · rename_i first second third rest hlexemes
    split_ifs with hlabel
    · obtain ⟨hkind, hcolon⟩ : first.kind = .identifier ∧ second.text = ":" := by
        simpa using hlabel
      obtain ⟨before, behind, hsplit, hbefore, hname⟩ := exists_label hlexemes hcode hkind hcolon
      have hdrop : (code.dropWhile (· ≠ ':')).drop 1 = behind := by
        rw [hsplit, behind_colon hbefore]
      have hself : texts first.text.toList = [first.text] :=
        (of_mem_texts (hname ▸ List.mem_singleton_self _ : first.text ∈ texts before)).2
      have hbehind : PlainWhite behind := by
        apply hwhite.mono
        rw [hsplit]
        exact fun c hc => List.mem_append_right _ (List.mem_cons_of_mem _ hc)
      rw [hdrop, List.append_assoc, List.cons_append, texts_append_symbol (by decide), hself,
        texts_blanks_append, texts_trimWhite hbehind, hsplit, texts_append_symbol (by decide), hname]
    · exact hindented
  · exact hindented

theorem mem_layoutCode {column : Nat} {code : List Char} {c : Char}
    (h : c ∈ layoutCode column code) : c ∈ [' ', ':'] ∨ c ∈ code := by
  have hblanks (n : Nat) (hc : c ∈ blanks n) : c ∈ [' ', ':'] := by
    rw [List.eq_of_mem_replicate hc]
    decide
  have hindented (hc : c ∈ layoutCode.indented column (String.ofList code)) :
      c ∈ [' ', ':'] ∨ c ∈ code := by
    unfold layoutCode.indented at hc
    dsimp only at hc
    rw [String.toList_ofList] at hc
    split_ifs at hc
    · exact (List.mem_append.mp hc).imp_left (hblanks column)
    · exact .inr hc
  unfold layoutCode at h
  dsimp only at h
  split at h
  · rename_i first second third rest hlexemes
    split_ifs at h
    · rw [List.mem_append, List.mem_append, List.mem_cons] at h
      obtain (hfirst | rfl | hgap) | hrest := h
      · have hmem : first.text ∈ texts (codePart (String.ofList code)) := by
          rw [← map_text_lexemes, hlexemes]
          exact List.mem_cons_self
        have hcode := (List.takeWhile_prefix _).subset ((of_mem_texts hmem).1 c hfirst).1
        rw [String.toList_ofList] at hcode
        exact .inr hcode
      · exact .inl (by decide)
      · exact .inl (hblanks _ hgap)
      · exact .inr ((List.dropWhile_suffix _).subset
          ((List.drop_suffix 1 _).subset (trimWhite_subset _ hrest)))
    · exact hindented h
  · exact hindented h

/-- A carriage return at the end of a line ends no word that has not ended before. -/
theorem texts_dropReturn (cs : List Char) :
    texts ((dropReturn cs).takeWhile (· ≠ ';')) = texts (cs.takeWhile (· ≠ ';')) := by
  unfold dropReturn
  split_ifs with h
  · obtain ⟨init, rfl⟩ := List.getLast?_eq_some_iff.mp h
    rw [List.dropLast_concat, List.takeWhile_append]
    split_ifs with hall
    · rw [(List.takeWhile_prefix _).eq_of_length hall]
      refine (texts_append_separators (fun c hc => ?_) init).symm
      rw [List.mem_singleton.mp hc]
      decide
    · rfl
  · rfl

theorem dropReturn_subset (cs : List Char) : dropReturn cs ⊆ cs := by
  unfold dropReturn
  split_ifs
  · exact List.dropLast_subset cs
  · exact List.Subset.refl cs

/-- The code of a line laid out; a line without code has none. -/
def laidOut (column : Nat) (cs : List Char) : List Char :=
  let code := collapse (cs.takeWhile (· ≠ ';'))
  if code.isEmpty then [] else layoutCode column code

theorem mem_laidOut {column : Nat} {cs : List Char} {c : Char} (h : c ∈ laidOut column cs) :
    c ∈ [' ', ':'] ∨ c ∈ cs.takeWhile (· ≠ ';') := by
  unfold laidOut at h
  dsimp only at h
  split_ifs at h
  · exact absurd h List.not_mem_nil
  · obtain hc | hc := mem_layoutCode h
    · exact .inl hc
    · refine (mem_collapse hc).imp_left fun heq => ?_
      rw [heq]
      exact List.mem_cons_self

theorem semicolon_not_mem_code (cs : List Char) : ';' ∉ cs.takeWhile (· ≠ ';') := fun h =>
  absurd (List.mem_takeWhile_imp h) (by decide)

theorem texts_laidOut (column : Nat) {cs : List Char} (h : PlainWhite cs) :
    texts (laidOut column cs) = texts (cs.takeWhile (· ≠ ';')) := by
  have hcode : PlainWhite (cs.takeWhile (· ≠ ';')) := h.mono (List.takeWhile_prefix _).subset
  have hwhite : PlainWhite (collapse (cs.takeWhile (· ≠ ';'))) := fun c hc => by
    obtain rfl | hc := mem_collapse hc
    · exact fun _ => by decide
    · exact hcode c hc
  have hcomment : ';' ∉ collapse (cs.takeWhile (· ≠ ';')) := fun hc => by
    obtain heq | hc := mem_collapse hc
    · exact absurd heq (by decide)
    · exact semicolon_not_mem_code cs hc
  rw [← texts_collapse hcode]
  unfold laidOut
  dsimp only
  split_ifs with hempty
  · rw [List.isEmpty_iff.mp hempty]
  · exact texts_layoutCode column hwhite hcomment

/-- A line laid out is its code and its comment, with at most a blank between them and a carriage
return at the end. -/
theorem toList_layoutLine (column : Nat) (line : String) :
    ∃ gap ending, gap ⊆ [' '] ∧ ending ⊆ ['\r'] ∧ ending ⊆ line.toList ∧
      (layoutLine column line).toList = laidOut column (dropReturn line.toList) ++
        (gap ++ (dropReturn line.toList).dropWhile (· ≠ ';') ++ ending) := by
  let code := laidOut column (dropReturn line.toList)
  let comment := (dropReturn line.toList).dropWhile (· ≠ ';')
  refine ⟨if code.isEmpty || comment.isEmpty then [] else [' '],
    if line.toList.getLast? = some '\r' then ['\r'] else [], ?_, ?_, ?_, ?_⟩
  · split_ifs <;> simp
  · split_ifs <;> simp
  · split_ifs with hlast
    · simpa using List.mem_of_getLast? hlast
    · exact List.nil_subset _
  · rw [layoutLine, String.toList_ofList]
    simp only [List.append_assoc]
    rfl

/-- Laying a line out keeps its lexemes but for their places. -/
theorem texts_layoutLine (column : Nat) {line : String} (h : PlainWhite line.toList) :
    texts (codePart (layoutLine column line)) = texts (codePart line) := by
  obtain ⟨gap, ending, hgap, hending, -, hlist⟩ := toList_layoutLine column line
  have hcode : ∀ c ∈ laidOut column (dropReturn line.toList), decide (c ≠ ';') = true := by
    intro c hc
    refine decide_eq_true fun heq => ?_
    subst heq
    exact (mem_laidOut hc).elim (by decide) (semicolon_not_mem_code _)
  have hseparators : ∀ c ∈ (gap ++ (dropReturn line.toList).dropWhile (· ≠ ';') ++ ending).takeWhile
      (· ≠ ';'), isSeparator c := by
    have hblank : ∀ c ∈ gap, decide (c ≠ ';') = true ∧ isSeparator c = true := fun c hc => by
      rw [List.mem_singleton.mp (hgap hc)]
      decide
    have hreturn : ∀ c ∈ ending, isSeparator c = true := fun c hc => by
      rw [List.mem_singleton.mp (hending hc)]
      decide
    intro c hc
    rw [List.append_assoc, List.takeWhile_append_of_pos fun c hc => (hblank c hc).1,
      List.mem_append] at hc
    obtain hc | hc := hc
    · exact (hblank c hc).2
    · -- The code ends at the semicolon of the comment, or with the carriage return.
      obtain hnone | ⟨cs, hcs⟩ := comment_cases (dropReturn line.toList)
      · rw [hnone] at hc
        exact hreturn c ((List.takeWhile_prefix _).subset hc)
      · rw [hcs] at hc
        exact absurd hc List.not_mem_nil
  unfold codePart
  rw [hlist, List.takeWhile_append_of_pos hcode, texts_append_separators hseparators,
    texts_laidOut column (h.mono (dropReturn_subset _)), texts_dropReturn]

theorem mem_layoutLine {column : Nat} {line : String} {c : Char}
    (h : c ∈ (layoutLine column line).toList) : c ∈ [' ', ':'] ∨ c ∈ line.toList := by
  obtain ⟨gap, ending, hgap, -, hending, hlist⟩ := toList_layoutLine column line
  have hline (cs : List Char) (hcs : cs ⊆ dropReturn line.toList) (hc : c ∈ cs) : c ∈ line.toList :=
    dropReturn_subset _ (hcs hc)
  rw [hlist, List.mem_append, List.mem_append, List.mem_append] at h
  obtain hcode | (hc | hcomment) | hc := h
  · exact (mem_laidOut hcode).imp_right (hline _ (List.takeWhile_prefix _).subset)
  · exact .inl (List.mem_cons.mpr (.inl (List.mem_singleton.mp (hgap hc))))
  · exact .inr (hline _ (List.dropWhile_suffix _).subset hcomment)
  · exact .inr (hending hc)

end Layout

end SegAsm
