import SegAsm.Hover
import SegAsm.Proofs.Lexeme.Tokenization
import SegAsm.Proofs.Symbol.Declared

/-! What is shown for identifiers. The first lexeme of a line is told from a reference, and a name that
is declared behind a label is not. -/
namespace SegAsm

/-- The lexeme declares its name on a line: it is the first one, or it stands behind a label with
another name. -/
structure Lexeme.Declares (text : String) (l : Lexeme) (type : SymbolType) : Prop where
  declaresAs : DeclaresAs text l.text type
  place : (lexemes text).head? = some l ∨ ∃ label colon rest,
    lexemes text = label :: colon :: l :: rest ∧ (classify (lexemes text)).label = some label ∧
      nameKey label.text ≠ nameKey l.text

/-- The symbol comes from this lexeme of a line, counted from 0. -/
def Symbol.DeclaredBy (e : Symbol) (i : Nat) (text : String) (l : Lexeme) : Prop :=
  e.line = i + 1 ∧ l.Declares text e.type

/-- What is to be said about an identifier: the definition of its symbol where this lexeme declares
it, and a reference to the symbol elsewhere. -/
inductive Hover.Answers (p : Program) (i : Nat) (r : LineRecord) (l : Lexeme) :
    Option String → Prop
  | definition {e : Symbol} (he : p.symbols.get? l.text = some e) (hl : e.DeclaredBy i r.text l) :
      Answers p i r l (some (definitionInfo e))
  | reference {e : Symbol} (he : p.symbols.get? l.text = some e)
      (hl : ¬e.DeclaredBy i r.text l) : Answers p i r l (some (referenceInfo e ++ codeInfo r))
  | undeclared (h : p.symbols.get? l.text = none) : Answers p i r l none

section Declares

variable {text : String} {l l' : Lexeme} {type type' : SymbolType}

theorem Lexeme.Declares.mem (h : l.Declares text type) : l ∈ lexemes text := by
  obtain hfirst | ⟨label, colon, rest, hls, -⟩ := h.place
  · exact List.mem_of_head? hfirst
  · rw [hls]
    simp

/-- A line declares a name by one lexeme. -/
theorem Lexeme.Declares.unique (h : l.Declares text type) (h' : l'.Declares text type')
    (hkey : nameKey l.text = nameKey l'.text) : l = l' := by
  obtain hfirst | ⟨label, colon, rest, hls, -, hne⟩ := h.place
  · obtain hfirst' | ⟨label, colon, rest, hls, -, hne⟩ := h'.place
    · exact Option.some.inj (hfirst.symm.trans hfirst')
    · rw [hls] at hfirst
      cases hfirst
      exact absurd hkey hne
  · obtain hfirst' | ⟨label', colon', rest', hls', -⟩ := h'.place
    · rw [hls] at hfirst'
      cases hfirst'
      exact absurd hkey.symm hne
    · rw [hls] at hls'
      cases hls'
      rfl

theorem exists_behindLabel_of_declaration? {st : Statement} {d : Lexeme × SymbolType}
    (hst : (classify (lexemes text)).statement? = some st) (hd : st.declaration? = some d) :
    ∃ rest, behindLabel (lexemes text) = d.1 :: rest := by
  have hread := readFrom_behindLabel hst hd
  generalize behindLabel (lexemes text) = ls at hread
  cases hread with
  | label =>
    cases hd
    exact ⟨_, rfl⟩
  | data =>
    simp only [Statement.declaration?] at hd
    split_ifs at hd
    cases hd
    exact ⟨_, rfl⟩
  | _ => cases hd

theorem declares_of_declaration? {name : String} {d : Lexeme × SymbolType}
    (h : (classify (lexemes text)).declaration? name = some d) : d.1.Declares text d.2 := by
  have hs : ∀ l ∈ lexemes text, l.Scanned := Lexeme.scanned_of_mem_lexemes
  have hkey := Classified.nameKey_of_declaration? h
  refine ⟨declaresAs_of_declaration? h, ?_⟩
  obtain ⟨label, hlabel, rfl⟩ | ⟨hother, st, hst, hd⟩ := Classified.declaration?_cases h
  · obtain ⟨hnone, -⟩ | ⟨hhead, -⟩ := label_operands_cases (lexemes text)
    · rw [hlabel] at hnone
      cases hnone
    · exact .inl (hhead.symm.trans hlabel)
  · obtain ⟨f, hf, hform⟩ := exists_form_of_declaration? hst hd
    obtain ⟨rest, hrest⟩ := exists_behindLabel_of_declaration? hst hd
    obtain hls | ⟨label, colon, -, -, hls⟩ := behindLabel_cases (lexemes text)
    · rw [← hls, hrest]
      exact .inl rfl
    · have hlabel := (label_classify_iff hs hf hform label).mpr ⟨colon, hls⟩
      rw [hrest] at hls
      exact .inr ⟨label, colon, rest, hls, hlabel, hkey ▸ hother label hlabel⟩

/-- Every symbol comes from a lexeme of its line. -/
theorem exists_declaredBy {lines : List String} {e : Symbol} (h : e ∈ (State.after {} lines).symbols) :
    ∃ i text l, lines[i]? = some text ∧ nameKey l.text = nameKey e.name ∧ e.DeclaredBy i text l := by
  obtain hnone | ⟨i, text, d, htext, hd, rfl, -⟩ := State.exists_declaration h
  · cases hnone
  · exact ⟨i, text, d.1, htext, rfl, rfl, declares_of_declaration? hd⟩

end Declares

namespace Hover

section Lexemes

variable {text : String} {char : Int}

theorem head?_lexemes_iff {k : Nat} {l : Lexeme} (hl : (lexemes text)[k]? = some l) :
    (lexemes text).head? = some l ↔ k = 0 := by
  have hlt := (List.getElem?_eq_some_iff.mp hl).1
  rw [List.head?_eq_getElem?, ← hl, eq_comm,
    List.getElem?_inj hlt (isTokenization_lexemes text).nodup]

theorem lexemeAt?_of_covering {k : Nat} {l : Lexeme} (hl : (lexemes text)[k]? = some l)
    (hstart : l.start ≤ char) (hstop : char < l.stop) :
    lexemeAt? (lexemes text) char = some (k, l) := by
  have hordered := (isTokenization_lexemes text).ordered
  obtain ⟨hk, rfl⟩ := List.getElem?_eq_some_iff.mp hl
  refine Option.map_eq_some_iff.mpr ⟨((lexemes text)[k], k), ?_, rfl⟩
  refine List.find?_eq_some_iff_getElem.mpr ⟨by simp [hstart, hstop], k, by simpa using hk, ?_⟩
  refine ⟨by simp, fun j hj => ?_⟩
  -- The lexemes in front end before this one starts.
  have hle := List.pairwise_iff_getElem.mp hordered j k (by omega) hk hj
  have hnot : ¬char < (lexemes text)[j].stop := by omega
  simp [hnot]

theorem lexemeAt?_eq_none {ls : List Lexeme} (h : ∀ l ∈ ls, ¬(l.start ≤ char ∧ char < l.stop)) :
    lexemeAt? ls char = none := by
  rw [lexemeAt?, Option.map_eq_none_iff, List.find?_eq_none]
  rintro ⟨l, k⟩ hmem hcovers
  exact h l (List.fst_mem_of_mem_zipIdx hmem) (by simpa using hcovers)

/-- Lexemes lie in the code of their line and leave the separators out. -/
theorem lexemeAt?_outside (h : char < 0 ∨ (codeBytes text).length ≤ char ∨
      ∃ b, (codeBytes text)[char.toNat]? = some b ∧ isSeparatorByte b) :
    lexemeAt? (lexemes text) char = none := by
  refine lexemeAt?_eq_none fun l hl hcovers => ?_
  have htoken := (isTokenization_lexemes text).token l hl
  have hle := htoken.stop_le
  obtain hneg | hend | ⟨b, hb, hsep⟩ := h
  · omega
  · omega
  · exact htoken.not_separator (by omega) hb hsep

end Lexemes

section Lines

variable {p : Program} {i : Nat} {r : LineRecord}

theorem evaluate?_of_lines (h : p.lines[i]? = some r) (char : Int) :
    evaluate? p ⟨i, char⟩ = charInfo? p i r (lexemes r.text) char := by
  have hnonneg : ¬(i : Int) < 0 := by omega
  simp [evaluate?, hnonneg, h]

theorem evaluate?_eq_none_of_line {position : Position}
    (h : position.line < 0 ∨ p.lines.length ≤ position.line) : evaluate? p position = none := by
  unfold evaluate?
  split_ifs with hneg
  · rfl
  · have hnone : p.lines[position.line.toNat]? = none := List.getElem?_eq_none (by omega)
    simp [hnone]

end Lines

section Identifier

variable {p : Program} {i : Nat} {r : LineRecord} {l : Lexeme} {e : Symbol}

theorem definitionInfo_ne_referenceInfo (e : Symbol) (code : String) :
    definitionInfo e ≠ referenceInfo e ++ code := by
  unfold definitionInfo referenceInfo
  simp only [String.append_assoc]
  intro h
  have hfirst := congrArg (fun s : String => s.toList.head?) h
  simp at hfirst

theorem identifierInfo?_of_symbol (hsegment : p.segments.get? l.text = none)
    (he : p.symbols.get? l.text = some e) (k : Nat) :
    identifierInfo? p r k l.text =
      some (if e.line = r.number ∧ k = 0 then definitionInfo e else referenceInfo e ++ codeInfo r) := by
  simp [identifierInfo?, hsegment, he]

theorem Answers.cases_of_symbol {answer : Option String} (h : Answers p i r l answer)
    (he : p.symbols.get? l.text = some e) :
    e.DeclaredBy i r.text l ∧ answer = some (definitionInfo e) ∨
      ¬e.DeclaredBy i r.text l ∧ answer = some (referenceInfo e ++ codeInfo r) := by
  cases h with
  | definition he' hl =>
    obtain rfl := Option.some.inj (he.symm.trans he')
    exact .inl ⟨hl, rfl⟩
  | reference he' hl =>
    obtain rfl := Option.some.inj (he.symm.trans he')
    exact .inr ⟨hl, rfl⟩
  | undeclared hnone =>
    rw [he] at hnone
    cases hnone

theorem Answers.eq_definition {answer : Option String} (h : Answers p i r l answer)
    (he : p.symbols.get? l.text = some e) (hl : e.DeclaredBy i r.text l) :
    answer = some (definitionInfo e) :=
  ((h.cases_of_symbol he).resolve_right fun hnot => hnot.1 hl).2

/-- Only the first lexeme of a line is told from a reference. -/
theorem answers_identifierInfo?_iff {k : Nat} (hsegment : p.segments.get? l.text = none)
    (hnumber : r.number = i + 1)
    (hfirst : ∀ e, p.symbols.get? l.text = some e → e.line = i + 1 → k = 0 →
      e.DeclaredBy i r.text l) :
    Answers p i r l (identifierInfo? p r k l.text) ↔
      ∀ e, p.symbols.get? l.text = some e → e.DeclaredBy i r.text l → k = 0 := by
  cases he : p.symbols.get? l.text with
  | none =>
    have hnone : identifierInfo? p r k l.text = none := by simp [identifierInfo?, hsegment, he]
    rw [hnone]
    exact iff_of_true (.undeclared he) (by simp)
  | some e =>
    simp only [Option.some.injEq, forall_eq']
    rw [identifierInfo?_of_symbol hsegment he, hnumber]
    by_cases hdeclared : e.DeclaredBy i r.text l
    · constructor
      · intro h _
        by_contra hk
        rw [if_neg fun hboth => hk hboth.2] at h
        exact definitionInfo_ne_referenceInfo _ _ (Option.some.inj (h.eq_definition he hdeclared)).symm
      · intro h
        rw [if_pos ⟨hdeclared.1, h hdeclared⟩]
        exact .definition he hdeclared
    · rw [if_neg fun hboth => hdeclared (hfirst e he hboth.1 hboth.2)]
      exact iff_of_true (.reference he hdeclared) fun h => absurd h hdeclared

end Identifier

section Source

variable {source text : String} {i : Nat} {l : Lexeme} {e : Symbol}

theorem exists_line (htext : (Text.splitLines source)[i]? = some text) :
    ∃ r, (assemble source).lines[i]? = some r ∧ r.text = text ∧ r.number = i + 1 ∧
      ∀ char, evaluate? (assemble source) ⟨i, char⟩ =
        charInfo? (assemble source) i r (lexemes text) char := by
  obtain ⟨r, hr, hplace⟩ := State.exists_line (s := {}) htext
  have hrtext : r.text = text := hplace.text.trans (State.record_text ..)
  refine ⟨r, hr, hrtext, hplace.number, fun char => ?_⟩
  rw [← hrtext]
  exact evaluate?_of_lines hr char

/-- The first lexeme of the line that a symbol comes from declares it, if it has its name. -/
theorem declaredBy_of_first (he : (assemble source).symbols.get? l.text = some e)
    (htext : (Text.splitLines source)[i]? = some text) (hline : e.line = i + 1)
    (hfirst : (lexemes text).head? = some l) : e.DeclaredBy i text l := by
  rw [symbols_assemble] at he
  have hkey : nameKey e.name = nameKey l.text := by simpa using List.find?_some he
  obtain ⟨i', text', l', htext', hkey', hline', hl'⟩ :=
    exists_declaredBy (List.mem_of_find?_eq_some he)
  obtain rfl : i = i' := by omega
  obtain rfl : text = text' := Option.some.inj (htext.symm.trans htext')
  obtain hfirst' | ⟨label, colon, rest, hls, -, hne⟩ := hl'.place
  · obtain rfl : l = l' := Option.some.inj (hfirst.symm.trans hfirst')
    exact ⟨hline, hl'⟩
  · rw [hls] at hfirst
    cases hfirst
    exact absurd (hkey'.trans hkey).symm hne

/-- Where an identifier names no segment, all its bytes have the same answer. It is what is to be said,
unless the identifier is declared here and is not the first lexeme of the line. Then it stands behind
a label and is taken for a reference. Every symbol comes from one lexeme. There is no answer
in blanks, in comments, and where there is no line or no more code on it. -/
theorem answers_iff_declared_first (source : String) :
    (∀ (i : Nat) text, (Text.splitLines source)[i]? = some text →
      ∃ r, (assemble source).lines[i]? = some r ∧ r.text = text ∧
        ∀ l ∈ lexemes text, l.kind = .identifier → (assemble source).segments.get? l.text = none →
          ∃ answer,
            (∀ char : Int, l.start ≤ char → char < l.stop →
              evaluate? (assemble source) ⟨i, char⟩ = answer) ∧
            (Answers (assemble source) i r l answer ↔
              ∀ e, (assemble source).symbols.get? l.text = some e → e.DeclaredBy i text l →
                (lexemes text).head? = some l) ∧
            ∀ e, (assemble source).symbols.get? l.text = some e → e.DeclaredBy i text l →
              (lexemes text).head? ≠ some l →
                answer = some (referenceInfo e ++ codeInfo r) ∧ ∃ label colon rest,
                  lexemes text = label :: colon :: l :: rest ∧
                  (classify (lexemes text)).label = some label) ∧
    (∀ e ∈ (assemble source).symbols, ∃ i text, (Text.splitLines source)[i]? = some text ∧
      ∃! l, l ∈ lexemes text ∧ nameKey l.text = nameKey e.name ∧ e.DeclaredBy i text l) ∧
    (∀ (i : Nat) text (char : Int), (Text.splitLines source)[i]? = some text →
      (char < 0 ∨ (codeBytes text).length ≤ char ∨
        ∃ b, (codeBytes text)[char.toNat]? = some b ∧ isSeparatorByte b) →
      evaluate? (assemble source) ⟨i, char⟩ = none) ∧
    ∀ position : Position, position.line < 0 ∨ (Text.splitLines source).length ≤ position.line →
      evaluate? (assemble source) position = none := by
  refine ⟨fun i text htext => ?_, fun e he => ?_, fun i text char htext houtside => ?_,
    fun position houtside => ?_⟩
  · obtain ⟨r, hr, hrtext, hnumber, hanswer⟩ := exists_line htext
    refine ⟨r, hr, hrtext, fun l hl hkind hsegment => ?_⟩
    obtain ⟨k, hk⟩ := List.mem_iff_getElem?.mp hl
    have hzero := head?_lexemes_iff hk
    refine ⟨identifierInfo? (assemble source) r k l.text, fun char hstart hstop => ?_, ?_, ?_⟩
    · rw [hanswer, charInfo?, lexemeAt?_of_covering hk hstart hstop]
      simp [lexemeInfo?, hkind]
    · subst hrtext
      rw [hzero, answers_identifierInfo?_iff hsegment hnumber]
      intro e he hline hk
      exact declaredBy_of_first he htext hline (hzero.mpr hk)
    · intro e he hdeclared hfirst
      rw [identifierInfo?_of_symbol hsegment he, if_neg fun hboth => hfirst (hzero.mpr hboth.2)]
      obtain hplace | ⟨label, colon, rest, hls, hlabel, -⟩ := hdeclared.2.place
      · exact absurd hplace hfirst
      · exact ⟨rfl, label, colon, rest, hls, hlabel⟩
  · rw [symbols_assemble] at he
    obtain ⟨i, text, l, htext, hkey, hdeclared⟩ := exists_declaredBy he
    refine ⟨i, text, htext, l, ⟨hdeclared.2.mem, hkey, hdeclared⟩, ?_⟩
    rintro l' ⟨-, hkey', hdeclared'⟩
    exact hdeclared'.2.unique hdeclared.2 (hkey'.trans hkey.symm)
  · obtain ⟨r, -, -, -, hanswer⟩ := exists_line htext
    rw [hanswer, charInfo?, lexemeAt?_outside houtside]
    rfl
  · have hlength : (assemble source).lines.length = (Text.splitLines source).length :=
      State.length_lines {} _
    exact evaluate?_eq_none_of_line (by rwa [hlength])

/-- A jump to its own label. -/
theorem answers_at_own_label :
    let source := "y: jmp Y"
    let y : Symbol := ⟨"y", "NOTHING", 0, .label, 1⟩
    (Text.splitLines source)[0]? = some source ∧
      (lexemes source)[0]? = some ⟨"y", .identifier, 0⟩ ∧
      (lexemes source)[3]? = some ⟨"Y", .identifier, 7⟩ ∧
      ∃ r, (assemble source).lines[0]? = some r ∧
        evaluate? (assemble source) ⟨0, 0⟩ = some (definitionInfo y) ∧
        evaluate? (assemble source) ⟨0, 7⟩ = some (referenceInfo y ++ codeInfo r) := by
  intro source y
  have hlexemes : lexemes source = [⟨"y", .identifier, 0⟩, ⟨":", .symbol, 1⟩, ⟨"jmp", .mnemonic, 3⟩,
      ⟨"Y", .identifier, 7⟩] := by decide +kernel
  have htext : (Text.splitLines source)[0]? = some source := by decide +kernel
  have hsegments : (assemble source).segments = [] := by decide +kernel
  have hsymbols : (assemble source).symbols = [y] := by decide +kernel
  have hfirst : (assemble source).symbols.get? "y" = some y := by rw [hsymbols]; decide
  have hlast : (assemble source).symbols.get? "Y" = some y := by rw [hsymbols]; decide
  obtain ⟨r, hr, hrtext, hl⟩ := (answers_iff_declared_first source).1 0 source htext
  have hdeclared : y.DeclaredBy 0 source ⟨"y", .identifier, 0⟩ :=
    declaredBy_of_first hfirst htext rfl (by rw [hlexemes]; rfl)
  have hother : ¬y.DeclaredBy 0 source ⟨"Y", .identifier, 7⟩ := fun h =>
    absurd (hdeclared.2.unique h.2 (by decide)) (by decide)
  refine ⟨htext, by rw [hlexemes]; rfl, by rw [hlexemes]; rfl, r, hr, ?_, ?_⟩
  · obtain ⟨answer, hanswer, hiff, -⟩ := hl ⟨"y", .identifier, 0⟩ (by rw [hlexemes]; simp) rfl
      (by rw [hsegments]; rfl)
    have hright := hiff.mpr fun _ _ _ => by rw [hlexemes]; rfl
    exact (hanswer 0 (by decide) (by decide)).trans
      (hright.eq_definition hfirst (hrtext ▸ hdeclared))
  · obtain ⟨answer, hanswer, hiff, -⟩ := hl ⟨"Y", .identifier, 7⟩ (by rw [hlexemes]; simp) rfl
      (by rw [hsegments]; rfl)
    have hright := hiff.mpr fun e he hdeclared' => by
      cases hlast.symm.trans he
      exact absurd hdeclared' hother
    obtain ⟨hdeclared', -⟩ | ⟨-, heq⟩ := hright.cases_of_symbol hlast
    · exact absurd (hrtext ▸ hdeclared') hother
    · exact (hanswer 7 (by decide) (by decide)).trans heq

/-- A datum behind a label is declared where it is taken for a reference. -/
theorem reference_at_declaration_behind_label :
    let source := "L: x DB 5"
    let x : Symbol := ⟨"x", "NOTHING", 0, .byte, 1⟩
    (assemble source).symbols.get? "x" = some x ∧
      x.DeclaredBy 0 source ⟨"x", .identifier, 3⟩ ∧
      evaluate? (assemble source) ⟨0, 3⟩ =
        some "Reference to DB `x`\n\nEvaluates to `NOTHING:0000`" ∧
      definitionInfo x = "Definition of DB `x`.\n\nOffset 0x0000 in segment `NOTHING`" := by
  intro source x
  have hdeclaration : (classify (lexemes source)).declaration? "x" =
      some (⟨"x", .identifier, 3⟩, .byte) := by decide +kernel
  refine ⟨by decide +kernel, ⟨rfl, declares_of_declaration? hdeclaration⟩, ?_, ?_⟩
  · decide +kernel
  · decide +kernel

end Source
end Hover
end SegAsm
