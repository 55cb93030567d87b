import SegAsm.Proofs.Lexeme.Texts
import SegAsm.Proofs.Range

/-! The names in the tables of a program. Each is `NOTHING` or a lexeme of the source, in the assume
table in upper case, and so it holds no separator. -/
namespace SegAsm

/-- A text without separators. -/
def IsWord (name : String) : Prop :=
  ∀ c ∈ name.toList, isSeparator c = false

theorem IsWord.not_mem {name : String} (h : IsWord name) {c : Char} (hc : isSeparator c) :
    c ∉ name.toList := by
  intro hmem
  rw [h c hmem] at hc
  cases hc

theorem isWord_noSegment : IsWord noSegment := by
  have hletters : noSegment.toList.all (!isSeparator ·) = true := by decide
  intro c hc
  simpa using List.all_eq_true.mp hletters c hc

theorem isWord_of_mem_lexemes {text : String} {l : Lexeme} (h : l ∈ lexemes text) :
    IsWord l.text := by
  have hmem : l.text ∈ texts (codePart text) := by
    rw [← map_text_lexemes]
    exact List.mem_map_of_mem h
  exact fun c hc => ((of_mem_texts hmem).1 c hc).2

theorem isSeparator_ofNat {n : Nat} (h : 32 < n) : isSeparator (Char.ofNat n) = false := by
  have hcode : (Char.ofNat n).toNat = n ∨ (Char.ofNat n).toNat = 0 := by
    by_cases hvalid : n.isValidChar
    · have hchar : Char.ofNat n = Char.ofNatAux n hvalid := dif_pos hvalid
      rw [hchar]
      exact .inl rfl
    · have hchar : Char.ofNat n = ⟨0, _⟩ := dif_neg hvalid
      rw [hchar]
      exact .inr rfl
  have hblank : Char.ofNat n ≠ ' ' := by
    intro heq
    rw [heq] at hcode
    have hspace : ' '.toNat = 32 := rfl
    omega
  simp only [isSeparator, beq_eq_false_iff_ne.mpr hblank, Bool.false_or, Bool.and_eq_false_iff,
    decide_eq_false_iff_not]
  omega

/-- Only separators have a separator for their upper case. -/
theorem isSeparator_upper {c : Char} (h : isSeparator c = false) :
    isSeparator (Text.upper c) = false := by
  unfold Text.upper
  split
  · rename_i hascii
    have hupper : ∀ n < 128, isSeparator (Char.ofNat n) = false →
        isSeparator (Char.ofNat n).toUpper = false := by decide +kernel
    have hc := hupper c.toNat hascii
    rw [c.ofNat_toNat] at hc
    exact hc h
  · unfold Text.upperWide
    split
    · rename_i r hr
      have htable : ∀ r ∈ Text.upperRuns, 32 < (r.first : Int) + r.shift := by decide +kernel
      have hlow := htable r (List.mem_of_find?_eq_some hr)
      have hfirst : r.first ≤ c.toNat := by
        have hfound := List.find?_some hr
        simp only [Bool.and_eq_true, decide_eq_true_eq] at hfound
        exact hfound.1.1
      exact isSeparator_ofNat (by omega)
    · exact h

theorem IsWord.upperString {name : String} (h : IsWord name) : IsWord (Text.upperString name) := by
  intro c hc
  unfold Text.upperString at hc
  rw [String.toList_ofList] at hc
  obtain ⟨d, hd, rfl⟩ := List.mem_map.mp hc
  exact isSeparator_upper (h d hd)

namespace AssumeTable

/-- A table of words. -/
def Named (t : AssumeTable) : Prop :=
  ∀ r, IsWord (t.get r)

theorem named_default : Named {} := by
  intro r
  cases r <;> exact isWord_noSegment

theorem get_set (t : AssumeTable) (r r' : SegmentRegister) (name : String) :
    (t.set r name).get r' = if r' = r then name else t.get r' := by
  cases r <;> cases r' <;> rfl

theorem Named.set {t : AssumeTable} (h : t.Named) (r : SegmentRegister) {name : String}
    (hname : IsWord name) : (t.set r name).Named := by
  intro r'
  rw [get_set]
  split_ifs
  · exact hname
  · exact h r'

theorem Named.assumeFrom {ls : List Lexeme} (hls : ∀ l ∈ ls, IsWord l.text) {t : AssumeTable}
    (h : t.Named) (r : SegmentRegister) {name : String} (hname : IsWord name) :
    (t.assumeFrom r name ls).Named := by
  induction ls generalizing t r name with
  | nil => exact h.set r hname
  | cons l ls ih =>
    obtain ⟨hl, hrest⟩ := List.forall_mem_cons.mp hls
    unfold AssumeTable.assumeFrom
    split_ifs
    · exact ih hrest h _ hname
    · exact ih hrest h r hl.upperString
    · exact ih hrest (h.set r hname) r hname
    · exact ih hrest h r hname

end AssumeTable

theorem Statement.declaration?_mem_lexemes {st : Statement} {d : Lexeme × SymbolType}
    (h : st.declaration? = some d) : d.1 ∈ st.lexemes := by
  cases st with
  | label name =>
    cases h
    exact List.mem_singleton_self name
  | data type name value =>
    simp only [declaration?] at h
    split_ifs at h
    cases h
    exact List.mem_cons_self
  | _ => cases h

theorem Statement.ReadFrom.assume_pairs {pairs os : List Lexeme}
    (h : (Statement.assume pairs).ReadFrom os) : ∃ first, os = first :: pairs := by
  cases h
  exact ⟨_, rfl⟩

/-- All names that a line can put into the tables are words. -/
structure Classified.Named (c : Classified) : Prop where
  declarations : ∀ d ∈ c.declarations, IsWord d.1.text
  begins : ∀ name, c.statement? = some (.beginSegment name) → IsWord name.text
  assumes : ∀ pairs, c.statement? = some (.assume pairs) → ∀ l ∈ pairs, IsWord l.text

/-- What a line declares and what its statement reads is among its lexemes. -/
theorem named_classify (text : String) : (classify (lexemes text)).Named := by
  have hs : ∀ l ∈ lexemes text, l.Scanned := Lexeme.scanned_of_mem_lexemes
  have hsub := label_statement_sublist hs
  have hsuffix := operands_suffix (lexemes text)
  have hread : ∀ st, (classify (lexemes text)).statement? = some st →
      st.ReadFrom (classify (lexemes text)).operands := fun st => readFrom_of_statement? hs
  generalize classify (lexemes text) = c at hsub hsuffix hread
  have hkept : ∀ st, c.statement? = some st → ∀ l ∈ st.lexemes, IsWord l.text := by
    intro st hst l hl
    exact isWord_of_mem_lexemes (hsuffix.subset ((hread st hst).lexemes_sublist.subset hl))
  constructor
  case declarations =>
    intro d hd
    obtain hd | hd := List.mem_append.mp hd
    · refine isWord_of_mem_lexemes (hsub.subset (List.mem_append_left _ ?_))
      obtain ⟨label, hlabel, rfl⟩ := Option.map_eq_some_iff.mp (Option.mem_toList.mp hd)
      exact Option.mem_toList.mpr hlabel
    · obtain ⟨st, hst, hdecl⟩ := Option.bind_eq_some_iff.mp (Option.mem_toList.mp hd)
      exact hkept st hst d.1 (Statement.declaration?_mem_lexemes hdecl)
  case begins =>
    intro name hst
    exact hkept _ hst name (List.mem_singleton_self name)
  case assumes =>
    intro pairs hst l hl
    obtain ⟨first, hos⟩ := (hread _ hst).assume_pairs
    refine isWord_of_mem_lexemes (hsuffix.subset ?_)
    rw [hos]
    exact List.mem_cons_of_mem first hl

theorem SymbolTable.mem_or_eq_of_mem_declare {t : SymbolTable} {s sym : Symbol}
    (h : sym ∈ t.declare s) : sym ∈ t ∨ sym = s := by
  unfold declare add? at h
  split_ifs at h
  · exact .inl h
  · simpa using h

namespace State

/-- All names in the state are words. -/
structure Named (s : State) : Prop where
  segments : ∀ seg ∈ s.segments, IsWord seg.name
  symbols : ∀ sym ∈ s.symbols, IsWord sym.name ∧ IsWord sym.segment
  assumes : s.assumes.Named
  openSegment : IsWord s.openSegment

theorem named_initial : Named {} :=
  ⟨by simp, by simp, AssumeTable.named_default, isWord_noSegment⟩

variable {s : State}

theorem Named.declareAll (h : s.Named) (line : Nat) {ds : List (Lexeme × SymbolType)}
    (hds : ∀ d ∈ ds, IsWord d.1.text) : (s.declareAll line ds).Named := by
  refine ⟨h.segments, ?_, h.assumes, h.openSegment⟩
  induction ds using List.reverseRecOn with
  | nil => exact h.symbols
  | append_singleton ds d ih =>
    obtain ⟨hinit, hlast⟩ := List.forall_mem_append.mp hds
    rw [declareAll_append]
    intro sym hsym
    obtain hold | rfl := SymbolTable.mem_or_eq_of_mem_declare hsym
    · exact ih hinit sym hold
    · exact ⟨hlast d (List.mem_singleton_self d), h.openSegment⟩

theorem Named.beginSegment (h : s.Named) (line : Nat) {name : Lexeme} (hname : IsWord name.text) :
    (s.beginSegment line name).1.Named := by
  unfold State.beginSegment
  split_ifs
  · refine ⟨fun seg hseg => ?_, h.symbols, h.assumes, hname⟩
    unfold SegmentTable.add at hseg
    split_ifs at hseg
    · exact h.segments seg hseg
    · obtain hold | hnew := List.mem_append.mp hseg
      · exact h.segments seg hold
      · obtain rfl := List.mem_singleton.mp hnew
        exact hname
  · exact h

theorem Named.endSegment (h : s.Named) (line : Nat) (name : Lexeme) :
    (s.endSegment line name).1.Named := by
  unfold State.endSegment
  split_ifs
  · refine ⟨fun seg hseg => ?_, h.symbols, h.assumes, isWord_noSegment⟩
    obtain ⟨old, hold, rfl⟩ := List.mem_map.mp hseg
    split_ifs <;> exact h.segments old hold
  · exact ⟨h.segments, h.symbols, h.assumes, isWord_noSegment⟩

theorem Named.perform (h : s.Named) (line : Nat) (text : String) {c : Classified} (hc : c.Named) :
    (s.perform line text c).1.Named := by
  have hdeclared := h.declareAll line hc.declarations
  obtain ⟨name, hst, hp⟩ | ⟨name, hst, hp⟩ | ⟨pairs, hst, hp⟩ | hp := s.perform_cases line text c
  · rw [hp]
    exact hdeclared.beginSegment line (hc.begins name hst)
  · rw [hp]
    exact hdeclared.endSegment line name
  · rw [hp]
    have hassumes := hdeclared.assumes.assumeFrom (hc.assumes pairs hst) .es isWord_noSegment
    exact ⟨hdeclared.segments, hdeclared.symbols, hassumes, hdeclared.openSegment⟩
  · rw [hp]
    exact hdeclared

theorem Named.next (h : s.Named) (line : Nat) (text : String) {c : Classified} (hc : c.Named) :
    (s.next line text c).Named := by
  obtain ⟨hsegments, hsymbols, hassumes, hopen⟩ := h.perform line text hc
  exact ⟨hsegments, hsymbols, hassumes, hopen⟩

/-- The table that a line shows is the one behind it. -/
theorem Named.record (h : s.Named) (line : Nat) (text : String) {c : Classified} (hc : c.Named) :
    ∀ t ∈ (s.record line text c).assume, t.Named := by
  intro t ht
  change (if c.kind = .assume then some (s.perform line text c).1.assumes else none) = some t at ht
  split_ifs at ht
  cases ht
  exact (h.perform line text hc).assumes

theorem Named.after (h : s.Named) (lines : List String) : (s.after lines).Named := by
  induction lines using List.reverseRecOn with
  | nil => exact h
  | append_singleton lines text ih =>
    rw [after_concat]
    exact ih.next lines.length text (named_classify text)

end State

/-- All names that a program can show are words. -/
structure Program.Named (p : Program) : Prop where
  segments : ∀ seg ∈ p.segments, IsWord seg.name
  symbols : ∀ sym ∈ p.symbols, IsWord sym.name ∧ IsWord sym.segment
  assumes : ∀ r ∈ p.lines, ∀ t ∈ r.assume, t.Named

theorem State.Named.run {s : State} (h : s.Named) (lines : List String) :
    (s.run lines).2.Named := by
  refine ⟨(h.after lines).segments, (h.after lines).symbols, fun r hr t ht => ?_⟩
  obtain ⟨i, hi⟩ := List.mem_iff_getElem?.mp hr
  obtain ⟨r₀, h₀, rfl, hplace⟩ := exists_firstPass_of_lines hi
  rw [getElem?_firstPass] at h₀
  obtain ⟨text, -, rfl⟩ := Option.map_eq_some_iff.mp h₀
  rw [hplace.assume] at ht
  exact (h.after _).record i text (named_classify text) t ht

theorem named_assemble (source : String) : (assemble source).Named :=
  State.named_initial.run _

end SegAsm
