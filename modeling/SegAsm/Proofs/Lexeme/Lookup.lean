import SegAsm.Proofs.Hover
import SegAsm.Proofs.RegisterPair

/-! Keywords and registers are recognized up to case folding and looked up by their upper case, by their
lower case or up to folding. Each is found but for directives and general registers with a long s. -/
namespace SegAsm

open Text

/-- The word that an instruction or a jump starts with. -/
def Statement.mnemonic? : Statement → Option String
  | .cli => some "CLI"
  | .inc _ _ => some "INC"
  | .dec _ => some "DEC"
  | .add _ _ => some "ADD"
  | .cmp _ _ => some "CMP"
  | .xor _ _ => some "XOR"
  | .mov _ _ => some "MOV"
  | .or _ _ => some "OR"
  | .jump j _ => some j.mnemonic
  | _ => none

/-- The lines of instructions and jumps. -/
def LineKind.isCode (k : LineKind) : Bool :=
  k == .instructions || k == .jump

/-- Some lines of code start with this word, and all that do are translated as the mnemonic says. -/
structure TranslatedAs (text mnemonic : String) : Prop where
  form : ∃ f : Form, f.kind.isCode ∧ f.words.head? = some (upperString text)
  statement : ∀ line, (classify (lexemes line)).kind.isCode →
    (classify (lexemes line)).operands.head?.map Lexeme.text = some text →
      ∃ st, (classify (lexemes line)).statement? = some st ∧
        st.mnemonic? = some (upperString mnemonic)

/-- What is looked up for a word of the kind is there, and it is what the word stands for up to case
folding. -/
def LexemeKind.Finds (text : String) : LexemeKind → Prop
  | .mnemonic => ∃ m ∈ mnemonicWords, sameFold m text ∧ TranslatedAs text m ∧
      Hover.mnemonicInfo (lowerString text) = Hover.mnemonicInfo m ∧ Hover.mnemonicInfo m ≠ ""
  | .directive => ∃ d ∈ directiveWords, sameFold d text ∧
      Hover.directiveInfo (lowerString text) = Hover.directiveInfo d ∧ Hover.directiveInfo d ≠ ""
  | .generalRegister => ∃ r, Register.ofName? text = some r ∧ sameFold r.name text
  | .segmentRegister => ∃ s, SegmentRegister.ofName? text = some s ∧ sameFold s.name text
  | .dataDirective => ∃ t, SymbolType.ofDirective? text = some t ∧ sameFold t.name text ∧
      Hover.directiveInfo (lowerString text) = Hover.directiveInfo (lowerString t.name) ∧
      Hover.directiveInfo (lowerString t.name) ≠ ""
  | _ => True

section Word

variable {text x : String}

theorem lowerString_of_fold (hx : x.toList = text.toList.map fold)
    (hascii : x.toList.all (·.toNat < 128)) (hs : 'ſ' ∉ text.toList) : lowerString text = x := by
  rw [lowerString, map_lower_of_fold (hx ▸ hascii) hs, ← hx, String.ofList_toList]

theorem mem_of_long_s (hx : x.toList = text.toList.map fold) (hs : 'ſ' ∈ text.toList) :
    's' ∈ x.toList := by
  rw [hx]
  exact List.mem_map_of_mem (f := fold) hs

theorem Hover.directiveInfo_of_long_s (hs : 'ſ' ∈ text.toList) :
    directiveInfo (lowerString text) = "" := by
  have hmem : 'ſ' ∈ (lowerString text).toList := by
    rw [lowerString, String.toList_ofList]
    exact List.mem_map_of_mem (f := lower) hs
  unfold directiveInfo
  split
  case h_8 => rfl
  all_goals
    rename_i hword
    rw [hword] at hmem
    exact absurd hmem (by decide)

namespace LexemeKind

/-- Keywords are written in lower case. -/
theorem keywords_plain : ∀ x ∈ keywords, x.toList.map fold = x.toList ∧
    x.toList.all (·.toNat < 128) := by
  decide

theorem exists_word {words : List String} (h : words.any (·.toList == text.toList.map fold)) :
    ∃ x ∈ words, x.toList = text.toList.map fold := by
  simpa using h

theorem sameFold_of_fold (hx : x ∈ keywords) (h : x.toList = text.toList.map fold) :
    sameFold x text := by
  rw [sameFold, (keywords_plain x hx).1, h]
  exact beq_self_eq_true _

theorem upperString_eq_of_fold (hx : x ∈ keywords) (h : x.toList = text.toList.map fold) :
    upperString text = upperString x := by
  rw [upperString_of_fold hx h, upperString_of_fold hx (keywords_plain x hx).1.symm]

end LexemeKind
end Word

section Mnemonic

theorem Statement.ReadFrom.mnemonic?_eq {st : Statement} {os : List Lexeme} (h : st.ReadFrom os)
    (hk : st.kind.isCode) :
    ∃ l, os.head? = some l ∧ st.mnemonic? = some (upperString l.text) := by
  cases h with
  | cli hm | inc hm | dec hm | add hm | cmp hm | xor hm | mov hm | or hm | jump hm =>
    exact ⟨_, rfl, by rw [hm.2]; rfl⟩
  | _ => cases hk

theorem translatedAs_of_fold {text m : String} (hm : m ∈ LexemeKind.mnemonicWords)
    (h : m.toList = text.toList.map fold) : TranslatedAs text m := by
  have hforms : ∀ m ∈ LexemeKind.mnemonicWords, ∃ f ∈ Form.all, f.kind.isCode ∧
      f.words.head? = some (upperString m) := by
    decide
  have hupper : upperString text = upperString m :=
    LexemeKind.upperString_eq_of_fold (by simp [LexemeKind.keywords, hm]) h
  constructor
  · obtain ⟨f, -, hf⟩ := hforms m hm
    exact ⟨f, by rwa [hupper]⟩
  · intro line hk hhead
    have hs : ∀ l ∈ lexemes line, l.Scanned := Lexeme.scanned_of_mem_lexemes
    cases hform : (classify (lexemes line)).form? with
    | none =>
      rw [Classified.kind, hform] at hk
      cases hk
    | some f =>
      obtain ⟨st, hst, hread⟩ := readFrom_of_form hs hform
      rw [kind_of_statement? hst] at hk
      obtain ⟨l, hl, hmnemonic⟩ := hread.mnemonic?_eq hk
      rw [hl, Option.map_some, Option.some.injEq] at hhead
      exact ⟨st, hst, by rw [hmnemonic, hhead, hupper]⟩

end Mnemonic

namespace LexemeKind

variable {text : String}

theorem finds_mnemonic (h : accepts .mnemonic text.toList) : Finds text .mnemonic := by
  have hwords : ∀ m ∈ mnemonicWords, 's' ∉ m.toList ∧ Hover.mnemonicInfo m ≠ "" := by decide
  obtain ⟨m, hm, hx⟩ := exists_word h
  have hkeyword : m ∈ keywords := by simp [keywords, hm]
  have hs : 'ſ' ∉ text.toList := fun hs => (hwords m hm).1 (mem_of_long_s hx hs)
  have hlower := lowerString_of_fold hx (keywords_plain m hkeyword).2 hs
  exact ⟨m, hm, sameFold_of_fold hkeyword hx, translatedAs_of_fold hm hx, by rw [hlower],
    (hwords m hm).2⟩

theorem finds_dataDirective (h : accepts .dataDirective text.toList) : Finds text .dataDirective := by
  have hwords : ∀ x ∈ dataWords, 's' ∉ x.toList ∧ ∃ t ∈ [SymbolType.byte, .word, .double],
      SymbolType.ofDirective? x = some t ∧ sameFold t.name x ∧ lowerString t.name = x ∧
        Hover.directiveInfo x ≠ "" := by
    decide
  obtain ⟨x, hmem, hx⟩ := exists_word h
  obtain ⟨hplain, t, -, htype, hname, hlower, hinfo⟩ := hwords x hmem
  have hkeyword : x ∈ keywords := by simp [keywords, hmem]
  have hs : 'ſ' ∉ text.toList := fun hs => hplain (mem_of_long_s hx hs)
  refine ⟨t, ?_, ?_, ?_, hlower.symm ▸ hinfo⟩
  · rwa [SymbolType.ofDirective?, upperString_eq_of_fold hkeyword hx]
  · rw [sameFold, (keywords_plain x hkeyword).1] at hname
    rwa [sameFold, ← hx]
  · rw [lowerString_of_fold hx (keywords_plain x hkeyword).2 hs, hlower]

theorem finds_segmentRegister (h : ofWord text.toList = .segmentRegister) :
    Finds text .segmentRegister := by
  have hscanned : Lexeme.Scanned ⟨text, .segmentRegister, 0⟩ :=
    ⟨h.symm, fun hnil => by rw [hnil] at h; exact absurd h (by decide)⟩
  have hfound := hscanned.ofName?_segmentRegister rfl
  exact ⟨_, hfound, by simpa using List.find?_some hfound⟩

theorem finds_directive_iff (h : accepts .directive text.toList) :
    Finds text .directive ↔ 'ſ' ∉ text.toList := by
  have hwords : ∀ d ∈ directiveWords, Hover.directiveInfo d ≠ "" := by decide
  constructor
  · rintro ⟨d, hd, -, hinfo, hne⟩ hs
    exact hne (hinfo.symm.trans (Hover.directiveInfo_of_long_s hs))
  · intro hs
    obtain ⟨d, hd, hx⟩ := exists_word h
    have hkeyword : d ∈ keywords := by simp [keywords, hd]
    have hlower := lowerString_of_fold hx (keywords_plain d hkeyword).2 hs
    exact ⟨d, hd, sameFold_of_fold hkeyword hx, by rw [hlower], hwords d hd⟩

theorem finds_generalRegister_iff (h : ofWord text.toList = .generalRegister) :
    Finds text .generalRegister ↔ 'ſ' ∉ text.toList := by
  have hscanned : Lexeme.Scanned ⟨text, .generalRegister, 0⟩ :=
    ⟨h.symm, fun hnil => by rw [hnil] at h; exact absurd h (by decide)⟩
  obtain ⟨r, hr⟩ := Lexeme.exists_names hscanned rfl
  constructor
  · rintro ⟨r', hfound, -⟩ hs
    rw [Register.ofName?_of_long_s hs] at hfound
    cases hfound
  · intro hs
    exact ⟨r, hr.ofName?_of_no_long_s hs, beq_iff_eq.mpr hr⟩

/-- What is looked up for a keyword or a register is found, unless it is a directive or a general
register with a long s. Such a directive has no description, and such a register is taken for `AL`. -/
theorem finds_iff_long_s_elsewhere (text : String) :
    ((ofWord text.toList).Finds text ↔
      ('ſ' ∈ text.toList → ofWord text.toList ∉ [.directive, .generalRegister])) ∧
    ('ſ' ∈ text.toList →
      (ofWord text.toList = .directive → Hover.directiveInfo (lowerString text) = "") ∧
      (ofWord text.toList = .generalRegister →
        Register.ofName? text = none ∧ Register.ofOperand text = .al)) := by
  constructor
  · have haccepts := accepts_ofWord text.toList
    cases hk : ofWord text.toList with
    | mnemonic =>
      rw [hk] at haccepts
      exact iff_of_true (finds_mnemonic haccepts) (by simp)
    | directive =>
      rw [hk] at haccepts
      simp [finds_directive_iff haccepts]
    | generalRegister => simp [finds_generalRegister_iff hk]
    | segmentRegister => exact iff_of_true (finds_segmentRegister hk) (by simp)
    | dataDirective =>
      rw [hk] at haccepts
      exact iff_of_true (finds_dataDirective haccepts) (by simp)
    | _ => exact iff_of_true trivial (by simp)
  · intro hs
    exact ⟨fun _ => Hover.directiveInfo_of_long_s hs,
      fun _ => ⟨Register.ofName?_of_long_s hs, Register.ofOperand_of_long_s hs⟩⟩

theorem finds_segment_register_with_long_s :
    segmentRegister.Finds "\u017fs" ∧ ¬generalRegister.Finds "e\u017fp" ∧
      Register.ofOperand "e\u017fp" = .al := by
  obtain ⟨hsegment, -⟩ := finds_iff_long_s_elsewhere "\u017fs"
  obtain ⟨hgeneral, hlost⟩ := finds_iff_long_s_elsewhere "e\u017fp"
  have hkind : ofWord "\u017fs".toList = .segmentRegister := by decide
  have hkind' : ofWord "e\u017fp".toList = .generalRegister := by decide
  have hs : 'ſ' ∈ "e\u017fp".toList := by decide
  rw [hkind] at hsegment
  rw [hkind'] at hgeneral
  refine ⟨hsegment.mpr (by decide), ?_, ((hlost hs).2 hkind').2⟩
  exact fun h => absurd (hgeneral.mp h hs) (by decide)

/-- A spelling of `SI` that is found nowhere, and one of `ENDS` that has no description. -/
theorem not_finds_with_long_s :
    ofWord "\u017fi".toList = .generalRegister ∧ sameFold Register.si.name "\u017fi" ∧
      Register.ofName? "\u017fi" = none ∧ Register.ofOperand "\u017fi" = .al ∧
    ofWord "end\u017f".toList = .directive ∧ sameFold "ends" "end\u017f" ∧
      Hover.directiveInfo (lowerString "end\u017f") = "" := by
  decide

end LexemeKind
end SegAsm
