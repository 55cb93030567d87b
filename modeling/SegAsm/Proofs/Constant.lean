import SegAsm.Proofs.Brackets
import SegAsm.Proofs.Lexeme.Number
import SegAsm.Proofs.Reading
import SegAsm.Proofs.RegisterPair

/-! Lines with a numeric constant. What such a line emits is the number that the constant denotes, in
as many bytes as the type or the register has; a number that is too large is refused. -/
namespace SegAsm

open Text

/-- The bytes are the number, the least significant one first. -/
def IsLittleEndian (size v : Nat) (bs : List UInt8) : Prop :=
  bs.length = size ∧ Nat.ofDigits 256 (bs.map UInt8.toNat) = v

theorem ofDigits_natBytes (n width : Nat) :
    Nat.ofDigits 256 ((natBytes n width).map UInt8.toNat) = n % 256 ^ width := by
  induction width generalizing n with
  | zero =>
    rw [Nat.pow_zero, Nat.mod_one]
    rfl
  | succ width ih =>
    have hbyte : (UInt8.ofNat n).toNat = n % 256 := UInt8.toNat_ofNat'
    rw [natBytes_succ, List.map_cons, Nat.ofDigits_cons, ih, hbyte, Nat.pow_succ', Nat.mod_mul]

/-- A number that fits is not cut. -/
theorem isLittleEndian_littleEndian {size v : Nat} (hsize : size ∈ [1, 2, 4])
    (hv : v ≤ constantLimit size) : IsLittleEndian size v (littleEndian v size) := by
  have hdvd : ∀ n ∈ [1, 2, 4], 256 ^ n ∣ wordCount := by decide
  have hpos : 0 < 256 ^ size := Nat.pow_pos (by decide)
  have hlimit : constantLimit size ≤ 256 ^ size - 1 := min_le_left _ _
  refine ⟨length_littleEndian _ _, ?_⟩
  change Nat.ofDigits 256 ((natBytes (word64 v) size).map UInt8.toNat) = v
  rw [ofDigits_natBytes, word64_natCast_mod (hdvd size hsize), Nat.mod_eq_of_lt (by omega)]

theorem Register.size_mem (r : Register) : r.size ∈ [1, 2, 4] := by
  cases r <;> decide

/-- The code of a `MOV` of a number. -/
def movCode (r : Register) (v : Nat) : Code :=
  (if r.isWide then [.operandSize] else []) ++
    [.byte (UInt8.ofNat ((if r.size = 1 then 0xb0 else 0xb8) + r.number)), .value v r.size]

/-- The bytes of a `MOV` of a number: the operand size for a wide register, the opcode with the number
of the register in it, and the number. -/
def IsMov (r : Register) (v : Nat) (bytes : List UInt8) : Prop :=
  ∃ bs, IsLittleEndian r.size v bs ∧
    bytes = (if r.size = 4 then [0x66] else []) ++
      UInt8.ofNat ((if r.size = 1 then 0xb0 else 0xb8) + r.number) :: bs

theorem isMov_movCode {r : Register} {v : Nat} (h : v ≤ constantLimit r.size) :
    IsMov r v (movCode r v).bytes := by
  refine ⟨_, isLittleEndian_littleEndian r.size_mem h, ?_⟩
  have hwide : (r.isWide = true) = (r.size = 4) := by simp [Register.isWide]
  unfold movCode
  simp only [hwide]
  split_ifs <;> simp [Field.bytes]

theorem LexemeKind.ne_quoted_of_isNumeric {k : LexemeKind} (h : k.isNumeric) : k ≠ .quoted := by
  rintro rfl
  cases h

namespace Context

variable (cx : Context) {l : Lexeme} (hl : l.Scanned) (hk : l.kind.isNumeric)
include hl hk

theorem mov_eq (r : Register) :
    cx.mov r l =
      if l.number ≤ constantLimit r.size then .ok (.ofCode (movCode r l.number))
      else .error (cx.reportAt l (.immediateTooLarge l.text r)) := by
  have hsize := hl.all_size_eq hk r.size_mem
  by_cases hfits : l.number ≤ constantLimit r.size
  · have hvalue := hl.constant_of_le hk hfits
    rw [decide_eq_false (by omega)] at hsize
    rw [if_pos hfits, mov]
    simp only [hk, hsize, hvalue]
    rfl
  · rw [decide_eq_true (by omega)] at hsize
    rw [if_neg hfits, mov]
    simp only [hk, hsize]
    rfl

/-- A datum is its number if that fits, and it is refused if not. -/
theorem datum_cases {type : SymbolType} (htype : type.size ∈ [1, 2, 4]) :
    if l.number ≤ constantLimit type.size then
      cx.datum type l = .ofCode [.value l.number type.size]
    else ∃ d, d.isError ∧ cx.datum type l = .reject d := by
  have hsize := hl.all_size_eq hk htype
  have hvalue (h : l.number ≤ constantLimit type.size) : l.constant.1 = l.number :=
    hl.constant_of_le hk h
  unfold datum
  rw [if_neg (LexemeKind.ne_quoted_of_isNumeric hk)]
  generalize l.constant = k at hsize hvalue
  obtain ⟨v, size?⟩ := k
  split_ifs with hfits
  · rw [decide_eq_false (by omega)] at hsize
    cases size? with
    | none => cases hsize
    | some size =>
      have hle : ¬type.size < size := by simpa using hsize
      have hv : v = l.number := hvalue hfits
      dsimp only
      rw [if_neg hle, hv]
  · rw [decide_eq_true (by omega)] at hsize
    cases size? with
    | none => exact ⟨_, rfl, rfl⟩
    | some size =>
      have hlt : type.size < size := by simpa using hsize
      dsimp only
      rw [if_pos hlt]
      exact ⟨_, rfl, rfl⟩

end Context

/-- The line is `name DB value`, `name DW value` or `name DD value`, where the value is a number. -/
structure DeclaresNumber (ls : List Lexeme) (type : SymbolType) (value : Lexeme) : Prop where
  words : ∃ name directive, behindLabel ls = [name, directive, value] ∧ name.kind = .identifier ∧
    directive.IsKeyword .dataDirective type.name
  isNumeric : value.kind.isNumeric

/-- The line is `MOV register, immediate`, where the immediate is a number. -/
structure MovesNumber (ls : List Lexeme) (register immediate : Lexeme) : Prop where
  words : ∃ mnemonic comma, behindLabel ls = [mnemonic, register, comma, immediate] ∧
    mnemonic.IsKeyword .mnemonic "MOV" ∧ comma.IsSymbol ","
  isRegister : register.kind = .generalRegister
  isNumeric : immediate.kind.isNumeric

/-- A label is the first lexeme, and two lexemes further on the rest of the line starts. -/
theorem label_operands_cases (ls : List Lexeme) :
    (classify ls).label = none ∧ (classify ls).operands = ls ∨
      (classify ls).label = ls.head? ∧ (classify ls).operands = ls.drop 2 := by
  unfold classify
  dsimp only
  split_ifs
  · exact .inr ⟨rfl, rfl⟩
  · exact .inl ⟨rfl, rfl⟩

section Statements

variable {ls : List Lexeme} (hs : ∀ l ∈ ls, l.Scanned)
include hs

/-- Lexemes with the words of a form are read as that form says. -/
theorem statement?_of_words {f : Form} (hf : f ≠ .assume)
    (hwords : wordsFrom none (behindLabel ls) = f.words.map some) :
    (classify ls).form? = some f ∧
      (classify ls).statement? = Statement.ofLexemes? f (behindLabel ls) := by
  have hkinds : ∀ l ∈ behindLabel ls, l.kind ≠ .invalid :=
    kind_ne_invalid_of_words (by rw [hwords]; simp)
  have hform := (form?_iff_wordsFrom (valid_of_behindLabel hs hkinds) hf).mpr hwords
  refine ⟨hform, ?_⟩
  unfold Classified.statement?
  rw [hform, Option.bind_some, operands_eq_behindLabel hs hf hform]

/-- The label of a line that has a form is the lexeme in front of what the form says. -/
theorem label_classify_iff {f : Form} (hf : f ≠ .assume) (h : (classify ls).form? = some f)
    (label : Lexeme) :
    (classify ls).label = some label ↔ ∃ colon, ls = label :: colon :: behindLabel ls := by
  have hoperands := operands_eq_behindLabel hs hf h
  have hcases := label_operands_cases ls
  rw [hoperands] at hcases
  clear hs h hoperands
  generalize (classify ls).label = label? at hcases ⊢
  constructor
  · rintro rfl
    obtain ⟨hnone, -⟩ | ⟨hhead, hdrop⟩ := hcases
    · cases hnone
    · match ls with
      | [] => cases hhead
      | [l] => cases hdrop
      | l :: colon :: rest =>
        cases hhead
        exact ⟨colon, by rw [hdrop]; rfl⟩
  · rintro ⟨colon, hls⟩
    obtain ⟨-, hall⟩ | ⟨hhead, -⟩ := hcases
    · have hlength := congrArg List.length hls
      rw [hall, List.length_cons, List.length_cons] at hlength
      omega
    · rw [hhead, hls]
      rfl

end Statements

namespace Lexeme

variable {l : Lexeme}

theorem wordBetween_of_numeric (hk : l.kind.isNumeric) (before after : Option Lexeme) :
    l.wordBetween before after = some "CONST" := by
  unfold wordBetween
  cases hkind : l.kind with
  | binary | decimal | hexadecimal => rfl
  | _ =>
    rw [hkind] at hk
    cases hk

theorem IsKeyword.wordBetween_eq {k : LexemeKind} {word : String} (h : l.IsKeyword k word)
    (hk : k ∈ [.mnemonic, .directive, .dataDirective]) (before after : Option Lexeme) :
    l.wordBetween before after = some word := by
  obtain ⟨rfl, rfl⟩ := h
  unfold wordBetween
  simp only [List.mem_cons, List.not_mem_nil, or_false] at hk
  obtain hk | hk | hk := hk <;> rw [hk]

theorem wordBetween_of_identifier (hk : l.kind = .identifier) (before after : Option Lexeme) :
    l.wordBetween before after = some "ID" := by
  unfold wordBetween
  rw [hk]

theorem IsSymbol.wordBetween_eq {text : String} (h : l.IsSymbol text) (before after : Option Lexeme) :
    l.wordBetween before after = some text := by
  unfold wordBetween
  rw [h.1, h.2]

/-- A register is an address only in front of a bracket. -/
theorem wordBetween_of_register (hk : l.kind = .generalRegister) (before : Option Lexeme)
    {next : Lexeme} (hnext : next.text ≠ "]") : l.wordBetween before (some next) = some "reg" := by
  unfold wordBetween
  rw [hk]
  simp [hnext]

/-- There are three data directives. -/
theorem size_mem_of_isKeyword (hl : l.Scanned) {type : SymbolType}
    (h : l.IsKeyword .dataDirective type.name) : type.size ∈ [1, 2, 4] := by
  have hvalid : l.Valid := ⟨hl, by simp [h.1]⟩
  have htoken := hvalid.token_mem
  rw [h.1] at htoken
  simp only [token, h.1, h.2] at htoken
  cases type with
  | label => exact absurd htoken (by decide)
  | _ => decide

end Lexeme

section Words

variable {ls : List Lexeme} (hs : ∀ l ∈ ls, l.Scanned)
include hs

theorem DeclaresNumber.statement {type : SymbolType} {value : Lexeme}
    (h : DeclaresNumber ls type value) :
    type.size ∈ [1, 2, 4] ∧ ∃ name, (classify ls).statement? = some (.data type name value) := by
  obtain ⟨⟨name, directive, hls, hname, hdirective⟩, hvalue⟩ := h
  have hscanned : directive.Scanned :=
    hs _ ((behindLabel_suffix ls).subset (by rw [hls]; simp))
  have htype := Lexeme.size_mem_of_isKeyword hscanned hdirective
  have hwords : wordsFrom none (behindLabel ls) = [some "ID", some type.name, some "CONST"] := by
    rw [hls, wordsFrom, wordsFrom, wordsFrom, wordsFrom, Lexeme.wordBetween_of_identifier hname,
      hdirective.wordBetween_eq (by decide), Lexeme.wordBetween_of_numeric hvalue]
  refine ⟨htype, name, ?_⟩
  have hlabel : type ≠ .label := by
    rintro rfl
    exact absurd htype (by decide)
  rw [← hdirective.dataType_eq hlabel]
  cases type with
  | label => exact absurd rfl hlabel
  | byte =>
    rw [(statement?_of_words hs (f := .dataByte) (by decide) hwords).2, hls]
    rfl
  | word =>
    rw [(statement?_of_words hs (f := .dataWord) (by decide) hwords).2, hls]
    rfl
  | double =>
    rw [(statement?_of_words hs (f := .dataDouble) (by decide) hwords).2, hls]
    rfl

theorem MovesNumber.statement {register immediate : Lexeme}
    (h : MovesNumber ls register immediate) :
    (classify ls).form? = some .mov ∧
      (classify ls).statement? = some (.mov register.register immediate) := by
  obtain ⟨⟨mnemonic, comma, hls, hmnemonic, hcomma⟩, hregister, himmediate⟩ := h
  have hwords : wordsFrom none (behindLabel ls) = Form.mov.words.map some := by
    have hnext : comma.text ≠ "]" := by
      rw [hcomma.2]
      decide
    rw [hls, wordsFrom, wordsFrom, wordsFrom, wordsFrom, wordsFrom,
      hmnemonic.wordBetween_eq (by decide), List.head?_cons, List.head?_cons,
      Lexeme.wordBetween_of_register hregister _ hnext, hcomma.wordBetween_eq,
      Lexeme.wordBetween_of_numeric himmediate]
    rfl
  obtain ⟨hform, hst⟩ := statement?_of_words hs (by decide) hwords
  refine ⟨hform, hst.trans ?_⟩
  rw [hls]
  rfl

end Words

namespace State

variable (s : State) (line : Nat) (text : String) {c : Classified} {l : Lexeme} (hl : l.Scanned)
  (hk : l.kind.isNumeric)
include hl hk

/-- A datum is placed if its number fits, whether or not its name is free. -/
theorem code_of_data {type : SymbolType} {name : Lexeme} (htype : type.size ∈ [1, 2, 4])
    (hst : c.statement? = some (.data type name l)) :
    if l.number ≤ constantLimit type.size then
      (s.record line text c).code = [.value l.number type.size]
    else (s.record line text c).correct = false ∧ (s.record line text c).code = [] := by
  let ds := ((s.labelled line c).declare line name type).2
  generalize he : ((s.labelled line c).context line).datum type l = e
  have hperform : (s.perform line text c).2 = { e with diagnostics := ds ++ e.diagnostics } := by
    have hquoted := LexemeKind.ne_quoted_of_isNumeric hk
    rw [perform_of_statement hst, ← he]
    dsimp only [execute]
    unfold data
    rw [if_neg (by simp [hquoted])]
  have hcode : (s.record line text c).code = e.code := by
    change (s.perform line text c).2.code = e.code
    rw [hperform]
  have hdatum := ((s.labelled line c).context line).datum_cases hl hk htype
  rw [he] at hdatum
  split_ifs at hdatum ⊢
  · rw [hcode, hdatum]
    rfl
  · obtain ⟨d, hd, rfl⟩ := hdatum
    refine ⟨?_, hcode⟩
    rw [← Bool.not_eq_true, correct_record_iff, hperform]
    rintro ⟨-, hnone⟩
    exact List.filter_eq_nil_iff.mp hnone d (List.mem_append_right _ (List.mem_singleton_self d)) hd

/-- A `MOV` is correct if its label is new and its number fits. -/
theorem correct_record_mov {r : Register} (hst : c.statement? = some (.mov r l)) :
    ((s.record line text c).correct ↔
      (∀ label, c.label = some label → s.symbols.get? label.text = none) ∧
        l.number ≤ constantLimit r.size) ∧
      ((s.record line text c).correct → (s.record line text c).code = movCode r l.number) := by
  have hperform : (s.perform line text c).2 =
      .ofExcept (((s.labelled line c).context line).mov r l) := by
    rw [perform_of_statement hst]
    dsimp only [execute]
  have hcode : (s.record line text c).code = (s.perform line text c).2.code := rfl
  rw [correct_record_iff, hcode, hperform, Context.mov_eq _ hl hk]
  split_ifs with hfits
  · simp [Emission.ofExcept, Emission.ofCode, hfits]
  · have herror : (((s.labelled line c).context line).reportAt l
        (.immediateTooLarge l.text r)).isError := rfl
    simp [Emission.ofExcept, Emission.reject, herror, hfits]

end State

section LongS

/-- The label in front of a line, if there is one, is declared by no line before. -/
def HasNewLabel (source : String) (i : Nat) (text : String) : Prop :=
  ∀ label colon, lexemes text = label :: colon :: behindLabel (lexemes text) →
    ∀ earlier ∈ (Text.splitLines source).take i, ¬Declares earlier label.text

/-- The line is a `MOV` of the number to the register: it is correct if its label is new and the number
fits the register, and then its bytes are the opcode for the register and the number. -/
def LineRecord.Moves (line : LineRecord) (newLabel : Prop) (r : Register) (v : Nat) : Prop :=
  (line.correct ↔ newLabel ∧ v ≤ constantLimit r.size) ∧
    (line.correct → IsMov r v line.code.bytes)

theorem IsMov.length_eq {r : Register} {v : Nat} {bytes : List UInt8} (h : IsMov r v bytes) :
    bytes.length = r.size + if r.size = 4 then 2 else 1 := by
  obtain ⟨bs, ⟨hlength, -⟩, rfl⟩ := h
  rw [List.length_append, List.length_cons, hlength]
  split_ifs
  · exact Nat.add_comm _ _
  · exact Nat.zero_add _

/-- No register of one byte has an `S` in its name. -/
theorem Lexeme.Names.size_ne_one {l : Lexeme} {r : Register} (h : l.Names r)
    (hs : 'ſ' ∈ l.text.toList) : r.size ≠ 1 := by
  have hbytes (r : Register) : r.size = 1 → fold 'ſ' ∉ r.name.toList.map fold := by
    cases r <;> decide
  refine fun hsize => hbytes r hsize ?_
  rw [h]
  exact List.mem_map_of_mem hs

theorem constantLimit_one_le (r : Register) : constantLimit 1 ≤ constantLimit r.size := by
  cases r <;> decide

/-- A `MOV` to the first register of one byte passes for one to a larger register only if it is not
correct in either case. -/
theorem LineRecord.Moves.larger_iff {line : LineRecord} {newLabel : Prop} {r : Register} {v : Nat}
    (h : line.Moves newLabel .al v) (hr : r.size ≠ 1) :
    line.Moves newLabel r v ↔ (newLabel → constantLimit r.size < v) := by
  have hle := constantLimit_one_le r
  constructor
  · rintro ⟨hcorrect, hbytes⟩ hnew
    by_contra! hfits
    have hc := hcorrect.mpr ⟨hnew, hfits⟩
    have hlength := (h.2 hc).length_eq.symm.trans (hbytes hc).length_eq
    have hsize := r.size_mem
    simp only [List.mem_cons, List.not_mem_nil, or_false] at hsize
    obtain hsize | hsize | hsize := hsize <;> rw [hsize] at hlength hr
    · exact hr rfl
    · exact absurd hlength (by decide)
    · exact absurd hlength (by decide)
  · intro hlarge
    have hnot : ¬line.correct := by
      intro hc
      obtain ⟨hnew, hfits⟩ := h.1.mp hc
      have hlt := hlarge hnew
      have hone : v ≤ constantLimit 1 := hfits
      omega
    refine ⟨iff_of_false hnot ?_, fun hc => absurd hc hnot⟩
    rintro ⟨hnew, hfits⟩
    have hlt := hlarge hnew
    omega

end LongS

/-- A datum is the number of its constant in as many bytes as its type has, or it is refused and
there are no bytes. A `MOV` is encoded for the register that is named, but for `AL` if the name is
written with a long s; it then is as it should be only if the line is refused for its label or for a
number that is too large for the register. -/
theorem numeric_constants_encoded (source : String) (i : Nat) (text : String)
    (htext : (Text.splitLines source)[i]? = some text) :
    ∃ line, (assemble source).lines[i]? = some line ∧
      (∀ type value, DeclaresNumber (lexemes text) type value →
        if value.number ≤ constantLimit type.size then
          IsLittleEndian type.size value.number line.code.bytes
        else line.correct = false ∧ line.code.bytes = []) ∧
      ∀ register immediate, MovesNumber (lexemes text) register immediate →
        ∃ r, register.Names r ∧
          line.Moves (HasNewLabel source i text)
            (if 'ſ' ∈ register.text.toList then .al else r) immediate.number ∧
          (line.Moves (HasNewLabel source i text) r immediate.number ↔
            ('ſ' ∈ register.text.toList → HasNewLabel source i text →
              constantLimit r.size < immediate.number)) := by
  have hscanned : ∀ l ∈ lexemes text, l.Scanned := Lexeme.scanned_of_mem_lexemes
  have hbehind : ∀ l ∈ behindLabel (lexemes text), l.Scanned := fun l hl =>
    hscanned l ((behindLabel_suffix _).subset hl)
  obtain ⟨line, hline⟩ : ∃ line, (assemble source).lines[i]? = some line := by
    have hlength := State.length_lines {} (Text.splitLines source)
    have hi := (List.getElem?_eq_some_iff.mp htext).1
    exact ⟨_, List.getElem?_eq_getElem (hlength ▸ hi)⟩
  refine ⟨line, hline, fun type value h => ?_, fun register immediate h => ?_⟩
  · obtain ⟨htype, name, hst⟩ := h.statement hscanned
    have hvalue : value.Scanned := by
      obtain ⟨⟨name, directive, hls, -⟩, -⟩ := h
      exact hbehind value (by rw [hls]; simp)
    have hrecord := State.eq_record_of_statement htext hline hst (by simp [Statement.kind])
    have hcode := (State.after {} ((Text.splitLines source).take i)).code_of_data i text hvalue
      h.isNumeric htype hst
    rw [← hrecord] at hcode
    split_ifs at hcode ⊢ with hfits
    · have hbytes : Code.bytes [.value value.number type.size] =
          littleEndian value.number type.size := List.append_nil _
      rw [hcode, hbytes]
      exact isLittleEndian_littleEndian htype hfits
    · rw [hcode.2]
      exact ⟨hcode.1, rfl⟩
  · obtain ⟨hform, hst⟩ := h.statement hscanned
    have hoperands : register.Scanned ∧ immediate.Scanned := by
      obtain ⟨⟨mnemonic, comma, hls, -⟩, -, -⟩ := h
      exact ⟨hbehind register (by rw [hls]; simp), hbehind immediate (by rw [hls]; simp)⟩
    have hrecord := State.eq_record_of_statement htext hline hst (by simp [Statement.kind])
    obtain ⟨hcorrect, hcode⟩ := (State.after {} ((Text.splitLines source).take i)).correct_record_mov
      i text hoperands.2 h.isNumeric hst
    rw [← hrecord] at hcorrect hcode
    have hmoves : line.Moves (HasNewLabel source i text) register.register immediate.number := by
      refine ⟨?_, fun hc => ?_⟩
      · rw [hcorrect]
        simp only [HasNewLabel, label_classify_iff hscanned (by decide) hform,
          get?_after_eq_none_iff, forall_exists_index]
      · rw [hcode hc]
        exact isMov_movCode (hcorrect.mp hc).2
    obtain ⟨r, hr⟩ := Lexeme.exists_names hoperands.1 h.isRegister
    refine ⟨r, hr, ?_⟩
    by_cases hs : 'ſ' ∈ register.text.toList
    · rw [Lexeme.register_of_long_s hs] at hmoves
      rw [if_pos hs, hmoves.larger_iff (hr.size_ne_one hs)]
      exact ⟨hmoves, fun hlarge _ => hlarge, fun hlarge => hlarge hs⟩
    · rw [hr.register_of_no_long_s hs] at hmoves
      rw [if_neg hs]
      exact ⟨hmoves, iff_of_true hmoves fun hs' => absurd hs' hs⟩

/-- The largest number of a wide register behind a label, and the smallest one that is no word. -/
theorem numeric_constants_encoded_at_limits :
    let source := "a: mov Esi, 7fffFFFFh\nx dw 10000h"
    let register : Lexeme := ⟨"Esi", .generalRegister, 7⟩
    let immediate : Lexeme := ⟨"7fffFFFFh", .hexadecimal, 12⟩
    let value : Lexeme := ⟨"10000h", .hexadecimal, 5⟩
    (Text.splitLines source)[0]? = some "a: mov Esi, 7fffFFFFh" ∧
      (Text.splitLines source)[1]? = some "x dw 10000h" ∧
      MovesNumber (lexemes "a: mov Esi, 7fffFFFFh") register immediate ∧
      DeclaresNumber (lexemes "x dw 10000h") .word value ∧
      (∃ line, (assemble source).lines[0]? = some line ∧ line.correct ∧
        IsMov .esi 2147483647 line.code.bytes) ∧
      ∃ line, (assemble source).lines[1]? = some line ∧ line.correct = false ∧
        line.code.bytes = [] := by
  intro source register immediate value
  have hfacts : (Text.splitLines source)[0]? = some "a: mov Esi, 7fffFFFFh" ∧
      (Text.splitLines source)[1]? = some "x dw 10000h" ∧
      behindLabel (lexemes "a: mov Esi, 7fffFFFFh") =
        [⟨"mov", .mnemonic, 3⟩, register, ⟨",", .symbol, 10⟩, immediate] ∧
      behindLabel (lexemes "x dw 10000h") =
        [⟨"x", .identifier, 0⟩, ⟨"dw", .dataDirective, 2⟩, value] ∧
      immediate.number = 2147483647 ∧ value.number = 65536 := by
    decide +kernel
  obtain ⟨htext, htext', hmov, hdata, hnumber, hnumber'⟩ := hfacts
  have hmoves : MovesNumber (lexemes "a: mov Esi, 7fffFFFFh") register immediate :=
    ⟨⟨_, _, hmov, ⟨rfl, by decide⟩, ⟨rfl, rfl⟩⟩, rfl, rfl⟩
  have hdeclares : DeclaresNumber (lexemes "x dw 10000h") .word value :=
    ⟨⟨_, _, hdata, rfl, ⟨rfl, by decide⟩⟩, rfl⟩
  refine ⟨htext, htext', hmoves, hdeclares, ?_, ?_⟩
  · obtain ⟨line, hline, -, hencoded⟩ := numeric_constants_encoded source 0 _ htext
    obtain ⟨r, hr, ⟨hcorrect, hbytes⟩, -⟩ := hencoded register immediate hmoves
    rw [if_neg (by decide)] at hcorrect hbytes
    obtain rfl : r = .esi := Register.eq_of_fold_name (hr.trans (by decide))
    have hc : line.correct := hcorrect.mpr ⟨fun _ _ _ _ hmem => absurd hmem List.not_mem_nil, by
      rw [hnumber]
      decide⟩
    exact ⟨line, hline, hc, hnumber ▸ hbytes hc⟩
  · obtain ⟨line, hline, hencoded, -⟩ := numeric_constants_encoded source 1 _ htext'
    have hrefused := hencoded .word value hdeclares
    rw [hnumber', if_neg (by decide)] at hrefused
    exact ⟨line, hline, hrefused⟩

/-- With a long s the name of `SI` stands for `AL`, which 300 is too large for. -/
theorem mov_refused_for_long_s :
    let register : Lexeme := ⟨"ſi", .generalRegister, 4⟩
    let immediate : Lexeme := ⟨"300", .decimal, 9⟩
    lexemes "MOV ſi, 300" = [⟨"MOV", .mnemonic, 0⟩, register, ⟨",", .symbol, 7⟩, immediate] ∧
      register.Names .si ∧ immediate.number ≤ constantLimit Register.si.size ∧
      (assemble "MOV ſi, 300").lines.map LineRecord.correct = [false] ∧
      (assemble "MOV SI, 300").lines.map (·.code.bytes) = [[0xbe, 0x2c, 0x01]] ∧
      (assemble "MOV ſi, 5").lines.map (·.code.bytes) = [[0xb0, 0x05]] := by
  unfold Lexeme.Names
  decide +kernel

end SegAsm
