import Mathlib.Data.List.Nodup
import SegAsm.Proofs.MemoryAccess
import SegAsm.Proofs.Range

/-! Instructions on two registers. The encoder puts the second register into the operand byte under the
number that it has as the base of an address, and the processor takes it for a register number. -/
namespace SegAsm

open Text

namespace Register

theorem mem_all (r : Register) : r ∈ all := by
  cases r <;> decide

theorem eq_of_fold_name {r s : Register} (h : r.name.toList.map fold = s.name.toList.map fold) :
    r = s := by
  have hnodup : (all.map fun r => r.name.toList.map fold).Nodup := by decide
  exact List.inj_on_of_nodup_map hnodup (mem_all r) (mem_all s) h

theorem lower_name (r : Register) : r.name.toList.map lower = r.name.toList.map fold := by
  cases r <;> decide

theorem fold_name_ascii (r : Register) : (r.name.toList.map fold).all (·.toNat < 128) := by
  cases r <;> decide

/-- Lower case keeps the long s, so that a name with one is found nowhere. -/
theorem ofName?_of_long_s {text : String} (h : 'ſ' ∈ text.toList) : ofName? text = none := by
  rw [ofName?, List.find?_eq_none]
  intro r _ heq
  have hlower := String.ofList_injective (beq_iff_eq.mp heq)
  rw [lower_name] at hlower
  have hmem : lower 'ſ' ∈ r.name.toList.map fold := by
    rw [hlower]
    exact List.mem_map_of_mem h
  exact absurd (List.all_eq_true.mp r.fold_name_ascii _ hmem) (by decide)

/-- What is found nowhere stands for `AL`. -/
theorem ofOperand_of_long_s {text : String} (h : 'ſ' ∈ text.toList) : ofOperand text = .al := by
  rw [ofOperand, ofName?_of_long_s h, Option.getD_none]

end Register

namespace Lexeme

/-- The lexeme is the name of the register, up to case folding. -/
def Names (l : Lexeme) (r : Register) : Prop :=
  r.name.toList.map fold = l.text.toList.map fold

variable {l : Lexeme} {r : Register}

theorem exists_names (hl : l.Scanned) (hk : l.kind = .generalRegister) : ∃ r, l.Names r := by
  have hnames : ∀ x ∈ LexemeKind.generalRegisterWords, ∃ r ∈ Register.all,
      r.name.toList.map fold = x.toList := by
    decide
  have haccepts := hl.accepts
  rw [hk] at haccepts
  obtain ⟨x, hx, heq⟩ := List.any_eq_true.mp haccepts
  obtain ⟨r, -, hfold⟩ := hnames x hx
  exact ⟨r, hfold.trans (beq_iff_eq.mp heq)⟩

theorem register_of_long_s (h : 'ſ' ∈ l.text.toList) : l.register = .al :=
  Register.ofOperand_of_long_s h

theorem Names.ofName?_of_no_long_s (h : l.Names r) (hs : 'ſ' ∉ l.text.toList) :
    Register.ofName? l.text = some r := by
  have hlower : l.text.toList.map lower = l.text.toList.map fold := by
    refine map_lower_of_fold ?_ hs
    rw [← h]
    exact r.fold_name_ascii
  have hfound : (fun r' : Register => lowerString r'.name == lowerString l.text) =
      fun r' => decide (r' = r) := by
    funext r'
    unfold lowerString
    rw [Bool.eq_iff_iff, beq_iff_eq, String.ofList_inj, Register.lower_name, hlower, ← h,
      decide_eq_true_eq]
    exact ⟨Register.eq_of_fold_name, fun heq => heq ▸ rfl⟩
  rw [Register.ofName?, hfound]
  cases r <;> rfl

theorem Names.register_of_no_long_s (h : l.Names r) (hs : 'ſ' ∉ l.text.toList) :
    l.register = r := by
  unfold register Register.ofOperand
  rw [h.ofName?_of_no_long_s hs, Option.getD_some]

/-- A name stands for its register unless a long s is in it. -/
theorem Names.register_eq_iff (h : l.Names r) : l.register = r ↔ 'ſ' ∉ l.text.toList := by
  refine ⟨fun heq hs => ?_, h.register_of_no_long_s⟩
  have hmem : fold 'ſ' ∈ r.name.toList.map fold := by
    rw [h]
    exact List.mem_map_of_mem hs
  rw [← heq, register_of_long_s hs] at hmem
  exact absurd hmem (by decide)

end Lexeme

/-- The code of an `OR` of registers of the same size. -/
def orCode (r s : Register) : Code :=
  (if r.isWide then [.operandSize] else []) ++
    .byte (if r.size = 1 then 0x0a else 0x0b) :: operandBytes r.number s false

/-- What the processor takes the second register for. -/
def Register.direct (s : Register) : Register :=
  (ofNumber? s.size (baseNumber s)).getD s

namespace Decoder

theorem register_baseNumber (s : Register) : register s.size (baseNumber s) = .ok s.direct := by
  cases s <;> rfl

theorem twoRegisters_operandBytes {r s : Register} (hsize : r.size = s.size) :
    twoRegisters r.size (operandBytes r.number s false).bytes =
      .ok ((r, s.direct), if s = .esp then [0x24] else []) := by
  have hnumber : r.number < 8 := Nat.mod_lt _ (by decide)
  have hbase := baseNumber_lt s
  rw [bytes_operandBytes hnumber]
  generalize hn : 192 + 8 * r.number + baseNumber s = n
  have hbyte : (UInt8.ofNat n).toNat = n := by
    rw [UInt8.toNat_ofNat']
    omega
  have hmode : (n / 64 != 3) = false := by
    rw [bne_eq_false_iff_eq]
    omega
  have hmiddle : n / 8 % 8 = r.number := by omega
  have hlow : n % 8 = baseNumber s := by omega
  have hsecond : register r.size (baseNumber s) = .ok s.direct := by
    rw [hsize, register_baseNumber]
  unfold twoRegisters
  simp only [byte, bind, Except.bind, Bool.false_eq_true, if_false, hn, hbyte, hmode, hmiddle, hlow,
    register_number, hsecond]
  rfl

theorem operation_orByte (l : Leading) (bs : List UInt8) :
    operation l (0x0a :: bs) = twoRegisters 1 bs >>= fun x => .ok (.or x.1.1 x.1.2, x.2) := rfl

theorem operation_or (l : Leading) (bs : List UInt8) :
    operation l (0x0b :: bs) =
      twoRegisters (if l.operandSize then 4 else 2) bs >>= fun x => .ok (.or x.1.1 x.1.2, x.2) := rfl

end Decoder

theorem size_or_two_or_four {r : Register} (h : r.size ≠ 1) :
    (if r.isWide then 4 else 2) = r.size := by
  cases r <;> first | rfl | exact absurd rfl h

/-- The processor finds the first register and, in the place of the second one, what that stands for
in an address; the scale byte of `ESP` is left over. -/
theorem decode_orCode {r s : Register} (hsize : r.size = s.size) :
    decode (orCode r s).bytes =
      .ok (⟨{ operandSize := r.isWide }, .or r s.direct⟩, if s = .esp then [0x24] else []) := by
  let leading : Leading := { operandSize := r.isWide }
  have hcode : orCode r s = leading.code ++
      .byte (if r.size = 1 then 0x0a else 0x0b) :: operandBytes r.number s false := by
    simp [orCode, Leading.code, leading]
  have hoperands := Decoder.twoRegisters_operandBytes hsize
  rw [hcode, Code.bytes_append, Code.bytes_cons]
  by_cases hone : r.size = 1
  · rw [hone] at hoperands
    have hoperation : Decoder.operation leading (0x0a :: (operandBytes r.number s false).bytes) =
        .ok (.or r s.direct, if s = .esp then [0x24] else []) := by
      rw [Decoder.operation_orByte, hoperands]
      rfl
    rw [if_pos hone]
    exact decode_of_operation (by decide) hoperation
  · rw [← size_or_two_or_four hone] at hoperands
    have hoperation : Decoder.operation leading (0x0b :: (operandBytes r.number s false).bytes) =
        .ok (.or r s.direct, if s = .esp then [0x24] else []) := by
      rw [Decoder.operation_or, hoperands]
      rfl
    rw [if_neg hone]
    exact decode_of_operation (by decide) hoperation

theorem Context.or_eq (cx : Context) (first second : Lexeme) :
    cx.or first second =
      if first.register.size = second.register.size then
        .ok (.ofCode (orCode first.register second.register))
      else .error ⟨.ofLexemes cx.line first second,
        .registerSizeMismatch first.register second.register⟩ := by
  unfold or orCode
  by_cases hsize : first.register.size = second.register.size
  · have hsame : (first.register.size != second.register.size) = false := by simp [hsize]
    simp only [hsame, if_pos hsize, List.append_assoc, List.singleton_append]
    rfl
  · have hother : (first.register.size != second.register.size) = true := by simp [hsize]
    simp only [hother, if_neg hsize]
    rfl

theorem State.orCode_of_correct {s : State} {line : Nat} {text : String} {c : Classified}
    {first second : Lexeme} (hst : c.statement? = some (.or first second))
    (hcorrect : (s.record line text c).correct) :
    first.register.size = second.register.size ∧
      (s.record line text c).code = orCode first.register second.register := by
  generalize hx : ((s.labelled line c).context line).or first second = x
  have hperform : (s.perform line text c).2 = .ofExcept x := by
    rw [perform_of_statement hst, ← hx]
    dsimp only [execute]
  rw [Context.or_eq] at hx
  split_ifs at hx with hsize
  · subst hx
    obtain ⟨e, he, hcode, -⟩ := exists_emission_of_correct hperform (by simp) hcorrect
    rw [← Except.ok.inj he] at hcode
    exact ⟨hsize, hcode⟩
  · have herror : ∀ d, x = .error d → d.isError := by
      intro d hd
      rw [← Except.error.inj (hx.trans hd)]
      rfl
    obtain ⟨e, he, -⟩ := exists_emission_of_correct hperform herror hcorrect
    simp only [he, reduceCtorEq] at hx

/-- The registers that have the same number in an operand byte and as the base of an address, and no
scale byte behind them. -/
def Register.isDirect (s : Register) : Bool :=
  s == .al || s == .ax || (s.isWide && s != .esp)

theorem Register.direct_eq_iff (s : Register) : s.direct = s ∧ s ≠ .esp ↔ s.isDirect := by
  cases s <;> decide

theorem Statement.ReadFrom.or_kinds {first second : Lexeme} {os : List Lexeme}
    (h : (Statement.or first second).ReadFrom os) :
    first.kind = .generalRegister ∧ second.kind = .generalRegister := by
  cases h with
  | or _ hfirst _ hsecond => exact ⟨hfirst, hsecond⟩

/-- A second register that is read back is the one that was meant: a name that stands for `AL` by
default is read as `AL`. -/
theorem Lexeme.Names.register_eq_of_direct {l : Lexeme} {s : Register} (h : l.Names s)
    (hdirect : l.register.direct = s) : l.register = s := by
  by_cases hs : 'ſ' ∈ l.text.toList
  · rw [register_of_long_s hs] at hdirect ⊢
    exact hdirect
  · exact h.register_of_no_long_s hs

/-- On a correct line the processor finds the first register at its width, and behind it the second one
exactly if that is `AL`, `AX` or a wide register other than `ESP`. -/
theorem or_line_decodes_iff (source : String) (i : Nat) (text : String) (line : LineRecord)
    (first second : Lexeme) (htext : (Text.splitLines source)[i]? = some text)
    (h : (assemble source).lines[i]? = some line)
    (hst : (classify (lexemes text)).statement? = some (.or first second))
    (hcorrect : line.correct) :
    ∃ r s, first.Names r ∧ second.Names s ∧
      decode line.code.bytes =
        .ok (⟨{ operandSize := first.register.isWide }, .or first.register second.register.direct⟩,
          if second.register = .esp then [0x24] else []) ∧
      (decode line.code.bytes = .ok (⟨{ operandSize := r.isWide }, .or r s⟩, []) ↔
        'ſ' ∉ first.text.toList ∧ 'ſ' ∉ second.text.toList ∧ s.isDirect) := by
  have hscanned : ∀ l ∈ lexemes text, l.Scanned := Lexeme.scanned_of_mem_lexemes
  have hkinds := (readFrom_of_statement? hscanned hst).or_kinds
  have hmem : [first, second] ⊆ lexemes text := by
    have hsub := label_statement_sublist hscanned
    rw [hst] at hsub
    exact fun l hl => hsub.subset (List.mem_append_right _ hl)
  obtain ⟨r, hr⟩ := Lexeme.exists_names (hscanned first (hmem (by simp))) hkinds.1
  obtain ⟨s, hs⟩ := Lexeme.exists_names (hscanned second (hmem (by simp))) hkinds.2
  obtain rfl := State.eq_record_of_statement htext h hst (by simp [Statement.kind])
  obtain ⟨hsize, hcode⟩ := State.orCode_of_correct hst hcorrect
  rw [hcode, decode_orCode hsize]
  refine ⟨r, s, hr, hs, rfl, ?_⟩
  rw [← hr.register_eq_iff, ← hs.register_eq_iff, ← s.direct_eq_iff]
  constructor
  · intro heq
    simp only [Except.ok.injEq, Prod.mk.injEq, Instruction.mk.injEq, Operation.or.injEq,
      ite_eq_right_iff, List.cons_ne_nil, imp_false] at heq
    obtain ⟨⟨-, hfirst, hdirect⟩, hesp⟩ := heq
    have hsecond := hs.register_eq_of_direct hdirect
    rw [hsecond] at hdirect hesp
    exact ⟨hfirst, hsecond, hdirect, hesp⟩
  · rintro ⟨hfirst, hsecond, hdirect, hesp⟩
    rw [hfirst, hsecond, hdirect, if_neg hesp]

/-- A label in front, lower case, and the last register of its size. -/
theorem or_line_decodes_wide :
    let source := "a: or ecx, edi"
    let first : Lexeme := ⟨"ecx", .generalRegister, 6⟩
    let second : Lexeme := ⟨"edi", .generalRegister, 11⟩
    let line : LineRecord :=
      ⟨source, 1, .instructions, 0, "NOTHING", [.operandSize, .byte 0x0b, .byte 0xcf], [], none⟩
    (Text.splitLines source)[0]? = some source ∧ (assemble source).lines[0]? = some line ∧
      (classify (lexemes source)).statement? = some (.or first second) ∧ line.correct ∧
      ∃ r s, first.Names r ∧ second.Names s ∧
        decode line.code.bytes = .ok (⟨{ operandSize := r.isWide }, .or r s⟩, []) := by
  intro source first second line
  have hfacts : (Text.splitLines source)[0]? = some source ∧
      (assemble source).lines[0]? = some line ∧
      (classify (lexemes source)).statement? = some (.or first second) := by
    decide +kernel
  obtain ⟨htext, hline, hst⟩ := hfacts
  obtain ⟨r, s, hr, hs, -, hdecode⟩ :=
    or_line_decodes_iff source 0 source line first second htext hline hst rfl
  have hsecond : s = .edi := (hs.register_of_no_long_s (by decide)).symm.trans (by decide)
  refine ⟨htext, hline, hst, rfl, r, s, hr, hs, hdecode.mpr ⟨by decide, by decide, ?_⟩⟩
  rw [hsecond]
  decide

/-- `BX` is written as the base that it is in an address, and read as `DI`. -/
theorem or_line_of_base :
    let source := "OR AX, BX"
    let line : LineRecord :=
      ⟨source, 1, .instructions, 0, "NOTHING", [.byte 0x0b, .byte 0xc7], [], none⟩
    (assemble source).lines[0]? = some line ∧ line.correct ∧
      (classify (lexemes source)).statement? =
        some (.or ⟨"AX", .generalRegister, 3⟩ ⟨"BX", .generalRegister, 7⟩) ∧
      decode line.code.bytes = .ok (⟨{}, .or .ax .di⟩, []) ∧
      decode line.code.bytes ≠ .ok (⟨{}, .or .ax .bx⟩, []) := by
  decide +kernel

end SegAsm
