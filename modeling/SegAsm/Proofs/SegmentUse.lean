import SegAsm.Proofs.MemoryAccess

/-! The segment that an access goes to. Without an override of its own, a line leaves the choice to the
assumptions: the processor then uses a register that is assumed to address the segment of the symbol,
unless that is `DS` and the base is one of the stack. -/
namespace SegAsm

/-- The segment register that the processor uses for an access with such code. -/
def usedSegment (bytes : List UInt8) (base : Register) : SegmentRegister :=
  (Leading.read {} bytes).1.override.getD base.defaultSegment

/-- The register is assumed to address the segment. -/
def AssumeTable.Maps (t : AssumeTable) (r : SegmentRegister) (segment : String) : Prop :=
  Text.sameFold (t.get r) segment

instance (t : AssumeTable) (r : SegmentRegister) (segment : String) :
    Decidable (t.Maps r segment) :=
  inferInstanceAs (Decidable (_ = true))

namespace AssumeTable

variable {t : AssumeTable} {segment : String}

theorem maps_of_holding? {r : SegmentRegister} (h : t.holding? segment = some r) :
    t.Maps r segment :=
  List.find?_some (p := fun r => Text.sameFold (t.get r) segment) h

/-- `SS` comes before `DS`, so it is not assumed where `DS` is the first to be. -/
theorem not_maps_ss (h : t.holding? segment = some .ds) : ¬ t.Maps .ss segment := by
  intro hss
  unfold Maps at hss
  unfold holding? SegmentRegister.all at h
  simp only [List.find?_cons, hss] at h
  split at h
  · cases h
  · split at h <;> cases h

/-- The register that goes with the first one that is assumed, `DS` being left to the default. -/
theorem maps_default_iff {first : SegmentRegister} (h : t.holding? segment = some first)
    (base : Register) :
    t.Maps (if first = .ds then base.defaultSegment else first) segment ↔
      ¬(first = .ds ∧ base.defaultSegment = .ss) := by
  have hmaps := maps_of_holding? h
  by_cases hds : first = .ds
  · subst hds
    rw [if_pos rfl]
    by_cases hss : base.defaultSegment = .ss
    · rw [hss]
      exact iff_of_false (not_maps_ss h) (not_not.mpr ⟨rfl, rfl⟩)
    · have hdefault : base.defaultSegment = .ds := by
        unfold Register.defaultSegment at hss ⊢
        split_ifs at hss ⊢
        · exact absurd rfl hss
        · rfl
      rw [hdefault]
      exact iff_of_true hmaps (by decide)
  · rw [if_neg hds]
    exact iff_of_true hmaps fun hboth => hds hboth.1

end AssumeTable

theorem accessCode_eq_cons {st : Statement} {m : MemoryOperand} (hm : st.memory? = some m)
    (s : Symbol) : ∃ b code, st.accessCode s = .byte b :: code ∧ Leading.isOpcode b := by
  cases st <;> simp only [Statement.memory?, Option.some.injEq, reduceCtorEq] at hm
  case inc => exact ⟨_, _, rfl, by decide⟩
  case add =>
    unfold Statement.accessCode
    dsimp only
    split_ifs <;> exact ⟨_, _, rfl, by decide⟩
  case cmp =>
    unfold Statement.accessCode
    split_ifs <;> exact ⟨_, _, rfl, by decide⟩
  case xor =>
    unfold Statement.accessCode
    split_ifs <;> exact ⟨_, _, rfl, by decide⟩

/-- The override that is emitted is the one that the processor finds. -/
theorem usedSegment_access {st : Statement} {m : MemoryOperand} (hm : st.memory? = some m)
    (s : Symbol) (override : Option SegmentRegister) :
    usedSegment ((m.leading s override).code ++ st.accessCode s).bytes m.base =
      override.getD m.base.defaultSegment := by
  obtain ⟨b, code, hcode, hb⟩ := accessCode_eq_cons hm s
  unfold usedSegment
  rw [hcode, Code.bytes_append, Code.bytes_cons]
  change Option.getD (Leading.read {} (_ ++ b :: _)).1.override _ = _
  rw [Leading.read_code _ hb]
  rfl

theorem kind_of_memory? {st : Statement} {m : MemoryOperand} (hm : st.memory? = some m) :
    st.kind = .instructions := by
  cases st with
  | inc | add | cmp | xor => rfl
  | _ => cases hm

/-- A line without an override of its own uses the first register that is assumed to address the
segment of the symbol, or the default of the base if that is `DS`. So it uses a register that is
assumed to address the segment, unless that first register is `DS` and the base goes with `SS`. -/
theorem usedSegment_maps_iff (source : String) (i : Nat) (text : String) (r : LineRecord)
    (st : Statement) (m : MemoryOperand) (htext : (Text.splitLines source)[i]? = some text)
    (h : (assemble source).lines[i]? = some r)
    (hst : (classify (lexemes text)).statement? = some st) (hm : st.memory? = some m)
    (hnone : m.override = none) (hcorrect : r.correct) :
    m.WrittenIn (classify (lexemes text)).operands ∧
      ∃ symbol first,
        let table := (State.after {} ((Text.splitLines source).take i)).assumes
        (assemble source).symbols.get? m.name.text = some symbol ∧
        table.holding? symbol.segment = some first ∧
        usedSegment r.code.bytes m.base = (if first = .ds then m.base.defaultSegment else first) ∧
        (table.Maps (usedSegment r.code.bytes m.base) symbol.segment ↔
          ¬(first = .ds ∧ m.base.defaultSegment = .ss)) := by
  have hkind : (classify (lexemes text)).kind = .instructions :=
    (kind_of_statement? hst).trans (kind_of_memory? hm)
  have hr := State.eq_of_getElem?_lines htext h
  rw [State.resolveJump_of_not (by rw [State.record_kind, hkind]; simp)] at hr
  rw [hr] at hcorrect ⊢
  obtain ⟨symbol, override, hsymbol, hoverride, -, hcode⟩ := State.access_of_correct hst hm hcorrect
  rw [← State.after_take_succ htext] at hsymbol
  unfold MemoryOperand.OverrideIs at hoverride
  rw [hnone] at hoverride
  obtain ⟨first, hfirst, rfl⟩ := hoverride
  have hused : Option.getD (if first = .ds then none else some first) m.base.defaultSegment =
      if first = .ds then m.base.defaultSegment else first := by
    split_ifs <;> rfl
  refine ⟨writtenIn_operands Lexeme.scanned_of_mem_lexemes hst hm, symbol, first, ?_, hfirst, ?_⟩
  · rw [symbols_assemble]
    exact State.get?_after_of_take hsymbol
  · rw [hcode, usedSegment_access hm, hused]
    exact ⟨rfl, AssumeTable.maps_default_iff hfirst m.base⟩

theorem usedSegment_maps_extra :
    let source := "D SEGMENT\nX DD 5\nASSUME ES:D, DS:D\nXOR X[ESP], EAX"
    let text := "XOR X[ESP], EAX"
    let m : MemoryOperand := ⟨none, ⟨"X", .identifier, 4⟩, .esp⟩
    let st : Statement := .xor m ⟨"EAX", .generalRegister, 12⟩
    let r : LineRecord :=
      ⟨text, 4, .instructions, 4, "D",
        [.operandSize, .override .es, .addressSize, .byte 0x31, .byte 0x84, .byte 0x24, .value 0 4],
        [], none⟩
    let table := (State.after {} ((Text.splitLines source).take 3)).assumes
    (Text.splitLines source)[3]? = some text ∧ (assemble source).lines[3]? = some r ∧
      (classify (lexemes text)).statement? = some st ∧ st.memory? = some m ∧ m.override = none ∧
      r.correct ∧
      ∃ symbol, (assemble source).symbols.get? "X" = some symbol ∧
        table.Maps (usedSegment r.code.bytes m.base) symbol.segment := by
  intro source text m st r table
  have hfacts : (Text.splitLines source)[3]? = some text ∧ (assemble source).lines[3]? = some r ∧
      (classify (lexemes text)).statement? = some st ∧
      ∀ symbol ∈ ((assemble source).symbols : List Symbol),
        table.holding? symbol.segment = some .es := by
    decide +kernel
  obtain ⟨htext, hr, hst, hholding⟩ := hfacts
  obtain ⟨-, symbol, first, hsymbol, hfirst, -, hmaps⟩ :=
    usedSegment_maps_iff source 3 text r st m htext hr hst rfl rfl rfl
  have hes : first = .es := by
    have hheld := hholding symbol (List.mem_of_find?_eq_some hsymbol)
    rw [hfirst] at hheld
    exact Option.some.inj hheld
  refine ⟨htext, hr, hst, rfl, rfl, rfl, symbol, hsymbol, hmaps.mpr fun h => ?_⟩
  rw [hes] at h
  exact absurd h.1 (by decide)

/-- With a base of the stack the assumption on `DS` is not enough: no override is emitted, and the
processor uses `SS`, about which nothing is assumed. -/
theorem usedSegment_of_stack_base :
    let source := "D SEGMENT\nX DB 1\nASSUME DS:D\nINC X[BP]"
    let text := "INC X[BP]"
    let m : MemoryOperand := ⟨none, ⟨"X", .identifier, 4⟩, .bp⟩
    let r : LineRecord :=
      ⟨text, 4, .instructions, 1, "D", [.byte 0xfe, .byte 0x86, .value 0 2], [], none⟩
    let table := (State.after {} ((Text.splitLines source).take 3)).assumes
    (Text.splitLines source)[3]? = some text ∧ (assemble source).lines[3]? = some r ∧
      (classify (lexemes text)).statement? = some (.inc ⟨"INC", .mnemonic, 0⟩ m) ∧ r.correct ∧
      ((assemble source).symbols.get? "X").map Symbol.segment = some "D" ∧
      usedSegment r.code.bytes m.base = .ss ∧ ¬ table.Maps .ss "D" ∧ table.Maps .ds "D" := by
  decide +kernel

end SegAsm
