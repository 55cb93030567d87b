import SegAsm.Proofs.Decode
import SegAsm.Proofs.SecondPass

/-! Instructions on memory: what the processor finds in the bytes of a correct line is what the line
says about the symbol, the base and the segment. -/
namespace SegAsm

/-- What stands in front of the opcode of an access. -/
def MemoryOperand.leading (m : MemoryOperand) (s : Symbol) (override : Option SegmentRegister) :
    Leading :=
  { operandSize := s.type = .double, addressSize := m.base.isWide, override }

/-- The value that an addition to a datum adds: a byte as it is, a short immediate with its sign, any
other one cut to the size of the datum. -/
def addedValue (type : SymbolType) (immediate : Lexeme) : Int :=
  let (v, size?) := immediate.constant
  if type = .byte then v % 256
  else if size? = some 1 then v.bmod 256
  else v.bmod (256 ^ type.size)

namespace Statement

/-- The operation that a statement with a memory operand asks for. -/
def operation? (s : Symbol) : Statement → Option Operation
  | .inc _ m => some (.inc (Decoder.memoryAt s m))
  | .add m immediate => some (.add s.type.size (Decoder.memoryAt s m) (addedValue s.type immediate))
  | .cmp register m => some (.cmp register.register (Decoder.memoryAt s m))
  | .xor m register => some (.xor (Decoder.memoryAt s m) register.register)
  | _ => none

/-- The size of the register has to be that of the datum. -/
def Fits (s : Symbol) : Statement → Prop
  | .cmp register _ | .xor _ register => s.type.size = register.register.size
  | _ => True

/-- The code of an access from the opcode on. -/
def accessCode (s : Symbol) : Statement → Code
  | .inc _ m => .byte 0xfe :: memoryFields 0 s m
  | .add m immediate =>
    let (v, size?) := immediate.constant
    if s.type = .byte then .byte 0x80 :: (memoryFields 0 s m ++ [.value v 1])
    else if size? = some 1 then .byte 0x83 :: (memoryFields 0 s m ++ [.value v 1])
    else .byte 0x81 :: (memoryFields 0 s m ++ [.value v s.type.size])
  | .cmp register m =>
    .byte (if s.type = .byte then 0x3a else 0x3b) :: memoryFields register.register.number s m
  | .xor m register =>
    .byte (if s.type = .byte then 0x30 else 0x31) :: memoryFields register.register.number s m
  | _ => []

end Statement

namespace Context

variable {cx : Context} {m : MemoryOperand} {st : Statement}

/-- Both outcomes of an access: an error, or its code for the symbol and the override. -/
def Accesses (cx : Context) (m : MemoryOperand) (st : Statement)
    (result : Except Diagnostic Emission) : Prop :=
  match result with
  | .error d => d.isError
  | .ok e =>
    ∃ s override, cx.symbols.get? m.name.text = some s ∧ cx.overrideOf s m = .ok override ∧
      st.Fits s ∧ e.code = (m.leading s override).code ++ st.accessCode s

theorem accesses_resolve {k : Symbol → Except Diagnostic Emission}
    (hk : ∀ s, cx.symbols.get? m.name.text = some s → cx.Accesses m st (k s)) :
    cx.Accesses m st (cx.resolve m >>= k) := by
  unfold resolve
  cases h : cx.symbols.get? m.name.text with
  | some s => exact hk s h
  | none => rfl

theorem isError_of_overrideOf {s : Symbol} {d : Diagnostic} (h : cx.overrideOf s m = .error d) :
    d.isError := by
  unfold overrideOf at h
  split at h
  · cases h
  · split at h <;> cases h
    rfl

theorem leadingFields_of_overrideOf {s : Symbol} {override : Option SegmentRegister}
    (h : cx.overrideOf s m = .ok override) :
    cx.leadingFields s m = .ok (m.leading s override).code := by
  unfold leadingFields
  rw [h]
  simp only [Leading.code, MemoryOperand.leading, decide_eq_true_eq]
  rfl

theorem accesses_leadingFields {s : Symbol} {k : Code → Except Diagnostic Emission}
    (hk : ∀ override, cx.overrideOf s m = .ok override →
      cx.Accesses m st (k (m.leading s override).code)) :
    cx.Accesses m st (cx.leadingFields s m >>= k) := by
  cases h : cx.overrideOf s m with
  | ok override =>
    rw [leadingFields_of_overrideOf h]
    exact hk override h
  | error d =>
    unfold leadingFields
    rw [h]
    exact isError_of_overrideOf h

theorem accesses_inc (mnemonic : Lexeme) : cx.Accesses m (.inc mnemonic m) (cx.inc mnemonic m) := by
  unfold inc
  refine accesses_resolve fun s hs => accesses_leadingFields fun override ho => ?_
  refine ⟨s, override, hs, ho, trivial, ?_⟩
  simp only [Statement.accessCode, List.append_assoc, List.singleton_append]

theorem accesses_memoryRegister {byteOpcode opcode : UInt8} {register : Lexeme}
    (hfits : ∀ s, s.type.size = register.register.size → st.Fits s)
    (hcode : ∀ s, st.accessCode s =
      .byte (if s.type = .byte then byteOpcode else opcode) ::
        memoryFields register.register.number s m) :
    cx.Accesses m st (cx.memoryRegister byteOpcode opcode m register) := by
  unfold memoryRegister
  refine accesses_resolve fun s hs => ?_
  by_cases hsize : s.type.size = register.register.size
  · have hsame : (s.type.size != register.register.size) = false := by simp [hsize]
    simp only [hsame]
    refine accesses_leadingFields fun override ho => ?_
    refine ⟨s, override, hs, ho, hfits s hsize, ?_⟩
    simp only [hcode, Emission.ofCode, List.append_assoc, List.singleton_append]
  · have hother : (s.type.size != register.register.size) = true := by simp [hsize]
    simp only [hother]
    rfl

theorem accesses_add (immediate : Lexeme) : cx.Accesses m (.add m immediate) (cx.add m immediate) := by
  unfold add
  refine accesses_resolve fun s hs => accesses_leadingFields fun override ho => ?_
  by_cases hnumeric : immediate.kind.isNumeric
  · simp only [hnumeric]
    refine ⟨s, override, hs, ho, trivial, ?_⟩
    by_cases hshort : immediate.constant.2 = some 1
    · cases htype : s.type <;> simp [Statement.accessCode, htype, hshort, SymbolType.size]
    · cases htype : s.type <;> simp [Statement.accessCode, htype, hshort, SymbolType.size]
  · simp only [hnumeric]
    rfl

theorem accesses_execute (s : State) (line : Nat) (hm : st.memory? = some m) :
    ∃ result, (s.execute line st).2 = .ofExcept result ∧
      (s.context line).Accesses m st result := by
  cases st <;> simp only [Statement.memory?, Option.some.injEq, reduceCtorEq] at hm <;> subst hm
  case inc mnemonic _ => exact ⟨_, rfl, accesses_inc mnemonic⟩
  case add immediate => exact ⟨_, rfl, accesses_add immediate⟩
  case cmp register => exact ⟨_, rfl, accesses_memoryRegister (fun _ h => h) fun _ => rfl⟩
  case xor register => exact ⟨_, rfl, accesses_memoryRegister (fun _ h => h) fun _ => rfl⟩

end Context

namespace Decoder

variable {s : Symbol} {m : MemoryOperand}

theorem register_number (r : Register) : register r.size r.number = .ok r := by
  cases r <;> rfl

theorem byteStep_memoryFields (hbase : m.base.isBase) (bs : List UInt8) :
    byteStep m.base.isWide ((memoryFields 0 s m).bytes ++ bs) = .ok (.inc (memoryAt s m), bs) := by
  have hzero : 0 < 8 := by decide
  have hmemory := memory_memoryFields hzero s hbase bs
  rw [bytes_memoryFields hzero, List.cons_append] at hmemory ⊢
  have hbyte : ¬(0xc8 ≤ (UInt8.ofNat (128 + 8 * 0 + baseNumber m.base)).toNat) := by
    have hnumber := baseNumber_lt m.base
    rw [UInt8.toNat_ofNat']
    omega
  generalize UInt8.ofNat (128 + 8 * 0 + baseNumber m.base) = b at hmemory hbyte ⊢
  rw [byteStep, if_neg (by simp [hbyte]), hmemory]
  rfl

theorem addition_memoryFields (hbase : m.base.isBase) (size : Nat) {immediate : Decoder Int}
    {bs : List UInt8} {v : Int} (hv : immediate bs = .ok (v, [])) :
    addition m.base.isWide size immediate ((memoryFields 0 s m).bytes ++ bs) =
      .ok (.add size (memoryAt s m) v, []) := by
  unfold addition
  rw [memory_memoryFields (by decide) s hbase]
  simp only [bind, Except.bind, hv]
  rfl

theorem memoryAndRegister_memoryFields (hbase : m.base.isBase) (r : Register)
    (f : Memory → Register → Operation) (bs : List UInt8) :
    memoryAndRegister m.base.isWide r.size f ((memoryFields r.number s m).bytes ++ bs) =
      .ok (f (memoryAt s m) r, bs) := by
  have hnumber : r.number < 8 := Nat.mod_lt _ (by decide)
  unfold memoryAndRegister
  rw [memory_memoryFields hnumber s hbase]
  simp only [bind, Except.bind, register_number]
  rfl

end Decoder

namespace Decoder

variable (l : Leading) (bs : List UInt8)

theorem operation_addByte :
    operation l (0x80 :: bs) = addition l.addressSize 1 unsignedByte bs := rfl

theorem operation_add :
    operation l (0x81 :: bs) =
      addition l.addressSize (if l.operandSize then 4 else 2)
        (twosComplement (if l.operandSize then 4 else 2)) bs := rfl

theorem operation_addShort :
    operation l (0x83 :: bs) =
      addition l.addressSize (if l.operandSize then 4 else 2) (twosComplement 1) bs := rfl

theorem operation_cmpByte :
    operation l (0x3a :: bs) = memoryAndRegister l.addressSize 1 (fun m r => .cmp r m) bs := rfl

theorem operation_cmp :
    operation l (0x3b :: bs) =
      memoryAndRegister l.addressSize (if l.operandSize then 4 else 2) (fun m r => .cmp r m) bs :=
  rfl

theorem operation_xorByte :
    operation l (0x30 :: bs) = memoryAndRegister l.addressSize 1 .xor bs := rfl

theorem operation_xor :
    operation l (0x31 :: bs) =
      memoryAndRegister l.addressSize (if l.operandSize then 4 else 2) .xor bs := rfl

end Decoder

/-- The operand size of an access is that of the symbol, byte accesses apart. -/
theorem operandSize_leading {s : Symbol} (hlabel : s.type ≠ .label) (hbyte : s.type ≠ .byte)
    (m : MemoryOperand) (override : Option SegmentRegister) :
    (if (m.leading s override).operandSize then 4 else 2) = s.type.size := by
  unfold MemoryOperand.leading
  cases htype : s.type <;> simp_all [SymbolType.size]

theorem Register.size_pos (r : Register) : 0 < r.size := by
  cases r <;> decide

theorem decode_of_operation {l : Leading} {b : UInt8} (hb : Leading.isOpcode b)
    {bs rest : List UInt8} {op : Operation}
    (h : Decoder.operation l (b :: bs) = .ok (op, rest)) :
    decode (l.code.bytes ++ b :: bs) = .ok (⟨l, op⟩, rest) := by
  unfold decode
  rw [Leading.read_code l hb]
  simp only [bind, Except.bind, h]
  rfl

section

variable {s : Symbol} {m : MemoryOperand} {override : Option SegmentRegister}

theorem decode_inc (hbase : m.base.isBase) :
    decode ((m.leading s override).code ++ Field.byte 0xfe :: memoryFields 0 s m).bytes =
      .ok (⟨m.leading s override, .inc (Decoder.memoryAt s m)⟩, []) := by
  have hstep : Decoder.byteStep m.base.isWide ((memoryFields 0 s m).bytes ++ []) = _ :=
    Decoder.byteStep_memoryFields hbase []
  rw [List.append_nil] at hstep
  rw [Code.bytes_append, Code.bytes_cons]
  exact decode_of_operation (by decide) hstep

theorem decode_addition (hbase : m.base.isBase) {b : UInt8} (hb : Leading.isOpcode b)
    {size width : Nat} {v x : Int} {immediate : Decoder Int}
    (hop : ∀ bs, Decoder.operation (m.leading s override) (b :: bs) =
      Decoder.addition m.base.isWide size immediate bs)
    (hv : immediate (littleEndian v width ++ []) = .ok (x, [])) :
    decode ((m.leading s override).code ++ Field.byte b :: (memoryFields 0 s m ++ [.value v width])).bytes =
      .ok (⟨m.leading s override, .add size (Decoder.memoryAt s m) x⟩, []) := by
  rw [Code.bytes_append, Code.bytes_cons, Code.bytes_append]
  refine decode_of_operation hb ?_
  rw [hop]
  exact Decoder.addition_memoryFields hbase size hv

theorem decode_add (hbase : m.base.isBase) (hlabel : s.type ≠ .label) (immediate : Lexeme) :
    decode ((m.leading s override).code ++ (Statement.add m immediate).accessCode s).bytes =
      .ok (⟨m.leading s override,
        .add s.type.size (Decoder.memoryAt s m) (addedValue s.type immediate)⟩, []) := by
  unfold Statement.accessCode addedValue
  by_cases hbyte : s.type = .byte
  · have hsize : SymbolType.byte.size = 1 := rfl
    simp only [hbyte, if_true, hsize]
    exact decode_addition hbase (by decide) (Decoder.operation_addByte _)
      (Decoder.unsignedByte_littleEndian _ [])
  · have hsize := operandSize_leading hlabel hbyte m override
    have hwidth : s.type.size ≤ 8 := by cases s.type <;> decide
    simp only [hbyte, if_false]
    split
    · refine decode_addition hbase (by decide) (fun bs => ?_)
        (Decoder.twosComplement_littleEndian _ (by decide) [])
      rw [Decoder.operation_addShort, hsize]
      rfl
    · refine decode_addition hbase (by decide) (fun bs => ?_)
        (Decoder.twosComplement_littleEndian _ hwidth [])
      rw [Decoder.operation_add, hsize]
      rfl

theorem decode_memoryRegister (hbase : m.base.isBase) {r : Register}
    (hsize : s.type.size = r.size) {b w : UInt8} (hb : Leading.isOpcode b)
    (hw : Leading.isOpcode w) {f : Memory → Register → Operation}
    (hbyte : ∀ l bs, Decoder.operation l (b :: bs) =
      Decoder.memoryAndRegister l.addressSize 1 f bs)
    (hrest : ∀ l bs, Decoder.operation l (w :: bs) =
      Decoder.memoryAndRegister l.addressSize (if l.operandSize then 4 else 2) f bs) :
    decode ((m.leading s override).code ++
        Field.byte (if s.type = .byte then b else w) :: memoryFields r.number s m).bytes =
      .ok (⟨m.leading s override, f (Decoder.memoryAt s m) r⟩, []) := by
  have hoperands := Decoder.memoryAndRegister_memoryFields (s := s) hbase r f []
  rw [List.append_nil] at hoperands
  rw [Code.bytes_append, Code.bytes_cons]
  by_cases htype : s.type = .byte
  · have hone : r.size = 1 := by rw [← hsize, htype]; rfl
    rw [hone] at hoperands
    rw [if_pos htype]
    exact decode_of_operation hb ((hbyte _ _).trans hoperands)
  · -- A label has no size, and so fits no register.
    have hlabel : s.type ≠ .label := by
      intro hlabel
      have hpos := r.size_pos
      rw [← hsize, hlabel] at hpos
      exact absurd hpos (by decide)
    rw [← hsize, ← operandSize_leading hlabel htype m override] at hoperands
    rw [if_neg htype]
    exact decode_of_operation hw ((hrest _ _).trans hoperands)

/-- The processor finds the operation of the statement in its code, and nothing is left over. -/
theorem decode_access {st : Statement} (hm : st.memory? = some m) (hbase : m.base.isBase)
    (hfits : st.Fits s) (hadd : ∀ immediate, st = .add m immediate → s.type ≠ .label) :
    ∃ op, st.operation? s = some op ∧
      decode ((m.leading s override).code ++ st.accessCode s).bytes =
        .ok (⟨m.leading s override, op⟩, []) := by
  cases st <;> simp only [Statement.memory?, Option.some.injEq, reduceCtorEq] at hm <;> subst hm
  case inc mnemonic m => exact ⟨_, rfl, decode_inc hbase⟩
  case add m immediate => exact ⟨_, rfl, decode_add hbase (hadd immediate rfl) immediate⟩
  case cmp register m =>
    exact ⟨_, rfl, decode_memoryRegister hbase hfits (by decide) (by decide)
      Decoder.operation_cmpByte Decoder.operation_cmp⟩
  case xor m register =>
    exact ⟨_, rfl, decode_memoryRegister hbase hfits (by decide) (by decide)
      Decoder.operation_xorByte Decoder.operation_xor⟩

end

/-- The override of an access under some assumptions: the one that is written, or else the first
register that is assumed to address the segment of the symbol, left out if that is `DS`. -/
def MemoryOperand.OverrideIs (m : MemoryOperand) (t : AssumeTable) (s : Symbol)
    (override : Option SegmentRegister) : Prop :=
  match m.override with
  | some r => override = some r
  | none => ∃ r, t.holding? s.segment = some r ∧ override = if r = .ds then none else some r

theorem Context.overrideIs_of_overrideOf {cx : Context} {m : MemoryOperand} {s : Symbol}
    {override : Option SegmentRegister} (h : cx.overrideOf s m = .ok override) :
    m.OverrideIs cx.assumes s override := by
  unfold overrideOf at h
  unfold MemoryOperand.OverrideIs
  cases hwritten : m.override with
  | some r =>
    rw [hwritten] at h
    cases h
    rfl
  | none =>
    rw [hwritten] at h
    cases hheld : cx.assumes.holding? s.segment with
    | none =>
      rw [hheld] at h
      cases h
    | some r =>
      rw [hheld] at h
      refine ⟨r, rfl, ?_⟩
      cases r <;> cases h <;> rfl

namespace State

variable {s : State} {line : Nat} {text : String} {c : Classified} {st : Statement}
  {m : MemoryOperand}

theorem access_of_correct (hst : c.statement? = some st) (hm : st.memory? = some m)
    (hcorrect : (s.record line text c).correct) :
    ∃ symbol override, (s.next line text c).symbols.get? m.name.text = some symbol ∧
      m.OverrideIs s.assumes symbol override ∧ st.Fits symbol ∧
      (s.record line text c).code = (m.leading symbol override).code ++ st.accessCode symbol := by
  have hdeclares : st.declaration? = none := by
    cases st <;> first | rfl | cases hm
  have hassumes : (s.labelled line c).assumes = s.assumes := by
    rw [labelled_eq]
    rfl
  obtain ⟨result, hemission, haccess⟩ :=
    Context.accesses_execute (s.labelled line c) line hm
  have hperform : (s.perform line text c).2 = .ofExcept result := by
    rw [perform_of_statement hst, hemission]
  have herror : ∀ d, result = .error d → d.isError := by
    rintro d rfl
    exact haccess
  obtain ⟨e, rfl, hcode, -⟩ := exists_emission_of_correct hperform herror hcorrect
  obtain ⟨symbol, override, hsymbol, hoverride, hfits, haccessCode⟩ := haccess
  have hsymbol' : (s.labelled line c).symbols.get? m.name.text = some symbol := hsymbol
  rw [symbols_labelled hst hdeclares text] at hsymbol'
  have hover := Context.overrideIs_of_overrideOf hoverride
  exact ⟨symbol, override, hsymbol', hassumes ▸ hover, hfits, hcode.trans haccessCode⟩

end State

/-- The processor finds in the bytes of a correct line what the line says: the base that is written,
the offset of the symbol as displacement, the register operand, and a byte in front of the opcode for
each double word, wide base and override. -/
theorem memory_line_decodes (source : String) (i : Nat) (text : String) (r : LineRecord)
    (st : Statement) (m : MemoryOperand) (htext : (Text.splitLines source)[i]? = some text)
    (h : (assemble source).lines[i]? = some r)
    (hst : (classify (lexemes text)).statement? = some st) (hm : st.memory? = some m)
    (hcorrect : r.correct) :
    m.WrittenIn (classify (lexemes text)).operands ∧
      ∃ symbol override,
        (assemble source).symbols.get? m.name.text = some symbol ∧
        m.OverrideIs (State.after {} ((Text.splitLines source).take i)).assumes symbol override ∧
        ((∀ immediate, st = .add m immediate → symbol.type ≠ .label) →
          ∃ operation, st.operation? symbol = some operation ∧
            decode r.code.bytes =
              .ok (⟨⟨symbol.type = .double, m.base.isWide, override⟩, operation⟩, [])) := by
  have hwritten := writtenIn_operands Lexeme.scanned_of_mem_lexemes hst hm
  have hr := State.eq_of_getElem?_lines htext h
  have hkind : (classify (lexemes text)).kind = .instructions := by
    rw [kind_of_statement? hst]
    cases st <;> first | rfl | cases hm
  rw [State.resolveJump_of_not (by rw [State.record_kind, hkind]; simp)] at hr
  rw [hr] at hcorrect ⊢
  obtain ⟨symbol, override, hsymbol, hoverride, hfits, hcode⟩ :=
    State.access_of_correct hst hm hcorrect
  rw [← State.after_take_succ htext] at hsymbol
  refine ⟨hwritten, symbol, override, ?_, hoverride, ?_⟩
  · rw [symbols_assemble]
    exact State.get?_after_of_take hsymbol
  · intro hadd
    rw [hcode]
    exact decode_access hm hwritten.isBase hfits hadd

theorem memory_line_decodes_scaled :
    let source := "D SEGMENT\nX DD 5\nASSUME ES:D\nXOR X[ESP], EAX"
    let text := "XOR X[ESP], EAX"
    let m : MemoryOperand := ⟨none, ⟨"X", .identifier, 4⟩, .esp⟩
    let st : Statement := .xor m ⟨"EAX", .generalRegister, 12⟩
    let r : LineRecord :=
      ⟨text, 4, .instructions, 4, "D",
        [.operandSize, .override .es, .addressSize, .byte 0x31, .byte 0x84, .byte 0x24, .value 0 4],
        [], none⟩
    (Text.splitLines source)[3]? = some text ∧ (assemble source).lines[3]? = some r ∧
      (classify (lexemes text)).statement? = some st ∧ st.memory? = some m ∧ r.correct ∧
      ∃ symbol override operation, (assemble source).symbols.get? "X" = some symbol ∧
        decode r.code.bytes =
          .ok (⟨⟨symbol.type = .double, m.base.isWide, override⟩, operation⟩, []) := by
  intro source text m st r
  have hfacts : (Text.splitLines source)[3]? = some text ∧ (assemble source).lines[3]? = some r ∧
      (classify (lexemes text)).statement? = some st := by
    decide +kernel
  obtain ⟨htext, hr, hst⟩ := hfacts
  obtain ⟨-, symbol, override, hsymbol, -, hdecode⟩ :=
    memory_line_decodes source 3 text r st m htext hr hst rfl rfl
  obtain ⟨operation, -, hbytes⟩ := hdecode fun immediate h => Statement.noConfusion h
  exact ⟨htext, hr, hst, rfl, rfl, symbol, override, operation, hsymbol, hbytes⟩

end SegAsm
