import SegAsm.Proofs.Lexeme.Number
import SegAsm.Proofs.MemoryAccess
import SegAsm.Proofs.Range

/-! The immediates of additions. What is encoded without a warning adds the constant that is written,
but for the constants from 128 to 255 on data of more than a byte: they take one byte, and the
processor reads that byte with a sign. -/
namespace SegAsm

open Text

/-- A lexeme with a size is a constant that can be read. -/
theorem Lexeme.constant_of_size {l : Lexeme} {n : Nat} (h : l.constant.2 = some n) :
    constantValue l.text = .ok l.constant.1 ∧ constantSize? l.constant.1 = some n := by
  unfold constant at h ⊢
  split_ifs at h ⊢
  split at h
  · rename_i v hv
    simp only [hv]
    exact ⟨trivial, h⟩
  · cases h

theorem constantSize?_eq_one_iff {v : Int} {n : Nat} (h : constantSize? v = some n) :
    n = 1 ↔ v < 256 := by
  unfold constantSize? at h
  split_ifs at h <;> cases h <;> simp <;> omega

/-- What is added agrees with the constant up to the size of the datum, unless a byte with its high bit
set is extended. -/
theorem addedValue_emod_iff {type : SymbolType} (hdata : type ≠ .label) {immediate : Lexeme} {n : Nat}
    (hsize : immediate.constant.2 = some n) (hpos : 0 ≤ immediate.constant.1) :
    addedValue type immediate % (2 ^ (8 * type.size) : Nat) =
        immediate.constant.1 % (2 ^ (8 * type.size) : Nat) ↔
      type = .byte ∨ immediate.constant.1 < 128 ∨ 256 ≤ immediate.constant.1 := by
  have hone := constantSize?_eq_one_iff (Lexeme.constant_of_size hsize).2
  unfold addedValue
  simp only [hsize, Option.some.injEq, hone]
  generalize immediate.constant.1 = v at hpos ⊢
  cases type with
  | byte => simp [SymbolType.size]
  | word | double =>
    simp only [reduceCtorEq, if_false, false_or, SymbolType.size]
    split_ifs with hshort
    · rw [Int.bmod_def]
      omega
    · simp only [Nat.reduceMul, Nat.reducePow, Int.bmod_emod, true_iff]
      omega
  | label => exact absurd rfl hdata

/-- An addition whose immediate has no size, or more bytes than the datum, is encoded with a
warning. -/
theorem Context.warns_of_add {cx : Context} {m : MemoryOperand} {immediate : Lexeme} {e : Emission}
    {s : Symbol} (hs : cx.symbols.get? m.name.text = some s) (h : cx.add m immediate = .ok e) :
    immediate.constant.2.all (s.type.size < ·) →
      cx.reportAt immediate (.immediateTruncated immediate.text s) ∈ e.diagnostics := by
  intro hlarge
  unfold add resolve at h
  rw [hs] at h
  cases hleading : cx.leadingFields s m with
  | error d => simp only [hleading, bind, Except.bind, reduceCtorEq] at h
  | ok leading =>
    by_cases hnumeric : immediate.kind.isNumeric
    · simp only [hleading, bind, Except.bind, hnumeric, Bool.not_true, Bool.false_eq_true, if_false,
        hlarge, if_true] at h
      obtain rfl := Except.ok.inj h
      exact List.mem_singleton_self _
    · simp only [hleading, bind, Except.bind, hnumeric, Bool.not_false, if_true, throw, throwThe,
        MonadExceptOf.throw, reduceCtorEq] at h

namespace State

variable {s : State} {line : Nat} {text : String} {c : Classified} {m : MemoryOperand}
  {immediate : Lexeme}

/-- A correct addition whose immediate has no size, or more bytes than the datum, is reported. -/
theorem warns_of_correct {symbol : Symbol} (hst : c.statement? = some (.add m immediate))
    (hcorrect : (s.record line text c).correct)
    (hsymbol : (s.next line text c).symbols.get? m.name.text = some symbol)
    (hlarge : immediate.constant.2.all (symbol.type.size < ·)) :
    ⟨.ofLexeme line immediate, .immediateTruncated immediate.text symbol⟩ ∈
      s.reported line text c := by
  rw [← symbols_labelled hst rfl text] at hsymbol
  have hperform : (s.perform line text c).2 =
      .ofExcept (((s.labelled line c).context line).add m immediate) := by
    rw [perform_of_statement hst]
    dsimp only [execute]
  have herror : ∀ d, ((s.labelled line c).context line).add m immediate = .error d → d.isError := by
    intro d hd
    have haccess : ((s.labelled line c).context line).Accesses m (.add m immediate) _ :=
      Context.accesses_add immediate
    rwa [hd] at haccess
  obtain ⟨e, he, -, hreported⟩ := exists_emission_of_correct hperform herror hcorrect
  exact hreported _ (Context.warns_of_add hsymbol he hlarge)

end State

/-- The processor adds what the line says, up to the size of the datum, unless the datum has more
than a byte and the constant is between 128 and 255. -/
theorem added_value_iff (source : String) (i : Nat) (text : String) (r : LineRecord)
    (m : MemoryOperand) (immediate : Lexeme) (symbol : Symbol)
    (htext : (Text.splitLines source)[i]? = some text)
    (h : (assemble source).lines[i]? = some r)
    (hst : (classify (lexemes text)).statement? = some (.add m immediate)) (hcorrect : r.correct)
    (hsymbol : (assemble source).symbols.get? m.name.text = some symbol)
    (hdata : symbol.type ≠ .label)
    (hquiet : ∀ d ∈ (assemble source).diagnostics, d.On i →
      ∀ name s, d.problem ≠ .immediateTruncated name s) :
    ∃ (leading : Leading) (memory : Memory) (v added : Int),
      constantValue immediate.text = .ok v ∧ 0 ≤ v ∧
        decode r.code.bytes = .ok (⟨leading, .add symbol.type.size memory added⟩, []) ∧
        (added % (2 ^ (8 * symbol.type.size) : Nat) = v % (2 ^ (8 * symbol.type.size) : Nat) ↔
          symbol.type = .byte ∨ v < 128 ∨ 256 ≤ v) := by
  have hwritten := writtenIn_operands Lexeme.scanned_of_mem_lexemes hst rfl
  have hr := State.eq_record_of_statement htext h hst (by simp [Statement.kind])
  rw [hr] at hcorrect
  obtain ⟨declared, override, hdeclared, -, -, hcode⟩ := State.access_of_correct hst rfl hcorrect
  have hbefore := hdeclared
  rw [← State.after_take_succ htext] at hbefore
  obtain rfl : declared = symbol := by
    rw [symbols_assemble, State.get?_after_of_take hbefore] at hsymbol
    exact Option.some.inj hsymbol
  cases hsize : immediate.constant.2 with
  | none =>
    have hreport := State.warns_of_correct hst hcorrect hdeclared (by rw [hsize]; rfl)
    exact absurd rfl (hquiet _ (State.mem_diagnostics_of_reported htext hreport) rfl _ _)
  | some n =>
    have hvalue := (Lexeme.constant_of_size hsize).1
    have hread := readFrom_of_statement? Lexeme.scanned_of_mem_lexemes hst
    have hmem : immediate ∈ (classify (lexemes text)).operands :=
      hread.lexemes_sublist.subset (by simp [Statement.lexemes])
    have hpos := (Lexeme.scanned_of_mem_lexemes _ ((operands_suffix _).subset hmem)).constant_nonneg
    have hdecode : decode r.code.bytes = .ok (⟨m.leading declared override,
        .add declared.type.size (Decoder.memoryAt declared m) (addedValue declared.type immediate)⟩,
        []) := by
      rw [hr, hcode]
      exact decode_add hwritten.isBase hdata immediate
    exact ⟨_, _, _, _, hvalue, hpos, hdecode, addedValue_emod_iff hdata hsize hpos⟩

/-- The smallest constant of two bytes, behind a line that cuts it to one. -/
theorem added_value_of_word :
    let source := "D SEGMENT\nX DW 1\nY DB 1\nASSUME DS:D\nADD Y[BX], 256\nADD X[BX], 256"
    let text := "ADD X[BX], 256"
    let m : MemoryOperand := ⟨none, ⟨"X", .identifier, 4⟩, .bx⟩
    let immediate : Lexeme := ⟨"256", .decimal, 11⟩
    let symbol : Symbol := ⟨"X", "D", 0, .word, 2⟩
    let r : LineRecord :=
      ⟨text, 6, .instructions, 8, "D", [.byte 0x81, .byte 0x87, .value 0 2, .value 256 2], [], none⟩
    (Text.splitLines source)[5]? = some text ∧ (assemble source).lines[5]? = some r ∧
      (classify (lexemes text)).statement? = some (.add m immediate) ∧ r.correct ∧
      (assemble source).symbols.get? "X" = some symbol ∧ (assemble source).diagnostics.length = 1 ∧
      ∃ leading memory added,
        decode r.code.bytes = .ok (⟨leading, .add 2 memory added⟩, []) ∧ added % 65536 = 256 := by
  intro source text m immediate symbol r
  have hfacts : (Text.splitLines source)[5]? = some text ∧ (assemble source).lines[5]? = some r ∧
      (classify (lexemes text)).statement? = some (.add m immediate) ∧
      (assemble source).symbols.get? "X" = some symbol ∧ (assemble source).diagnostics.length = 1 ∧
      ∀ d ∈ (assemble source).diagnostics, d.range.start.line ≠ 5 := by
    decide +kernel
  obtain ⟨htext, hr, hst, hsymbol, hone, helsewhere⟩ := hfacts
  obtain ⟨leading, memory, v, added, hv, -, hdecode, hadded⟩ :=
    added_value_iff source 5 text r m immediate symbol htext hr hst rfl hsymbol (by decide)
      fun d hd hon => absurd hon (helsewhere d hd)
  obtain rfl : v = 256 := Except.ok.inj (hv.symm.trans (by decide))
  exact ⟨htext, hr, hst, rfl, hsymbol, hone, leading, memory, added, hdecode,
    hadded.mpr (.inr (.inr le_rfl))⟩

/-- The one byte of 200 is read as -56, and nothing is reported. -/
theorem added_value_of_short_constant :
    let source := "D SEGMENT\nX DW 1\nASSUME DS:D\nADD X[BX], 200"
    let r : LineRecord :=
      ⟨"ADD X[BX], 200", 4, .instructions, 2, "D",
        [.byte 0x83, .byte 0x87, .value 0 2, .value 200 1], [], none⟩
    (assemble source).lines[3]? = some r ∧ r.correct ∧ (assemble source).diagnostics = [] ∧
      constantValue "200" = .ok 200 ∧
      decode r.code.bytes = .ok (⟨{}, .add 2 ⟨.bx, 0⟩ (-56)⟩, []) ∧
      (-56 : Int) % 65536 ≠ 200 % 65536 := by
  decide +kernel

end SegAsm
