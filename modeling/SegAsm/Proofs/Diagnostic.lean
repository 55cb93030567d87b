import SegAsm.Proofs.FirstPass

/-! Where diagnostics stand. Whatever is reported about a line of a valid form covers a lexeme of
its statement, or goes from one to a later one; all that is reported about a line starts on it. -/
namespace SegAsm

/-- The diagnostic starts on the line, from 0. -/
def Diagnostic.On (line : Nat) (d : Diagnostic) : Prop :=
  d.range.start.line = line

/-- The diagnostic covers one of the lexemes, or goes from one of them to a later one. -/
def Diagnostic.Spans (line : Nat) (ls : List Lexeme) (d : Diagnostic) : Prop :=
  ∃ first last, d.range = .ofLexemes line first last ∧
    (first = last ∧ first ∈ ls ∨ [first, last].Sublist ls)

namespace Diagnostic

variable {line : Nat} {ls ls' : List Lexeme} {d : Diagnostic}

theorem Spans.on (h : d.Spans line ls) : d.On line := by
  obtain ⟨first, last, hrange, -⟩ := h
  unfold On
  rw [hrange]
  rfl

theorem Spans.mono (h : d.Spans line ls) (hsub : ls.Sublist ls') : d.Spans line ls' := by
  obtain ⟨first, last, hrange, ⟨heq, hmem⟩ | hpair⟩ := h
  · exact ⟨first, last, hrange, .inl ⟨heq, hsub.subset hmem⟩⟩
  · exact ⟨first, last, hrange, .inr (hpair.trans hsub)⟩

theorem spans_of_mem {l : Lexeme} (hl : l ∈ ls) (hrange : d.range = .ofLexeme line l) :
    d.Spans line ls :=
  ⟨l, l, hrange, .inl ⟨rfl, hl⟩⟩

end Diagnostic

/-- The lexemes that a statement keeps, in their order on the line; those of an assumption are read
without a report. -/
def Statement.lexemes : Statement → List Lexeme
  | .beginSegment name | .endSegment name | .label name => [name]
  | .data _ name value => [name, value]
  | .inc mnemonic m => [mnemonic, m.name]
  | .add m immediate => [m.name, immediate]
  | .cmp register m => [register, m.name]
  | .xor m register => [m.name, register]
  | .mov _ immediate => [immediate]
  | .or first second => [first, second]
  | .jump _ target => [target]
  | .assume _ | .finish | .cli | .dec _ | .empty => []

/-- Whatever stops the computation spans some of the lexemes. -/
def FailsSpanning {α : Type} (line : Nat) (ls : List Lexeme) (x : Except Diagnostic α) : Prop :=
  ∀ d, x = .error d → d.Spans line ls

theorem FailsSpanning.bind {α β : Type} {line : Nat} {ls : List Lexeme} {x : Except Diagnostic α}
    {k : α → Except Diagnostic β} (hx : FailsSpanning line ls x)
    (hk : ∀ a, FailsSpanning line ls (k a)) : FailsSpanning line ls (x >>= k) := by
  cases x with
  | error d =>
    rintro d' h
    exact hx d' (congrArg Except.error (Except.error.inj h))
  | ok a => exact hk a

namespace Emission

variable {line : Nat} {ls : List Lexeme}

/-- All that comes with the code spans some of the lexemes. -/
def Spans (line : Nat) (ls : List Lexeme) (e : Emission) : Prop :=
  ∀ d ∈ e.diagnostics, d.Spans line ls

theorem spans_ofCode (code : Code) : (ofCode code).Spans line ls := by
  intro d hd
  exact absurd hd List.not_mem_nil

theorem spans_reject {d : Diagnostic} (h : d.Spans line ls) : (reject d).Spans line ls := by
  intro d' hd
  obtain rfl := List.mem_singleton.mp hd
  exact h

theorem spans_bind {α : Type} {x : Except Diagnostic α} {k : α → Except Diagnostic Emission}
    (hx : FailsSpanning line ls x) (hk : ∀ a, (ofExcept (k a)).Spans line ls) :
    (ofExcept (x >>= k)).Spans line ls := by
  cases x with
  | error d => exact spans_reject (hx d rfl)
  | ok a => exact hk a

/-- A check that stops the computation. -/
theorem spans_guard {p : Prop} [Decidable p] {d : Diagnostic}
    {k : Unit → Except Diagnostic Emission} (hd : d.Spans line ls)
    (hk : (ofExcept (k ())).Spans line ls) :
    (ofExcept (if p then throw d >>= k else k ())).Spans line ls := by
  split_ifs
  · exact spans_reject hd
  · exact hk

/-- A single report that depends on a condition. -/
theorem spans_ite {code : Code} {p : Prop} [Decidable p] {d : Diagnostic} (h : d.Spans line ls) :
    Spans line ls { code, diagnostics := if p then [d] else [] } := by
  intro d' hd
  dsimp only at hd
  split_ifs at hd
  · obtain rfl := List.mem_singleton.mp hd
    exact h
  · exact absurd hd List.not_mem_nil

end Emission

namespace Context

variable (cx : Context) {ls : List Lexeme}

theorem spans_reportAt {l : Lexeme} (hl : l ∈ ls) (p : Problem) :
    (cx.reportAt l p).Spans cx.line ls :=
  Diagnostic.spans_of_mem hl rfl

section Operand

variable {m : MemoryOperand} (hm : m.name ∈ ls)
include hm

theorem failsSpanning_resolve : FailsSpanning cx.line ls (cx.resolve m) := by
  intro d h
  unfold resolve at h
  split at h <;> cases h
  exact cx.spans_reportAt hm _

theorem failsSpanning_leadingFields (s : Symbol) :
    FailsSpanning cx.line ls (cx.leadingFields s m) := by
  unfold leadingFields
  refine FailsSpanning.bind ?_ fun override d h => by cases h
  intro d h
  unfold overrideOf at h
  split at h
  · cases h
  · split at h <;> cases h
    exact cx.spans_reportAt hm _

theorem spans_inc {mnemonic : Lexeme} (hl : mnemonic ∈ ls) :
    (Emission.ofExcept (cx.inc mnemonic m)).Spans cx.line ls := by
  unfold inc
  refine Emission.spans_bind (cx.failsSpanning_resolve hm) fun s => ?_
  refine Emission.spans_bind (cx.failsSpanning_leadingFields hm s) fun leading => ?_
  exact Emission.spans_ite (cx.spans_reportAt hl _)

theorem spans_add {immediate : Lexeme} (hl : immediate ∈ ls) :
    (Emission.ofExcept (cx.add m immediate)).Spans cx.line ls := by
  unfold add
  refine Emission.spans_bind (cx.failsSpanning_resolve hm) fun s => ?_
  refine Emission.spans_bind (cx.failsSpanning_leadingFields hm s) fun leading => ?_
  refine Emission.spans_guard (cx.spans_reportAt hl _) ?_
  exact Emission.spans_ite (cx.spans_reportAt hl _)

theorem spans_memoryRegister (byteOpcode opcode : UInt8) {register : Lexeme} (hl : register ∈ ls) :
    (Emission.ofExcept (cx.memoryRegister byteOpcode opcode m register)).Spans cx.line ls := by
  unfold memoryRegister
  refine Emission.spans_bind (cx.failsSpanning_resolve hm) fun s => ?_
  refine Emission.spans_guard (cx.spans_reportAt hl _) ?_
  exact Emission.spans_bind (cx.failsSpanning_leadingFields hm s) fun leading =>
    Emission.spans_ofCode _

end Operand

theorem spans_mov (r : Register) {immediate : Lexeme} (hl : immediate ∈ ls) :
    (Emission.ofExcept (cx.mov r immediate)).Spans cx.line ls := by
  unfold mov
  refine Emission.spans_guard (cx.spans_reportAt hl _) ?_
  obtain ⟨v, size?⟩ := immediate.constant
  refine Emission.spans_guard (cx.spans_reportAt hl _) ?_
  exact Emission.spans_ofCode _

/-- The one report that goes from a lexeme to a later one. -/
theorem spans_or (first second : Lexeme) :
    (Emission.ofExcept (cx.or first second)).Spans cx.line [first, second] := by
  unfold or
  refine Emission.spans_guard ⟨first, second, rfl, .inr (List.Sublist.refl _)⟩ ?_
  exact Emission.spans_ofCode _

theorem spans_jump (resolving : Bool) (address : Nat) (j : Jump) (target : Lexeme) :
    (cx.jump resolving address j target).Spans cx.line [target] := by
  unfold jump
  cases cx.symbols.get? target.text with
  | some symbol => exact Emission.spans_ofCode _
  | none =>
    cases resolving with
    | true => exact Emission.spans_reject (cx.spans_reportAt (List.mem_singleton_self _) _)
    | false => exact Emission.spans_ofCode _

theorem spans_datum (type : SymbolType) {value : Lexeme} (hl : value ∈ ls) :
    (cx.datum type value).Spans cx.line ls := by
  unfold datum
  split_ifs
  · exact Emission.spans_ofCode _
  · split
    · exact Emission.spans_reject (cx.spans_reportAt hl _)
    · split_ifs
      · exact Emission.spans_reject (cx.spans_reportAt hl _)
      · exact Emission.spans_ofCode _

end Context

namespace State

variable (s : State) (line : Nat) {ls : List Lexeme}

theorem spans_declare {name : Lexeme} (hl : name ∈ ls) (type : SymbolType) :
    ∀ d ∈ (s.declare line name type).2, d.Spans line ls := by
  rw [declare_eq]
  split
  · intro d hd
    obtain rfl := List.mem_singleton.mp hd
    exact Diagnostic.spans_of_mem hl rfl
  · simp

theorem spans_beginSegment (name : Lexeme) : (s.beginSegment line name).2.Spans line [name] := by
  unfold beginSegment
  split_ifs
  · exact Emission.spans_ofCode []
  · exact Emission.spans_reject (Diagnostic.spans_of_mem (List.mem_singleton_self _) rfl)

theorem spans_endSegment (name : Lexeme) : (s.endSegment line name).2.Spans line [name] := by
  unfold endSegment
  split_ifs
  · exact Emission.spans_ofCode []
  · exact Emission.spans_reject (Diagnostic.spans_of_mem (List.mem_singleton_self _) rfl)

theorem spans_data (type : SymbolType) (name value : Lexeme) :
    (s.data line type name value).2.Spans line [name, value] := by
  have hvalue : value ∈ [name, value] := List.mem_cons_of_mem _ (List.mem_singleton_self _)
  unfold data
  split_ifs
  · exact Emission.spans_reject (Diagnostic.spans_of_mem hvalue rfl)
  · intro d hd
    rcases List.mem_append.mp hd with hd | hd
    · exact s.spans_declare line List.mem_cons_self type d hd
    · exact (s.context line).spans_datum type hvalue d hd

theorem spans_execute (st : Statement) : (s.execute line st).2.Spans line st.lexemes := by
  have hpair : ∀ l l' : Lexeme, l ∈ [l, l'] ∧ l' ∈ [l, l'] := by simp
  unfold execute Statement.lexemes
  cases st with
  | beginSegment name => exact s.spans_beginSegment line name
  | endSegment name => exact s.spans_endSegment line name
  | label name => exact s.spans_declare line (List.mem_singleton_self name) .label
  | data type name value => exact s.spans_data line type name value
  | inc mnemonic m => exact (s.context line).spans_inc (hpair _ _).2 (hpair _ _).1
  | add m immediate => exact (s.context line).spans_add (hpair _ _).1 (hpair _ _).2
  | cmp register m =>
    exact (s.context line).spans_memoryRegister (hpair _ _).2 0x3a 0x3b (hpair _ _).1
  | xor m register =>
    exact (s.context line).spans_memoryRegister (hpair _ _).1 0x30 0x31 (hpair _ _).2
  | mov r immediate => exact (s.context line).spans_mov r (List.mem_singleton_self _)
  | or first second =>
    dsimp only
    exact (s.context line).spans_or first second
  | jump j target => exact (s.context line).spans_jump s.resolving s.offset j target
  | cli => exact Emission.spans_ofCode [.byte 0xfa]
  | dec r => exact Emission.spans_ofCode (decCode r)
  | assume | finish | empty => exact Emission.spans_ofCode []

/-- The first pass reports about the label and the statement of a line, or that it has none. -/
theorem spans_reported (text : String) (c : Classified) :
    ∀ d ∈ s.reported line text c,
      d.Spans line (c.label.toList ++ (c.statement?.map Statement.lexemes).getD []) ∨
        c.statement? = none ∧ d = .invalidLine line text c.template := by
  intro d hd
  rcases List.mem_append.mp hd with hd | hd
  · left
    cases hlabel : c.label with
    | none => simp [hlabel, declareLabel] at hd
    | some label =>
      rw [hlabel] at hd
      exact s.spans_declare line List.mem_cons_self .label d hd
  · unfold perform at hd
    cases hst : c.statement? with
    | none =>
      rw [hst] at hd
      exact .inr ⟨rfl, List.mem_singleton.mp hd⟩
    | some st =>
      rw [hst] at hd
      have hspans := (s.labelled line c).spans_execute line st d hd
      exact .inl (hspans.mono (List.sublist_append_right _ _))

theorem on_reported (text : String) (c : Classified) :
    ∀ d ∈ s.reported line text c, d.On line := by
  intro d hd
  obtain hspans | ⟨-, rfl⟩ := s.spans_reported line text c d hd
  · exact hspans.on
  · rfl

/-- The second pass reports about the target of a jump. -/
theorem spans_resolveJump {r : LineRecord} (h : r.number = line + 1) :
    ∀ d ∈ (s.resolveJump r).2, ∃ j target,
      (classify (lexemes r.text)).statement? = some (.jump j target) ∧ d.Spans line [target] := by
  unfold resolveJump
  split_ifs
  · split
    · rename_i j target hst
      have hline : r.number - 1 = line := by omega
      rw [hline]
      intro d hd
      exact ⟨j, target, hst, (s.context line).spans_jump true r.address j target d hd⟩
    · simp
  · simp

theorem on_resolveJump {r : LineRecord} (h : r.number = line + 1) :
    ∀ d ∈ (s.resolveJump r).2, d.On line := by
  intro d hd
  obtain ⟨j, target, -, hspans⟩ := s.spans_resolveJump line h d hd
  exact hspans.on

end State
end SegAsm
