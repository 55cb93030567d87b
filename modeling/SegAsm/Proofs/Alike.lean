import SegAsm.Proofs.Letters
import SegAsm.Proofs.Operands

/-! Lines that say the same. Their lexemes agree in kind, and their texts are related by a likeness:
equality, or equality up to the case of letters. Then labels and statements agree as well. -/
namespace SegAsm

/-- A relation of names that no table can tell apart. -/
structure Likeness (R : String → String → Prop) : Prop where
  letters : ∀ {s t : String}, R s t → Text.SameLetters s t
  noSegment : R noSegment noSegment

theorem likeness_eq : Likeness (· = ·) where
  letters h := h ▸ Text.SameLetters.refl _
  noSegment := rfl

theorem likeness_sameLetters : Likeness Text.SameLetters where
  letters h := h
  noSegment := Text.SameLetters.refl _

variable {R : String → String → Prop}

/-- The lexemes are alike wherever they stand; a text constant is the same to the letter. -/
structure Lexeme.Alike (R : String → String → Prop) (l l' : Lexeme) : Prop where
  kind : l.kind = l'.kind
  text : R l.text l'.text
  quoted : l.kind = .quoted → l.text = l'.text

structure MemoryOperand.Alike (R : String → String → Prop) (m m' : MemoryOperand) : Prop where
  override : m.override = m'.override
  name : m.name.Alike R m'.name
  base : m.base = m'.base

inductive Statement.Alike (R : String → String → Prop) : Statement → Statement → Prop
  | beginSegment {name name' : Lexeme} (h : name.Alike R name') :
      Alike R (.beginSegment name) (.beginSegment name')
  | endSegment {name name' : Lexeme} (h : name.Alike R name') :
      Alike R (.endSegment name) (.endSegment name')
  | assume {pairs pairs' : List Lexeme} (h : List.Forall₂ (Lexeme.Alike R) pairs pairs') :
      Alike R (.assume pairs) (.assume pairs')
  | finish : Alike R .finish .finish
  | label {name name' : Lexeme} (h : name.Alike R name') : Alike R (.label name) (.label name')
  | data {type : SymbolType} {name name' value value' : Lexeme} (h : name.Alike R name')
      (hv : value.Alike R value') : Alike R (.data type name value) (.data type name' value')
  | cli : Alike R .cli .cli
  | inc {mnemonic mnemonic' : Lexeme} {m m' : MemoryOperand} (hm : m.Alike R m') :
      Alike R (.inc mnemonic m) (.inc mnemonic' m')
  | dec (r : Register) : Alike R (.dec r) (.dec r)
  | add {m m' : MemoryOperand} {immediate immediate' : Lexeme} (hm : m.Alike R m')
      (h : immediate.Alike R immediate') : Alike R (.add m immediate) (.add m' immediate')
  | cmp {m m' : MemoryOperand} {register register' : Lexeme} (hm : m.Alike R m')
      (h : register.Alike R register') : Alike R (.cmp register m) (.cmp register' m')
  | xor {m m' : MemoryOperand} {register register' : Lexeme} (hm : m.Alike R m')
      (h : register.Alike R register') : Alike R (.xor m register) (.xor m' register')
  | mov {r : Register} {immediate immediate' : Lexeme} (h : immediate.Alike R immediate') :
      Alike R (.mov r immediate) (.mov r immediate')
  | or {first first' second second' : Lexeme} (h : first.Alike R first')
      (h' : second.Alike R second') : Alike R (.or first second) (.or first' second')
  | jump {j : Jump} {target target' : Lexeme} (h : target.Alike R target') :
      Alike R (.jump j target) (.jump j target')
  | empty : Alike R .empty .empty

/-- The lines do the same up to names. -/
structure Classified.Alike (R : String → String → Prop) (c c' : Classified) : Prop where
  label : Option.Rel (Lexeme.Alike R) c.label c'.label
  kind : c.kind = c'.kind
  statement : Option.Rel (Statement.Alike R) c.statement? c'.statement?

section

variable (hR : Likeness R)
include hR

namespace Lexeme.Alike

variable {l l' : Lexeme} (h : l.Alike R l')
include h

theorem register_eq : l.register = l'.register :=
  (hR.letters h.text).register_eq

theorem dataType_eq : l.dataType = l'.dataType := by
  unfold Lexeme.dataType SymbolType.ofDirective?
  rw [(hR.letters h.text).upperString_eq]

theorem constant_eq : l.constant = l'.constant := by
  unfold Lexeme.constant
  rw [h.kind, (hR.letters h.text).constantValue_eq]

/-- The token of an invalid lexeme is its text; all others hide the case of letters. -/
theorem token_eq (hl : l.Valid) : l.token = l'.token := by
  have hletters := hR.letters h.text
  have hregister := h.register_eq hR
  have haccepts := hl.accepts
  unfold Lexeme.register at hregister
  unfold Lexeme.token
  rw [← h.kind]
  cases hk : l.kind with
  | invalid => exact absurd hk hl.ne_invalid
  | symbol =>
    rw [hk] at haccepts
    have hsymbol : ∀ w ∈ [".", ",", ":", "[", "]"], w.toList.all (!·.isAlpha) := by decide
    exact hletters.eq_of_no_letter (hsymbol _ (Lexeme.symbolWord_mem haccepts))
  | generalRegister => dsimp only; rw [hregister]
  | mnemonic | directive | dataDirective => exact hletters.upperString_eq
  | _ => rfl

end Lexeme.Alike

theorem MemoryOperand.Alike.plain {name name' base base' : Lexeme} (hname : name.Alike R name')
    (hbase : base.Alike R base') :
    (MemoryOperand.plain name base).Alike R (MemoryOperand.plain name' base') :=
  ⟨rfl, hname, hbase.register_eq hR⟩

theorem MemoryOperand.Alike.within {segment segment' name name' base base' : Lexeme}
    (hsegment : segment.Alike R segment') (hname : name.Alike R name')
    (hbase : base.Alike R base') :
    (MemoryOperand.within segment name base).Alike R
      (MemoryOperand.within segment' name' base') :=
  ⟨congrArg some (hR.letters hsegment.text).segmentRegister_eq, hname, hbase.register_eq hR⟩

/-- A line of the same form and with operands that are alike says the same. -/
theorem Statement.exists_alike {f : Form} {os os' : List Lexeme} {st : Statement}
    (h : List.Forall₂ (Lexeme.Alike R) os os') (hst : ofLexemes? f os = some st) :
    ∃ st', ofLexemes? f os' = some st' ∧ st.Alike R st' := by
  -- A list of the wrong length has no statement in either line.
  cases f with
  | finishAt | finish => cases hst; exact ⟨_, rfl, .finish⟩
  | cli => cases hst; exact ⟨_, rfl, .cli⟩
  | empty => cases hst; exact ⟨_, rfl, .empty⟩
  | beginSegment =>
    obtain _ | ⟨hname, _⟩ := h <;> cases hst
    exact ⟨_, rfl, .beginSegment hname⟩
  | endSegment =>
    obtain _ | ⟨hname, _⟩ := h <;> cases hst
    exact ⟨_, rfl, .endSegment hname⟩
  | assume =>
    obtain _ | ⟨_, hpairs⟩ := h <;> cases hst
    exact ⟨_, rfl, .assume hpairs⟩
  | label =>
    obtain _ | ⟨hname, _⟩ := h <;> cases hst
    exact ⟨_, rfl, .label hname⟩
  | dataByte | dataWord | dataDouble =>
    obtain _ | ⟨hname, _ | ⟨hdirective, _ | ⟨hvalue, _ | _⟩⟩⟩ := h <;> cases hst
    rw [hdirective.dataType_eq hR]
    exact ⟨_, rfl, .data hname hvalue⟩
  | dataText =>
    obtain _ | ⟨hname, _ | ⟨_, _ | ⟨hvalue, _ | _⟩⟩⟩ := h <;> cases hst
    exact ⟨_, rfl, .data hname hvalue⟩
  | inc =>
    obtain _ | ⟨_, _ | ⟨hname, _ | ⟨_, _ | ⟨hbase, _ | ⟨_, _ | _⟩⟩⟩⟩⟩ := h <;> cases hst
    exact ⟨_, rfl, .inc (.plain hR hname hbase)⟩
  | incOverride =>
    obtain _ | ⟨_, _ | ⟨hseg, _ | ⟨_, _ | ⟨hname, _ | ⟨_, _ | ⟨hbase, _ | ⟨_, _ | _⟩⟩⟩⟩⟩⟩⟩ := h <;>
      cases hst
    exact ⟨_, rfl, .inc (.within hR hseg hname hbase)⟩
  | dec =>
    obtain _ | ⟨_, _ | ⟨hregister, _ | _⟩⟩ := h <;> cases hst
    rw [hregister.register_eq hR]
    exact ⟨_, rfl, .dec _⟩
  | add =>
    obtain _ | ⟨_, _ | ⟨hname, _ | ⟨_, _ | ⟨hbase, _ | ⟨_, _ | ⟨_, _ | ⟨hvalue, _ | _⟩⟩⟩⟩⟩⟩⟩ := h <;>
      cases hst
    exact ⟨_, rfl, .add (.plain hR hname hbase) hvalue⟩
  | addOverride =>
    obtain _ | ⟨_, _ | ⟨hseg, _ | ⟨_, _ | ⟨hname, _ | ⟨_, _ | ⟨hbase, _ | ⟨_, _ | ⟨_,
      _ | ⟨hvalue, _ | _⟩⟩⟩⟩⟩⟩⟩⟩⟩ := h <;> cases hst
    exact ⟨_, rfl, .add (.within hR hseg hname hbase) hvalue⟩
  | cmp =>
    obtain _ | ⟨_, _ | ⟨hregister, _ | ⟨_, _ | ⟨hname, _ | ⟨_, _ | ⟨hbase, _ | ⟨_, _ | _⟩⟩⟩⟩⟩⟩⟩ :=
      h <;> cases hst
    exact ⟨_, rfl, .cmp (.plain hR hname hbase) hregister⟩
  | cmpOverride =>
    obtain _ | ⟨_, _ | ⟨hregister, _ | ⟨_, _ | ⟨hseg, _ | ⟨_, _ | ⟨hname, _ | ⟨_, _ | ⟨hbase,
      _ | ⟨_, _ | _⟩⟩⟩⟩⟩⟩⟩⟩⟩ := h <;> cases hst
    exact ⟨_, rfl, .cmp (.within hR hseg hname hbase) hregister⟩
  | xor =>
    obtain _ | ⟨_, _ | ⟨hname, _ | ⟨_, _ | ⟨hbase, _ | ⟨_, _ | ⟨_, _ | ⟨hregister, _ | _⟩⟩⟩⟩⟩⟩⟩ :=
      h <;> cases hst
    exact ⟨_, rfl, .xor (.plain hR hname hbase) hregister⟩
  | xorOverride =>
    obtain _ | ⟨_, _ | ⟨hseg, _ | ⟨_, _ | ⟨hname, _ | ⟨_, _ | ⟨hbase, _ | ⟨_, _ | ⟨_,
      _ | ⟨hregister, _ | _⟩⟩⟩⟩⟩⟩⟩⟩⟩ := h <;> cases hst
    exact ⟨_, rfl, .xor (.within hR hseg hname hbase) hregister⟩
  | mov =>
    obtain _ | ⟨_, _ | ⟨hregister, _ | ⟨_, _ | ⟨hvalue, _ | _⟩⟩⟩⟩ := h <;> cases hst
    rw [hregister.register_eq hR]
    exact ⟨_, rfl, .mov hvalue⟩
  | or =>
    obtain _ | ⟨_, _ | ⟨hfirst, _ | ⟨_, _ | ⟨hsecond, _ | _⟩⟩⟩⟩ := h <;> cases hst
    exact ⟨_, rfl, .or hfirst hsecond⟩
  | jb | jmp =>
    obtain _ | ⟨_, _ | ⟨htarget, _ | _⟩⟩ := h <;> cases hst
    exact ⟨_, rfl, .jump htarget⟩

section Classify

variable {ls ls' : List Lexeme} (hs : ∀ l ∈ ls, l.Scanned)
  (h : List.Forall₂ (Lexeme.Alike R) ls ls')
include hs h

/-- The tokens of lexemes that make sense are the same. -/
theorem map_token_eq (hvalid : ∀ l ∈ ls, l.kind ≠ .invalid) :
    ls.map Lexeme.token = ls'.map Lexeme.token := by
  induction h with
  | nil => rfl
  | cons hl _ ih =>
    rw [List.forall_mem_cons] at hs hvalid
    rw [List.map_cons, List.map_cons, hl.token_eq hR ⟨hs.1, hvalid.1⟩, ih hs.2 hvalid.2]

/-- If both lines have a label in front or none has, and they are of one form, they do the same. -/
theorem classify_alike (hlabel : startsWithLabel (template ls) = startsWithLabel (template ls'))
    (hform : (classify ls).form? = (classify ls').form?) :
    (classify ls).Alike R (classify ls') := by
  have hparts : Option.Rel (Lexeme.Alike R) (classify ls).label (classify ls').label ∧
      List.Forall₂ (Lexeme.Alike R) (classify ls).operands (classify ls').operands := by
    by_cases hstarts : startsWithLabel (template ls)
    · rw [classify_of_startsWithLabel hstarts, classify_of_startsWithLabel (hlabel ▸ hstarts)]
      refine ⟨?_, List.forall₂_drop 2 h⟩
      cases h with
      | nil => exact .none
      | cons hl _ => exact .some hl
    · rw [classify_of_not_startsWithLabel hstarts,
        classify_of_not_startsWithLabel (hlabel ▸ hstarts)]
      exact ⟨.none, h⟩
  refine ⟨hparts.1, by rw [Classified.kind, Classified.kind, hform], ?_⟩
  cases hf : (classify ls).form? with
  | none =>
    rw [Classified.statement?, Classified.statement?, ← hform, hf]
    exact .none
  | some f =>
    obtain ⟨st, hst, -⟩ := readFrom_of_form hs hf
    have hread : Statement.ofLexemes? f (classify ls).operands = some st := by
      rwa [Classified.statement?, hf] at hst
    obtain ⟨st', hst', halike⟩ := Statement.exists_alike hR hparts.2 hread
    rw [hst, Classified.statement?, ← hform, hf, Option.bind_some, hst']
    exact .some halike

theorem classify_alike_of_template (htemplate : template ls = template ls') :
    (classify ls).Alike R (classify ls') := by
  refine classify_alike hR hs h (by rw [htemplate]) ?_
  unfold Classified.form?
  by_cases hstarts : startsWithLabel (template ls)
  · rw [classify_of_startsWithLabel hstarts, classify_of_startsWithLabel (htemplate ▸ hstarts),
      htemplate]
  · rw [classify_of_not_startsWithLabel hstarts,
      classify_of_not_startsWithLabel (htemplate ▸ hstarts), htemplate]

end Classify

end

end SegAsm
