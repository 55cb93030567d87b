import SegAsm.Proofs.Form
import SegAsm.Statement

/-! What a statement takes from the lexemes of its line. Every line of a valid form has a statement,
and each lexeme that it takes is of the kind that its place asks for. -/
namespace SegAsm

open Text

/-- The kind of the lines with such a statement. -/
def Statement.kind : Statement → LineKind
  | .beginSegment _ => .beginSegment
  | .endSegment _ => .endSegment
  | .assume _ => .assume
  | .finish => .finish
  | .label _ => .label
  | .data _ _ _ => .dataDeclaration
  | .jump _ _ => .jump
  | .empty => .empty
  | _ => .instructions

theorem kind_of_ofLexemes? {f : Form} {os : List Lexeme} {st : Statement}
    (h : Statement.ofLexemes? f os = some st) : f.kind = st.kind := by
  unfold Statement.ofLexemes? at h
  split at h <;> cases h <;> rfl

theorem kind_of_statement? {c : Classified} {st : Statement} (h : c.statement? = some st) :
    c.kind = st.kind := by
  obtain ⟨f, hform, hst⟩ := Option.bind_eq_some_iff.mp h
  unfold Classified.kind
  rw [hform, Option.map_some, Option.getD_some, kind_of_ofLexemes? hst]

/-- The memory operand of the instructions that have one. -/
def Statement.memory? : Statement → Option MemoryOperand
  | .inc _ m | .add m _ | .cmp _ m | .xor m _ => some m
  | _ => none

/-- The registers that can stand between the brackets of a memory operand. -/
def Register.isBase (r : Register) : Bool :=
  r.isWide || r == .bx || r == .bp || r == .si || r == .di

/-- A keyword of the kind, in any case. -/
def Lexeme.IsKeyword (l : Lexeme) (k : LexemeKind) (word : String) : Prop :=
  l.kind = k ∧ upperString l.text = word

def Lexeme.IsSymbol (l : Lexeme) (text : String) : Prop :=
  l.kind = .symbol ∧ l.text = text

def LexemeKind.isConstant (k : LexemeKind) : Bool :=
  k.isNumeric || k == .quoted

def Jump.mnemonic : Jump → String
  | .below => "JB"
  | .always => "JMP"

/-- The operand is what these lexemes say: `name[base]`, perhaps behind a segment register. -/
inductive MemoryOperand.ReadFrom : List Lexeme → MemoryOperand → Prop
  | plain {name left base right : Lexeme} (hname : name.kind = .identifier)
      (hleft : left.IsSymbol "[") (hbase : base.kind = .generalRegister)
      (hregister : Register.ofName? base.text = some base.register) (hr : base.register.isBase)
      (hright : right.IsSymbol "]") :
      ReadFrom [name, left, base, right] ⟨none, name, base.register⟩
  | within {segment colon name : Lexeme} {r : Register} {os : List Lexeme}
      (hsegment : segment.kind = .segmentRegister) (hcolon : colon.IsSymbol ":")
      (h : ReadFrom os ⟨none, name, r⟩) :
      ReadFrom (segment :: colon :: os) ⟨some (.ofOperand segment.text), name, r⟩

/-- The statement is what these lexemes say. An `ASSUME` reads all but the first of them, whatever
they are. -/
inductive Statement.ReadFrom : List Lexeme → Statement → Prop
  | beginSegment {name directive : Lexeme} (hname : name.kind = .identifier)
      (hd : directive.IsKeyword .directive "SEGMENT") :
      ReadFrom [name, directive] (.beginSegment name)
  | endSegment {name directive : Lexeme} (hname : name.kind = .identifier)
      (hd : directive.IsKeyword .directive "ENDS") : ReadFrom [name, directive] (.endSegment name)
  | assume {first : Lexeme} {pairs : List Lexeme} : ReadFrom (first :: pairs) (.assume pairs)
  | finishAt {directive name : Lexeme} (hd : directive.IsKeyword .directive "END")
      (hname : name.kind = .identifier) : ReadFrom [directive, name] .finish
  | finish {directive : Lexeme} (hd : directive.IsKeyword .directive "END") :
      ReadFrom [directive] .finish
  | label {name colon : Lexeme} (hname : name.kind = .identifier) (hcolon : colon.IsSymbol ":") :
      ReadFrom [name, colon] (.label name)
  | data {name directive value : Lexeme} {type : SymbolType} (hname : name.kind = .identifier)
      (hd : directive.IsKeyword .dataDirective type.name) (hv : value.kind.isConstant) :
      ReadFrom [name, directive, value] (.data type name value)
  | cli {mnemonic : Lexeme} (hm : mnemonic.IsKeyword .mnemonic "CLI") : ReadFrom [mnemonic] .cli
  | inc {mnemonic : Lexeme} {os : List Lexeme} {m : MemoryOperand}
      (hm : mnemonic.IsKeyword .mnemonic "INC") (h : m.ReadFrom os) :
      ReadFrom (mnemonic :: os) (.inc mnemonic m)
  | dec {mnemonic register : Lexeme} (hm : mnemonic.IsKeyword .mnemonic "DEC")
      (hr : register.kind = .generalRegister) :
      ReadFrom [mnemonic, register] (.dec register.register)
  | add {mnemonic comma immediate : Lexeme} {os : List Lexeme} {m : MemoryOperand}
      (hm : mnemonic.IsKeyword .mnemonic "ADD") (h : m.ReadFrom os) (hcomma : comma.IsSymbol ",")
      (hi : immediate.kind.isConstant) :
      ReadFrom (mnemonic :: os ++ [comma, immediate]) (.add m immediate)
  | cmp {mnemonic register comma : Lexeme} {os : List Lexeme} {m : MemoryOperand}
      (hm : mnemonic.IsKeyword .mnemonic "CMP") (hr : register.kind = .generalRegister)
      (hcomma : comma.IsSymbol ",") (h : m.ReadFrom os) :
      ReadFrom (mnemonic :: register :: comma :: os) (.cmp register m)
  | xor {mnemonic comma register : Lexeme} {os : List Lexeme} {m : MemoryOperand}
      (hm : mnemonic.IsKeyword .mnemonic "XOR") (h : m.ReadFrom os) (hcomma : comma.IsSymbol ",")
      (hr : register.kind = .generalRegister) :
      ReadFrom (mnemonic :: os ++ [comma, register]) (.xor m register)
  | mov {mnemonic register comma immediate : Lexeme} (hm : mnemonic.IsKeyword .mnemonic "MOV")
      (hr : register.kind = .generalRegister) (hcomma : comma.IsSymbol ",")
      (hi : immediate.kind.isConstant) :
      ReadFrom [mnemonic, register, comma, immediate] (.mov register.register immediate)
  | or {mnemonic first comma second : Lexeme} (hm : mnemonic.IsKeyword .mnemonic "OR")
      (hfirst : first.kind = .generalRegister) (hcomma : comma.IsSymbol ",")
      (hsecond : second.kind = .generalRegister) :
      ReadFrom [mnemonic, first, comma, second] (.or first second)
  | jump {mnemonic target : Lexeme} {j : Jump} (hm : mnemonic.IsKeyword .mnemonic j.mnemonic)
      (htarget : target.kind = .identifier) : ReadFrom [mnemonic, target] (.jump j target)
  | empty : ReadFrom [] .empty

/-- The operand stands among the lexemes as `name[base]`, with its segment register in front; without
one there is no segment register at all. -/
inductive MemoryOperand.WrittenIn : MemoryOperand → List Lexeme → Prop
  | plain {before after : List Lexeme} {name left base right : Lexeme} {r : Register}
      (hleft : left.text = "[") (hright : right.text = "]")
      (hbase : Register.ofName? base.text = some r) (hr : r.isBase)
      (hnone : ∀ l ∈ before ++ [name, left, base, right] ++ after, l.kind ≠ .segmentRegister) :
      WrittenIn ⟨none, name, r⟩ (before ++ [name, left, base, right] ++ after)
  | within {before after : List Lexeme} {segment colon name left base right : Lexeme}
      {r : Register} {s : SegmentRegister} (hsegment : SegmentRegister.ofName? segment.text = some s)
      (hcolon : colon.text = ":") (hleft : left.text = "[") (hright : right.text = "]")
      (hbase : Register.ofName? base.text = some r) (hr : r.isBase) :
      WrittenIn ⟨some s, name, r⟩
        (before ++ [segment, colon, name, left, base, right] ++ after)

theorem MemoryOperand.WrittenIn.isBase {m : MemoryOperand} {ls : List Lexeme}
    (h : m.WrittenIn ls) : m.base.isBase := by
  cases h <;> assumption

/-- The words by which the lexemes of a kind can be shown. -/
def LexemeKind.shown : LexemeKind → List String
  | .generalRegister => ["reg", "ADDR"]
  | .quoted => ["C_STR", "CONST"]
  | k => k.tokens

namespace Lexeme

variable {l : Lexeme} {w : String}

theorem Shown.mem_shown (h : l.Shown w) (hl : l.Valid) : w ∈ l.kind.shown := by
  cases h with
  | token hr =>
    have hmem := hl.token_mem
    cases hkind : l.kind with
    | generalRegister => exact absurd hkind hr
    | quoted => simp [LexemeKind.shown, Lexeme.token, hkind]
    | _ => rwa [hkind] at hmem
  | text hq => simp [LexemeKind.shown, hq]
  | operand hr => simp [LexemeKind.shown, hr]
  | address hr => simp [LexemeKind.shown, hr]

theorem Shown.kind_mem (h : l.Shown w) (hl : l.Valid) {p : LexemeKind → Prop}
    (hp : ∀ k ∈ LexemeKind.all, w ∈ k.shown → p k) : p l.kind := by
  have hall : l.kind ∈ LexemeKind.all := by cases l.kind <;> decide
  exact hp l.kind hall (h.mem_shown hl)

theorem Shown.kind_eq (h : l.Shown w) (hl : l.Valid) {k : LexemeKind}
    (hk : ∀ k' ∈ LexemeKind.all, w ∈ k'.shown → k' = k) : l.kind = k :=
  h.kind_mem hl hk

theorem Shown.isConstant (h : l.Shown w) (hl : l.Valid) (hw : w ∈ ["CONST", "C_STR"]) :
    l.kind.isConstant = true := by
  have hconstant : ∀ w ∈ ["CONST", "C_STR"], ∀ k ∈ LexemeKind.all, w ∈ k.shown →
      k.isConstant = true := by
    decide
  exact h.kind_mem hl (hconstant w hw)

theorem Shown.token_eq (h : l.Shown w) (hw : w ∉ ["reg", "ADDR", "CONST"]) : l.token = w := by
  cases h with
  | token => rfl
  | text | operand | address => exact absurd (by decide) hw

theorem Shown.isKeyword (h : l.Shown w) (hl : l.Valid) {k : LexemeKind}
    (hk : k ∈ [.mnemonic, .directive, .dataDirective] ∧ w ∈ k.tokens) : l.IsKeyword k w := by
  have honly : ∀ k ∈ [LexemeKind.mnemonic, .directive, .dataDirective], ∀ w ∈ k.tokens,
      (∀ k' ∈ LexemeKind.all, w ∈ k'.shown → k' = k) ∧ w ∉ ["reg", "ADDR", "CONST"] := by
    decide
  obtain ⟨hkind, hplain⟩ := honly k hk.1 w hk.2
  have heq := h.kind_eq hl hkind
  have htoken := h.token_eq hplain
  refine ⟨heq, ?_⟩
  obtain ⟨hkeyword, -⟩ := hk
  simp only [List.mem_cons, List.not_mem_nil, or_false] at hkeyword
  rcases hkeyword with rfl | rfl | rfl <;> simpa [Lexeme.token, heq] using htoken

theorem Shown.isSymbol (h : l.Shown w) (hl : l.Valid) (hw : w ∈ LexemeKind.symbol.tokens) :
    l.IsSymbol w := by
  have honly : ∀ w ∈ LexemeKind.symbol.tokens,
      (∀ k ∈ LexemeKind.all, w ∈ k.shown → k = .symbol) ∧ w ∉ ["reg", "ADDR", "CONST"] := by
    decide
  have hkind := h.kind_eq hl (honly w hw).1
  have htoken := h.token_eq (honly w hw).2
  exact ⟨hkind, by simpa [Lexeme.token, hkind] using htoken⟩

theorem Shown.isBase (h : l.Shown "ADDR") (hl : l.Valid) :
    Register.ofName? l.text = some l.register ∧ l.register.isBase := by
  have hregister : ∀ r : Register, registerToken r = "r16a" ∨ registerToken r = "r32" → r.isBase := by
    intro r
    cases r <;> decide
  generalize hw : "ADDR" = w at h
  cases h with
  | token =>
    have hmem := hl.token_mem_allTokens
    rw [← hw] at hmem
    exact absurd hmem (by decide)
  | text => exact absurd hw (by decide)
  | operand => exact absurd hw (by decide)
  | address hr ha =>
    have htoken : l.token = registerToken l.register := by simp [Lexeme.token, hr, register]
    rw [htoken] at ha
    refine ⟨?_, hregister _ ha⟩
    cases hn : Register.ofName? l.text with
    | some r => simp [register, Register.ofOperand, hn]
    | none =>
      -- A text that names no register stands for `AL`, and that is no base.
      have hal : l.register = .al := by simp [register, Register.ofOperand, hn]
      rw [hal] at ha
      exact absurd ha (by decide)

theorem Scanned.ofName?_segmentRegister (hs : l.Scanned) (hk : l.kind = .segmentRegister) :
    SegmentRegister.ofName? l.text = some (.ofOperand l.text) := by
  have hname : ∀ x ∈ LexemeKind.segmentRegisterWords, ∃ s ∈ SegmentRegister.all,
      s.name.toList.map fold = x.toList := by
    decide
  have ha := hs.accepts
  rw [hk] at ha
  obtain ⟨x, hx, heq⟩ := List.any_eq_true.mp ha
  obtain ⟨s, hs, hfold⟩ := hname x hx
  have hsame : sameFold s.name l.text := by
    rw [sameFold, hfold]
    exact heq
  have hsome : (SegmentRegister.ofName? l.text).isSome :=
    List.find?_isSome.mpr ⟨s, hs, hsame⟩
  obtain ⟨r, hr⟩ := Option.isSome_iff_exists.mp hsome
  rw [SegmentRegister.ofOperand, hr, Option.getD_some]

/-- A lexeme without fault that is shown by the word. -/
def StandsFor (l : Lexeme) (w : String) : Prop :=
  l.Valid ∧ l.Shown w

theorem StandsFor.identifier (h : l.StandsFor "ID") : l.kind = .identifier :=
  h.2.kind_eq h.1 (by decide)

theorem StandsFor.register (h : l.StandsFor "reg") : l.kind = .generalRegister :=
  h.2.kind_eq h.1 (by decide)

theorem StandsFor.segment (h : l.StandsFor "rS") : l.kind = .segmentRegister :=
  h.2.kind_eq h.1 (by decide)

theorem StandsFor.constant (h : l.StandsFor w) (hw : w ∈ ["CONST", "C_STR"]) :
    l.kind.isConstant = true :=
  h.2.isConstant h.1 hw

theorem StandsFor.symbol (h : l.StandsFor w) (hw : w ∈ LexemeKind.symbol.tokens) : l.IsSymbol w :=
  h.2.isSymbol h.1 hw

theorem StandsFor.keyword (h : l.StandsFor w) {k : LexemeKind}
    (hk : k ∈ [.mnemonic, .directive, .dataDirective] ∧ w ∈ k.tokens) : l.IsKeyword k w :=
  h.2.isKeyword h.1 hk

end Lexeme

/-- The lexemes of a memory operand without an override, in front of others. -/
theorem exists_plain {os : List Lexeme} {ws : List String}
    (h : List.Forall₂ Lexeme.StandsFor os (["ID", "[", "ADDR", "]"] ++ ws)) :
    ∃ name left base right rest, os = name :: left :: base :: right :: rest ∧
      (MemoryOperand.plain name base).ReadFrom [name, left, base, right] ∧
      List.Forall₂ Lexeme.StandsFor rest ws := by
  obtain _ | ⟨hname, _ | ⟨hleft, _ | ⟨hbase, _ | ⟨hright, hrest⟩⟩⟩⟩ := h
  obtain ⟨hregister, hr⟩ := hbase.2.isBase hbase.1
  have hkind := hbase.2.kind_eq hbase.1 (k := .generalRegister) (by decide)
  exact ⟨_, _, _, _, _, rfl, .plain hname.identifier (hleft.symbol (by decide)) hkind hregister hr
    (hright.symbol (by decide)), hrest⟩

theorem exists_within {os : List Lexeme} {ws : List String}
    (h : List.Forall₂ Lexeme.StandsFor os (["rS", ":", "ID", "[", "ADDR", "]"] ++ ws)) :
    ∃ segment colon name left base right rest,
      os = segment :: colon :: name :: left :: base :: right :: rest ∧
      (MemoryOperand.within segment name base).ReadFrom
        [segment, colon, name, left, base, right] ∧
      List.Forall₂ Lexeme.StandsFor rest ws := by
  obtain _ | ⟨hsegment, _ | ⟨hcolon, hoperand⟩⟩ := h
  obtain ⟨name, left, base, right, rest, rfl, hm, hrest⟩ := exists_plain hoperand
  exact ⟨_, _, _, _, _, _, _, rfl, .within hsegment.segment (hcolon.symbol (by decide)) hm, hrest⟩

theorem Lexeme.IsKeyword.dataType_eq {l : Lexeme} {type : SymbolType}
    (h : l.IsKeyword .dataDirective type.name) (htype : type ≠ .label) : l.dataType = type := by
  unfold Lexeme.dataType SymbolType.ofDirective?
  rw [h.2]
  cases type with
  | label => exact absurd rfl htype
  | byte | word | double => decide

theorem Statement.ReadFrom.datum {name directive value : Lexeme} (type : SymbolType)
    (htype : type ≠ .label) (hname : name.kind = .identifier)
    (hdirective : directive.IsKeyword .dataDirective type.name)
    (hvalue : value.kind.isConstant = true) :
    (Statement.data directive.dataType name value).ReadFrom [name, directive, value] := by
  rw [hdirective.dataType_eq htype]
  exact .data hname hdirective hvalue

/-- Lexemes that are shown by the words of a form have a statement of that form. -/
theorem readFrom_of_shown {f : Form} (hf : f ≠ .assume) {os : List Lexeme}
    (hos : ∀ l ∈ os, l.Valid) (hshown : List.Forall₂ Lexeme.Shown os f.words) :
    ∃ st, Statement.ofLexemes? f os = some st ∧ st.ReadFrom os := by
  have h : List.Forall₂ Lexeme.StandsFor os f.words :=
    (List.forall₂_and_left _ _).mpr ⟨hos, hshown⟩
  clear hos hshown
  cases f with
  | assume => exact absurd rfl hf
  | beginSegment =>
    obtain _ | ⟨hname, _ | ⟨hd, _ | _⟩⟩ := h
    exact ⟨_, rfl, .beginSegment hname.identifier (hd.keyword (by decide))⟩
  | endSegment =>
    obtain _ | ⟨hname, _ | ⟨hd, _ | _⟩⟩ := h
    exact ⟨_, rfl, .endSegment hname.identifier (hd.keyword (by decide))⟩
  | finishAt =>
    obtain _ | ⟨hd, _ | ⟨hname, _ | _⟩⟩ := h
    exact ⟨_, rfl, .finishAt (hd.keyword (by decide)) hname.identifier⟩
  | finish =>
    obtain _ | ⟨hd, _ | _⟩ := h
    exact ⟨_, rfl, .finish (hd.keyword (by decide))⟩
  | label =>
    obtain _ | ⟨hname, _ | ⟨hcolon, _ | _⟩⟩ := h
    exact ⟨_, rfl, .label hname.identifier (hcolon.symbol (by decide))⟩
  | dataByte =>
    obtain _ | ⟨hname, _ | ⟨hd, _ | ⟨hv, _ | _⟩⟩⟩ := h
    exact ⟨_, rfl, .datum .byte (by decide) hname.identifier (hd.keyword (by decide))
      (hv.constant (by decide))⟩
  | dataWord =>
    obtain _ | ⟨hname, _ | ⟨hd, _ | ⟨hv, _ | _⟩⟩⟩ := h
    exact ⟨_, rfl, .datum .word (by decide) hname.identifier (hd.keyword (by decide))
      (hv.constant (by decide))⟩
  | dataDouble =>
    obtain _ | ⟨hname, _ | ⟨hd, _ | ⟨hv, _ | _⟩⟩⟩ := h
    exact ⟨_, rfl, .datum .double (by decide) hname.identifier (hd.keyword (by decide))
      (hv.constant (by decide))⟩
  | dataText =>
    obtain _ | ⟨hname, _ | ⟨hd, _ | ⟨hv, _ | _⟩⟩⟩ := h
    exact ⟨_, rfl, .data hname.identifier (hd.keyword (by decide)) (hv.constant (by decide))⟩
  | cli =>
    obtain _ | ⟨hm, _ | _⟩ := h
    exact ⟨_, rfl, .cli (hm.keyword (by decide))⟩
  | inc =>
    obtain _ | ⟨hm, h⟩ := h
    obtain ⟨name, left, base, right, _, rfl, hmemory, _ | _⟩ := exists_plain h
    exact ⟨_, rfl, .inc (hm.keyword (by decide)) hmemory⟩
  | incOverride =>
    obtain _ | ⟨hm, h⟩ := h
    obtain ⟨segment, colon, name, left, base, right, _, rfl, hmemory, _ | _⟩ := exists_within h
    exact ⟨_, rfl, .inc (hm.keyword (by decide)) hmemory⟩
  | dec =>
    obtain _ | ⟨hm, _ | ⟨hr, _ | _⟩⟩ := h
    exact ⟨_, rfl, .dec (hm.keyword (by decide)) hr.register⟩
  | add =>
    obtain _ | ⟨hm, h⟩ := h
    obtain ⟨name, left, base, right, _, rfl, hmemory, _ | ⟨hcomma, _ | ⟨hi, _ | _⟩⟩⟩ :=
      exists_plain h
    exact ⟨_, rfl, .add (hm.keyword (by decide)) hmemory (hcomma.symbol (by decide))
      (hi.constant (by decide))⟩
  | addOverride =>
    obtain _ | ⟨hm, h⟩ := h
    obtain ⟨segment, colon, name, left, base, right, _, rfl, hmemory,
      _ | ⟨hcomma, _ | ⟨hi, _ | _⟩⟩⟩ := exists_within h
    exact ⟨_, rfl, .add (hm.keyword (by decide)) hmemory (hcomma.symbol (by decide))
      (hi.constant (by decide))⟩
  | cmp =>
    obtain _ | ⟨hm, _ | ⟨hr, _ | ⟨hcomma, h⟩⟩⟩ := h
    obtain ⟨name, left, base, right, _, rfl, hmemory, _ | _⟩ := exists_plain h
    exact ⟨_, rfl, .cmp (hm.keyword (by decide)) hr.register (hcomma.symbol (by decide)) hmemory⟩
  | cmpOverride =>
    obtain _ | ⟨hm, _ | ⟨hr, _ | ⟨hcomma, h⟩⟩⟩ := h
    obtain ⟨segment, colon, name, left, base, right, _, rfl, hmemory, _ | _⟩ := exists_within h
    exact ⟨_, rfl, .cmp (hm.keyword (by decide)) hr.register (hcomma.symbol (by decide)) hmemory⟩
  | xor =>
    obtain _ | ⟨hm, h⟩ := h
    obtain ⟨name, left, base, right, _, rfl, hmemory, _ | ⟨hcomma, _ | ⟨hr, _ | _⟩⟩⟩ :=
      exists_plain h
    exact ⟨_, rfl, .xor (hm.keyword (by decide)) hmemory (hcomma.symbol (by decide)) hr.register⟩
  | xorOverride =>
    obtain _ | ⟨hm, h⟩ := h
    obtain ⟨segment, colon, name, left, base, right, _, rfl, hmemory,
      _ | ⟨hcomma, _ | ⟨hr, _ | _⟩⟩⟩ := exists_within h
    exact ⟨_, rfl, .xor (hm.keyword (by decide)) hmemory (hcomma.symbol (by decide)) hr.register⟩
  | mov =>
    obtain _ | ⟨hm, _ | ⟨hr, _ | ⟨hcomma, _ | ⟨hi, _ | _⟩⟩⟩⟩ := h
    exact ⟨_, rfl, .mov (hm.keyword (by decide)) hr.register (hcomma.symbol (by decide))
      (hi.constant (by decide))⟩
  | or =>
    obtain _ | ⟨hm, _ | ⟨hfirst, _ | ⟨hcomma, _ | ⟨hsecond, _ | _⟩⟩⟩⟩ := h
    exact ⟨_, rfl, .or (hm.keyword (by decide)) hfirst.register (hcomma.symbol (by decide))
      hsecond.register⟩
  | jb | jmp =>
    obtain _ | ⟨hm, _ | ⟨htarget, _ | _⟩⟩ := h
    exact ⟨_, rfl, .jump (hm.keyword (by decide)) htarget.identifier⟩
  | empty =>
    obtain _ | _ := h
    exact ⟨_, rfl, .empty⟩

section

variable {ls : List Lexeme} (hs : ∀ l ∈ ls, l.Scanned)
include hs

theorem operands_ne_nil {f : Form} (h : (classify ls).form? = some f) (hf : f ≠ .empty) :
    (classify ls).operands ≠ [] := by
  have hvalid := valid_of_form? hs h
  have hwords := (form?_eq_some_iff hvalid).mp h
  have hlength : (mergePairs (shownAs ls)).length ≤ ls.length := by
    rw [(forall₂_shown hvalid).2.length_eq]
    exact (mergePairs_sublist (shownAs ls)).length_le
  have hpositive : 0 < f.words.length := by
    revert hf
    cases f <;> decide
  rw [classify_operands hvalid, ← List.length_pos_iff]
  rw [unlabelled] at hwords
  split_ifs at hwords ⊢ with hlabel
  · rw [List.length_drop]
    have hlong := hlabel.2
    omega
  · rw [hwords] at hlength
    omega

/-- Every line of a form has a statement, and its operands are the lexemes that it was read from. -/
theorem readFrom_of_form {f : Form} (h : (classify ls).form? = some f) :
    ∃ st, (classify ls).statement? = some st ∧ st.ReadFrom (classify ls).operands := by
  rw [Classified.statement?, h, Option.bind_some]
  by_cases hf : f = .assume
  · subst hf
    obtain ⟨first, pairs, hos⟩ := List.exists_cons_of_ne_nil (operands_ne_nil hs h (by decide))
    rw [hos]
    exact ⟨.assume pairs, rfl, .assume⟩
  · have hvalid := valid_of_form? hs h
    exact readFrom_of_shown hf (fun l hl => hvalid l ((operands_suffix ls).subset hl))
      (operands_shown hs h hf)

theorem readFrom_of_statement? {st : Statement} (h : (classify ls).statement? = some st) :
    st.ReadFrom (classify ls).operands := by
  obtain ⟨f, hform, -⟩ := Option.bind_eq_some_iff.mp h
  obtain ⟨st', hst, hread⟩ := readFrom_of_form hs hform
  rw [h] at hst
  cases hst
  exact hread

/-- Every line that is for a jump has a target. -/
theorem statement?_of_kind_jump (h : (classify ls).kind = .jump) :
    ∃ j target, (classify ls).statement? = some (.jump j target) := by
  cases hform : (classify ls).form? with
  | none => simp [Classified.kind, hform] at h
  | some f =>
    obtain ⟨st, hst, -⟩ := readFrom_of_form hs hform
    have hkind := kind_of_statement? hst
    rw [h] at hkind
    cases st <;> simp only [Statement.kind, reduceCtorEq] at hkind
    exact ⟨_, _, hst⟩

end

/-- Around its memory operand a statement reads no segment register. -/
theorem Statement.ReadFrom.memory {st : Statement} {os : List Lexeme} (h : st.ReadFrom os)
    {m : MemoryOperand} (hmemory : st.memory? = some m) :
    ∃ before ms after, os = before ++ ms ++ after ∧ m.ReadFrom ms ∧
      ∀ l ∈ before ++ after, l.kind ≠ .segmentRegister := by
  cases h with
  | @inc mnemonic os m hm h =>
    cases hmemory
    exact ⟨[mnemonic], os, [], by simp, h, by simp [hm.1]⟩
  | @add mnemonic comma immediate os m hm h hcomma hi =>
    cases hmemory
    have hkind : immediate.kind ≠ .segmentRegister := by
      intro heq
      rw [heq] at hi
      exact absurd hi (by decide)
    exact ⟨[mnemonic], os, [comma, immediate], by simp, h, by simp [hm.1, hcomma.1, hkind]⟩
  | @cmp mnemonic register comma os m hm hr hcomma h =>
    cases hmemory
    exact ⟨[mnemonic, register, comma], os, [], by simp, h, by simp [hm.1, hr, hcomma.1]⟩
  | @xor mnemonic comma register os m hm h hcomma hr =>
    cases hmemory
    exact ⟨[mnemonic], os, [comma, register], by simp, h, by simp [hm.1, hcomma.1, hr]⟩
  | _ => cases hmemory

theorem MemoryOperand.ReadFrom.writtenIn {m : MemoryOperand} {before ms after : List Lexeme}
    (h : m.ReadFrom ms) (hs : ∀ l ∈ ms, l.Scanned)
    (hnone : ∀ l ∈ before ++ after, l.kind ≠ .segmentRegister) :
    m.WrittenIn (before ++ ms ++ after) := by
  cases h with
  | plain hname hleft hbase hregister hr hright =>
    refine .plain hleft.2 hright.2 hregister hr ?_
    simp only [List.mem_append, List.mem_cons, List.not_mem_nil, or_false] at hnone ⊢
    rintro l ((hl | rfl | rfl | rfl | rfl) | hl)
    · exact hnone l (.inl hl)
    · simp [hname]
    · simp [hleft.1]
    · simp [hbase]
    · simp [hright.1]
    · exact hnone l (.inr hl)
  | within hsegment hcolon h =>
    cases h with
    | plain hname hleft hbase hregister hr hright =>
      have hnamed := (hs _ List.mem_cons_self).ofName?_segmentRegister hsegment
      exact .within hnamed hcolon.2 hleft.2 hright.2 hregister hr

/-- A memory operand stands on its line as it was read. -/
theorem writtenIn_operands {ls : List Lexeme} (hs : ∀ l ∈ ls, l.Scanned) {st : Statement}
    {m : MemoryOperand} (hst : (classify ls).statement? = some st) (hm : st.memory? = some m) :
    m.WrittenIn (classify ls).operands := by
  obtain ⟨before, ms, after, hos, hread, hnone⟩ := (readFrom_of_statement? hs hst).memory hm
  rw [hos]
  refine hread.writtenIn (fun l hl => hs l ((operands_suffix ls).subset ?_)) hnone
  simp [hos, hl]

end SegAsm
