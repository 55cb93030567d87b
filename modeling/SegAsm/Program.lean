import SegAsm.Encode
import SegAsm.Text.Lines

/-! Assembling a program in two passes. The first one goes through all lines and leaves room for
jumps to labels still to come; the second one encodes these jumps again. -/
namespace SegAsm

/-- What is known after some lines. -/
structure State where
  segments : SegmentTable := []
  symbols : SymbolTable := []
  assumes : AssumeTable := {}
  openSegment : String := noSegment
  offset : Nat := 0
  /-- Whether a second pass has begun, so that no jump may leave its target open. -/
  resolving : Bool := false
  errorLines : List Nat := []
  diagnostics : List Diagnostic := []
deriving Repr, Inhabited

/-- An assembled line. -/
structure LineRecord where
  text : String
  /-- The line number, from 1. -/
  number : Nat
  kind : LineKind
  /-- Where the bytes of the line start in its segment. -/
  address : Nat
  segment : String
  code : Code
  /-- What is wrong with the line. -/
  errors : List Diagnostic
  /-- The table after an `ASSUME` line. -/
  assume : Option AssumeTable
deriving DecidableEq, Repr

namespace LineRecord

def correct (r : LineRecord) : Bool :=
  r.errors.isEmpty

/-- The first thing that is wrong, or nothing. -/
def reason (r : LineRecord) : String :=
  (r.errors.head?.map Diagnostic.message).getD ""

def size (r : LineRecord) : Nat :=
  r.code.size

end LineRecord

namespace State

def context (s : State) (line : Nat) : Context :=
  { symbols := s.symbols, assumes := s.assumes, line }

/-- Declares a name at the current place; a name that is taken is reported. -/
def declare (s : State) (line : Nat) (name : Lexeme) (type : SymbolType) :
    State × List Diagnostic :=
  let symbol : Symbol :=
    { name := name.text, segment := s.openSegment, offset := s.offset, type, line := line + 1 }
  match s.symbols.add? symbol with
  | some symbols => ({ s with symbols }, [])
  | none =>
    let previousLine := ((s.symbols.get? name.text).map Symbol.line).getD 0
    (s, [⟨.ofLexeme line name, .duplicateIdentifier name.text previousLine⟩])

/-- Opens a segment where it was left, or a new one. -/
def beginSegment (s : State) (line : Nat) (name : Lexeme) : State × Emission :=
  if s.openSegment = noSegment then
    let segments := s.segments.add name.text
    let offset := ((segments.get? name.text).map Segment.size).getD 0
    ({ s with openSegment := name.text, segments, offset }, {})
  else
    (s, .reject ⟨.ofLexeme line name, .segmentAlreadyOpen name.text s.openSegment⟩)

/-- Closes the open segment, whatever its name; its size is only kept if the name is right. -/
def endSegment (s : State) (line : Nat) (name : Lexeme) : State × Emission :=
  if Text.sameFold s.openSegment name.text then
    ({ s with
        openSegment := noSegment
        segments := s.segments.setSize s.openSegment s.offset }, {})
  else
    ({ s with openSegment := noSegment },
      .reject ⟨.ofLexeme line name, .segmentMismatch name.text s.openSegment⟩)

/-- Declares a datum. The name is declared even if the number does not fit. -/
def data (s : State) (line : Nat) (type : SymbolType) (name value : Lexeme) : State × Emission :=
  if value.kind = .quoted && type != .byte then
    (s, .reject ⟨.ofLexeme line value, .textNotAllowed type⟩)
  else
    let (s', ds) := s.declare line name type
    let e := (s.context line).datum type value
    (s', { e with diagnostics := ds ++ e.diagnostics })

/-- Carries out a statement on the line `line`, from 0. -/
def execute (s : State) (line : Nat) : Statement → State × Emission
  | .beginSegment name => s.beginSegment line name
  | .endSegment name => s.endSegment line name
  | .assume pairs => ({ s with assumes := s.assumes.assume pairs }, {})
  | .label name =>
    let (s', ds) := s.declare line name .label
    (s', { diagnostics := ds })
  | .data type name value => s.data line type name value
  | .finish | .empty => (s, {})
  | .cli => (s, .ofCode [.byte 0xfa])
  | .inc mnemonic m => (s, .ofExcept ((s.context line).inc mnemonic m))
  | .dec r => (s, .ofCode (decCode r))
  | .add m immediate => (s, .ofExcept ((s.context line).add m immediate))
  | .cmp register m => (s, .ofExcept ((s.context line).memoryRegister 0x3a 0x3b m register))
  | .xor m register => (s, .ofExcept ((s.context line).memoryRegister 0x30 0x31 m register))
  | .mov r immediate => (s, .ofExcept ((s.context line).mov r immediate))
  | .or first second => (s, .ofExcept ((s.context line).or first second))
  | .jump j target => (s, (s.context line).jump s.resolving s.offset j target)

/-- Declares the label in front of a line. -/
def declareLabel (s : State) (line : Nat) : Option Lexeme → State × List Diagnostic
  | some label => s.declare line label .label
  | none => (s, [])

/-- Translates one line of the first pass; `line` counts from 0. The diagnostics of the line come
with its record. -/
def translate (s : State) (line : Nat) (text : String) :
    State × LineRecord × List Diagnostic :=
  let c := classify (lexemes text)
  let (s₁, ds) := s.declareLabel line c.label
  let (s₂, e) :=
    match c.statement? with
    | some statement => s₁.execute line statement
    | none => (s₁, .reject (.invalidLine line text c.template))
  let ds := ds ++ e.diagnostics
  let errors := ds.filter Diagnostic.isError
  let record : LineRecord :=
    { text, number := line + 1, kind := c.kind, address := s₂.offset
      segment :=
        if c.kind = .beginSegment && errors.isEmpty then s₂.openSegment else s.openSegment
      code := e.code, errors
      assume := if c.kind = .assume then some s₂.assumes else none }
  ({ s₂ with offset := s₂.offset + e.code.size }, record, ds)

/-- The first pass, from the line `line` on. -/
def firstPass (s : State) (line : Nat) : List String → State × List (LineRecord × List Diagnostic)
  | [] => (s, [])
  | text :: rest =>
    let (s', r) := s.translate line text
    let (s'', rs) := s'.firstPass (line + 1) rest
    (s'', r :: rs)

/-- Encodes a jump again, at the address and with the size of the first pass. Other lines, and
lines that are not correct, stay as they are. -/
def resolveJump (s : State) (r : LineRecord) : LineRecord × List Diagnostic :=
  if r.kind = .jump && r.correct then
    match (classify (lexemes r.text)).statement? with
    | some (.jump j target) =>
      let e := (s.context (r.number - 1)).jump true r.address j target
      ({ r with
          code := e.code ++ Code.nops (r.size - e.code.size)
          errors := e.diagnostics.filter Diagnostic.isError }, e.diagnostics)
    | _ => (r, [])
  else (r, [])

end State

/-- An assembled program. -/
structure Program where
  /-- The records after the second pass. -/
  lines : List LineRecord
  /-- The records of the first pass. -/
  firstPass : List LineRecord
  segments : SegmentTable
  symbols : SymbolTable
  /-- The numbers of the lines that are not correct, in the order in which this was found. -/
  errorLines : List Nat
  diagnostics : List Diagnostic
deriving Repr, Inhabited

/-- The numbers of the lines that are not correct. -/
def faultyLines (rs : List LineRecord) : List Nat :=
  (rs.filter (!·.correct)).map LineRecord.number

/-- Runs both passes over the lines and keeps the state for further runs. -/
def State.run (s : State) (lines : List String) : State × Program :=
  let (s₁, first) := s.firstPass 0 lines
  let firstPass := first.map Prod.fst
  let second := firstPass.map s₁.resolveJump
  let failed := faultyLines ((firstPass.zip second).filterMap fun (r, r') =>
    if r.correct then some r'.1 else none)
  let errorLines := s₁.errorLines ++ faultyLines firstPass ++ failed
  let diagnostics := s₁.diagnostics ++ first.flatMap Prod.snd ++ second.flatMap Prod.snd
  ({ s₁ with resolving := true, errorLines, diagnostics },
    { lines := second.map Prod.fst, firstPass, segments := s₁.segments, symbols := s₁.symbols
      errorLines, diagnostics })

namespace Program

def errorCount (p : Program) : Nat :=
  p.errorLines.length

end Program

/-- Assembles a source text. -/
def assemble (source : String) : Program :=
  (State.run {} (Text.splitLines source)).2

end SegAsm
