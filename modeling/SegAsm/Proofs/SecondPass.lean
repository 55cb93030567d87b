import SegAsm.Proofs.Code
import SegAsm.Proofs.FirstPass
import SegAsm.Proofs.Operands

/-! The second pass encodes the jumps again whose target was still open in the first one. It moves no
line and changes no size, as a jump takes the same number of bytes in every form. -/
namespace SegAsm

namespace Context

variable {cx : Context} {target : Lexeme}

theorem jump_of_some {symbol : Symbol} (h : cx.symbols.get? target.text = some symbol)
    (resolving : Bool) (address : Nat) (j : Jump) :
    cx.jump resolving address j target = .ofCode (j.code address symbol.offset) := by
  unfold jump
  rw [h]

theorem jump_of_none (h : cx.symbols.get? target.text = none) (resolving : Bool) (address : Nat)
    (j : Jump) :
    cx.jump resolving address j target =
      if resolving then .reject (cx.reportAt target (.unresolvedJump target.text))
      else .ofCode (Code.nops j.reserved) := by
  unfold jump
  rw [h]

theorem isError_unresolvedJump (cx : Context) (target : Lexeme) (name : String) :
    (cx.reportAt target (.unresolvedJump name)).isError = true := rfl

end Context

namespace State

section Jump

variable {s : State} {line : Nat} {text : String} {c : Classified} {j : Jump} {target : Lexeme}

theorem perform_jump (h : c.statement? = some (.jump j target)) :
    s.perform line text c =
      (s.labelled line c, ((s.labelled line c).context line).jump s.resolving s.offset j target) := by
  rw [perform_of_statement h, labelled_eq]
  rfl

theorem address_jump (h : c.statement? = some (.jump j target)) :
    (s.record line text c).address = s.offset := by
  unfold record
  rw [perform_jump h, labelled_eq]
  rfl

theorem code_jump (h : c.statement? = some (.jump j target)) :
    (s.record line text c).code =
      (((s.labelled line c).context line).jump s.resolving s.offset j target).code := by
  unfold record
  rw [perform_jump h]

theorem errors_jump (h : c.statement? = some (.jump j target)) :
    (s.record line text c).errors =
      ((s.declareLabel line c.label).2 ++
        (((s.labelled line c).context line).jump s.resolving s.offset j target).diagnostics).filter
          Diagnostic.isError := by
  unfold record
  rw [perform_jump h]

theorem code_jump_declared (h : c.statement? = some (.jump j target)) {symbol : Symbol}
    (hsymbol : (s.next line text c).symbols.get? target.text = some symbol) :
    (s.record line text c).code = j.code (s.record line text c).address symbol.offset := by
  rw [← symbols_labelled h rfl] at hsymbol
  rw [code_jump h, Context.jump_of_some hsymbol, address_jump h]
  rfl

/-- A correct jump to a name still to come leaves room for the long form. -/
theorem code_jump_open (h : c.statement? = some (.jump j target))
    (hopen : (s.next line text c).symbols.get? target.text = none)
    (hcorrect : (s.record line text c).correct) :
    (s.record line text c).code = Code.nops j.reserved := by
  rw [← symbols_labelled h rfl] at hopen
  cases hresolving : s.resolving with
  | false =>
    rw [code_jump h, Context.jump_of_none hopen, hresolving]
    rfl
  | true =>
    -- Later runs report an open target at once, and then the line is not correct.
    unfold LineRecord.correct at hcorrect
    rw [errors_jump h, Context.jump_of_none hopen, hresolving] at hcorrect
    simp [Emission.reject, Context.isError_unresolvedJump] at hcorrect

theorem size_jump (h : c.statement? = some (.jump j target))
    (hcorrect : (s.record line text c).correct) :
    (s.record line text c).size = j.reserved := by
  unfold LineRecord.size
  cases hsymbol : (s.next line text c).symbols.get? target.text with
  | none => rw [code_jump_open h hsymbol hcorrect, Code.size_nops]
  | some symbol => rw [code_jump_declared h hsymbol, Jump.size_code]

end Jump

section Resolve

variable {s : State} {r : LineRecord} {j : Jump} {target : Lexeme}

theorem resolveJump_of_not (h : ¬(r.kind = .jump ∧ r.correct)) : (s.resolveJump r).1 = r := by
  unfold resolveJump
  rw [if_neg (by simpa using h)]

theorem resolveJump_of_jump (hk : r.kind = .jump) (hc : r.correct)
    (hst : (classify (lexemes r.text)).statement? = some (.jump j target)) :
    (s.resolveJump r).1 =
      let e := (s.context (r.number - 1)).jump true r.address j target
      { r with
        code := e.code ++ Code.nops (r.size - e.code.size)
        errors := e.diagnostics.filter Diagnostic.isError } := by
  unfold resolveJump
  rw [if_pos (by simp [hk, hc])]
  simp only [hst]

theorem resolveJump_declared (hk : r.kind = .jump) (hc : r.correct)
    (hst : (classify (lexemes r.text)).statement? = some (.jump j target)) {symbol : Symbol}
    (hsymbol : s.symbols.get? target.text = some symbol) :
    (s.resolveJump r).1 =
      { r with
        code := j.code r.address symbol.offset ++ Code.nops (r.size - j.reserved)
        errors := [] } := by
  have hjump : (s.context (r.number - 1)).jump true r.address j target = _ :=
    Context.jump_of_some hsymbol true r.address j
  rw [resolveJump_of_jump hk hc hst, hjump]
  simp only [Emission.ofCode, Jump.size_code, List.filter_nil]

theorem resolveJump_open (hk : r.kind = .jump) (hc : r.correct)
    (hst : (classify (lexemes r.text)).statement? = some (.jump j target))
    (hopen : s.symbols.get? target.text = none) :
    (s.resolveJump r).1 =
      { r with
        code := Code.nops r.size
        errors := [(s.context (r.number - 1)).reportAt target (.unresolvedJump target.text)] } := by
  have hjump : (s.context (r.number - 1)).jump true r.address j target = _ :=
    Context.jump_of_none hopen true r.address j
  rw [resolveJump_of_jump hk hc hst, hjump]
  simp [Emission.reject, Context.isError_unresolvedJump]

end Resolve

end State

/-- The same line at the same place, with code of the same size. -/
structure LineRecord.SamePlace (r' r : LineRecord) : Prop where
  size : r'.size = r.size
  address : r'.address = r.address
  segment : r'.segment = r.segment
  kind : r'.kind = r.kind
  number : r'.number = r.number
  text : r'.text = r.text
  assume : r'.assume = r.assume

namespace State

variable {s : State} {lines : List String} {i : Nat}

theorem samePlace_resolveJump {r : LineRecord} (hsize : r.kind = .jump → r.correct →
      ∃ j target, (classify (lexemes r.text)).statement? = some (.jump j target) ∧
        r.size = j.reserved) :
    (s.resolveJump r).1.SamePlace r := by
  by_cases h : r.kind = .jump ∧ r.correct
  · obtain ⟨hk, hc⟩ := h
    obtain ⟨j, target, hst, hsize⟩ := hsize hk hc
    cases hsymbol : s.symbols.get? target.text with
    | none =>
      rw [resolveJump_open hk hc hst hsymbol]
      exact ⟨Code.size_nops _, rfl, rfl, rfl, rfl, rfl, rfl⟩
    | some symbol =>
      rw [resolveJump_declared hk hc hst hsymbol]
      refine ⟨?_, rfl, rfl, rfl, rfl, rfl, rfl⟩
      change Code.size (_ ++ _) = r.size
      rw [Code.size_append, Jump.size_code, Code.size_nops]
      omega
  · rw [resolveJump_of_not h]
    exact ⟨rfl, rfl, rfl, rfl, rfl, rfl, rfl⟩

theorem lines_run (s : State) (lines : List String) :
    (s.run lines).2.lines =
      (s.run lines).2.firstPass.map fun r => ((s.after lines).resolveJump r).1 := by
  unfold run after
  simp only [List.map_map]
  rfl

theorem getElem?_lines (s : State) (lines : List String) (i : Nat) :
    (s.run lines).2.lines[i]? =
      (s.run lines).2.firstPass[i]?.map fun r => ((s.after lines).resolveJump r).1 := by
  rw [lines_run, List.getElem?_map]

theorem eq_of_getElem?_lines {r : LineRecord} {text : String} (htext : lines[i]? = some text)
    (h : (s.run lines).2.lines[i]? = some r) :
    r = ((s.after lines).resolveJump
      ((s.after (lines.take i)).record i text (classify (lexemes text)))).1 := by
  rw [getElem?_lines, getElem?_firstPass, htext, Option.map_some, Option.map_some] at h
  exact (Option.some.inj h).symm

theorem length_lines (s : State) (lines : List String) :
    (s.run lines).2.lines.length = lines.length := by
  rw [lines_run, List.length_map, length_firstPass]

/-- A jump of the first pass that is correct has a target, and the size that is reserved for it. -/
theorem exists_jump_of_firstPass {r : LineRecord} (h : (s.run lines).2.firstPass[i]? = some r)
    (hk : r.kind = .jump) :
    ∃ j target, (classify (lexemes r.text)).statement? = some (.jump j target) ∧
      (r.correct → r.size = j.reserved) ∧
      (∀ symbol, (s.after (lines.take (i + 1))).symbols.get? target.text = some symbol →
        r.code = j.code r.address symbol.offset) ∧
      ((s.after (lines.take (i + 1))).symbols.get? target.text = none → r.correct →
        r.code = Code.nops j.reserved) := by
  rw [getElem?_firstPass] at h
  obtain ⟨text, htext, rfl⟩ := Option.map_eq_some_iff.mp h
  rw [record_kind] at hk
  obtain ⟨j, target, hst⟩ := statement?_of_kind_jump Lexeme.scanned_of_mem_lexemes hk
  rw [record_text, after_take_succ htext]
  exact ⟨j, target, hst, size_jump hst, fun symbol => code_jump_declared hst, code_jump_open hst⟩

theorem samePlace_of_run {r r' : LineRecord} (h : (s.run lines).2.firstPass[i]? = some r)
    (h' : (s.run lines).2.lines[i]? = some r') : r'.SamePlace r := by
  rw [getElem?_lines, h, Option.map_some] at h'
  cases h'
  refine samePlace_resolveJump fun hk hc => ?_
  obtain ⟨j, target, hst, hsize, -⟩ := exists_jump_of_firstPass h hk
  exact ⟨j, target, hst, hsize hc⟩

theorem samePlace_of_mem {r : LineRecord} (h : r ∈ (s.run lines).2.firstPass) :
    ((s.after lines).resolveJump r).1.SamePlace r := by
  obtain ⟨i, hi⟩ := List.mem_iff_getElem?.mp h
  refine samePlace_of_run hi ?_
  rw [getElem?_lines, hi, Option.map_some]

theorem exists_firstPass_of_lines {r : LineRecord} (h : (s.run lines).2.lines[i]? = some r) :
    ∃ r₀, (s.run lines).2.firstPass[i]? = some r₀ ∧ r = ((s.after lines).resolveJump r₀).1 ∧
      r.SamePlace r₀ := by
  have hmap := h
  rw [getElem?_lines] at hmap
  obtain ⟨r₀, h₀, hr⟩ := Option.map_eq_some_iff.mp hmap
  exact ⟨r₀, h₀, hr.symm, samePlace_of_run h₀ h⟩

/-- The second pass leaves all lines but jumps as the first one made them. -/
theorem eq_record_of_lines {text : String} {r : LineRecord} (htext : lines[i]? = some text)
    (h : (s.run lines).2.lines[i]? = some r) (hk : r.kind ≠ .jump) :
    r = (s.after (lines.take i)).record i text (classify (lexemes text)) := by
  obtain ⟨r₀, h₀, hr, hplace⟩ := exists_firstPass_of_lines h
  rw [hplace.kind] at hk
  rw [resolveJump_of_not fun hjump => hk hjump.1] at hr
  rw [getElem?_firstPass, htext, Option.map_some] at h₀
  rw [hr, Option.some.inj h₀]

theorem eq_record_of_statement {text : String} {r : LineRecord} {st : Statement}
    (htext : lines[i]? = some text) (h : (s.run lines).2.lines[i]? = some r)
    (hst : (classify (lexemes text)).statement? = some st) (hk : st.kind ≠ .jump) :
    r = (s.after (lines.take i)).record i text (classify (lexemes text)) := by
  have hkind : ((s.after (lines.take i)).record i text (classify (lexemes text))).kind ≠ .jump := by
    rwa [record_kind, kind_of_statement? hst]
  have hr := eq_of_getElem?_lines htext h
  rwa [resolveJump_of_not fun hjump => hkind hjump.1] at hr

/-- The second pass changes exactly the correct jumps whose target was not declared up to their
own line. -/
theorem resolveJump_ne_iff {r : LineRecord} (h : (s.run lines).2.firstPass[i]? = some r) :
    ((s.after lines).resolveJump r).1 ≠ r ↔
      r.kind = .jump ∧ r.correct ∧
        ∃ j target, (classify (lexemes r.text)).statement? = some (.jump j target) ∧
          (s.after (lines.take (i + 1))).symbols.get? target.text = none := by
  by_cases hjump : r.kind = .jump ∧ r.correct
  · obtain ⟨hk, hc⟩ := hjump
    obtain ⟨j, target, hst, hsize, hdeclared, hopen⟩ := exists_jump_of_firstPass h hk
    have hpad : r.size - j.reserved = 0 := by rw [hsize hc, Nat.sub_self]
    cases hsymbol : (s.after (lines.take (i + 1))).symbols.get? target.text with
    | some symbol =>
      -- The table only grows, so that the second pass finds the symbol of the first.
      have hsame : ((s.after lines).resolveJump r).1 = r := by
        rw [resolveJump_declared hk hc hst (get?_after_of_take hsymbol), hpad,
          ← hdeclared symbol hsymbol]
        have herrors : r.errors = [] := List.isEmpty_iff.mp hc
        rw [← herrors]
        exact congrArg (fun code => { r with code }) (List.append_nil r.code)
      simp [hsame, hst, hsymbol]
    | none =>
      refine iff_of_true ?_ ⟨hk, hc, j, target, hst, hsymbol⟩
      intro hsame
      -- The room that was left is neither an error nor a jump.
      cases hfinal : (s.after lines).symbols.get? target.text with
      | none =>
        rw [resolveJump_open hk hc hst hfinal] at hsame
        have herrors : [_] = r.errors := congrArg LineRecord.errors hsame
        rw [List.isEmpty_iff.mp hc] at herrors
        exact List.cons_ne_nil _ _ herrors
      | some symbol =>
        rw [resolveJump_declared hk hc hst hfinal, hpad] at hsame
        have hcode : j.code r.address symbol.offset ++ Code.nops 0 = r.code :=
          congrArg LineRecord.code hsame
        rw [hopen hsymbol hc] at hcode
        exact j.code_ne_nops _ _ ((List.append_nil _).symm.trans hcode)
  · rw [resolveJump_of_not hjump]
    refine iff_of_false (fun hne => hne rfl) ?_
    exact fun ⟨hk, hc, _⟩ => hjump ⟨hk, hc⟩

/-- Whatever the state carried over from earlier runs, each line has a record in both passes, at the
same place and of the same size. The two differ exactly for the correct jumps whose target was not
declared up to their own line. -/
theorem secondPass_keeps_places (s : State) (lines : List String) :
    let p := (s.run lines).2
    p.firstPass.length = lines.length ∧ p.lines.length = lines.length ∧
      ∀ i r r', p.firstPass[i]? = some r → p.lines[i]? = some r' →
        r'.SamePlace r ∧
        (r' ≠ r ↔ r.kind = .jump ∧ r.correct ∧
          ∃ j target, (classify (lexemes r.text)).statement? = some (.jump j target) ∧
            (s.after (lines.take (i + 1))).symbols.get? target.text = none) := by
  refine ⟨s.length_firstPass lines, s.length_lines lines, ?_⟩
  intro i r r' h h'
  refine ⟨samePlace_of_run h h', ?_⟩
  rw [getElem?_lines, h, Option.map_some] at h'
  cases h'
  exact resolveJump_ne_iff h

theorem secondPass_forward_jump :
    let p := (State.run {} ["JMP M", "M: CLI"]).2
    let r : LineRecord := ⟨"JMP M", 1, .jump, 0, "NOTHING", Code.nops 3, [], none⟩
    let r' := { r with code := [.byte 0xeb, .value 1 1, .byte 0x90] }
    p.firstPass[0]? = some r ∧ p.lines[0]? = some r' ∧ r'.SamePlace r ∧ r' ≠ r := by
  intro p r r'
  have hr : p.firstPass[0]? = some r := by decide +kernel
  have hr' : p.lines[0]? = some r' := by decide +kernel
  exact ⟨hr, hr', ((secondPass_keeps_places {} ["JMP M", "M: CLI"]).2.2 0 r r' hr hr').1,
    by decide +kernel⟩

end State

theorem symbols_assemble (source : String) :
    (assemble source).symbols = (State.after {} (Text.splitLines source)).symbols := rfl

end SegAsm
