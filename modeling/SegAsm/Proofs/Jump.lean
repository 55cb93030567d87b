import SegAsm.Proofs.SecondPass

/-! Jumps of a finished program: which ones are correct, and where their bytes lead. -/
namespace SegAsm

namespace Jump

/-- The bytes of a jump from `address` to `target`. The distance of the short form counts from
behind its two bytes; the rest of the room is filled up. The distance of the long form counts from
behind all bytes, up to a multiple of the segment size. -/
def Leads (j : Jump) (address target : Nat) (bs : List UInt8) : Prop :=
  let d : Int := target - (address + 2)
  if -128 ≤ d ∧ d < 127 then
    ∃ distance : UInt8,
      bs = (match j with | .below => 0x72 | .always => 0xeb) :: distance ::
        List.replicate (bs.length - 2) 0x90 ∧
      address + 2 + distance.toInt8.toInt = target
  else
    ∃ low high : UInt8,
      bs = (match j with | .below => [0x0f, 0x82] | .always => [0xe9]) ++ [low, high] ∧
      (address + bs.length + (low.toNat + 256 * high.toNat)) % 65536 = target % 65536

theorem littleEndian_one (v : Int) : littleEndian v 1 = [UInt8.ofNat (word64 v)] := by
  simp [littleEndian]

theorem littleEndian_two (v : Int) :
    littleEndian v 2 = [UInt8.ofNat (word64 v), UInt8.ofNat (word64 v / 256)] := by
  simp [littleEndian, List.range_succ]

theorem signed_distance {v : Int} (hlow : -128 ≤ v) (hhigh : v < 128) :
    (UInt8.ofNat (word64 v)).toInt8.toInt = v := by
  have hmod : (word64 v : Int) % 256 = v % 256 := word64_emod (by decide) v
  have hsize : Int8.size = 256 := rfl
  rw [UInt8.toInt8_ofNat', Int8.toInt_ofNat', hsize, Int.bmod_def]
  omega

theorem bytes_code_short {j : Jump} {address target : Nat} {d : Int}
    (hd : d = target - (address + 2)) (hshort : -128 ≤ d ∧ d < 127) :
    (j.code address target).bytes =
      j.shortOpcode :: UInt8.ofNat (word64 d) :: List.replicate (j.reserved - 2) 0x90 := by
  have hdelta : (target : Int) - (address + 2 : Nat) = d := by omega
  unfold code
  simp only [hdelta]
  rw [if_pos (by simpa using hshort), Code.bytes_append, Code.bytes_nops]
  simp [Field.bytes, littleEndian_one, nopByte]

theorem bytes_code_long {j : Jump} {address target : Nat} {d : Int}
    (hd : d = target - (address + 2)) (hlong : ¬(-128 ≤ d ∧ d < 127)) :
    (j.code address target).bytes =
      j.longOpcode ++ littleEndian (d - j.longOpcode.length) 2 := by
  have hdelta : (target : Int) - (address + 2 : Nat) = d := by omega
  unfold code
  simp only [hdelta]
  rw [if_neg (by simpa using hlong), Code.bytes_append, Code.bytes_map_byte]
  simp [Field.bytes]

theorem leads_code (j : Jump) (address target : Nat) :
    j.Leads address target (j.code address target).bytes := by
  have hlength : (j.code address target).bytes.length = j.reserved := by
    rw [Code.length_bytes, size_code]
  unfold Leads
  rw [hlength]
  by_cases hshort : -128 ≤ (target : Int) - (address + 2) ∧ (target : Int) - (address + 2) < 127
  · rw [if_pos hshort, bytes_code_short rfl hshort]
    refine ⟨UInt8.ofNat (word64 (target - (address + 2))), ?_, ?_⟩
    · cases j <;> rfl
    · rw [signed_distance hshort.1 (by omega)]
      omega
  · rw [if_neg hshort, bytes_code_long rfl hshort, littleEndian_two]
    -- The long form fills the reserved bytes, so that its distance counts from their end.
    have hend : (j.reserved : Int) = j.longOpcode.length + 2 := rfl
    generalize hv : (target : Int) - (address + 2) - j.longOpcode.length = v
    have hmod : (word64 v : Int) % 65536 = v % 65536 := word64_emod (by decide) v
    refine ⟨UInt8.ofNat (word64 v), UInt8.ofNat (word64 v / 256), ?_, ?_⟩
    · cases j <;> rfl
    · rw [UInt8.toNat_ofNat', UInt8.toNat_ofNat']
      omega

end Jump

namespace State

theorem declareLabel_accepted_iff (s : State) (line : Nat) (label : Option Lexeme) :
    (s.declareLabel line label).2.filter Diagnostic.isError = [] ↔
      ∀ l, label = some l → s.symbols.get? l.text = none := by
  cases label with
  | none => simp [declareLabel]
  | some l =>
    rw [declareLabel, declare_eq]
    cases hsymbol : s.symbols.get? l.text with
    | none => simp [hsymbol]
    | some previous =>
      have herror : Diagnostic.isError
          ⟨.ofLexeme line l, .duplicateIdentifier l.text previous.line⟩ = true := rfl
      simp [hsymbol, herror]

theorem diagnostics_jump_of_not_resolving (cx : Context) (address : Nat) (j : Jump)
    (target : Lexeme) : (cx.jump false address j target).diagnostics = [] := by
  cases hsymbol : cx.symbols.get? target.text with
  | none =>
    rw [Context.jump_of_none hsymbol]
    rfl
  | some symbol =>
    rw [Context.jump_of_some hsymbol]
    rfl

/-- In the first pass of a new program nothing but its label can be wrong with a jump. -/
theorem correct_record_jump {s : State} {line : Nat} {text : String} {c : Classified} {j : Jump}
    {target : Lexeme} (h : c.statement? = some (.jump j target)) (hs : s.resolving = false) :
    (s.record line text c).correct ↔
      ∀ label, c.label = some label → s.symbols.get? label.text = none := by
  unfold LineRecord.correct
  rw [List.isEmpty_iff, errors_jump h, hs, diagnostics_jump_of_not_resolving, List.append_nil]
  exact s.declareLabel_accepted_iff line c.label

theorem correct_firstPass_jump {s : State} {lines : List String} {i : Nat} {r : LineRecord}
    {j : Jump} {target : Lexeme} (hs : s.resolving = false)
    (h : (s.run lines).2.firstPass[i]? = some r)
    (hst : (classify (lexemes r.text)).statement? = some (.jump j target)) :
    r.correct ↔ ∀ label, (classify (lexemes r.text)).label = some label →
      (s.after (lines.take i)).symbols.get? label.text = none := by
  rw [getElem?_firstPass] at h
  obtain ⟨text, -, rfl⟩ := Option.map_eq_some_iff.mp h
  rw [record_text] at hst ⊢
  exact correct_record_jump hst (by rw [(s.kept_after _).1, hs])

theorem correct_resolveJump_iff {s : State} {r : LineRecord} {j : Jump} {target : Lexeme}
    (hk : r.kind = .jump)
    (hst : (classify (lexemes r.text)).statement? = some (.jump j target)) :
    (s.resolveJump r).1.correct ↔ r.correct ∧ (s.symbols.get? target.text).isSome := by
  by_cases hc : r.correct
  · cases hsymbol : s.symbols.get? target.text with
    | none =>
      rw [resolveJump_open hk hc hst hsymbol]
      simp [LineRecord.correct]
    | some symbol =>
      rw [resolveJump_declared hk hc hst hsymbol]
      simpa [LineRecord.correct] using hc
  · rw [resolveJump_of_not (fun h => hc h.2)]
    simp [hc]

end State

theorem isSome_get?_after_iff {lines : List String} {name : String} :
    ((State.after {} lines).symbols.get? name).isSome ↔ ∃ text ∈ lines, Declares text name := by
  rw [State.isSome_get?_after, or_iff_right]
  exact Bool.false_ne_true

theorem get?_after_eq_none_iff {lines : List String} {name : String} :
    (State.after {} lines).symbols.get? name = none ↔ ∀ text ∈ lines, ¬Declares text name := by
  rw [← Option.not_isSome_iff_eq_none, isSome_get?_after_iff]
  simp

theorem State.leads_of_resolveJump {s : State} {r : LineRecord} {j : Jump} {target : Lexeme}
    {symbol : Symbol} (hk : r.kind = .jump) (hc : r.correct) (hsize : r.size = j.reserved)
    (hst : (classify (lexemes r.text)).statement? = some (.jump j target))
    (hsymbol : s.symbols.get? target.text = some symbol) :
    (s.resolveJump r).1.size = j.reserved ∧
      j.Leads (s.resolveJump r).1.address symbol.offset (s.resolveJump r).1.code.bytes := by
  have hcode : (s.resolveJump r).1.code = j.code r.address symbol.offset := by
    rw [resolveJump_declared hk hc hst hsymbol, hsize, Nat.sub_self]
    exact List.append_nil _
  have haddress : (s.resolveJump r).1.address = r.address := by
    rw [resolveJump_declared hk hc hst hsymbol]
  unfold LineRecord.size
  rw [hcode, haddress]
  exact ⟨j.size_code _ _, j.leads_code _ _⟩

/-- A jump is correct exactly if its label is new and some line declares its target. Then it has
the size of the long form and leads to the target. -/
theorem jump_correct_iff_and_leads (source : String) (i : Nat) (text : String) (r : LineRecord)
    (htext : (Text.splitLines source)[i]? = some text)
    (h : (assemble source).lines[i]? = some r) (hk : r.kind = .jump) :
    ∃ j target, (classify (lexemes text)).statement? = some (.jump j target) ∧
      (r.correct ↔
        (∀ label, (classify (lexemes text)).label = some label →
          ∀ earlier ∈ (Text.splitLines source).take i, ¬Declares earlier label.text) ∧
        ∃ line ∈ Text.splitLines source, Declares line target.text) ∧
      (r.correct → ∃ symbol, (assemble source).symbols.get? target.text = some symbol ∧
        r.size = (match j with | .below => 4 | .always => 3) ∧ r.code.bytes.length = r.size ∧
        j.Leads r.address symbol.offset r.code.bytes) := by
  obtain ⟨r₀, h₀, hr, hplace⟩ := State.exists_firstPass_of_lines h
  obtain rfl : r₀.text = text := State.text_of_firstPass htext h₀
  have hk₀ : r₀.kind = .jump := hplace.kind ▸ hk
  obtain ⟨j, target, hst, hsize, -⟩ := State.exists_jump_of_firstPass h₀ hk₀
  have hcorrect : r.correct ↔ r₀.correct ∧ ((assemble source).symbols.get? target.text).isSome := by
    rw [hr, symbols_assemble]
    exact State.correct_resolveJump_iff hk₀ hst
  refine ⟨j, target, hst, ?_, ?_⟩
  · rw [hcorrect, State.correct_firstPass_jump rfl h₀ hst, symbols_assemble, isSome_get?_after_iff]
    simp only [get?_after_eq_none_iff]
  · intro hc
    obtain ⟨hc₀, hdeclared⟩ := hcorrect.mp hc
    obtain ⟨symbol, hsymbol⟩ := Option.isSome_iff_exists.mp hdeclared
    rw [symbols_assemble] at hsymbol ⊢
    obtain ⟨hreserved, hleads⟩ := State.leads_of_resolveJump hk₀ hc₀ (hsize hc₀) hst hsymbol
    rw [← hr] at hreserved hleads
    refine ⟨symbol, hsymbol, ?_, r.code.length_bytes, hleads⟩
    rw [hreserved]
    cases j <;> rfl

theorem jump_leads_over_data :
    let source := "L: JB M\nX DB 1\nM: JMP L"
    let r : LineRecord :=
      ⟨"L: JB M", 1, .jump, 0, "NOTHING",
        [.byte 0x72, .value 3 1, .byte 0x90, .byte 0x90], [], none⟩
    (Text.splitLines source)[0]? = some "L: JB M" ∧ (assemble source).lines[0]? = some r ∧
      r.kind = .jump ∧ r.correct ∧
      ∃ j target symbol, (assemble source).symbols.get? target = some symbol ∧
        Jump.Leads j r.address symbol.offset r.code.bytes := by
  intro source r
  have htext : (Text.splitLines source)[0]? = some "L: JB M" := by decide +kernel
  have hr : (assemble source).lines[0]? = some r := by decide +kernel
  obtain ⟨j, target, -, -, hleads⟩ := jump_correct_iff_and_leads source 0 "L: JB M" r htext hr rfl
  obtain ⟨symbol, hsymbol, -, -, hbytes⟩ := hleads rfl
  exact ⟨htext, hr, rfl, rfl, j, target.text, symbol, hsymbol, hbytes⟩

end SegAsm
