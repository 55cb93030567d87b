import SegAsm.Proofs.Jump

/-! Lines appended to a program. The first pass never looks ahead, and the second one looks up nothing
but the targets of jumps, in a table that has only grown: a record changes exactly where a jump still
waits for its target and one of the new lines declares it. -/
namespace SegAsm

namespace LineRecord.SamePlace

variable {r r' r'' : LineRecord}

theorem symm (h : r'.SamePlace r) : r.SamePlace r' :=
  ⟨h.size.symm, h.address.symm, h.segment.symm, h.kind.symm, h.number.symm, h.text.symm,
    h.assume.symm⟩

theorem trans (h' : r''.SamePlace r') (h : r'.SamePlace r) : r''.SamePlace r :=
  ⟨h'.size.trans h.size, h'.address.trans h.address, h'.segment.trans h.segment,
    h'.kind.trans h.kind, h'.number.trans h.number, h'.text.trans h.text, h'.assume.trans h.assume⟩

end LineRecord.SamePlace

namespace State

theorem take_firstPass_append (s : State) (xs ys : List String) :
    (s.run (xs ++ ys)).2.firstPass.take xs.length = (s.run xs).2.firstPass := by
  have hsplit : (s.run (xs ++ ys)).2.firstPass = (s.run xs).2.firstPass ++
      (((s.firstPass 0 xs).1.firstPass (0 + xs.length) ys).2.map Prod.fst) := by
    unfold run
    rw [firstPass_append]
    exact List.map_append
  rw [hsplit]
  exact List.take_left' (s.length_firstPass xs)

theorem getElem?_firstPass_append (s : State) {xs : List String} (ys : List String) {i : Nat}
    (hi : i < xs.length) :
    (s.run (xs ++ ys)).2.firstPass[i]? = (s.run xs).2.firstPass[i]? := by
  rw [← s.take_firstPass_append xs ys, List.getElem?_take_of_lt hi]

theorem kind_of_firstPass {s : State} {lines : List String} {i : Nat} {r : LineRecord}
    (h : (s.run lines).2.firstPass[i]? = some r) : r.kind = (classify (lexemes r.text)).kind := by
  rw [getElem?_firstPass] at h
  obtain ⟨text, -, rfl⟩ := Option.map_eq_some_iff.mp h
  rw [record_kind, record_text]

/-- A longer program finishes the record of the shorter one's first pass, with its own table. -/
theorem exists_finished_append (s : State) {xs : List String} (ys : List String) {i : Nat}
    {text : String} (htext : xs[i]? = some text) :
    ∃ r₀, (s.run xs).2.firstPass[i]? = some r₀ ∧ r₀.text = text ∧
      (s.run xs).2.lines[i]? = some ((s.after xs).resolveJump r₀).1 ∧
      (s.run (xs ++ ys)).2.lines[i]? = some ((s.after (xs ++ ys)).resolveJump r₀).1 ∧
      ((s.after (xs ++ ys)).resolveJump r₀).1.SamePlace ((s.after xs).resolveJump r₀).1 := by
  have hi : i < xs.length := (List.getElem?_eq_some_iff.mp htext).1
  obtain ⟨r₀, hshort⟩ : ∃ r₀, (s.run xs).2.firstPass[i]? = some r₀ :=
    ⟨_, List.getElem?_eq_getElem (by rw [length_firstPass]; exact hi)⟩
  have hlong := (s.getElem?_firstPass_append ys hi).trans hshort
  have hr := s.getElem?_lines xs i
  have hr' := s.getElem?_lines (xs ++ ys) i
  rw [hshort, Option.map_some] at hr
  rw [hlong, Option.map_some] at hr'
  exact ⟨r₀, hshort, text_of_firstPass htext hshort, hr, hr',
    (samePlace_of_run hlong hr').trans (samePlace_of_run hshort hr).symm⟩

section Resolve

variable {s s' : State} {r : LineRecord} {j : Jump} {target : Lexeme}

/-- Of the state, a jump only takes what its target stands for. -/
theorem resolveJump_congr (hst : (classify (lexemes r.text)).statement? = some (.jump j target))
    (h : s'.symbols.get? target.text = s.symbols.get? target.text) :
    (s'.resolveJump r).1 = (s.resolveJump r).1 := by
  by_cases hjump : r.kind = .jump ∧ r.correct
  · obtain ⟨hk, hc⟩ := hjump
    cases hsymbol : s.symbols.get? target.text with
    | none =>
      rw [resolveJump_open hk hc hst hsymbol, resolveJump_open hk hc hst (h.trans hsymbol)]
      rfl
    | some symbol =>
      rw [resolveJump_declared hk hc hst hsymbol, resolveJump_declared hk hc hst (h.trans hsymbol)]
  · rw [resolveJump_of_not hjump, resolveJump_of_not hjump]

/-- Under a longer table exactly the correct jumps come out differently whose target is new. -/
theorem resolveJump_ne_of_prefix_iff (hgrown : s.symbols <+: s'.symbols)
    (hst : (classify (lexemes r.text)).statement? = some (.jump j target)) (hk : r.kind = .jump) :
    (s'.resolveJump r).1 ≠ (s.resolveJump r).1 ↔
      r.correct ∧ s.symbols.get? target.text = none ∧ (s'.symbols.get? target.text).isSome := by
  constructor
  · intro hne
    have hdiffers : s'.symbols.get? target.text ≠ s.symbols.get? target.text :=
      fun h => hne (resolveJump_congr hst h)
    have hc : r.correct := by
      by_contra hc
      have hnot : ¬(r.kind = .jump ∧ r.correct) := fun h => hc h.2
      exact hne (by rw [resolveJump_of_not hnot, resolveJump_of_not hnot])
    cases hsymbol : s.symbols.get? target.text with
    | some symbol =>
      -- What the shorter table holds, the longer one finds as well.
      rw [hsymbol, SymbolTable.get?_of_prefix hgrown hsymbol] at hdiffers
      exact absurd rfl hdiffers
    | none =>
      rw [hsymbol] at hdiffers
      exact ⟨hc, rfl, Option.isSome_iff_ne_none.mpr hdiffers⟩
  · rintro ⟨hc, hnone, hsome⟩ heq
    have hcorrect : (s'.resolveJump r).1.correct :=
      (correct_resolveJump_iff hk hst).mpr ⟨hc, hsome⟩
    rw [heq, correct_resolveJump_iff hk hst, hnone] at hcorrect
    exact absurd hcorrect.2 (by decide)

end Resolve

end State

/-- A name is new in the longer program if no line of the shorter one declares it and one of the
appended lines does. -/
theorem newly_declared_iff {xs ys : List String} {name : String} :
    ((State.after {} xs).symbols.get? name = none ∧
        ((State.after {} (xs ++ ys)).symbols.get? name).isSome) ↔
      (∀ line ∈ xs, ¬Declares line name) ∧ ∃ line ∈ ys, Declares line name := by
  rw [get?_after_eq_none_iff, isSome_get?_after_iff]
  refine and_congr_right fun hnone => ?_
  constructor
  · rintro ⟨line, hline, hdeclares⟩
    obtain hmem | hmem := List.mem_append.mp hline
    · exact absurd hdeclares (hnone line hmem)
    · exact ⟨line, hmem, hdeclares⟩
  · rintro ⟨line, hline, hdeclares⟩
    exact ⟨line, List.mem_append_right xs hline, hdeclares⟩

/-- Appended lines leave all records of the first pass as they are, and a record of the finished
program changes exactly if it is a jump under a new label, or none, whose target no earlier line
declares and an appended one does. Such a jump was not correct and now is, at the same place. -/
theorem appended_lines_resolve_jumps (xs ys : List String) :
    (State.run {} (xs ++ ys)).2.firstPass.take xs.length = (State.run {} xs).2.firstPass ∧
      ∀ i text, xs[i]? = some text →
        ∃ r r', (State.run {} xs).2.lines[i]? = some r ∧
          (State.run {} (xs ++ ys)).2.lines[i]? = some r' ∧ r'.SamePlace r ∧
          (r' ≠ r ↔ ∃ j target,
            (classify (lexemes text)).statement? = some (.jump j target) ∧
            (∀ label, (classify (lexemes text)).label = some label →
              ∀ earlier ∈ xs.take i, ¬Declares earlier label.text) ∧
            (∀ line ∈ xs, ¬Declares line target.text) ∧ ∃ line ∈ ys, Declares line target.text) ∧
          (r' ≠ r → ¬r.correct ∧ r'.correct) := by
  refine ⟨State.take_firstPass_append {} xs ys, ?_⟩
  intro i text htext
  obtain ⟨r₀, hfirst, rfl, hr, hr', hplace⟩ := State.exists_finished_append {} ys htext
  refine ⟨_, _, hr, hr', hplace, ?_⟩
  by_cases hk : r₀.kind = .jump
  · obtain ⟨j, target, hst, -⟩ := State.exists_jump_of_firstPass hfirst hk
    have hne := State.resolveJump_ne_of_prefix_iff
      (State.symbols_prefix_after_append {} xs ys) hst hk
    have hlabel := State.correct_firstPass_jump rfl hfirst hst
    simp only [get?_after_eq_none_iff] at hlabel
    have hiff := hne.trans (and_congr hlabel newly_declared_iff)
    refine ⟨hiff.trans ⟨fun h => ⟨j, target, hst, h⟩, ?_⟩, ?_⟩
    · rintro ⟨j', target', hst', h⟩
      cases hst.symm.trans hst'
      exact h
    · intro hdiffers
      obtain ⟨hc, hnone, hsome⟩ := hne.mp hdiffers
      rw [State.correct_resolveJump_iff hk hst, State.correct_resolveJump_iff hk hst, hnone]
      exact ⟨fun h => absurd h.2 (by decide), hc, hsome⟩
  · have hnot : ¬(r₀.kind = .jump ∧ r₀.correct) := fun h => hk h.1
    rw [State.resolveJump_of_not hnot, State.resolveJump_of_not hnot]
    refine ⟨iff_of_false (fun hne => hne rfl) ?_, fun hne => absurd rfl hne⟩
    rintro ⟨j, target, hst, -⟩
    rw [State.kind_of_firstPass hfirst] at hk
    exact hk (kind_of_statement? hst)

/-- `M` is declared behind both lines that jump there, but the second one stays as it is: its label
is taken. -/
theorem appended_line_resolves_one_of_two :
    let p := (State.run {} ["L: JMP M", "L: JMP M"]).2
    let q := (State.run {} (["L: JMP M", "L: JMP M"] ++ ["M: CLI"])).2
    q.firstPass.take 2 = p.firstPass ∧
      (∃ r r', p.lines[0]? = some r ∧ q.lines[0]? = some r' ∧ r' ≠ r ∧ ¬r.correct ∧ r'.correct) ∧
      q.lines[1]? = p.lines[1]? := by
  intro p q
  obtain ⟨hfirst, hlines⟩ := appended_lines_resolve_jumps ["L: JMP M", "L: JMP M"] ["M: CLI"]
  obtain ⟨r, r', hr, hr', -, -, hresolved⟩ := hlines 0 "L: JMP M" rfl
  have hdiffers : p.lines[0]? ≠ q.lines[0]? ∧ q.lines[1]? = p.lines[1]? := by decide +kernel
  have hne : r' ≠ r := fun h => hdiffers.1 (by rw [hr, hr', h])
  exact ⟨hfirst, ⟨r, r', hr, hr', hne, hresolved hne⟩, hdiffers.2⟩

end SegAsm
