import SegAsm.Proofs.Diagnostic
import SegAsm.Proofs.SecondPass

/-! The lines that are not correct. Their numbers are listed once, in the order of the lines for each
pass, and they are the lines with an error among the diagnostics; the first one is the reason. -/
namespace SegAsm

/-- An error that starts on the line, from 0. -/
def Diagnostic.isErrorOn (line : Nat) (d : Diagnostic) : Bool :=
  d.isError && d.range.start.line == line

theorem filter_isErrorOn {line : Nat} {ds : List Diagnostic} (h : ∀ d ∈ ds, d.On line) :
    ds.filter (Diagnostic.isErrorOn line) = ds.filter Diagnostic.isError := by
  refine List.filter_congr fun d hd => ?_
  have hon : d.range.start.line = line := h d hd
  simp [Diagnostic.isErrorOn, hon]

theorem filter_isErrorOn_other {line other : Nat} (hne : other ≠ line) {ds : List Diagnostic}
    (h : ∀ d ∈ ds, d.On other) : ds.filter (Diagnostic.isErrorOn line) = [] := by
  refine List.filter_eq_nil_iff.mpr fun d hd => ?_
  have hon : d.range.start.line = other := h d hd
  have hline : (other : Int) ≠ line := by exact_mod_cast hne
  simp [Diagnostic.isErrorOn, hon, hline]

/-- If each part reports about its own line, the errors on a line are those of its part. -/
theorem filter_flatMap_isErrorOn {α : Type} {xs : List α} {f : α → List Diagnostic}
    (h : ∀ i x, xs[i]? = some x → ∀ d ∈ f x, d.On i) (line : Nat) :
    (xs.flatMap f).filter (Diagnostic.isErrorOn line) =
      (xs[line]?.map fun x => (f x).filter Diagnostic.isError).getD [] := by
  induction xs using List.reverseRecOn with
  | nil => rfl
  | append_singleton xs x ih =>
    have hinit : ∀ i y, xs[i]? = some y → ∀ d ∈ f y, d.On i := by
      intro i y hy
      obtain ⟨hi, -⟩ := List.getElem?_eq_some_iff.mp hy
      exact h i y (by rw [List.getElem?_append_left hi, hy])
    have hlast : ∀ d ∈ f x, d.On xs.length := h xs.length x List.getElem?_concat_length
    rw [List.flatMap_append, List.flatMap_singleton, List.filter_append, ih hinit]
    obtain hlt | heq | hgt := Nat.lt_trichotomy line xs.length
    · rw [filter_isErrorOn_other (by omega) hlast, List.append_nil, List.getElem?_append_left hlt]
    · rw [heq, filter_isErrorOn hlast, List.getElem?_eq_none (Nat.le_refl _),
        List.getElem?_concat_length]
      rfl
    · rw [filter_isErrorOn_other (by omega) hlast, List.append_nil,
        List.getElem?_eq_none (by omega), List.getElem?_eq_none (by simp; omega)]

namespace State

variable {s : State} {lines : List String} {i : Nat} {r : LineRecord}

section Resolve

variable (s r)

theorem place_resolveJump :
    (s.resolveJump r).1.number = r.number ∧ (s.resolveJump r).1.kind = r.kind := by
  unfold resolveJump
  split_ifs
  · split <;> exact ⟨rfl, rfl⟩
  · exact ⟨rfl, rfl⟩

/-- The second pass adds its errors to those of the first. -/
theorem errors_resolveJump :
    (s.resolveJump r).1.errors = r.errors ++ (s.resolveJump r).2.filter Diagnostic.isError := by
  unfold resolveJump
  split_ifs with h
  · have hnone : r.errors = [] := List.isEmpty_iff.mp (Bool.and_eq_true_iff.mp h).2
    split
    · rw [hnone, List.nil_append]
    · rw [List.filter_nil, List.append_nil]
  · rw [List.filter_nil, List.append_nil]

end Resolve

theorem number_of_firstPass (h : (s.run lines).2.firstPass[i]? = some r) : r.number = i + 1 := by
  rw [getElem?_firstPass] at h
  obtain ⟨text, -, rfl⟩ := Option.map_eq_some_iff.mp h
  rfl

theorem numbers_firstPass (s : State) (lines : List String) :
    (s.run lines).2.firstPass.map LineRecord.number = List.range' 1 lines.length := by
  induction lines using List.reverseRecOn with
  | nil => rfl
  | append_singleton lines text ih =>
    rw [firstPass_concat, List.map_append, ih, List.length_append, List.length_singleton,
      List.range'_concat, Nat.one_mul, Nat.add_comm 1 lines.length]
    rfl

theorem diagnostics_run (s : State) (lines : List String) :
    (s.run lines).2.diagnostics =
      s.diagnostics ++ (s.firstPass 0 lines).2.flatMap Prod.snd ++
        (s.run lines).2.firstPass.flatMap fun r => ((s.after lines).resolveJump r).2 := by
  rw [← (s.kept_after lines).2.2]
  unfold run after
  simp only [List.flatMap_map]

/-- Both passes report about a line on that line, so its record has the errors that start there. -/
theorem errors_eq_filter (hs : s.diagnostics = []) (h : (s.run lines).2.lines[i]? = some r) :
    r.errors = (s.run lines).2.diagnostics.filter (Diagnostic.isErrorOn i) := by
  obtain ⟨r₀, h₀, rfl, -⟩ := exists_firstPass_of_lines h
  have hreports : ∀ (k : Nat) x, (s.firstPass 0 lines).2[k]? = some x → ∀ d ∈ x.2, d.On k := by
    intro k x hx
    rw [getElem?_reports] at hx
    obtain ⟨text, -, rfl⟩ := Option.map_eq_some_iff.mp hx
    exact on_reported _ k text _
  have hresolved : ∀ (k : Nat) x, (s.run lines).2.firstPass[k]? = some x →
      ∀ d ∈ ((s.after lines).resolveJump x).2, d.On k := by
    intro k x hx
    exact on_resolveJump _ k (number_of_firstPass hx)
  have hfirst : ((s.firstPass 0 lines).2.flatMap Prod.snd).filter (Diagnostic.isErrorOn i) =
      r₀.errors := by
    rw [getElem?_firstPass] at h₀
    obtain ⟨text, htext, rfl⟩ := Option.map_eq_some_iff.mp h₀
    rw [filter_flatMap_isErrorOn hreports, getElem?_reports, htext, record_errors,
      Option.map_some, Option.map_some, Option.getD_some]
  have hsecond : ((s.run lines).2.firstPass.flatMap fun r =>
      ((s.after lines).resolveJump r).2).filter (Diagnostic.isErrorOn i) =
      ((s.after lines).resolveJump r₀).2.filter Diagnostic.isError := by
    rw [filter_flatMap_isErrorOn hresolved, h₀, Option.map_some, Option.getD_some]
  rw [diagnostics_run, hs, List.nil_append, List.filter_append, hfirst, hsecond,
    errors_resolveJump]

theorem correct_of_resolveJump (h : (s.resolveJump r).1.correct) : r.correct := by
  unfold LineRecord.correct at h ⊢
  rw [errors_resolveJump, List.isEmpty_iff, List.append_eq_nil_iff] at h
  exact List.isEmpty_iff.mpr h.1

end State

theorem faultyLines_second {resolve : LineRecord → LineRecord × List Diagnostic}
    (hnumber : ∀ r, (resolve r).1.number = r.number) (rs : List LineRecord) :
    faultyLines ((rs.zip (rs.map resolve)).filterMap fun (r, r') =>
        if r.correct then some r'.1 else none) =
      (rs.filter fun r => r.correct && !(resolve r).1.correct).map LineRecord.number := by
  induction rs with
  | nil => rfl
  | cons r rs ih =>
    unfold faultyLines at ih ⊢
    cases hfirst : r.correct with
    | false => simpa [hfirst] using ih
    | true =>
      cases hsecond : (resolve r).1.correct with
      | true => simpa [hfirst, hsecond] using ih
      | false => simpa [hfirst, hsecond, hnumber] using ih

namespace State

variable {s : State} {lines : List String}

/-- The lines that only the second pass finds not to be correct. -/
def failedJumps (s : State) (lines : List String) : List Nat :=
  ((s.run lines).2.firstPass.filter fun r =>
    r.correct && !((s.after lines).resolveJump r).1.correct).map LineRecord.number

theorem errorLines_run (s : State) (lines : List String) :
    (s.run lines).2.errorLines =
      s.errorLines ++ faultyLines (s.run lines).2.firstPass ++ s.failedJumps lines := by
  rw [failedJumps, ← faultyLines_second fun r => ((s.after lines).place_resolveJump r).1,
    ← (s.kept_after lines).2.1]
  unfold run after
  dsimp only

theorem pairwise_numbers (s : State) (lines : List String) (p : LineRecord → Bool) :
    (((s.run lines).2.firstPass.filter p).map LineRecord.number).Pairwise (· < ·) := by
  have hsub := List.Sublist.map LineRecord.number
    (List.filter_sublist (p := p) (l := (s.run lines).2.firstPass))
  rw [numbers_firstPass] at hsub
  exact List.Pairwise.sublist hsub List.pairwise_lt_range'

theorem mem_firstPass_iff {n : Nat} {r : LineRecord} :
    r ∈ (s.run lines).2.firstPass ∧ r.number = n ↔
      1 ≤ n ∧ (s.run lines).2.firstPass[n - 1]? = some r := by
  constructor
  · rintro ⟨hmem, rfl⟩
    obtain ⟨i, hi⟩ := List.mem_iff_getElem?.mp hmem
    have hnumber := number_of_firstPass hi
    have hindex : r.number - 1 = i := by omega
    rw [hindex]
    exact ⟨by omega, hi⟩
  · rintro ⟨hn, h⟩
    have hnumber := number_of_firstPass h
    exact ⟨List.mem_of_getElem? h, by omega⟩

theorem mem_faultyLines_or_failedJumps_iff {n : Nat} :
    n ∈ faultyLines (s.run lines).2.firstPass ∨ n ∈ s.failedJumps lines ↔
      ∃ r, 1 ≤ n ∧ (s.run lines).2.lines[n - 1]? = some r ∧ r.correct = false := by
  have hfinal : n ∈ faultyLines (s.run lines).2.firstPass ∨ n ∈ s.failedJumps lines ↔
      ∃ r, (r ∈ (s.run lines).2.firstPass ∧ r.number = n) ∧
        ((s.after lines).resolveJump r).1.correct = false := by
    simp only [faultyLines, failedJumps, List.mem_map, List.mem_filter, Bool.and_eq_true,
      Bool.not_eq_true']
    constructor
    · rintro (⟨r, ⟨hr, hfirst⟩, hn⟩ | ⟨r, ⟨hr, -, hsecond⟩, hn⟩)
      · refine ⟨r, ⟨hr, hn⟩, Bool.eq_false_iff.mpr fun hcorrect => ?_⟩
        rw [correct_of_resolveJump hcorrect] at hfirst
        cases hfirst
      · exact ⟨r, ⟨hr, hn⟩, hsecond⟩
    · rintro ⟨r, ⟨hr, hn⟩, hsecond⟩
      cases hfirst : r.correct with
      | false => exact .inl ⟨r, ⟨hr, hfirst⟩, hn⟩
      | true => exact .inr ⟨r, ⟨hr, hfirst, hsecond⟩, hn⟩
  rw [hfinal]
  simp only [mem_firstPass_iff, getElem?_lines, Option.map_eq_some_iff]
  constructor
  · rintro ⟨r, ⟨hn, hr⟩, hcorrect⟩
    exact ⟨_, hn, ⟨r, hr, rfl⟩, hcorrect⟩
  · rintro ⟨_, hn, ⟨r, hr, rfl⟩, hcorrect⟩
    exact ⟨r, ⟨hn, hr⟩, hcorrect⟩

theorem disjoint_failedJumps (s : State) (lines : List String) :
    ∀ n ∈ faultyLines (s.run lines).2.firstPass, ∀ n' ∈ s.failedJumps lines, n ≠ n' := by
  unfold faultyLines failedJumps
  simp only [List.mem_map, List.mem_filter, Bool.and_eq_true, Bool.not_eq_true']
  rintro _ ⟨r, ⟨hr, hfirst⟩, rfl⟩ _ ⟨r', ⟨hr', hcorrect, -⟩, rfl⟩ hnumber
  obtain ⟨-, hget⟩ := mem_firstPass_iff.mp ⟨hr, hnumber⟩
  obtain ⟨-, hget'⟩ := mem_firstPass_iff.mp ⟨hr', rfl⟩
  obtain rfl : r = r' := Option.some.inj (hget.symm.trans hget')
  rw [hfirst] at hcorrect
  cases hcorrect

/-- The second pass looks at nothing but jumps. -/
theorem kind_of_mem_failedJumps {n : Nat} (h : n ∈ s.failedJumps lines) :
    ∃ r, (s.run lines).2.lines[n - 1]? = some r ∧ r.kind = .jump := by
  unfold failedJumps at h
  simp only [List.mem_map, List.mem_filter, Bool.and_eq_true, Bool.not_eq_true'] at h
  obtain ⟨r, ⟨hr, hfirst, hsecond⟩, hn⟩ := h
  obtain ⟨-, hget⟩ := mem_firstPass_iff.mp ⟨hr, hn⟩
  refine ⟨((s.after lines).resolveJump r).1, by rw [getElem?_lines, hget, Option.map_some], ?_⟩
  rw [((s.after lines).place_resolveJump r).2]
  by_contra hkind
  rw [resolveJump_of_not fun h => hkind h.1, hfirst] at hsecond
  cases hsecond

end State

/-- A record with the errors of its line among the diagnostics. -/
theorem LineRecord.faulty_iff {r : LineRecord} {ds : List Diagnostic} {i : Nat}
    (h : r.errors = ds.filter (Diagnostic.isErrorOn i)) :
    (r.correct = false ↔ ∃ d ∈ ds, d.isError ∧ d.range.start.line = i) ∧
      (r.correct = false → ∃ d, ds.find? (Diagnostic.isErrorOn i) = some d ∧
        r.reason = d.message) ∧
      (r.correct = true → r.reason = "") := by
  have hmem : ∀ d, d ∈ r.errors ↔ d ∈ ds ∧ d.isError ∧ d.range.start.line = i := by
    intro d
    rw [h, List.mem_filter, Diagnostic.isErrorOn, Bool.and_eq_true, beq_iff_eq]
  refine ⟨?_, ?_, ?_⟩
  · rw [correct, Bool.eq_false_iff, ne_eq, List.isEmpty_iff, List.eq_nil_iff_forall_not_mem,
      not_forall]
    simp only [not_not, hmem]
  · intro hfaulty
    cases herrors : r.errors with
    | nil => simp [correct, herrors] at hfaulty
    | cons d rest =>
      refine ⟨d, ?_, by simp [reason, herrors]⟩
      rw [← List.head?_filter, ← h, herrors, List.head?_cons]
  · intro hcorrect
    have hnone : r.errors = [] := List.isEmpty_iff.mp hcorrect
    rw [reason, hnone]
    rfl

/-- The numbers of the lines that are not correct are listed once, those of the first pass in order and
then, in order, those of jumps that fail in the second. A line is not correct exactly if an error
starts on it, and then the first such error is its reason. -/
theorem errorLines_iff_and_reason (source : String) :
    let p := assemble source
    p.errorLines.Nodup ∧
    (∀ n, n ∈ p.errorLines ↔ ∃ r, 1 ≤ n ∧ p.lines[n - 1]? = some r ∧ r.correct = false) ∧
    (∃ second, p.errorLines = faultyLines p.firstPass ++ second ∧
      (faultyLines p.firstPass).Pairwise (· < ·) ∧ second.Pairwise (· < ·) ∧
      ∀ n ∈ second, ∃ r, p.lines[n - 1]? = some r ∧ r.kind = .jump) ∧
    ∀ (i : Nat) r, p.lines[i]? = some r →
      (r.correct = false ↔ ∃ d ∈ p.diagnostics, d.isError ∧ d.range.start.line = i) ∧
      (r.correct = false → ∃ d, p.diagnostics.find? (Diagnostic.isErrorOn i) = some d ∧
        r.reason = d.message) ∧
      (r.correct = true → r.reason = "") := by
  unfold assemble
  generalize Text.splitLines source = lines
  dsimp only
  have hlist := State.errorLines_run {} lines
  have hfirst : (faultyLines (State.run {} lines).2.firstPass).Pairwise (· < ·) :=
    State.pairwise_numbers {} lines _
  have hsecond : (State.failedJumps {} lines).Pairwise (· < ·) :=
    State.pairwise_numbers {} lines _
  rw [List.nil_append] at hlist
  refine ⟨?_, ?_, ⟨_, hlist, hfirst, hsecond, fun n => State.kind_of_mem_failedJumps⟩, ?_⟩
  · rw [hlist, List.nodup_append]
    exact ⟨hfirst.imp Nat.ne_of_lt, hsecond.imp Nat.ne_of_lt, State.disjoint_failedJumps {} lines⟩
  · intro n
    rw [hlist, List.mem_append]
    exact State.mem_faultyLines_or_failedJumps_iff
  · intro i r h
    exact LineRecord.faulty_iff (State.errors_eq_filter rfl h)

theorem errorLines_both_passes :
    let p := assemble "JMP A\nJB\nJMP B"
    p.errorLines = [2, 1, 3] ∧ p.errorLines.Nodup ∧
      ∃ r d, p.lines[0]? = some r ∧ r.correct = false ∧
        p.diagnostics.find? (Diagnostic.isErrorOn 0) = some d ∧ r.reason = d.message := by
  intro p
  have hlist : p.errorLines = [2, 1, 3] := by decide +kernel
  obtain ⟨hnodup, hmem, -, hreason⟩ := errorLines_iff_and_reason "JMP A\nJB\nJMP B"
  obtain ⟨r, -, hr, hfaulty⟩ := (hmem 1).mp (by rw [hlist]; decide)
  obtain ⟨d, hd, hmessage⟩ := (hreason 0 r hr).2.1 hfaulty
  exact ⟨hlist, hnodup, r, d, hr, hfaulty, hd, hmessage⟩

end SegAsm
