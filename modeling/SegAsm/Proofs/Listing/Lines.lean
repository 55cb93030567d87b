import SegAsm.Listing.Render
import SegAsm.Proofs.Names
import SegAsm.Proofs.Text.Lines

/-! The lines of a listing: what the rows start with, and that each of them is one line of text. -/
namespace SegAsm

namespace Text

theorem exists_of_mem_toDigits {b n : Nat} (hb : 1 < b) {c : Char} (h : c ∈ Nat.toDigits b n) :
    ∃ d < b, c = Nat.digitChar d := by
  induction n using Nat.strongRecOn with
  | ind n ih =>
    rw [Nat.toDigits_eq_if hb] at h
    split_ifs at h with hn
    · exact ⟨n, hn, List.mem_singleton.mp h⟩
    · obtain h | h := List.mem_append.mp h
      · exact ih (n / b) (Nat.div_lt_self (by omega) hb) h
      · exact ⟨n % b, Nat.mod_lt n (by omega), List.mem_singleton.mp h⟩

theorem isWord_decimal (n : Nat) : IsWord (decimal n) := by
  have hdigits : ∀ d < 10, isSeparator (Nat.digitChar d) = false := by decide
  intro c hc
  rw [decimal, String.toList_ofList] at hc
  obtain ⟨d, hd, rfl⟩ := exists_of_mem_toDigits (by decide) hc
  exact hdigits d hd

theorem isWord_hexUpper (n : Nat) : IsWord (hexUpper n) := by
  have hdigits : ∀ d < 16, isSeparator (Nat.digitChar d).toUpper = false := by decide
  intro c hc
  rw [hexUpper, String.toList_ofList] at hc
  obtain ⟨digit, hdigit, rfl⟩ := List.mem_map.mp hc
  obtain ⟨d, hd, rfl⟩ := exists_of_mem_toDigits (by decide) hdigit
  exact hdigits d hd

theorem isWord_hexPadded (width n : Nat) : IsWord (hexPadded width n) := by
  intro c hc
  rw [hexPadded, padLeft, String.toList_ofList] at hc
  obtain hc | hc := List.mem_append.mp hc
  · rw [List.eq_of_mem_replicate hc]
    decide
  · exact isWord_hexUpper n c hc

theorem isWord_hexField (width n : Nat) : IsWord (hexField width n) := by
  have hmark : refusedWidth.toList.all (!isSeparator ·) = true := by decide
  unfold hexField
  split_ifs
  · intro c hc
    rw [String.toList_append, List.mem_append] at hc
    obtain hc | hc := hc
    · simpa using List.all_eq_true.mp hmark c hc
    · exact isWord_hexUpper n c hc
  · exact isWord_hexPadded width n

theorem oneLine_of_isWord {s : String} (h : IsWord s) : OneLine s :=
  h.not_mem (by decide)

end Text

open Text

theorem isWord_hexBytes (v : Int) (width : Nat) : IsWord (hexBytes v width) := by
  unfold hexBytes
  split
  · exact fun c hc => absurd hc (by simp)
  · exact isWord_hexField _ _

theorem Field.oneLine_of_text? {f : Field} {s : String} (h : f.text? = some s) : OneLine s := by
  have hbytes : ∀ v width, OneLine (hexBytes v width) := fun v width =>
    oneLine_of_isWord (isWord_hexBytes v width)
  cases f with
  | operandSize | addressSize | override =>
    rw [← Option.some.inj h]
    exact (hbytes _ _).append (by decide)
  | byte b =>
    rw [← Option.some.inj h]
    exact hbytes _ _
  | value v width =>
    simp only [Field.text?] at h
    split_ifs at h
    rw [← Option.some.inj h]
    exact hbytes v width

theorem Code.oneLine_text (c : Code) : OneLine c.text := by
  refine OneLine.intercalate (by decide) fun s hs => ?_
  obtain ⟨f, -, hf⟩ := List.mem_filterMap.mp hs
  exact Field.oneLine_of_text? hf

namespace Listing

variable {r : LineRecord}

/-- The columns of number and address. -/
def place (r : LineRecord) : String :=
  if r.kind = .assume then "        "
  else padLeft ' ' 3 (decimal r.number) ++ " " ++ hexPadded 4 r.address ++ "    "

theorem row_eq (h : r.kind ≠ .empty) :
    row r = (if r.correct then "" else errorTag) ++ place r ++ padRight 20 r.code.text ++ " " ++
      r.text := by
  unfold row
  rw [if_neg h]
  rfl

theorem oneLine_place (r : LineRecord) : OneLine (place r) := by
  unfold place
  split_ifs
  · decide
  · have hnumber := (oneLine_of_isWord (isWord_decimal r.number)).padLeft ' ' (by decide) 3
    have haddress := oneLine_of_isWord (isWord_hexPadded 4 r.address)
    exact ((hnumber.append (by decide)).append haddress).append (by decide)

/-- A row is one line if its text is. -/
theorem oneLine_row (h : OneLine r.text) : OneLine (row r) := by
  by_cases hempty : r.kind = .empty
  · rw [row, if_pos hempty]
    decide
  · rw [row_eq hempty]
    have hstart : OneLine ((if r.correct then "" else errorTag) ++ place r) := by
      refine OneLine.append ?_ (oneLine_place r)
      split_ifs <;> decide
    have hcode := r.code.oneLine_text.padRight 20
    exact ((hstart.append hcode).append (by decide)).append h

/-- The first column starts with a blank or a digit. -/
theorem exists_cons_place (r : LineRecord) :
    ∃ c rest, (place r).toList = c :: rest ∧ (c = ' ' ∨ c.isDigit) := by
  unfold place
  split_ifs
  · exact ⟨' ', "       ".toList, rfl, .inl rfl⟩
  · have hchars : ∀ c ∈ (padLeft ' ' 3 (decimal r.number)).toList, c = ' ' ∨ c.isDigit := by
      intro c hc
      rw [padLeft, String.toList_ofList, decimal, String.toList_ofList] at hc
      obtain hc | hc := List.mem_append.mp hc
      · exact .inl (List.eq_of_mem_replicate hc)
      · exact .inr (Nat.isDigit_of_mem_toDigits (by decide) (by decide) hc)
    have hne : (padLeft ' ' 3 (decimal r.number)).toList ≠ [] := by
      rw [padLeft, String.toList_ofList, decimal, String.toList_ofList]
      exact List.append_ne_nil_of_right_ne_nil _ Nat.toDigits_ne_nil
    obtain ⟨c, rest, hcons⟩ := List.exists_cons_of_ne_nil hne
    refine ⟨c, rest ++ (" " ++ hexPadded 4 r.address ++ "    ").toList, ?_, ?_⟩
    · simp only [String.toList_append, hcons, List.cons_append, List.append_assoc]
    · exact hchars c (by rw [hcons]; exact List.mem_cons_self)

/-- The rows behind the row of a line. -/
def rowsBehind (o : Options) (r : LineRecord) : List String :=
  (rowsOf o r).tail

theorem rows_eq (o : Options) (rs : List LineRecord) :
    rows o rs = rs.flatMap fun r => row r :: rowsBehind o r := rfl

theorem rowsBehind_cases (o : Options) (r : LineRecord) :
    rowsBehind o r = [] ∨ ∃ t, r.assume = some t ∧ rowsBehind o r = assumeRows t := by
  unfold rowsBehind rowsOf
  rw [List.tail_cons]
  cases r.assume with
  | none => exact .inl rfl
  | some t =>
    dsimp only
    split_ifs
    · exact .inr ⟨t, rfl, rfl⟩
    · exact .inl rfl

/-- What stands in a listing behind the rows of the lines. -/
def tableLines (p : Program) : List String :=
  [""] ++ segmentRows p.segments ++ [""] ++ symbolRows p.symbols ++ [""] ++ errorSummaryOf p

theorem render_eq (o : Options) (p : Program) : render o p = rows o p.lines ++ tableLines p := by
  simp only [render, tableLines, List.append_assoc]

theorem oneLine_assumeRows {t : AssumeTable} (h : t.Named) : ∀ line ∈ assumeRows t, OneLine line := by
  have hregister : ∀ s : SegmentRegister, OneLine s.name := by
    intro s
    cases s <;> decide
  refine List.forall_mem_cons.mpr ⟨by decide, List.forall_mem_map.mpr fun s _ => ?_⟩
  have hname := (oneLine_of_isWord (h s)).padRight 8
  exact (hname.append (by decide)).append (hregister s)

theorem oneLine_segmentRows {t : SegmentTable} (h : ∀ s ∈ t, IsWord s.name) :
    ∀ line ∈ segmentRows t, OneLine line := by
  refine List.forall_mem_cons.mpr ⟨by decide, List.forall_mem_map.mpr fun s hs => ?_⟩
  have hname := (oneLine_of_isWord (h s hs)).padRight 8
  have hsize := (oneLine_of_isWord (isWord_hexPadded 4 s.size)).padRight 4
  exact (hname.append (by decide)).append hsize

theorem oneLine_symbolRows {t : SymbolTable} (h : ∀ s ∈ t, IsWord s.name ∧ IsWord s.segment) :
    ∀ line ∈ symbolRows t, OneLine line := by
  have htype : ∀ type : SymbolType, OneLine type.name := by
    intro type
    cases type <;> decide
  refine List.forall_mem_cons.mpr ⟨by decide, List.forall_mem_map.mpr fun s hs => ?_⟩
  have hname := (oneLine_of_isWord (h s hs).1).padRight 8
  have hblank : OneLine " " := by decide
  have hcolumns := ((hname.append hblank).append ((htype s.type).padRight 8)).append hblank
  have hsegment := oneLine_of_isWord (h s hs).2
  have hoffset := oneLine_of_isWord (isWord_hexPadded 4 s.offset)
  exact ((hcolumns.append hsegment).append (by decide)).append hoffset

theorem oneLine_errorSummaryOf (p : Program) : ∀ line ∈ errorSummaryOf p, OneLine line := by
  have hdecimal : ∀ n, OneLine (decimal n) := fun n => oneLine_of_isWord (isWord_decimal n)
  have hnumbers : ∀ number ∈ (p.errorLines.map Int.ofNat).map signed, OneLine number := by
    rw [List.forall_mem_map, List.forall_mem_map]
    exact fun n _ => hdecimal n
  refine List.forall_mem_cons.mpr ⟨OneLine.append (by decide) (hdecimal _), ?_⟩
  split_ifs
  · simp
  · exact List.forall_mem_singleton.mpr (OneLine.append (by decide)
      (OneLine.intercalate (by decide) hnumbers))

/-- Every line of a listing is one line of the text. -/
theorem oneLine_of_mem_render {o : Options} {p : Program} (hp : p.Named)
    (htext : ∀ r ∈ p.lines, OneLine r.text) : ∀ line ∈ render o p, OneLine line := by
  have hempty : ∀ line ∈ [""], OneLine line := by decide
  have hrows : ∀ line ∈ rows o p.lines, OneLine line := by
    intro line hline
    rw [rows_eq, List.mem_flatMap] at hline
    obtain ⟨r, hr, hline⟩ := hline
    obtain rfl | hbehind := List.mem_cons.mp hline
    · exact oneLine_row (htext r hr)
    · obtain hnone | ⟨t, ht, htable⟩ := rowsBehind_cases o r
      · rw [hnone] at hbehind
        cases hbehind
      · rw [htable] at hbehind
        exact oneLine_assumeRows (hp.assumes r hr t ht) line hbehind
  simp only [render, List.forall_mem_append]
  exact ⟨⟨⟨⟨⟨⟨hrows, hempty⟩, oneLine_segmentRows hp.segments⟩, hempty⟩,
    oneLine_symbolRows hp.symbols⟩, hempty⟩, oneLine_errorSummaryOf p⟩

theorem oneLine_text_of_mem {source : String} {r : LineRecord} (h : r ∈ (assemble source).lines) :
    OneLine r.text := by
  obtain ⟨i, hi⟩ := List.mem_iff_getElem?.mp h
  obtain ⟨r₀, h₀, -, hplace⟩ := State.exists_firstPass_of_lines hi
  rw [State.getElem?_firstPass] at h₀
  obtain ⟨text, htext, rfl⟩ := Option.map_eq_some_iff.mp h₀
  rw [hplace.text]
  exact oneLine_of_mem_splitLines (List.mem_of_getElem? htext)

end Listing
end SegAsm
