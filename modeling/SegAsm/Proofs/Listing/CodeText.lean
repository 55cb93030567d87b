import SegAsm.Lexeme.Constant
import SegAsm.Proofs.Decode
import SegAsm.Proofs.Listing.Lines

/-! The listing form of machine code. Each field is a group of two digits for every byte, the most
significant byte first, so that the bytes can be read off it; this ends where a field is wider than
numerals are padded. -/
namespace SegAsm

namespace Text

/-- The last `count` digits of a number in upper case hexadecimal, with zeros in front if it has
fewer. -/
def hexDigits (n : Nat) : Nat → List Char
  | 0 => []
  | count + 1 => hexDigits (n / 16) count ++ [(Nat.digitChar (n % 16)).toUpper]

theorem length_hexDigits (n count : Nat) : (hexDigits n count).length = count := by
  induction count generalizing n with
  | zero => rfl
  | succ count ih => rw [hexDigits, List.length_append, ih, List.length_singleton]

theorem hexDigits_zero (count : Nat) : hexDigits 0 count = List.replicate count '0' := by
  induction count with
  | zero => rfl
  | succ count ih =>
    rw [hexDigits, Nat.zero_div, ih, List.replicate_succ']
    rfl

theorem hexDigits_mod (n count : Nat) : hexDigits (n % 16 ^ count) count = hexDigits n count := by
  induction count generalizing n with
  | zero => rfl
  | succ count ih =>
    have hrest : n % 16 ^ (count + 1) / 16 = n / 16 % 16 ^ count := by
      rw [Nat.pow_succ', Nat.mod_mul_right_div_self]
    have hlast : n % 16 ^ (count + 1) % 16 = n % 16 := by
      rw [Nat.pow_succ', Nat.mod_mul_right_mod]
    rw [hexDigits, hrest, ih, hlast, hexDigits]

theorem toList_hexUpper (n : Nat) : (hexUpper n).toList = (Nat.toDigits 16 n).map Char.toUpper := by
  rw [hexUpper, String.toList_ofList]

/-- A number that fits is padded to its digits. -/
theorem toList_hexPadded {n count : Nat} (hcount : 1 ≤ count) (h : n < 16 ^ count) :
    (hexPadded count n).toList = hexDigits n count := by
  have hlength : (hexUpper n).length = (Nat.toDigits 16 n).length := by
    rw [← String.length_toList, toList_hexUpper, List.length_map]
  rw [hexPadded, padLeft, String.toList_ofList, hlength, toList_hexUpper]
  clear hlength
  induction count, hcount using Nat.le_induction generalizing n with
  | base =>
    have hn : n < 16 := h
    rw [Nat.toDigits_eq_if (by decide), if_pos hn, hexDigits, hexDigits, Nat.mod_eq_of_lt hn]
    rfl
  | succ count hcount ih =>
    have hrest : n / 16 < 16 ^ count := by
      rw [Nat.pow_succ] at h
      omega
    rw [Nat.toDigits_eq_if (by decide), hexDigits]
    split_ifs with hn
    · rw [Nat.div_eq_of_lt hn, hexDigits_zero, Nat.mod_eq_of_lt hn]
      rfl
    · rw [← ih hrest]
      simp

end Text

open Text

/-- Reads two hexadecimal digits for every byte. -/
def readBytes? : List Char → Option (List UInt8)
  | [] => some []
  | [_] => none
  | high :: low :: rest => do
    let h ← digitValue? high
    let l ← digitValue? low
    let bs ← readBytes? rest
    return UInt8.ofNat (16 * h + l) :: bs

theorem readBytes?_append {cs : List Char} {bs : List UInt8} (h : readBytes? cs = some bs)
    (ds : List Char) : readBytes? (cs ++ ds) = (readBytes? ds).map (bs ++ ·) := by
  fun_induction readBytes? cs generalizing bs with
  | case1 =>
    cases h
    simp
  | case2 => cases h
  | case3 high low rest ih =>
    simp only [bind, Option.bind_eq_some_iff, pure, Option.some.injEq] at h
    obtain ⟨x, hx, y, hy, bs, hrest, rfl⟩ := h
    simp only [List.cons_append, readBytes?, hx, hy, ih hrest, bind, Option.bind_some, pure]
    cases readBytes? ds <;> rfl

theorem isSome_digitValue?_of_readBytes? {cs : List Char} {bs : List UInt8}
    (h : readBytes? cs = some bs) : ∀ c ∈ cs, (digitValue? c).isSome := by
  fun_induction readBytes? cs generalizing bs with
  | case1 => simp
  | case2 => cases h
  | case3 high low rest ih =>
    simp only [bind, Option.bind_eq_some_iff, pure, Option.some.injEq] at h
    obtain ⟨x, hx, y, hy, bs, hrest, rfl⟩ := h
    simpa [hx, hy] using ih hrest

theorem digitValue?_hexDigit {d : Nat} (h : d < 16) :
    digitValue? (Nat.digitChar d).toUpper = some d := by
  revert d
  decide

/-- The digits of a value, read two by two, are its bytes from the most significant one on. -/
theorem readBytes?_hexDigits (n width : Nat) :
    readBytes? (hexDigits n (2 * width)) = some (natBytes n width).reverse := by
  induction width generalizing n with
  | zero => rfl
  | succ width ih =>
    have hdigits : hexDigits n (2 * (width + 1)) = hexDigits (n / 256) (2 * width) ++
        [(Nat.digitChar (n / 16 % 16)).toUpper, (Nat.digitChar (n % 16)).toUpper] := by
      rw [Nat.mul_succ, hexDigits, hexDigits, List.append_assoc, Nat.div_div_eq_div_mul]
      rfl
    have hhigh := digitValue?_hexDigit (Nat.mod_lt (n / 16) (by decide : 0 < 16))
    have hlow := digitValue?_hexDigit (Nat.mod_lt n (by decide : 0 < 16))
    have hbyte : UInt8.ofNat (16 * (n / 16 % 16) + n % 16) = UInt8.ofNat n := by
      rw [← UInt8.toNat_inj, UInt8.toNat_ofNat', UInt8.toNat_ofNat']
      omega
    have hlast : readBytes? [(Nat.digitChar (n / 16 % 16)).toUpper, (Nat.digitChar (n % 16)).toUpper] =
        some [UInt8.ofNat n] := by
      simp only [readBytes?, hhigh, hlow, hbyte, bind, Option.bind_some, pure]
    rw [hdigits, readBytes?_append (ih (n / 256)), hlast, natBytes_succ, List.reverse_cons]
    rfl

theorem word64_lt (v : Int) : word64 v < 256 ^ 8 := by
  have hpos : (0 : Int) < wordCount := by decide
  have hlt := Int.emod_lt_of_pos v hpos
  have hnonneg := Int.emod_nonneg v hpos.ne'
  have hcount : wordCount = 256 ^ 8 := by decide
  unfold word64
  omega

theorem word64_natCast {n : Nat} (h : n < wordCount) : word64 n = n := by
  unfold word64
  rw [Int.emod_eq_of_lt (Int.natCast_nonneg n) (Int.ofNat_lt.mpr h), Int.toNat_natCast]

theorem lowBytes_eq (v : Int) (width : Nat) :
    (if width < 8 then word64 v % Nat.pow 256 width else word64 v) = word64 v % 256 ^ width := by
  split_ifs with h
  · rfl
  · have hle : 256 ^ 8 ≤ 256 ^ width := Nat.pow_le_pow_right (by decide) (by omega)
    exact (Nat.mod_eq_of_lt (Nat.lt_of_lt_of_le (word64_lt v) hle)).symm

/-- A value of up to half a million bytes is written with two digits for every byte. -/
theorem toList_hexBytes (v : Int) {width : Nat} (h : 2 * width ≤ maxFieldWidth) :
    (hexBytes v width).toList = hexDigits (word64 v) (2 * width) := by
  unfold hexBytes
  split
  · rename_i hzero
    rw [hzero]
    rfl
  · have hpow : 256 ^ width = 16 ^ (2 * width) := by rw [Nat.pow_mul]
    have hlt : word64 v % 256 ^ width < 16 ^ (2 * width) := by
      rw [← hpow]
      exact Nat.mod_lt _ (Nat.pow_pos (by decide))
    rw [hexField, if_neg (by omega), lowBytes_eq, toList_hexPadded (by omega) hlt, hpow,
      hexDigits_mod]

theorem percent_mem_hexBytes (v : Int) {width : Nat} (h : maxFieldWidth < 2 * width) :
    '%' ∈ (hexBytes v width).toList := by
  have hwidth : width ≠ 0 := by
    rintro rfl
    exact absurd h (by decide)
  rw [hexBytes, if_neg hwidth, hexField, if_pos h, String.toList_append]
  exact List.mem_append_left _ (by decide)

namespace Field

/-- The number that a field writes. -/
def number : Field → Int
  | .operandSize => 0x66
  | .addressSize => 0x67
  | .override s => s.overrideByte
  | .byte b => b.toNat
  | .value v _ => v

/-- What stands behind the digits of a field. -/
def mark : Field → List Char
  | .operandSize | .addressSize => ['|']
  | .override _ => [':']
  | .byte _ | .value _ _ => []

theorem text?_eq (f : Field) :
    f.text? = if f.size = 0 then none else some (hexBytes f.number f.size ++ String.ofList f.mark) := by
  cases f with
  | value v width =>
    change (if width = 0 then none else some (hexBytes v width)) = _
    simp only [size, number, mark, String.ofList_nil, String.append_empty]
  | byte b =>
    change some (hexBytes b.toNat 1) = _
    simp only [size, number, mark, String.ofList_nil, String.append_empty]
    rfl
  | _ => rfl

theorem bytes_eq (f : Field) : f.bytes = natBytes (word64 f.number) f.size := by
  cases f with
  | byte b =>
    have hb : b.toNat < wordCount := Nat.lt_trans b.toNat_lt (by decide)
    change [b] = natBytes (word64 b.toNat) 1
    rw [word64_natCast hb]
    simp [natBytes]
  | override s => cases s <;> decide
  | value v width => rfl
  | operandSize => decide
  | addressSize => decide

/-- Numerals are padded to the width of the field. -/
def Padded (f : Field) : Prop :=
  2 * f.size ≤ maxFieldWidth

/-- The digits of a field that is padded. -/
def digits (f : Field) : List Char :=
  hexDigits (word64 f.number) (2 * f.size)

theorem Padded.text?_eq {f : Field} (h : f.Padded) (hsize : f.size ≠ 0) :
    ∃ s, f.text? = some s ∧ s.toList = f.digits ++ f.mark := by
  refine ⟨_, by rw [f.text?_eq, if_neg hsize], ?_⟩
  rw [String.toList_append, String.toList_ofList, toList_hexBytes f.number h]
  rfl

theorem readBytes?_digits (f : Field) : readBytes? f.digits = some f.bytes.reverse := by
  rw [f.bytes_eq]
  exact readBytes?_hexDigits _ _

end Field

/-- The characters that stand between the digits of a code. -/
def isCodeMark (c : Char) : Bool :=
  c == ' ' || c == '|' || c == ':'

/-- A group without the mark at its end. -/
def dropMark (group : List Char) : List Char :=
  if group.getLast? = some '|' ∨ group.getLast? = some ':' then group.dropLast else group

/-- Reads the bytes of groups of digits; the most significant byte of a group comes first. -/
def readGroups? : List (List Char) → Option (List UInt8)
  | [] => some []
  | group :: groups => do
    let bs ← readBytes? (dropMark group)
    let rest ← readGroups? groups
    return bs.reverse ++ rest

/-- Reads the listing form of a code. -/
def readCode? (text : String) : Option (List UInt8) :=
  readGroups? (text.toList.splitOn ' ')

/-- The digits in the listing form of a code, and whatever else there is that is no mark. -/
def codeDigits (text : String) : List Char :=
  text.toList.filter (!isCodeMark ·)

theorem isSome_digitValue?_hexDigits {n count : Nat} :
    ∀ c ∈ hexDigits n count, (digitValue? c).isSome := by
  induction count generalizing n with
  | zero => simp [hexDigits]
  | succ count ih =>
    rw [hexDigits, List.forall_mem_append, List.forall_mem_singleton,
      digitValue?_hexDigit (Nat.mod_lt n (by decide))]
    exact ⟨ih, rfl⟩

theorem isCodeMark_of_digit {c : Char} (h : (digitValue? c).isSome) : isCodeMark c = false := by
  rw [Bool.eq_false_iff]
  intro hmark
  simp only [isCodeMark, Bool.or_eq_true, beq_iff_eq] at hmark
  obtain (rfl | rfl) | rfl := hmark <;> exact absurd h (by decide)

namespace Field

variable (f : Field)

theorem not_mark_of_mem_digits : ∀ c ∈ f.digits, isCodeMark c = false := fun c hc =>
  isCodeMark_of_digit (isSome_digitValue?_hexDigits c hc)

theorem dropMark_digits : dropMark (f.digits ++ f.mark) = f.digits := by
  have hplain : dropMark f.digits = f.digits := by
    refine if_neg fun h => ?_
    have hmark := f.not_mark_of_mem_digits
    obtain h | h := h
    · exact absurd (hmark _ (List.mem_of_getLast? h)) (by decide)
    · exact absurd (hmark _ (List.mem_of_getLast? h)) (by decide)
  have hdropped (c : Char) (hc : c = '|' ∨ c = ':') : dropMark (f.digits ++ [c]) = f.digits := by
    rw [dropMark, if_pos, List.dropLast_concat]
    rw [List.getLast?_concat]
    exact hc.imp (congrArg some) (congrArg some)
  cases f with
  | operandSize | addressSize => exact hdropped '|' (.inl rfl)
  | override s => exact hdropped ':' (.inr rfl)
  | byte b => exact (congrArg dropMark (List.append_nil _)).trans hplain
  | value v width => exact (congrArg dropMark (List.append_nil _)).trans hplain

theorem filter_digits :
    (f.digits ++ f.mark).filter (!isCodeMark ·) = f.digits := by
  have hmark : f.mark.filter (!isCodeMark ·) = [] := by
    cases f <;> rfl
  rw [List.filter_append, hmark, List.append_nil, List.filter_eq_self]
  exact fun c hc => by simp [f.not_mark_of_mem_digits c hc]

theorem size_ne_zero_of_not_padded {f : Field} (h : ¬ f.Padded) : f.size ≠ 0 := by
  intro hzero
  unfold Padded at h
  rw [hzero] at h
  exact h (by decide)

theorem blank_not_mem_text {f : Field} {s : String} (h : f.text? = some s) : ' ' ∉ s.toList := by
  rw [f.text?_eq] at h
  split_ifs at h
  have hmark : ' ' ∉ f.mark := by cases f <;> simp [mark]
  have hdigits : ' ' ∉ (hexBytes f.number f.size).toList :=
    (isWord_hexBytes _ _).not_mem (by decide)
  rw [← Option.some.inj h, String.toList_append, String.toList_ofList, List.mem_append]
  exact not_or.mpr ⟨hdigits, hmark⟩

/-- The group of a field that is too wide holds a character that is neither a digit nor a mark. -/
theorem exists_percent_of_not_padded {f : Field} (h : ¬ f.Padded) :
    ∃ s, f.text? = some s ∧ '%' ∈ s.toList := by
  refine ⟨_, by rw [f.text?_eq, if_neg (size_ne_zero_of_not_padded h)], ?_⟩
  rw [String.toList_append]
  exact List.mem_append_left _ (percent_mem_hexBytes f.number (Nat.lt_of_not_le h))

end Field

theorem mem_dropMark {c : Char} (hc : isCodeMark c = false) {group : List Char} (h : c ∈ group) :
    c ∈ dropMark group := by
  unfold dropMark
  split_ifs with hlast
  · have hmark : ∃ m, group.getLast? = some m ∧ isCodeMark m := by
      obtain hlast | hlast := hlast
      · exact ⟨'|', hlast, by decide⟩
      · exact ⟨':', hlast, by decide⟩
    obtain ⟨m, hm, hmark⟩ := hmark
    obtain ⟨init, rfl⟩ := List.getLast?_eq_some_iff.mp hm
    rw [List.dropLast_concat]
    obtain h | h := List.mem_append.mp h
    · exact h
    · rw [List.mem_singleton.mp h, hmark] at hc
      cases hc
  · exact h

theorem isSome_digitValue?_of_readGroups? {groups : List (List Char)} {bs : List UInt8}
    (h : readGroups? groups = some bs) :
    ∀ group ∈ groups, ∀ c ∈ dropMark group, (digitValue? c).isSome := by
  induction groups generalizing bs with
  | nil => simp
  | cons group groups ih =>
    simp only [readGroups?, bind, Option.bind_eq_some_iff] at h
    obtain ⟨first, hfirst, rest, hrest, -⟩ := h
    rw [List.forall_mem_cons]
    exact ⟨isSome_digitValue?_of_readBytes? hfirst, ih hrest⟩

theorem codeDigits_intercalate (ss : List String) :
    codeDigits (String.intercalate " " ss) = ss.flatMap codeDigits := by
  match ss with
  | [] => rfl
  | [s] => simp
  | s :: t :: ss =>
    have hrest := codeDigits_intercalate (t :: ss)
    unfold codeDigits at hrest ⊢
    rw [String.intercalate_cons_cons, String.toList_append, String.toList_append, List.filter_append,
      List.filter_append, hrest, List.flatMap_cons]
    simp [isCodeMark]

namespace Code

/-- The groups between the blanks are those of the fields; a code without any reads as one empty
group. -/
theorem splitOn_text (c : Code) :
    c.text.toList.splitOn ' ' = (c.filterMap Field.text?).map String.toList ∨
      c.text.toList.splitOn ' ' = [[]] ∧ c.filterMap Field.text? = [] := by
  unfold text
  by_cases hnone : c.filterMap Field.text? = []
  · rw [hnone]
    exact .inr ⟨rfl, rfl⟩
  · have hblank : " ".toList = [' '] := rfl
    have hgroups : ∀ group ∈ (c.filterMap Field.text?).map String.toList, ' ' ∉ group := by
      rw [List.forall_mem_map]
      intro s hs
      obtain ⟨f, -, hf⟩ := List.mem_filterMap.mp hs
      exact Field.blank_not_mem_text hf
    rw [String.toList_intercalate, hblank, List.splitOn_intercalate ' ' hgroups (by simpa using hnone)]
    exact .inl rfl

theorem readCode?_eq (c : Code) :
    readCode? c.text = readGroups? ((c.filterMap Field.text?).map String.toList) := by
  unfold readCode?
  obtain h | ⟨h, hnone⟩ := c.splitOn_text
  · rw [h]
  · rw [h, hnone]
    rfl

variable {c : Code}

/-- Field by field, the digits are read as the bytes of the code. -/
theorem readGroups?_texts (h : ∀ f ∈ c, f.Padded) :
    readGroups? ((c.filterMap Field.text?).map String.toList) = some c.bytes := by
  induction c with
  | nil => rfl
  | cons f c ih =>
    obtain ⟨hf, hc⟩ := List.forall_mem_cons.mp h
    by_cases hsize : f.size = 0
    · have htext : f.text? = none := by rw [f.text?_eq, if_pos hsize]
      have hbytes : f.bytes = [] := List.eq_nil_of_length_eq_zero (f.length_bytes.trans hsize)
      rw [List.filterMap_cons_none htext, bytes_cons, hbytes]
      exact ih hc
    · obtain ⟨s, htext, hs⟩ := hf.text?_eq hsize
      rw [List.filterMap_cons_some htext, List.map_cons, readGroups?, hs, f.dropMark_digits,
        f.readBytes?_digits, ih hc, bytes_cons]
      simp

/-- The listing form holds the digits of its fields and marks. -/
theorem codeDigits_text (h : ∀ f ∈ c, f.Padded) : codeDigits c.text = c.flatMap Field.digits := by
  unfold text
  rw [codeDigits_intercalate]
  induction c with
  | nil => rfl
  | cons f c ih =>
    obtain ⟨hf, hc⟩ := List.forall_mem_cons.mp h
    rw [List.flatMap_cons, ← ih hc]
    by_cases hsize : f.size = 0
    · have htext : f.text? = none := by rw [f.text?_eq, if_pos hsize]
      have hdigits : f.digits = [] := by
        rw [Field.digits, hsize]
        rfl
      rw [List.filterMap_cons_none htext, hdigits, List.nil_append]
    · obtain ⟨s, htext, hs⟩ := hf.text?_eq hsize
      rw [List.filterMap_cons_some htext, List.flatMap_cons, codeDigits, hs, f.filter_digits]

theorem length_digits (c : Code) : (c.flatMap Field.digits).length = 2 * c.size := by
  induction c with
  | nil => rfl
  | cons f c ih =>
    rw [List.flatMap_cons, List.length_append, ih, size_cons, Field.digits, length_hexDigits]
    omega

/-- A field that is too wide leaves something in the listing form that is no digit. -/
theorem exists_of_not_padded {f : Field} (hf : f ∈ c) (h : ¬ f.Padded) :
    ∃ s ∈ c.filterMap Field.text?, '%' ∈ s.toList := by
  obtain ⟨s, hs, hpercent⟩ := Field.exists_percent_of_not_padded h
  exact ⟨s, List.mem_filterMap.mpr ⟨f, hf, hs⟩, hpercent⟩

theorem digits_text_iff (c : Code) :
    (∀ d ∈ codeDigits c.text, (digitValue? d).isSome) ∧ (codeDigits c.text).length = 2 * c.size ↔
      ∀ f ∈ c, f.Padded := by
  constructor
  · intro ⟨hdigits, _⟩ f hf
    by_contra hwide
    obtain ⟨s, hs, hpercent⟩ := exists_of_not_padded hf hwide
    have hmem : '%' ∈ codeDigits c.text :=
      List.mem_filter.mpr ⟨mem_intercalate hs hpercent, by decide⟩
    exact absurd (hdigits '%' hmem) (by decide)
  · intro h
    rw [codeDigits_text h, length_digits]
    refine ⟨fun d hd => ?_, rfl⟩
    obtain ⟨f, -, hd⟩ := List.mem_flatMap.mp hd
    exact isSome_digitValue?_hexDigits d hd

theorem readCode?_text_iff (c : Code) : readCode? c.text = some c.bytes ↔ ∀ f ∈ c, f.Padded := by
  rw [readCode?_eq]
  refine ⟨fun h f hf => ?_, readGroups?_texts⟩
  by_contra hwide
  obtain ⟨s, hs, hpercent⟩ := exists_of_not_padded hf hwide
  have hdigits := isSome_digitValue?_of_readGroups? h s.toList (List.mem_map_of_mem hs)
  exact absurd (hdigits '%' (mem_dropMark (by decide) hpercent)) (by decide)

end Code

/-- A code has as many bytes as its size says. Its listing form holds two hexadecimal digits for each
of them beside blanks and marks, and can be read back as the bytes, exactly if no field is wider than
half a million bytes. -/
theorem code_text_agrees_iff (c : Code) :
    c.bytes.length = c.size ∧
      ((∀ d ∈ codeDigits c.text, (digitValue? d).isSome) ∧ (codeDigits c.text).length = 2 * c.size ↔
        ∀ f ∈ c, f.size ≤ 500000) ∧
      (readCode? c.text = some c.bytes ↔ ∀ f ∈ c, f.size ≤ 500000) := by
  have hpadded : (∀ f ∈ c, f.Padded) ↔ ∀ f ∈ c, f.size ≤ 500000 := by
    refine forall₂_congr fun f _ => ?_
    unfold Field.Padded maxFieldWidth
    omega
  rw [← hpadded]
  exact ⟨c.length_bytes, c.digits_text_iff, c.readCode?_text_iff⟩

/-- A value that is wider is written without padding, behind a mark of its own. -/
theorem code_text_of_wide_value :
    let c : Code := [.value 5 500001]
    c.text = "%!(BADWIDTH)5" ∧ c.size = 500001 ∧ c.bytes.length = 500001 ∧
      (codeDigits c.text).length ≠ 2 * c.size ∧ readCode? c.text = none := by
  intro c
  have htext : c.text = "%!(BADWIDTH)5" := by decide +kernel
  have hsize : c.size = 500001 := rfl
  refine ⟨htext, hsize, c.length_bytes.trans hsize, ?_, ?_⟩
  · rw [htext, hsize]
    decide
  · rw [htext]
    decide

end SegAsm
