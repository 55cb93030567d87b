import Mathlib.Data.List.Sort
import SegAsm.Proofs.Lexeme.Pattern
import SegAsm.Proofs.Lexeme.Texts
import SegAsm.Proofs.Text.Bytes

/-! The lexemes of a line byte by byte. Separators and symbols cut the code of a line into its maximal
runs of other bytes, and there is no other way to cut it. -/
namespace SegAsm

open Text

/-- The bytes that only separate: the blank, and those from the tab to the carriage return. -/
def isSeparatorByte (b : UInt8) : Bool :=
  [0x20, 0x09, 0x0a, 0x0b, 0x0c, 0x0d].contains b

/-- The comma, the colon and the square brackets. -/
def isSymbolByte (b : UInt8) : Bool :=
  [0x2c, 0x3a, 0x5b, 0x5d].contains b

def isWordByte (b : UInt8) : Bool :=
  !isSeparatorByte b && !isSymbolByte b

/-- The bytes of a line before its first semicolon. -/
def codeBytes (line : String) : List UInt8 :=
  (bytes line).takeWhile (· ≠ 0x3b)

/-- All bytes from `first` up to `last` are of a class. -/
def AllBetween (p : UInt8 → Bool) (bs : List UInt8) (first last : Nat) : Prop :=
  ∀ i b, first ≤ i → i < last → bs[i]? = some b → p b

/-- Some bytes of a class that are part of no longer run of them. -/
structure IsMaximalRun (p : UInt8 → Bool) (bs : List UInt8) (first last : Nat) : Prop where
  lt : first < last
  le : last ≤ bs.length
  all : AllBetween p bs first last
  maximal : ∀ first' last', first' ≤ first → last ≤ last' → last' ≤ bs.length →
    AllBetween p bs first' last' → first' = first ∧ last' = last

/-- A lexeme as a line has it: a part of the code, which is either one symbol or a maximal run of bytes
that are neither separators nor symbols, and then its text says of which kind it is. -/
structure Lexeme.IsTokenOf (line : String) (l : Lexeme) : Prop where
  ne_empty : l.text ≠ ""
  stop_le : l.stop ≤ (codeBytes line).length
  slice : bytes l.text = (bytes line).extract l.start l.stop
  shape : (l.kind = .symbol ∧ ∃ b, isSymbolByte b ∧ bytes l.text = [b]) ∨
    (IsMaximalRun isWordByte (codeBytes line) l.start l.stop ∧ l.kind.IsFirstMatch l.text.toList)

/-- A line cut into lexemes: they stand one behind the other, and what they leave out are separators. -/
structure IsTokenization (line : String) (ls : List Lexeme) : Prop where
  ordered : ls.Pairwise fun l l' => l.stop ≤ l'.start
  token : ∀ l ∈ ls, l.IsTokenOf line
  covered : ∀ i b, (codeBytes line)[i]? = some b → (∀ l ∈ ls, ¬(l.start ≤ i ∧ i < l.stop)) →
    isSeparatorByte b

section Class

variable {c : Char}

theorem toNat_lt_of_separatorByte {b : UInt8} (h : isSeparatorByte b) : b.toNat < 128 := by
  simp only [isSeparatorByte, List.contains_iff_mem, List.mem_cons, List.not_mem_nil, or_false] at h
  obtain rfl | rfl | rfl | rfl | rfl | rfl := h <;> decide

theorem toNat_lt_of_symbolByte {b : UInt8} (h : isSymbolByte b) : b.toNat < 128 := by
  simp only [isSymbolByte, List.contains_iff_mem, List.mem_cons, List.not_mem_nil, or_false] at h
  obtain rfl | rfl | rfl | rfl := h <;> decide

theorem class_ofNat : ∀ n < 128, isSeparator (Char.ofNat n) = isSeparatorByte (UInt8.ofNat n) ∧
    isSingleSymbol (Char.ofNat n) = isSymbolByte (UInt8.ofNat n) := by
  decide

/-- Separators and symbols are single bytes of the same class. -/
theorem exists_byte (h : isSeparator c ∨ isSingleSymbol c) :
    ∃ b, String.utf8EncodeChar c = [b] ∧ isSeparatorByte b = isSeparator c ∧
      isSymbolByte b = isSingleSymbol c := by
  have hascii : c.toNat < 128 := by
    obtain h | h := h
    · simp only [isSeparator, Bool.or_eq_true, beq_iff_eq, Bool.and_eq_true, decide_eq_true_eq] at h
      obtain rfl | ⟨-, h⟩ := h
      · decide
      · omega
    · simp only [isSingleSymbol, Bool.or_eq_true, beq_iff_eq] at h
      obtain ((rfl | rfl) | rfl) | rfl := h <;> decide
  have hclass := class_ofNat c.toNat hascii
  rw [c.ofNat_toNat] at hclass
  exact ⟨_, utf8EncodeChar_of_ascii hascii, hclass.1.symm, hclass.2.symm⟩

theorem isWordByte_of_mem (h : isInsideWord c) {b : UInt8} (hb : b ∈ String.utf8EncodeChar c) :
    isWordByte b := by
  simp only [isInsideWord, Bool.and_eq_true, Bool.not_eq_true'] at h
  have hbyte (hlt : b.toNat < 128) : isSeparatorByte b = false ∧ isSymbolByte b = false := by
    have hclass := class_ofNat b.toNat hlt
    rw [← (utf8EncodeChar_of_mem hb hlt).2, UInt8.ofNat_toNat] at hclass
    exact ⟨hclass.1.symm.trans h.1, hclass.2.symm.trans h.2⟩
  unfold isWordByte
  rw [Bool.and_eq_true, Bool.not_eq_true', Bool.not_eq_true']
  constructor
  · by_contra hsep
    exact hsep (hbyte (toNat_lt_of_separatorByte (Bool.not_eq_false _ ▸ hsep))).1
  · by_contra hsymbol
    exact hsymbol (hbyte (toNat_lt_of_symbolByte (Bool.not_eq_false _ ▸ hsymbol))).2

end Class

section Run

variable {p : UInt8 → Bool} {bs : List UInt8} {first last first' last' i : Nat}

/-- Two runs with a byte in common make one run. -/
theorem AllBetween.union (h : AllBetween p bs first last) (h' : AllBetween p bs first' last')
    (hi : first ≤ i ∧ i < last) (hi' : first' ≤ i ∧ i < last') :
    AllBetween p bs (min first first') (max last last') := by
  intro j b hfirst hlast hb
  by_cases hj : first ≤ j ∧ j < last
  · exact h j b hj.1 hj.2 hb
  · exact h' j b (by omega) (by omega) hb

theorem IsMaximalRun.eq_of_overlap (h : IsMaximalRun p bs first last)
    (h' : IsMaximalRun p bs first' last') (hi : first ≤ i ∧ i < last)
    (hi' : first' ≤ i ∧ i < last') : first = first' ∧ last = last' := by
  have hunion := h.all.union h'.all hi hi'
  have hle : max last last' ≤ bs.length := max_le h.le h'.le
  have heq := h.maximal _ _ (min_le_left _ _) (le_max_left _ _) hle hunion
  have heq' := h'.maximal _ _ (min_le_right _ _) (le_max_right _ _) hle hunion
  exact ⟨heq.1.symm.trans heq'.1, heq.2.symm.trans heq'.2⟩

/-- Bytes of a class between two others are a maximal run. -/
theorem isMaximalRun_append {before run after : List UInt8} (hne : run ≠ []) (hrun : ∀ b ∈ run, p b)
    (hbefore : ∀ b ∈ before.getLast?, p b = false) (hafter : ∀ b ∈ after.head?, p b = false) :
    IsMaximalRun p (before ++ run ++ after) before.length (before.length + run.length) where
  lt := Nat.lt_add_of_pos_right (List.length_pos_iff.mpr hne)
  le := by
    rw [List.length_append, List.length_append]
    omega
  all := by
    intro i b hfirst hlast hb
    rw [List.getElem?_append_left (by rw [List.length_append]; exact hlast),
      List.getElem?_append_right hfirst] at hb
    exact hrun b (List.mem_of_getElem? hb)
  maximal := by
    intro first' last' hfirst hlast hle hall
    rw [List.length_append, List.length_append] at hle
    constructor
    · -- A byte more in front would be the last one of `before`.
      by_contra hne'
      have hlast? : before.getLast? = before[before.length - 1]? := List.getLast?_eq_getElem? ..
      have hlt : before.length - 1 < before.length := by omega
      rw [List.getElem?_eq_getElem hlt] at hlast?
      have hbyte : (before ++ run ++ after)[before.length - 1]? = some before[before.length - 1] := by
        rw [List.append_assoc, List.getElem?_append_left hlt, List.getElem?_eq_getElem hlt]
      have hp := hall _ _ (by omega) (by omega) hbyte
      exact Bool.false_ne_true ((hbefore _ hlast?).symm.trans hp)
    · -- A byte more at the end would be the first one of `after`.
      by_contra hne'
      cases after with
      | nil =>
        rw [List.length_nil] at hle
        omega
      | cons b after =>
        have hbyte : (before ++ run ++ b :: after)[before.length + run.length]? = some b := by
          rw [List.getElem?_append_right (by simp), List.length_append, Nat.sub_self,
            List.getElem?_cons_zero]
        have hp := hall _ _ (by omega) (by omega) hbyte
        exact Bool.false_ne_true ((hafter b rfl).symm.trans hp)

end Run

/-- A lexeme cut out of some bytes: a symbol, or a word between two bytes that are no part of words. -/
inductive Lexeme.CutFrom (code : List UInt8) : Lexeme → Prop
  | symbol {before after : List UInt8} {b : UInt8} {c : Char} (hcode : code = before ++ [b] ++ after)
      (hb : isSymbolByte b) (hc : String.utf8EncodeChar c = [b]) :
      CutFrom code ⟨String.singleton c, .symbol, before.length⟩
  | word {before after : List UInt8} {w : List Char} (hcode : code = before ++ encode w ++ after)
      (hne : w ≠ []) (hw : ∀ c ∈ w, isInsideWord c)
      (hbefore : ∀ b ∈ before.getLast?, isWordByte b = false)
      (hafter : ∀ b ∈ after.head?, isWordByte b = false) :
      CutFrom code ⟨String.ofList w, .ofWord w, before.length⟩

section Scan

theorem exists_byte_of_not_inside {c : Char} (h : isInsideWord c = false) :
    ∃ b, String.utf8EncodeChar c = [b] ∧ isWordByte b = false := by
  have hclass : isSeparator c ∨ isSingleSymbol c :=
    (or_assoc.mpr (char_cases c)).resolve_right (by simp [h])
  obtain ⟨b, hbytes, hsep, hsymbol⟩ := exists_byte hclass
  refine ⟨b, hbytes, ?_⟩
  rw [← h, isWordByte, isInsideWord, hsep, hsymbol]

theorem isWordByte_head?_encode {cs : List Char} (h : ∀ c ∈ cs.head?, isInsideWord c = false) :
    ∀ b ∈ (encode cs).head?, isWordByte b = false := by
  cases cs with
  | nil => simp
  | cons c cs =>
    obtain ⟨b, hbytes, hb⟩ := exists_byte_of_not_inside (h c rfl)
    rw [encode_cons, hbytes]
    rintro _ ⟨⟩
    exact hb

theorem isWordByte_of_mem_encode {w : List Char} (hw : ∀ c ∈ w, isInsideWord c) {b : UInt8}
    (hb : b ∈ encode w) : isWordByte b := by
  obtain ⟨c, hc, hb⟩ := List.mem_flatMap.mp hb
  exact isWordByte_of_mem (hw c hc) hb

/-- The scanner cuts its lexemes out of the bytes, as long as it does not start within a word. -/
theorem cutFrom_of_mem_scanFrom {offset : Nat} {cs : List Char} {l : Lexeme}
    (h : l ∈ scanFrom offset cs) {before : List UInt8} (hoffset : before.length = offset)
    (hedge : ∀ b ∈ before.getLast?, ∀ c ∈ cs.head?, isInsideWord c → isWordByte b = false) :
    l.CutFrom (before ++ encode cs) := by
  fun_induction scanFrom offset cs generalizing before with
  | case1 => exact absurd h List.not_mem_nil
  | case2 offset c cs hsep ih =>
    obtain ⟨b, hbytes, hb⟩ := exists_byte_of_not_inside (c := c) (by simp [isInsideWord, hsep])
    have hlength : (before ++ [b]).length = offset + c.utf8Size := by
      simp [hoffset, ← String.length_utf8EncodeChar, hbytes]
    have hcut := ih h hlength (by simp [hb])
    rwa [List.append_assoc, ← hbytes, ← encode_cons] at hcut
  | case3 offset c cs hsep hsym ih =>
    obtain ⟨b, hbytes, -, hsymbol⟩ := exists_byte (.inr hsym)
    have hcode : before ++ encode (c :: cs) = before ++ [b] ++ encode cs := by
      rw [encode_cons, hbytes, List.append_assoc]
    rw [hcode]
    obtain rfl | h := List.mem_cons.mp h
    · rw [← hoffset]
      exact .symbol rfl (hsymbol.trans hsym) hbytes
    · refine ih h (by simp [hoffset, ← String.length_utf8EncodeChar, hbytes]) ?_
      simp [isWordByte, hsymbol.trans hsym]
  | case4 offset c cs hsep hsym word ih =>
    have hc : isInsideWord c := by simp [isInsideWord, hsep, hsym]
    have hword : ∀ d ∈ word, isInsideWord d :=
      List.forall_mem_cons.mpr ⟨hc, List.all_eq_true.mp List.all_takeWhile⟩
    have hrest : ∀ d ∈ (cs.dropWhile isInsideWord).head?, isInsideWord d = false := by
      intro d hd
      have hnot := List.head?_dropWhile_not isInsideWord cs
      rw [hd] at hnot
      simpa using hnot
    have hcode : before ++ encode (c :: cs) =
        before ++ encode word ++ encode (cs.dropWhile isInsideWord) := by
      rw [List.append_assoc, ← encode_append, List.cons_append, List.takeWhile_append_dropWhile]
    rw [hcode]
    obtain rfl | h := List.mem_cons.mp h
    · rw [← hoffset]
      exact .word rfl (List.cons_ne_nil _ _) hword (fun b hb => hedge b hb c rfl hc)
        (isWordByte_head?_encode hrest)
    · refine ih h (by rw [List.length_append, hoffset, length_encode]) ?_
      intro b _ d hd hinside
      exact absurd hinside (by simp [hrest d hd])

/-- The scanner passes over separators only. -/
theorem exists_covering_scanFrom {offset : Nat} {cs : List Char} {i : Nat} {b : UInt8}
    (hi : offset ≤ i) (hb : (encode cs)[i - offset]? = some b) (hsep : isSeparatorByte b = false) :
    ∃ l ∈ scanFrom offset cs, l.start ≤ i ∧ i < l.stop := by
  fun_induction scanFrom offset cs with
  | case1 => cases hb
  | case2 offset c cs hc ih =>
    obtain ⟨b', hbytes, hclass, -⟩ := exists_byte (.inl hc)
    have hsize : c.utf8Size = 1 := by rw [← String.length_utf8EncodeChar, hbytes]; rfl
    rw [encode_cons, hbytes] at hb
    obtain rfl | hlt := Nat.eq_or_lt_of_le hi
    · rw [Nat.sub_self, List.cons_append, List.getElem?_cons_zero, Option.some.injEq] at hb
      subst hb
      exact absurd (hclass.trans hc) (by simp [hsep])
    · rw [List.getElem?_append_right (by simp; omega), List.length_singleton, Nat.sub_sub, ← hsize] at hb
      exact ih (by omega) hb
  | case3 offset c cs hc hsym ih =>
    obtain ⟨b', hbytes, -⟩ := exists_byte (.inr hsym)
    have hsize : c.utf8Size = 1 := by rw [← String.length_utf8EncodeChar, hbytes]; rfl
    obtain rfl | hlt := Nat.eq_or_lt_of_le hi
    · refine ⟨_, List.mem_cons_self, Nat.le_refl _, ?_⟩
      simp only [Lexeme.stop, String.utf8ByteSize_singleton]
      omega
    · rw [encode_cons, hbytes, List.getElem?_append_right (by simp; omega), List.length_singleton,
        Nat.sub_sub, ← hsize] at hb
      obtain ⟨l, hl, hcover⟩ := ih (by omega) hb
      exact ⟨l, List.mem_cons_of_mem _ hl, hcover⟩
  | case4 offset c cs hc hsym word ih =>
    have hcode : encode (c :: cs) = encode word ++ encode (cs.dropWhile isInsideWord) := by
      rw [← encode_append, List.cons_append, List.takeWhile_append_dropWhile]
    by_cases hlt : i < offset + byteLength word
    · refine ⟨_, List.mem_cons_self, hi, ?_⟩
      simpa only [Lexeme.stop, utf8ByteSize_ofList] using hlt
    · rw [hcode, List.getElem?_append_right (by rw [length_encode]; omega), length_encode,
        Nat.sub_sub] at hb
      obtain ⟨l, hl, hcover⟩ := ih (by omega) hb
      exact ⟨l, List.mem_cons_of_mem _ hl, hcover⟩

end Scan

theorem codeBytes_eq (line : String) : codeBytes line = encode (codePart line) := by
  unfold codeBytes codePart
  rw [bytes_eq_encode]
  exact takeWhile_encode (d := ';') (by decide) line.toList

/-- What is cut out of the code of a line is cut out of the line. -/
theorem extract_bytes {line : String} {before part after : List UInt8}
    (h : codeBytes line = before ++ part ++ after) :
    (bytes line).extract before.length (before.length + part.length) = part := by
  obtain ⟨rest, hrest⟩ : codeBytes line <+: bytes line := List.takeWhile_prefix _
  rw [← hrest, h, List.extract_eq_take_drop, Nat.add_sub_cancel_left, List.append_assoc,
    List.append_assoc, List.drop_left, List.take_left]

theorem Lexeme.CutFrom.isTokenOf {line : String} {l : Lexeme} (h : l.CutFrom (codeBytes line)) :
    l.IsTokenOf line := by
  cases h with
  | @symbol before after b c hcode hb hc =>
    have hbytes : bytes (String.singleton c) = [b] := by
      rw [bytes_eq_encode, String.toList_singleton, encode_cons, hc]
      rfl
    have hstop : (⟨String.singleton c, .symbol, before.length⟩ : Lexeme).stop =
        before.length + [b].length := by
      rw [← hbytes]
      rfl
    refine ⟨by simp, ?_, ?_, .inl ⟨rfl, b, hb, hbytes⟩⟩
    · rw [hstop, hcode]
      simp
    · rw [hstop, hbytes, extract_bytes hcode]
  | @word before after w hcode hne hw hbefore hafter =>
    have hstop : (⟨String.ofList w, .ofWord w, before.length⟩ : Lexeme).stop =
        before.length + (encode w).length := by
      rw [← bytes_ofList]
      rfl
    have hencoded : encode w ≠ [] := by
      obtain ⟨c, w, rfl⟩ := List.exists_cons_of_ne_nil hne
      simp [String.utf8EncodeChar_ne_nil]
    refine ⟨by simpa using hne, ?_, ?_, .inr ⟨?_, ?_⟩⟩
    · rw [hstop, hcode]
      simp
    · rw [hstop, bytes_ofList, extract_bytes hcode]
    · rw [hstop, hcode]
      exact isMaximalRun_append hencoded (fun b => isWordByte_of_mem_encode hw) hbefore hafter
    · rw [String.toList_ofList]
      exact LexemeKind.isFirstMatch_ofWord fun hline => absurd (hw _ hline) (by decide)

theorem isTokenization_lexemes (line : String) : IsTokenization line (lexemes line) where
  ordered := pairwise_scanFrom 0 (codePart line)
  token := by
    intro l hl
    have hcut : l.CutFrom ([] ++ encode (codePart line)) :=
      cutFrom_of_mem_scanFrom hl rfl (by simp)
    rw [List.nil_append, ← codeBytes_eq] at hcut
    exact hcut.isTokenOf
  covered := by
    intro i b hb hfree
    rw [codeBytes_eq] at hb
    by_contra hsep
    obtain ⟨l, hl, hcover⟩ :=
      exists_covering_scanFrom (Nat.zero_le i) hb (Bool.eq_false_of_not_eq_true hsep)
    exact hfree l hl hcover

theorem Lexeme.length_bytes (l : Lexeme) : (bytes l.text).length = l.stop - l.start := by
  rw [Text.length_bytes, stop, Nat.add_sub_cancel_left]

namespace Lexeme.IsTokenOf

variable {line : String} {l l' : Lexeme}

theorem start_lt_stop (h : l.IsTokenOf line) : l.start < l.stop := by
  have hpos : l.text.utf8ByteSize ≠ 0 := fun hzero =>
    h.ne_empty (String.utf8ByteSize_eq_zero_iff.mp hzero)
  unfold stop
  omega

/-- A byte of a lexeme, in the code of its line. -/
theorem exists_getElem? (h : l.IsTokenOf line) {i : Nat} (hi : l.start ≤ i ∧ i < l.stop) :
    ∃ b ∈ bytes l.text, (codeBytes line)[i]? = some b := by
  have hlt : i < (codeBytes line).length := Nat.lt_of_lt_of_le hi.2 h.stop_le
  obtain ⟨rest, hrest⟩ : codeBytes line <+: bytes line := List.takeWhile_prefix _
  refine ⟨_, ?_, List.getElem?_eq_getElem hlt⟩
  have hbyte : (bytes line)[i]? = some (codeBytes line)[i] := by
    rw [← hrest, List.getElem?_append_left hlt, List.getElem?_eq_getElem hlt]
  rw [h.slice, List.extract_eq_take_drop, List.mem_iff_getElem?]
  refine ⟨i - l.start, ?_⟩
  rw [List.getElem?_take_of_lt (by omega), List.getElem?_drop, Nat.add_sub_cancel' hi.1, hbyte]

theorem not_separator (h : l.IsTokenOf line) {i : Nat} (hi : l.start ≤ i ∧ i < l.stop) {b : UInt8}
    (hb : (codeBytes line)[i]? = some b) : ¬isSeparatorByte b := by
  intro hsep
  obtain ⟨b', hmem, hb'⟩ := h.exists_getElem? hi
  obtain rfl : b = b' := Option.some.inj (hb.symm.trans hb')
  obtain ⟨-, b', hsymbol, hbytes⟩ | ⟨hrun, -⟩ := h.shape
  · rw [hbytes, List.mem_singleton] at hmem
    subst hmem
    have hdisjoint : [0x20, 0x09, 0x0a, 0x0b, 0x0c, 0x0d].all (!isSymbolByte ·) := by decide
    have hnot := List.all_eq_true.mp hdisjoint b (List.contains_iff_mem.mp hsep)
    simp [hsymbol] at hnot
  · have hword := hrun.all i b hi.1 hi.2 hb
    simp [isWordByte, hsep] at hword

/-- No word starts, ends or goes on with a symbol. -/
theorem not_run_of_symbol (h : l.IsTokenOf line) {b : UInt8} (hb : isSymbolByte b)
    (hbytes : bytes l.text = [b]) {first last i : Nat}
    (hrun : IsMaximalRun isWordByte (codeBytes line) first last) (hi : l.start ≤ i ∧ i < l.stop)
    (hi' : first ≤ i ∧ i < last) : False := by
  obtain ⟨b', hmem, hb'⟩ := h.exists_getElem? hi
  rw [hbytes, List.mem_singleton] at hmem
  subst hmem
  have hword := hrun.all i b' hi'.1 hi'.2 hb'
  simp [isWordByte, hb] at hword

/-- Two lexemes with a byte in common are the same. -/
theorem eq_of_overlap (h : l.IsTokenOf line) (h' : l'.IsTokenOf line) {i : Nat}
    (hi : l.start ≤ i ∧ i < l.stop) (hi' : l'.start ≤ i ∧ i < l'.stop) : l = l' := by
  have hsame (hstart : l.start = l'.start) (hstop : l.stop = l'.stop) : l.text = l'.text :=
    bytes_injective (by rw [h.slice, h'.slice, hstart, hstop])
  have hlength := l.length_bytes
  have hlength' := l'.length_bytes
  obtain ⟨text, kind, start⟩ := l
  obtain ⟨text', kind', start'⟩ := l'
  obtain ⟨rfl, b, hb, hbytes⟩ | ⟨hrun, hkind⟩ := h.shape
  · obtain ⟨rfl, b', -, hbytes'⟩ | ⟨hrun', -⟩ := h'.shape
    · rw [hbytes, List.length_singleton] at hlength
      rw [hbytes', List.length_singleton] at hlength'
      dsimp only at *
      obtain rfl : start = start' := by omega
      obtain rfl := hsame rfl (by omega)
      rfl
    · exact (h.not_run_of_symbol hb hbytes hrun' hi hi').elim
  · obtain ⟨rfl, b', hb', hbytes'⟩ | ⟨hrun', hkind'⟩ := h'.shape
    · exact (h'.not_run_of_symbol hb' hbytes' hrun hi' hi).elim
    · obtain ⟨hstart, hstop⟩ := hrun.eq_of_overlap hrun' hi hi'
      obtain rfl := hsame hstart hstop
      obtain rfl : start = start' := hstart
      obtain rfl : kind = kind' := hkind.unique hkind'
      rfl

end Lexeme.IsTokenOf

namespace IsTokenization

variable {line : String} {ls ls' : List Lexeme}

theorem pairwise_lt (h : IsTokenization line ls) : ls.Pairwise fun l l' => l.start < l'.start := by
  refine h.ordered.imp_of_mem fun hl _ hle => ?_
  exact Nat.lt_of_lt_of_le (h.token _ hl).start_lt_stop hle

/-- The first byte of a lexeme is no separator, so that some lexeme of every tokenization covers it. -/
theorem mem_of_isTokenOf (h : IsTokenization line ls) {l : Lexeme} (hl : l.IsTokenOf line) :
    l ∈ ls := by
  have hi : l.start ≤ l.start ∧ l.start < l.stop := ⟨Nat.le_refl _, hl.start_lt_stop⟩
  obtain ⟨b, -, hb⟩ := hl.exists_getElem? hi
  by_contra hnot
  refine hl.not_separator hi hb (h.covered l.start b hb fun l' hl' hi' => hnot ?_)
  rwa [hl.eq_of_overlap (h.token l' hl') hi hi']

theorem nodup (h : IsTokenization line ls) : ls.Nodup := by
  refine h.pairwise_lt.imp fun {l l'} hlt heq => ?_
  subst heq
  exact Nat.lt_irrefl _ hlt

theorem unique (h : IsTokenization line ls) (h' : IsTokenization line ls') : ls = ls' := by
  have hperm : ls.Perm ls' := (List.perm_ext_iff_of_nodup h.nodup h'.nodup).mpr fun l =>
    ⟨fun hl => h'.mem_of_isTokenOf (h.token l hl), fun hl => h.mem_of_isTokenOf (h'.token l hl)⟩
  refine hperm.eq_of_pairwise (fun l l' _ _ hlt hlt' => ?_) h.pairwise_lt h'.pairwise_lt
  exact absurd hlt' (Nat.lt_asymm hlt)

end IsTokenization

/-- A line can be cut into lexemes in one way, and that is how the scanner cuts it. -/
theorem isTokenization_iff_eq_lexemes (line : String) (ls : List Lexeme) :
    IsTokenization line ls ↔ ls = lexemes line := by
  constructor
  · exact fun h => h.unique (isTokenization_lexemes line)
  · rintro rfl
    exact isTokenization_lexemes line

end SegAsm
