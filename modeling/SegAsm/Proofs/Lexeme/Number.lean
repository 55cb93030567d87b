import Mathlib.Data.List.Induction
import Mathlib.Data.List.TakeWhile
import Mathlib.Data.Nat.Digits.Defs
import SegAsm.Lexeme.Constant
import SegAsm.Proofs.Lexeme.Token

/-! The numbers that constants denote. The assembler reads every numeric constant as the number that
its digits make in their base, up to the largest signed word of 64 bits. -/
namespace SegAsm

open Text

/-- The base of the numerals of a kind. -/
def LexemeKind.base : LexemeKind → Nat
  | .binary => 2
  | .hexadecimal => 16
  | _ => 10

/-- What a digit counts, in either case. -/
def digitNumber (c : Char) : Nat :=
  "0123456789abcdef".toList.idxOf (fold c)

namespace Lexeme

/-- The digits of a numeric constant, without the letter behind them. -/
def digits (l : Lexeme) : List Char :=
  if l.kind = .hexadecimal then l.text.toList.dropLast else l.text.toList.takeWhile Char.isDigit

/-- The number that a numeric constant denotes. -/
def number (l : Lexeme) : Nat :=
  Nat.ofDigits l.kind.base (l.digits.map digitNumber).reverse

end Lexeme

/-- The character is a digit of the base. -/
def CountsIn (base : Nat) (c : Char) : Prop :=
  digitValue? c = some (digitNumber c) ∧ digitNumber c < base

instance (base : Nat) (c : Char) : Decidable (CountsIn base c) :=
  inferInstanceAs (Decidable (_ ∧ _))

section Ascii

variable {c : Char}

/-- But for the long s and the Kelvin sign, only ASCII characters fold to ASCII characters. -/
theorem toNat_lt_of_fold (h : (fold c).toNat < 128) (hs : fold c ≠ 's') (hk : fold c ≠ 'k') :
    c.toNat < 128 := by
  unfold fold at h hs hk
  split_ifs at h hs hk with hupper hlong hkelvin
  · have hbounds : 65 ≤ c.toNat ∧ c.toNat ≤ 90 := of_decide_eq_true hupper
    omega
  · exact absurd rfl hs
  · exact absurd rfl hk
  · exact h

theorem exists_ofNat (h : c.toNat < 128) : ∃ n < 128, Char.ofNat n = c :=
  ⟨c.toNat, h, Char.ofNat_toNat c⟩

theorem isHexDigit_of_isDigit (h : c.isDigit) : LexemeKind.isHexDigit c := by
  unfold LexemeKind.isHexDigit
  rw [h, Bool.true_or]

theorem toNat_lt_of_hexDigit (h : LexemeKind.isHexDigit (fold c)) : c.toNat < 128 := by
  apply toNat_lt_of_fold
  · simp only [LexemeKind.isHexDigit, Bool.or_eq_true, Bool.and_eq_true, decide_eq_true_eq] at h
    obtain hdigit | ⟨-, hlast⟩ := h
    · have hlast : (fold c).toNat ≤ 57 := of_decide_eq_true (Bool.and_eq_true_iff.mp hdigit).2
      omega
    · have hlast' : (fold c).toNat ≤ 102 := hlast
      omega
  · intro heq
    rw [heq] at h
    exact absurd h (by decide)
  · intro heq
    rw [heq] at h
    exact absurd h (by decide)

theorem countsIn_hexadecimal (h : LexemeKind.isHexDigit (fold c)) : CountsIn 16 c := by
  have hall : ∀ n < 128, LexemeKind.isHexDigit (fold (Char.ofNat n)) → CountsIn 16 (Char.ofNat n) := by
    decide
  obtain ⟨n, hn, rfl⟩ := exists_ofNat (toNat_lt_of_hexDigit h)
  exact hall n hn h

theorem countsIn_decimal (h : (fold c).isDigit) : c.isDigit ∧ CountsIn 10 c := by
  have hall : ∀ n < 128, (fold (Char.ofNat n)).isDigit →
      (Char.ofNat n).isDigit ∧ CountsIn 10 (Char.ofNat n) := by
    decide
  obtain ⟨n, hn, rfl⟩ := exists_ofNat (toNat_lt_of_hexDigit (isHexDigit_of_isDigit h))
  exact hall n hn h

theorem countsIn_binary (h : fold c == '0' || fold c == '1') : c.isDigit ∧ CountsIn 2 c := by
  have hall : ∀ n < 128, fold (Char.ofNat n) == '0' || fold (Char.ofNat n) == '1' →
      (Char.ofNat n).isDigit ∧ CountsIn 2 (Char.ofNat n) := by
    decide
  have hdigit : (fold c).isDigit := by
    obtain heq | heq := Bool.or_eq_true_iff.mp h <;> rw [beq_iff_eq.mp heq] <;> decide
  obtain ⟨n, hn, rfl⟩ := exists_ofNat (toNat_lt_of_hexDigit (isHexDigit_of_isDigit hdigit))
  exact hall n hn h

/-- The letters behind the digits, in either case. -/
theorem letter_of_fold {last : Char} (hlast : last ∈ ['b', 'd', 'h']) (h : fold c = last) :
    c = last ∨ c = last.toUpper := by
  have hall : ∀ n < 128, ['b', 'd', 'h'].all fun last => decide (fold (Char.ofNat n) = last →
      Char.ofNat n = last ∨ Char.ofNat n = last.toUpper) := by
    decide
  have hascii : ['b', 'd', 'h'].all fun last =>
      decide (last.toNat < 128 ∧ last ≠ 's' ∧ last ≠ 'k') := by
    decide
  have hc : c.toNat < 128 := by
    obtain ⟨hlt, hs, hk⟩ := of_decide_eq_true (List.all_eq_true.mp hascii last hlast)
    exact toNat_lt_of_fold (h ▸ hlt) (h ▸ hs) (h ▸ hk)
  obtain ⟨n, hn, rfl⟩ := exists_ofNat hc
  exact of_decide_eq_true (List.all_eq_true.mp (hall n hn) last hlast) h

end Ascii

theorem ofDigits_eq (base : Nat) (ds : List Nat) :
    ofDigits base ds = Nat.ofDigits base ds.reverse := by
  rw [Nat.ofDigits_eq_foldr, List.foldr_reverse]
  unfold ofDigits
  congr 1
  funext n d
  rw [Nat.cast_id, Nat.mul_comm, Nat.add_comm]

section Parse

variable {base : Nat} {cs : List Char} (hcs : ∀ c ∈ cs, CountsIn base c)
include hcs

theorem digits?_eq : digits? base cs = some (cs.map digitNumber) := by
  unfold digits?
  induction cs with
  | nil => rfl
  | cons c cs ih =>
    obtain ⟨hc, hcs⟩ := List.forall_mem_cons.mp hcs
    have hdigit : (digitValue? c).filter (· < base) = some (digitNumber c) := by
      rw [hc.1, Option.filter_some, if_pos (decide_eq_true hc.2)]
    rw [List.mapM_cons, hdigit, ih hcs]
    rfl

theorem splitSign_eq : splitSign cs = (false, cs) := by
  unfold splitSign
  split
  · exact absurd (hcs '-' List.mem_cons_self).1 (by decide)
  · exact absurd (hcs '+' List.mem_cons_self).1 (by decide)
  · rfl

/-- Digits are read as their number, if it is a signed word of 64 bits. -/
theorem parseInt64_eq (hne : cs ≠ []) :
    parseInt64 base cs =
      if Nat.ofDigits base (cs.map digitNumber).reverse < int64Bound then
        .ok (Nat.ofDigits base (cs.map digitNumber).reverse : Nat)
      else .error .outOfRange := by
  have hnumeral : numeral? base cs = some (Nat.ofDigits base (cs.map digitNumber).reverse) := by
    unfold numeral?
    rw [if_neg (by simp [hne]), digits?_eq hcs, Option.map_some, ofDigits_eq]
  unfold parseInt64
  rw [splitSign_eq hcs]
  simp only [hnumeral, Bool.false_eq_true, if_false]

end Parse

theorem LexemeKind.exists_of_hasDigits {p : Char → Bool} {last : Char} {word : List Char}
    (h : hasDigits p last (word.map fold)) :
    ∃ init c, word = init ++ [c] ∧ fold c = last ∧ init ≠ [] ∧ ∀ d ∈ init, p (fold d) := by
  simp only [hasDigits, Bool.and_eq_true, beq_iff_eq, Bool.not_eq_true', List.all_eq_true] at h
  obtain ⟨⟨hlast, hne⟩, hall⟩ := h
  cases word using List.reverseRecOn with
  | nil => cases hlast
  | append_singleton init c =>
    rw [List.map_append, List.map_singleton] at hlast hne hall
    rw [List.getLast?_concat] at hlast
    rw [List.dropLast_concat] at hne hall
    refine ⟨init, c, rfl, Option.some.inj hlast, ?_, fun d hd => hall _ (List.mem_map_of_mem hd)⟩
    rintro rfl
    cases hne

theorem constantValue_concat {text : String} {init : List Char} {c : Char}
    (h : text.toList = init ++ [c]) :
    constantValue text =
      if c == 'h' || c == 'H' then parseInt64 16 init
      else if c == 'b' || c == 'B' then parseInt64 2 init
      else if c == 'd' || c == 'D' then parseInt64 10 init
      else parseInt64 10 (init ++ [c]) := by
  unfold constantValue
  simp only [h, List.getLast?_concat, List.dropLast_concat]

theorem takeWhile_concat {init : List Char} {c : Char} (hinit : ∀ d ∈ init, d.isDigit)
    (hc : c.isDigit = false) : (init ++ [c]).takeWhile Char.isDigit = init := by
  rw [List.takeWhile_append_of_pos hinit, List.takeWhile_cons_of_neg (by simp [hc]), List.append_nil]

namespace Lexeme.Scanned

variable {l : Lexeme} (hl : l.Scanned) (hk : l.kind.isNumeric)
include hl hk

/-- A numeric constant is digits of its base, and it is read by them. -/
theorem digits_spec :
    l.digits ≠ [] ∧ (∀ c ∈ l.digits, CountsIn l.kind.base c) ∧
      constantValue l.text = parseInt64 l.kind.base l.digits := by
  have haccepts := hl.accepts
  unfold digits
  cases hkind : l.kind with
  | binary =>
    rw [hkind] at haccepts
    obtain ⟨init, c, hword, hlast, hne, hall⟩ := LexemeKind.exists_of_hasDigits haccepts
    have hinit := fun d hd => countsIn_binary (hall d hd)
    have hletter := letter_of_fold (by decide) hlast
    rw [if_neg (by decide), hword, constantValue_concat hword,
      takeWhile_concat (fun d hd => (hinit d hd).1) (by obtain rfl | rfl := hletter <;> decide)]
    refine ⟨hne, fun d hd => (hinit d hd).2, ?_⟩
    obtain rfl | rfl := hletter <;> rfl
  | decimal =>
    rw [hkind] at haccepts
    rw [if_neg (by decide)]
    obtain hplain | hsuffix := Bool.or_eq_true_iff.mp haccepts
    · have hall := List.all_eq_true.mp (Bool.and_eq_true_iff.mp hplain).2
      have hword : ∀ c ∈ l.text.toList, c.isDigit ∧ CountsIn 10 c := fun c hc =>
        countsIn_decimal (hall _ (List.mem_map_of_mem hc))
      rw [List.takeWhile_eq_self_iff.mpr fun c hc => (hword c hc).1]
      refine ⟨hl.ne_nil, fun c hc => (hword c hc).2, ?_⟩
      obtain ⟨init, c, hlast⟩ := (List.eq_nil_or_concat _).resolve_left hl.ne_nil
      rw [List.concat_eq_append] at hlast
      have hdigit := (hword c (by rw [hlast]; simp)).1
      -- The last character is a digit, so that it is none of the letters.
      have hother {d : Char} (hd : d.isDigit = false) : (c == d) = false := by
        rw [beq_eq_false_iff_ne]
        rintro rfl
        exact Bool.false_ne_true (hd.symm.trans hdigit)
      rw [constantValue_concat hlast, hlast]
      simp only [hother (d := 'h') rfl, hother (d := 'H') rfl, hother (d := 'b') rfl,
        hother (d := 'B') rfl, hother (d := 'd') rfl, hother (d := 'D') rfl]
      rfl
    · obtain ⟨init, c, hword, hlast, hne, hall⟩ := LexemeKind.exists_of_hasDigits hsuffix
      have hinit := fun d hd => countsIn_decimal (hall d hd)
      have hletter := letter_of_fold (by decide) hlast
      rw [hword, constantValue_concat hword,
        takeWhile_concat (fun d hd => (hinit d hd).1) (by obtain rfl | rfl := hletter <;> decide)]
      refine ⟨hne, fun d hd => (hinit d hd).2, ?_⟩
      obtain rfl | rfl := hletter <;> rfl
  | hexadecimal =>
    rw [hkind] at haccepts
    obtain ⟨init, c, hword, hlast, hne, hall⟩ :=
      LexemeKind.exists_of_hasDigits (Bool.and_eq_true_iff.mp haccepts).2
    rw [if_pos rfl, hword, constantValue_concat hword, List.dropLast_concat]
    refine ⟨hne, fun d hd => countsIn_hexadecimal (hall d hd), ?_⟩
    obtain rfl | rfl := letter_of_fold (by decide) hlast <;> rfl
  | _ =>
    rw [hkind] at hk
    cases hk

theorem constantValue_eq :
    constantValue l.text = if l.number < int64Bound then .ok l.number else .error .outOfRange := by
  obtain ⟨hne, hcounts, hvalue⟩ := hl.digits_spec hk
  rw [hvalue, parseInt64_eq hcounts hne]
  rfl

end Lexeme.Scanned

/-- The largest number that so many bytes hold, if it is a signed double word at all. -/
def constantLimit (size : Nat) : Nat :=
  min (256 ^ size - 1) (2 ^ 31 - 1)

theorem constantSize?_natCast_all {size : Nat} (hsize : size ∈ [1, 2, 4]) (n : Nat) :
    (constantSize? n).all (size < ·) = decide (constantLimit size < n) := by
  have hlimit : constantLimit 1 = 255 ∧ constantLimit 2 = 65535 ∧ constantLimit 4 = 2147483647 := by
    decide
  unfold constantSize?
  simp only [List.mem_cons, List.not_mem_nil, or_false] at hsize
  obtain rfl | rfl | rfl := hsize <;> split_ifs with h <;> simp at h ⊢ <;> omega

namespace Lexeme.Scanned

variable {l : Lexeme} (hl : l.Scanned) (hk : l.kind.isNumeric)
include hl hk

theorem constant_eq :
    l.constant = if l.number < int64Bound then ((l.number : Int), constantSize? l.number)
      else (0, none) := by
  unfold constant
  rw [if_pos hk, hl.constantValue_eq hk]
  split_ifs <;> rfl

/-- A constant is too large for a size if its number is above the limit. -/
theorem all_size_eq {size : Nat} (hsize : size ∈ [1, 2, 4]) :
    l.constant.2.all (size < ·) = decide (constantLimit size < l.number) := by
  rw [hl.constant_eq hk]
  split_ifs with hbound
  · exact constantSize?_natCast_all hsize l.number
  · have hlimit : constantLimit size ≤ 2 ^ 31 - 1 := min_le_right _ _
    have hwords : int64Bound = 2 ^ 63 := by decide
    exact (decide_eq_true (by omega)).symm

theorem constant_of_le {size : Nat} (h : l.number ≤ constantLimit size) : l.constant.1 = l.number := by
  have hlimit : constantLimit size ≤ 2 ^ 31 - 1 := min_le_right _ _
  have hwords : int64Bound = 2 ^ 63 := by decide
  rw [hl.constant_eq hk, if_pos (by omega)]

end Lexeme.Scanned

/-- No constant is negative. -/
theorem Lexeme.Scanned.constant_nonneg {l : Lexeme} (hl : l.Scanned) : 0 ≤ l.constant.1 := by
  by_cases hk : l.kind.isNumeric
  · rw [hl.constant_eq hk]
    split_ifs
    · exact Int.natCast_nonneg _
    · exact le_rfl
  · unfold constant
    rw [if_neg hk]

end SegAsm
