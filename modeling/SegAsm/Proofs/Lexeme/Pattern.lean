import Mathlib.Computability.Language
import SegAsm.Proofs.Lexeme.Token

/-! The patterns of the lexeme kinds as languages, and that the first pattern which a word matches gives
the word its kind. -/
namespace SegAsm

open scoped Computability

namespace LexemeKind

/-- One character of a class. -/
def oneOf (p : Char → Bool) : Language Char :=
  {w | ∃ c, p c ∧ w = [c]}

/-- One of some words. -/
def anyOf (words : List String) : Language Char :=
  {w | ∃ x ∈ words, x.toList = w}

/-- The words whose folded form is in a language. -/
def caseless (L : Language Char) : Language Char :=
  {w | w.map Text.fold ∈ L}

def isLetter (c : Char) : Bool :=
  'a' ≤ c && c ≤ 'z'

/-- What a word of a kind looks like. -/
noncomputable def pattern : LexemeKind → Language Char
  | .mnemonic => caseless (anyOf mnemonicWords)
  | .directive => caseless (anyOf directiveWords)
  | .generalRegister => caseless (anyOf generalRegisterWords)
  | .segmentRegister => caseless (anyOf segmentRegisterWords)
  | .dataDirective => caseless (anyOf dataWords)
  | .binary =>
    caseless (oneOf (fun c => c == '0' || c == '1') * (oneOf fun c => c == '0' || c == '1')∗ * {['b']})
  | .decimal => caseless (oneOf Char.isDigit * (oneOf Char.isDigit)∗ * (1 + {['d']}))
  | .hexadecimal =>
    caseless (oneOf Char.isDigit * (oneOf Char.isDigit)∗ * (oneOf isHexDigit)∗ * {['h']})
  | .quoted => {['\x27']} * (oneOf (· != '\x27'))∗ * {['\x27']}
  | .symbol => oneOf (['.', ',', ':', '[', ']'].contains ·)
  | .identifier => caseless (oneOf isLetter * (1 + oneOf isWordChar) ^ 7)
  | .invalid => (oneOf (· != '\n'))∗

/-- The word matches the pattern of the kind and of no kind that is tried before. -/
def IsFirstMatch (k : LexemeKind) (w : List Char) : Prop :=
  w ∈ k.pattern ∧ ∀ k' : LexemeKind, k'.ordinal < k.ordinal → w ∉ k'.pattern

section Language

variable {p : Char → Bool} {c : Char} {w : List Char} {L : Language Char}

theorem mem_oneOf : w ∈ oneOf p ↔ ∃ c, p c ∧ w = [c] := Iff.rfl

theorem mem_oneOf_kstar : w ∈ (oneOf p)∗ ↔ ∀ c ∈ w, p c := by
  rw [Language.mem_kstar]
  constructor
  · rintro ⟨ws, rfl, hws⟩ c hc
    obtain ⟨v, hv, hcv⟩ := List.mem_flatten.mp hc
    obtain ⟨d, hd, rfl⟩ := hws v hv
    rwa [List.mem_singleton.mp hcv]
  · intro h
    refine ⟨w.map ([·]), ?_, ?_⟩
    · induction w with
      | nil => rfl
      | cons c w ih => rw [List.map_cons, List.flatten_cons, ← ih fun d hd => h d (by simp [hd])]; rfl
    · intro v hv
      obtain ⟨c, hc, rfl⟩ := List.mem_map.mp hv
      exact ⟨c, h c hc, rfl⟩

theorem mem_oneOf_mul : w ∈ oneOf p * L ↔ ∃ c rest, w = c :: rest ∧ p c ∧ rest ∈ L := by
  rw [Language.mem_mul]
  constructor
  · rintro ⟨_, ⟨c, hc, rfl⟩, rest, hrest, rfl⟩
    exact ⟨c, rest, rfl, hc, hrest⟩
  · rintro ⟨c, rest, rfl, hc, hrest⟩
    exact ⟨[c], ⟨c, hc, rfl⟩, rest, hrest, rfl⟩

theorem mem_oneOf_mul_kstar : w ∈ oneOf p * (oneOf p)∗ ↔ w ≠ [] ∧ ∀ c ∈ w, p c := by
  rw [mem_oneOf_mul]
  constructor
  · rintro ⟨c, rest, rfl, hc, hrest⟩
    exact ⟨List.cons_ne_nil _ _, List.forall_mem_cons.mpr ⟨hc, mem_oneOf_kstar.mp hrest⟩⟩
  · rintro ⟨hne, h⟩
    obtain ⟨c, rest, rfl⟩ := List.exists_cons_of_ne_nil hne
    exact ⟨c, rest, rfl, h c (by simp), mem_oneOf_kstar.mpr fun d hd => h d (by simp [hd])⟩

theorem mem_mul_singleton : w ∈ L * {[c]} ↔ ∃ init ∈ L, w = init ++ [c] := by
  rw [Language.mem_mul]
  constructor
  · rintro ⟨init, hinit, _, rfl, rfl⟩
    exact ⟨init, hinit, rfl⟩
  · rintro ⟨init, hinit, rfl⟩
    exact ⟨init, hinit, [c], rfl, rfl⟩

theorem mem_optional_pow {n : Nat} :
    w ∈ (1 + oneOf p) ^ n ↔ w.length ≤ n ∧ ∀ c ∈ w, p c := by
  induction n generalizing w with
  | zero =>
    rw [pow_zero, Language.mem_one, Nat.le_zero, List.length_eq_zero_iff]
    exact ⟨fun h => ⟨h, by simp [h]⟩, And.left⟩
  | succ n ih =>
    rw [pow_succ', add_mul, one_mul, Language.mem_add, ih, mem_oneOf_mul]
    constructor
    · rintro (⟨hlength, h⟩ | ⟨c, rest, rfl, hc, hrest⟩)
      · exact ⟨by omega, h⟩
      · obtain ⟨hlength, h⟩ := ih.mp hrest
        exact ⟨Nat.succ_le_succ hlength, List.forall_mem_cons.mpr ⟨hc, h⟩⟩
    · rintro ⟨hlength, h⟩
      cases w with
      | nil => exact .inl ⟨Nat.zero_le n, h⟩
      | cons c rest =>
        obtain ⟨hc, hrest⟩ := List.forall_mem_cons.mp h
        exact .inr ⟨c, rest, rfl, hc, ih.mpr ⟨Nat.le_of_succ_le_succ hlength, hrest⟩⟩

end Language

section Word

variable {p : Char → Bool} {last : Char} {w : List Char}

theorem hasDigits_iff :
    hasDigits p last w ↔ ∃ init, w = init ++ [last] ∧ init ≠ [] ∧ ∀ c ∈ init, p c := by
  unfold hasDigits
  rw [Bool.and_eq_true, Bool.and_eq_true, beq_iff_eq, List.getLast?_eq_some_iff]
  constructor
  · rintro ⟨⟨⟨init, rfl⟩, hne⟩, hall⟩
    rw [List.dropLast_concat] at hne hall
    exact ⟨init, rfl, by simpa using hne, List.all_eq_true.mp hall⟩
  · rintro ⟨init, rfl, hne, hall⟩
    rw [List.dropLast_concat]
    exact ⟨⟨⟨init, rfl⟩, by simpa using hne⟩, List.all_eq_true.mpr hall⟩

theorem hasDigits_iff_mem : hasDigits p last w ↔ w ∈ oneOf p * (oneOf p)∗ * {[last]} := by
  rw [hasDigits_iff, mem_mul_singleton]
  simp only [mem_oneOf_mul_kstar]
  exact ⟨fun ⟨init, hw, h⟩ => ⟨init, h, hw⟩, fun ⟨init, h, hw⟩ => ⟨init, hw, h⟩⟩

theorem isDecimalWord_iff_mem :
    isDecimalWord w ↔ w ∈ oneOf Char.isDigit * (oneOf Char.isDigit)∗ * (1 + {['d']}) := by
  rw [mul_add, mul_one, Language.mem_add, mem_oneOf_mul_kstar, ← hasDigits_iff_mem]
  simp [isDecimalWord]

theorem isHexadecimalWord_iff_mem :
    isHexadecimalWord w ↔
      w ∈ oneOf Char.isDigit * (oneOf Char.isDigit)∗ * (oneOf isHexDigit)∗ * {['h']} := by
  unfold isHexadecimalWord
  rw [Bool.and_eq_true, hasDigits_iff, mem_mul_singleton]
  simp only [Language.mem_mul (l := oneOf Char.isDigit * _), mem_oneOf_mul_kstar, mem_oneOf_kstar]
  constructor
  · rintro ⟨hhead, init, rfl, hne, hall⟩
    obtain ⟨c, rest, rfl⟩ := List.exists_cons_of_ne_nil hne
    have hc : c.isDigit := by simpa using hhead
    refine ⟨c :: rest, ⟨[c], ⟨by simp, by simpa using hc⟩, rest, ?_, rfl⟩, rfl⟩
    exact fun d hd => hall d (by simp [hd])
  · rintro ⟨_, ⟨ds, ⟨hne, hds⟩, rest, hrest, rfl⟩, rfl⟩
    obtain ⟨c, ds, rfl⟩ := List.exists_cons_of_ne_nil hne
    refine ⟨by simpa using hds c (by simp), _, rfl, by simp, fun d hd => ?_⟩
    obtain hd | hd := List.mem_append.mp hd
    · unfold isHexDigit
      rw [hds d hd, Bool.true_or]
    · exact hrest d hd

theorem isQuotedWord_iff_mem :
    isQuotedWord w ↔ w ∈ ({['\x27']} * (oneOf (· != '\x27'))∗ * {['\x27']} : Language Char) := by
  rw [mem_mul_singleton]
  simp only [Language.mem_mul, mem_oneOf_kstar, bne_iff_ne]
  constructor
  · intro h
    unfold isQuotedWord at h
    split at h
    next rest =>
      rw [Bool.and_eq_true, beq_iff_eq, List.getLast?_eq_some_iff] at h
      obtain ⟨⟨body, rfl⟩, hbody⟩ := h
      rw [List.dropLast_concat] at hbody
      refine ⟨'\x27' :: body, ⟨['\x27'], rfl, body, ?_, rfl⟩, rfl⟩
      rintro c hc rfl
      simp [hc] at hbody
    next => exact absurd h (by decide)
  · rintro ⟨_, ⟨_, rfl, body, hbody, rfl⟩, rfl⟩
    have hquote : '\x27' ∉ body := fun hc => hbody _ hc rfl
    simp [isQuotedWord, hquote]

theorem isSymbolWord_iff_mem :
    isSymbolWord w ↔ w ∈ oneOf (['.', ',', ':', '[', ']'].contains ·) := by
  simp only [mem_oneOf, isSymbolWord, Bool.or_eq_true, beq_iff_eq, List.contains_iff_mem,
    List.mem_cons, List.not_mem_nil, or_false]
  constructor
  · rintro ((((rfl | rfl) | rfl) | rfl) | rfl)
    all_goals exact ⟨_, by simp, rfl⟩
  · rintro ⟨c, rfl | rfl | rfl | rfl | rfl, rfl⟩ <;> simp

theorem isIdentifierWord_iff_mem :
    isIdentifierWord w ↔ w ∈ oneOf isLetter * (1 + oneOf isWordChar) ^ 7 := by
  rw [mem_oneOf_mul]
  simp only [mem_optional_pow]
  cases w with
  | nil => simp [isIdentifierWord]
  | cons c rest => simp [isIdentifierWord, isLetter, and_assoc]

theorem any_iff_mem_anyOf {words : List String} :
    words.any (·.toList == w) ↔ w ∈ anyOf words := by
  rw [List.any_eq_true]
  simp only [beq_iff_eq]
  rfl

end Word

/-- A word is accepted for a kind exactly if it matches the pattern. -/
theorem accepts_iff_mem_pattern {k : LexemeKind} (hk : k ≠ .invalid) (w : List Char) :
    k.accepts w ↔ w ∈ k.pattern := by
  cases k with
  | mnemonic | directive | generalRegister | segmentRegister | dataDirective =>
    exact any_iff_mem_anyOf
  | binary => exact hasDigits_iff_mem
  | decimal => exact isDecimalWord_iff_mem
  | hexadecimal => exact isHexadecimalWord_iff_mem
  | quoted => exact isQuotedWord_iff_mem
  | symbol => exact isSymbolWord_iff_mem
  | identifier => exact isIdentifierWord_iff_mem
  | invalid => exact absurd rfl hk

theorem mem_all (k : LexemeKind) : k ∈ all := by
  cases k <;> decide

theorem ordinal_injective : Function.Injective ordinal := fun k _ h =>
  (List.idxOf_inj k.mem_all).mp h

/-- What a search finds stands in front of everything else that it could find. -/
theorem idxOf_le_of_find? {α : Type} [BEq α] [LawfulBEq α] {p : α → Bool} {l : List α} {a b : α}
    (hb : l.find? p = some b) (ha : p a) : l.idxOf b ≤ l.idxOf a := by
  induction l with
  | nil => cases hb
  | cons x l ih =>
    by_cases hx : p x
    · rw [List.find?_cons_of_pos hx] at hb
      cases hb
      rw [List.idxOf_cons_self]
      exact Nat.zero_le _
    · rw [List.find?_cons_of_neg hx] at hb
      have hxa : x ≠ a := fun h => hx (h ▸ ha)
      have hxb : x ≠ b := fun h => hx (h ▸ List.find?_some hb)
      rw [List.idxOf_cons_ne _ hxa, List.idxOf_cons_ne _ hxb]
      exact Nat.succ_le_succ (ih hb)

theorem ordinal_ofWord_le {k : LexemeKind} {w : List Char} (h : k.accepts w) :
    (ofWord w).ordinal ≤ k.ordinal := by
  unfold ofWord
  cases hfind : all.find? (·.accepts w) with
  | none => exact absurd h (List.find?_eq_none.mp hfind k k.mem_all)
  | some k' => exact idxOf_le_of_find? hfind h

/-- The kind of a word on one line is the first whose pattern the word matches. -/
theorem isFirstMatch_ofWord {w : List Char} (hw : '\n' ∉ w) : (ofWord w).IsFirstMatch w := by
  constructor
  · by_cases hk : ofWord w = .invalid
    · rw [hk]
      refine mem_oneOf_kstar.mpr fun c hc => bne_iff_ne.mpr ?_
      rintro rfl
      exact hw hc
    · exact (accepts_iff_mem_pattern hk w).mp (accepts_ofWord w)
  · intro k hlt hmem
    have hk : k ≠ .invalid := by
      rintro rfl
      have hle : (ofWord w).ordinal ≤ invalid.ordinal := ordinal_ofWord_le rfl
      omega
    have hle := ordinal_ofWord_le ((accepts_iff_mem_pattern hk w).mpr hmem)
    omega

theorem IsFirstMatch.unique {k k' : LexemeKind} {w : List Char} (h : k.IsFirstMatch w)
    (h' : k'.IsFirstMatch w) : k = k' := by
  obtain hlt | heq | hlt := Nat.lt_trichotomy k.ordinal k'.ordinal
  · exact absurd h.1 (h'.2 k hlt)
  · exact ordinal_injective heq
  · exact absurd h'.1 (h.2 k' hlt)

end LexemeKind

end SegAsm
