import SegAsm.Proofs.Lexeme.Number
import SegAsm.Proofs.Lexeme.Pattern

/-! Writing numbers as constants. The kind of a word is found by its pattern and the base of a constant by
its last letter; on the words that write a number the two agree, and the constant is that number. -/
namespace SegAsm

open Text

namespace LexemeKind

/-- What may stand behind the digits of a constant. -/
def suffixes : LexemeKind → List (List Char)
  | .binary => [['b'], ['B']]
  | .decimal => [[], ['d'], ['D']]
  | .hexadecimal => [['h'], ['H']]
  | _ => []

/-- The word writes the number as a constant of the kind: with digits of the base in any case, the first
of them decimal, and with a suffix. Leading zeros are of no account. -/
inductive Writes (k : LexemeKind) : List Char → Nat → Prop
  | intro {ds suffix : List Char} (hne : ds ≠ []) (hds : ∀ d ∈ ds, digitNumber d < k.base)
      (hfirst : ∀ d ∈ ds.head?, d.isDigit) (hsuffix : suffix ∈ k.suffixes) :
      Writes k (ds ++ suffix) (Nat.ofDigits k.base (ds.map digitNumber).reverse)

/-- The folded digits of the base of a kind. -/
def isBaseDigit : LexemeKind → Char → Bool
  | .binary, c => c == '0' || c == '1'
  | .hexadecimal, c => isHexDigit c
  | _, c => c.isDigit

theorem isBaseDigit_fold_iff {k : LexemeKind} (hk : k.isNumeric) (c : Char) :
    k.isBaseDigit (fold c) ↔ digitNumber c < k.base := by
  constructor
  · intro h
    cases k with
    | binary => exact (countsIn_binary h).2.2
    | decimal => exact (countsIn_decimal h).2.2
    | hexadecimal => exact (countsIn_hexadecimal h).2
    | _ => cases hk
  · intro h
    have hbase : k.base ≤ "0123456789abcdef".toList.length := by cases k <;> decide
    have hmem : fold c ∈ "0123456789abcdef".toList :=
      List.idxOf_lt_length_iff.mp (Nat.lt_of_lt_of_le h hbase)
    have htake : fold c ∈ "0123456789abcdef".toList.take k.base :=
      (List.mem_take_iff_idxOf_lt hmem).mpr h
    have hall : ("0123456789abcdef".toList.take k.base).all k.isBaseDigit := by
      cases k with
      | binary | decimal | hexadecimal => decide
      | _ => cases hk
    exact List.all_eq_true.mp hall _ htake

/-- The letter of the suffixes, folded. -/
def letter : LexemeKind → Char
  | .binary => 'b'
  | .hexadecimal => 'h'
  | _ => 'd'

theorem singleton_mem_suffixes {k : LexemeKind} (hk : k.isNumeric) {c : Char}
    (hc : fold c = k.letter) : [c] ∈ k.suffixes := by
  have hletter : k.letter ∈ ['b', 'd', 'h'] := by cases k <;> decide
  have hcase := letter_of_fold hletter hc
  cases k with
  | binary | decimal | hexadecimal => obtain rfl | rfl := hcase <;> decide
  | _ => cases hk

/-- Only a decimal number can stand without a letter behind it. -/
theorem suffix_cases {k : LexemeKind} {suffix : List Char} (h : suffix ∈ k.suffixes) :
    (k = .decimal ∧ suffix = []) ∨
      ∃ c, suffix = [c] ∧ fold c = k.letter ∧ c.isDigit = false := by
  cases k with
  | binary =>
    obtain rfl | rfl : suffix = ['b'] ∨ suffix = ['B'] := by simpa [suffixes] using h
    all_goals exact .inr ⟨_, rfl, by decide, by decide⟩
  | decimal =>
    obtain rfl | rfl | rfl : suffix = [] ∨ suffix = ['d'] ∨ suffix = ['D'] := by
      simpa [suffixes] using h
    · exact .inl ⟨rfl, rfl⟩
    all_goals exact .inr ⟨_, rfl, by decide, by decide⟩
  | hexadecimal =>
    obtain rfl | rfl : suffix = ['h'] ∨ suffix = ['H'] := by simpa [suffixes] using h
    all_goals exact .inr ⟨_, rfl, by decide, by decide⟩
  | _ => cases h

theorem isDigit_fold {c : Char} (h : c.isDigit) : (fold c).isDigit := by
  have hall : ∀ n < 128, (Char.ofNat n).isDigit → (fold (Char.ofNat n)).isDigit := by decide
  have hc : c.toNat < 128 := by
    have hlast : c.toNat ≤ 57 := of_decide_eq_true (Bool.and_eq_true_iff.mp h).2
    omega
  obtain ⟨n, hn, rfl⟩ := exists_ofNat hc
  exact hall n hn h

section Accepts

variable {k : LexemeKind} {w : List Char}

theorem exists_hasDigits_of_accepts_hexadecimal (h : hexadecimal.accepts w) :
    ∃ ds c, w = ds ++ [c] ∧ fold c = 'h' ∧ ds ≠ [] ∧ (∀ d ∈ ds, isHexDigit (fold d)) ∧
      ∀ d ∈ ds.head?, d.isDigit := by
  obtain ⟨hhead, hdigits⟩ := Bool.and_eq_true_iff.mp h
  obtain ⟨ds, c, rfl, hc, hne, hds⟩ := exists_of_hasDigits hdigits
  refine ⟨ds, c, rfl, hc, hne, hds, ?_⟩
  obtain ⟨d, ds, rfl⟩ := List.exists_cons_of_ne_nil hne
  rintro _ ⟨⟩
  exact (countsIn_decimal (by simpa using hhead)).1

/-- Every word that is accepted for a kind of constants writes a number. -/
theorem exists_writes_of_accepts (hk : k.isNumeric) (h : k.accepts w) : ∃ n, k.Writes w n := by
  have hcounts {ds : List Char} (hds : ∀ d ∈ ds, k.isBaseDigit (fold d)) :
      ∀ d ∈ ds, digitNumber d < k.base := fun d hd => (isBaseDigit_fold_iff hk d).mp (hds d hd)
  cases k with
  | binary =>
    obtain ⟨ds, c, rfl, hc, hne, hds⟩ := exists_of_hasDigits h
    have hfirst : ∀ d ∈ ds.head?, d.isDigit := fun d hd =>
      (countsIn_binary (hds d (List.mem_of_mem_head? hd))).1
    exact ⟨_, .intro hne (hcounts hds) hfirst (singleton_mem_suffixes hk hc)⟩
  | decimal =>
    have hfirst {ds : List Char} (hds : ∀ d ∈ ds, (fold d).isDigit) : ∀ d ∈ ds.head?, d.isDigit :=
      fun d hd => (countsIn_decimal (hds d (List.mem_of_mem_head? hd))).1
    obtain hplain | hsuffix := Bool.or_eq_true_iff.mp h
    · obtain ⟨hne, hall⟩ := Bool.and_eq_true_iff.mp hplain
      have hds : ∀ d ∈ w, (fold d).isDigit := fun d hd =>
        List.all_eq_true.mp hall _ (List.mem_map_of_mem hd)
      refine ⟨Nat.ofDigits 10 (w.map digitNumber).reverse, ?_⟩
      have hwrites : decimal.Writes (w ++ []) _ :=
        .intro (by simpa using hne) (hcounts hds) (hfirst hds) (by decide)
      rwa [List.append_nil] at hwrites
    · obtain ⟨ds, c, rfl, hc, hne, hds⟩ := exists_of_hasDigits hsuffix
      exact ⟨_, .intro hne (hcounts hds) (hfirst hds) (singleton_mem_suffixes hk hc)⟩
  | hexadecimal =>
    obtain ⟨ds, c, rfl, hc, hne, hds, hfirst⟩ := exists_hasDigits_of_accepts_hexadecimal h
    exact ⟨_, .intro hne (hcounts hds) hfirst (singleton_mem_suffixes hk hc)⟩
  | _ => cases hk

theorem hasDigits_concat {p : Char → Bool} {last c : Char} {ds : List Char} (hne : ds ≠ [])
    (hds : ∀ d ∈ ds, p (fold d)) (hc : fold c = last) : hasDigits p last ((ds ++ [c]).map fold) := by
  refine hasDigits_iff.mpr ⟨ds.map fold, by rw [List.map_append, List.map_singleton, hc], ?_, ?_⟩
  · simpa using hne
  · simpa using hds

theorem Writes.isNumeric {n : Nat} (h : k.Writes w n) : k.isNumeric := by
  obtain ⟨-, -, -, hsuffix⟩ := h
  cases k with
  | binary | decimal | hexadecimal => rfl
  | _ => cases hsuffix

theorem Writes.accepts {n : Nat} (h : k.Writes w n) : k.accepts w := by
  have hk := h.isNumeric
  obtain @⟨ds, suffix, hne, hds, hfirst, hsuffix⟩ := h
  have hdigit : ∀ d ∈ ds, k.isBaseDigit (fold d) := fun d hd =>
    (isBaseDigit_fold_iff hk d).mpr (hds d hd)
  obtain ⟨rfl, rfl⟩ | ⟨c, rfl, hc, -⟩ := suffix_cases hsuffix
  · refine Bool.or_eq_true_iff.mpr (.inl ?_)
    rw [List.append_nil, Bool.and_eq_true, List.all_map]
    exact ⟨by simpa using hne, List.all_eq_true.mpr hdigit⟩
  · cases k with
    | binary => exact hasDigits_concat hne hdigit hc
    | decimal => exact Bool.or_eq_true_iff.mpr (.inr (hasDigits_concat hne hdigit hc))
    | hexadecimal =>
      refine Bool.and_eq_true_iff.mpr ⟨?_, hasDigits_concat hne hdigit hc⟩
      obtain ⟨d, ds, rfl⟩ := List.exists_cons_of_ne_nil hne
      exact isDigit_fold (hfirst d rfl)
    | _ => cases hk

/-- The kind of the constants with the given last character, folded. -/
def ofLast (c : Char) : LexemeKind :=
  if c = 'b' then .binary else if c = 'h' then .hexadecimal else .decimal

theorem ofLast_of_isDigit {c : Char} (h : c.isDigit) : ofLast c = .decimal := by
  unfold ofLast
  rw [if_neg (by rintro rfl; exact absurd h (by decide)), if_neg (by rintro rfl; exact absurd h (by decide))]

/-- The last character of a constant tells its kind. -/
theorem Writes.getLast? {n : Nat} (h : k.Writes w n) :
    ∃ c, w.getLast? = some c ∧ ofLast (fold c) = k := by
  have hk := h.isNumeric
  obtain @⟨ds, suffix, hne, hds, -, hsuffix⟩ := h
  obtain ⟨rfl, rfl⟩ | ⟨c, rfl, hc, -⟩ := suffix_cases hsuffix
  · refine ⟨ds.getLast hne, by rw [List.append_nil, List.getLast?_eq_some_getLast hne], ?_⟩
    exact ofLast_of_isDigit ((isBaseDigit_fold_iff hk _).mpr (hds _ (List.getLast_mem hne)))
  · refine ⟨c, List.getLast?_concat, ?_⟩
    rw [hc]
    cases k with
    | binary | decimal | hexadecimal => decide
    | _ => cases hk

theorem Writes.head? {n : Nat} (h : k.Writes w n) : ∃ c rest, w = c :: rest ∧ c.isDigit := by
  obtain @⟨ds, suffix, hne, -, hfirst, -⟩ := h
  obtain ⟨d, ds, rfl⟩ := List.exists_cons_of_ne_nil hne
  exact ⟨d, ds ++ suffix, rfl, hfirst d rfl⟩

/-- No keyword starts with a digit. -/
theorem isNumeric_of_accepts {c : Char} {rest : List Char} (hc : c.isDigit)
    (h : k.accepts (c :: rest)) (hle : k.ordinal ≤ hexadecimal.ordinal) : k.isNumeric := by
  have hkeyword {words : List String} (hwords : words.all (!·.toList.head?.any Char.isDigit)) :
      words.any (·.toList == (c :: rest).map fold) = false := by
    refine List.any_eq_false.mpr fun x hx heq => ?_
    have hnot := List.all_eq_true.mp hwords x hx
    rw [beq_iff_eq.mp heq, List.map_cons, List.head?_cons, Option.any_some, isDigit_fold hc] at hnot
    exact absurd hnot (by decide)
  cases k with
  | mnemonic | directive | generalRegister | segmentRegister | dataDirective =>
    exact absurd h (by rw [LexemeKind.accepts, hkeyword (by decide)]; decide)
  | binary | decimal | hexadecimal => rfl
  | _ => exact absurd hle (by decide)

/-- A word that writes a number is a constant of that kind: no kind that is tried before accepts it. -/
theorem Writes.ofWord_eq {n : Nat} (h : k.Writes w n) : ofWord w = k := by
  have hle : (ofWord w).ordinal ≤ k.ordinal := ordinal_ofWord_le h.accepts
  have hbound : k.ordinal ≤ hexadecimal.ordinal := by
    have hk := h.isNumeric
    cases k with
    | binary | decimal | hexadecimal => decide
    | _ => cases hk
  obtain ⟨c, rest, rfl, hc⟩ := h.head?
  have hnumeric := isNumeric_of_accepts hc (accepts_ofWord (c :: rest)) (Nat.le_trans hle hbound)
  obtain ⟨n', hn'⟩ := exists_writes_of_accepts hnumeric (accepts_ofWord (c :: rest))
  obtain ⟨d, hd, hlast⟩ := h.getLast?
  obtain ⟨d', hd', hlast'⟩ := hn'.getLast?
  rw [← hlast, ← hlast', Option.some.inj (hd.symm.trans hd')]

end Accepts

section Value

variable {k : LexemeKind} {text : String} {n : Nat}

/-- The digits of the constant are those that the word was written with. -/
theorem Writes.number_eq (h : k.Writes text.toList n) : Lexeme.number ⟨text, k, 0⟩ = n := by
  have hk := h.isNumeric
  generalize hw : text.toList = w at h
  obtain @⟨ds, suffix, hne, hds, hfirst, hsuffix⟩ := h
  have hdigits : Lexeme.digits ⟨text, k, 0⟩ = ds := by
    have hplain (h16 : k ≠ .hexadecimal) : ∀ d ∈ ds, d.isDigit := by
      intro d hd
      have hdigit := (isBaseDigit_fold_iff hk d).mpr (hds d hd)
      cases k with
      | binary => exact (countsIn_binary hdigit).1
      | decimal => exact (countsIn_decimal hdigit).1
      | hexadecimal => exact absurd rfl h16
      | _ => cases hk
    unfold Lexeme.digits
    rw [hw]
    obtain ⟨rfl, rfl⟩ | ⟨c, rfl, -, hc⟩ := suffix_cases hsuffix
    · rw [List.append_nil]
      exact List.takeWhile_eq_self_iff.mpr (hplain (by decide))
    · split_ifs with h16
      · exact List.dropLast_concat
      · exact takeWhile_concat (hplain h16) hc
  unfold Lexeme.number
  rw [hdigits]

/-- A constant is the number that it writes, if that is a signed word of 64 bits. -/
theorem Writes.constantValue_eq (h : k.Writes text.toList n) :
    constantValue text = if n ≤ 2 ^ 63 - 1 then .ok (n : Int) else .error .outOfRange := by
  have hscanned : Lexeme.Scanned ⟨text, k, 0⟩ := by
    refine ⟨h.ofWord_eq.symm, ?_⟩
    obtain ⟨c, rest, hw, -⟩ := h.head?
    simp [hw]
  have hvalue := hscanned.constantValue_eq h.isNumeric
  have hbound : n < int64Bound ↔ n ≤ 2 ^ 63 - 1 := by
    unfold int64Bound
    omega
  rw [h.number_eq] at hvalue
  simpa only [hbound] using hvalue

end Value

section ToDigits

variable {base : Nat} (hlow : 1 < base) (hhigh : base ≤ 16)
include hlow hhigh

/-- The digits of a number in a base make up the number. -/
theorem toDigits_spec (n : Nat) :
    (∀ d ∈ Nat.toDigits base n, digitNumber d < base) ∧
      Nat.ofDigits base ((Nat.toDigits base n).map digitNumber).reverse = n := by
  have hdigit {d : Nat} (hd : d < base) : digitNumber d.digitChar = d := by
    have hall : ∀ d < 16, digitNumber d.digitChar = d := by decide
    exact hall d (by omega)
  induction n using Nat.strongRecOn with
  | ind n ih =>
    rw [Nat.toDigits_eq_if hlow]
    split_ifs with hn
    · simp [hdigit hn, hn]
    · have hmod : n % base < base := Nat.mod_lt n (by omega)
      obtain ⟨hds, hvalue⟩ := ih (n / base) (Nat.div_lt_self (by omega) hlow)
      constructor
      · intro d hd
        obtain hd | hd := List.mem_append.mp hd
        · exact hds d hd
        · rw [List.mem_singleton.mp hd, hdigit hmod]
          exact hmod
      · rw [List.map_append, List.reverse_append, List.map_singleton, List.reverse_singleton,
          List.singleton_append, Nat.ofDigits_cons, hvalue, hdigit hmod]
        exact Nat.mod_add_div n base

end ToDigits

/-- The digits of a number in the base of a kind, with a zero in front if the first one is a letter. -/
def numeral (k : LexemeKind) (v : Nat) : List Char :=
  if (Nat.toDigits k.base v).head?.any Char.isDigit then Nat.toDigits k.base v
  else '0' :: Nat.toDigits k.base v

theorem numeral_spec (k : LexemeKind) (v : Nat) :
    k.numeral v ≠ [] ∧ (∀ d ∈ k.numeral v, digitNumber d < k.base) ∧
      (∀ d ∈ (k.numeral v).head?, d.isDigit) ∧
      Nat.ofDigits k.base ((k.numeral v).map digitNumber).reverse = v := by
  have hbase : 1 < k.base ∧ k.base ≤ 16 := by cases k <;> decide
  obtain ⟨hds, hvalue⟩ := toDigits_spec hbase.1 hbase.2 v
  unfold numeral
  split_ifs with hfirst
  · refine ⟨Nat.toDigits_ne_nil, hds, fun d hd => ?_, hvalue⟩
    rwa [Option.mem_def.mp hd, Option.any_some] at hfirst
  · have hzero : digitNumber '0' = 0 := by decide
    refine ⟨List.cons_ne_nil _ _, List.forall_mem_cons.mpr ⟨by omega, hds⟩, ?_, ?_⟩
    · rintro _ ⟨⟩
      decide
    · rw [List.map_cons, List.reverse_cons, Nat.ofDigits_append, hvalue, hzero, Nat.ofDigits_singleton,
        Nat.mul_zero, Nat.add_zero]

theorem writes_numeral (k : LexemeKind) (v : Nat) {suffix : List Char} (hsuffix : suffix ∈ k.suffixes) :
    k.Writes (k.numeral v ++ suffix) v := by
  obtain ⟨hne, hds, hfirst, hvalue⟩ := k.numeral_spec v
  have hwrites := Writes.intro hne hds hfirst hsuffix
  rwa [hvalue] at hwrites

end LexemeKind

/-- Every word of a numeric kind writes a number in the base of its kind. A word that writes a number is
of that kind and is read as the number, up to the largest signed word of 64 bits, and is out of range
above it. Every number is written by its digits with each of the suffixes. -/
theorem constants_read_as_written :
    (∀ text : String, (LexemeKind.ofWord text.toList).isNumeric →
      ∃ n, (LexemeKind.ofWord text.toList).Writes text.toList n) ∧
    (∀ (k : LexemeKind) (text : String) (n : Nat), k.Writes text.toList n →
      LexemeKind.ofWord text.toList = k ∧ k.isNumeric ∧
        constantValue text = if n ≤ 2 ^ 63 - 1 then .ok (n : Int) else .error .outOfRange) ∧
    ∀ (k : LexemeKind) (v : Nat), ∀ suffix ∈ k.suffixes,
      k.Writes (k.numeral v ++ suffix) v ∧
        (v ≤ 2 ^ 63 - 1 → LexemeKind.ofWord (k.numeral v ++ suffix) = k ∧
          constantValue (String.ofList (k.numeral v ++ suffix)) = .ok (v : Int)) := by
  refine ⟨fun text hk => ?_, fun k text n h => ?_, fun k v suffix hsuffix => ?_⟩
  · exact LexemeKind.exists_writes_of_accepts hk (LexemeKind.accepts_ofWord _)
  · exact ⟨h.ofWord_eq, h.isNumeric, h.constantValue_eq⟩
  · have hwrites := k.writes_numeral v hsuffix
    refine ⟨hwrites, fun hv => ⟨hwrites.ofWord_eq, ?_⟩⟩
    rw [← String.toList_ofList (l := k.numeral v ++ suffix)] at hwrites
    rw [hwrites.constantValue_eq, if_pos hv]

/-- In front of an `H` the letters `b` and `d` are digits. -/
theorem constants_read_at_limit :
    LexemeKind.hexadecimal.Writes "0bdH".toList 189 ∧
      LexemeKind.ofWord "0bdH".toList = .hexadecimal ∧ constantValue "0bdH" = .ok 189 ∧
      constantValue "7fffffffffffffffh" = .ok 9223372036854775807 ∧
      constantValue "8000000000000000h" = .error .outOfRange := by
  obtain ⟨-, hread, hwritten⟩ := constants_read_as_written
  have hletters : LexemeKind.hexadecimal.numeral 189 ++ ['H'] = "0bdH".toList := by decide
  have hmax : LexemeKind.hexadecimal.numeral 9223372036854775807 ++ ['h'] =
      "7fffffffffffffffh".toList := by decide
  have hnext : LexemeKind.hexadecimal.numeral 9223372036854775808 ++ ['h'] =
      "8000000000000000h".toList := by decide
  have hwrites := (hwritten .hexadecimal 189 ['H'] (by decide)).1
  have hvalue := ((hwritten .hexadecimal 9223372036854775807 ['h'] (by decide)).2 (by decide)).2
  have habove := (hwritten .hexadecimal 9223372036854775808 ['h'] (by decide)).1
  rw [hletters] at hwrites
  rw [hmax, String.ofList_toList] at hvalue
  rw [hnext] at habove
  obtain ⟨hkind, -, hsmall⟩ := hread _ _ _ hwrites
  exact ⟨hwrites, hkind, hsmall, hvalue, (hread _ _ _ habove).2.2⟩

end SegAsm
