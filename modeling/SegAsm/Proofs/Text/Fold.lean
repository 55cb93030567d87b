import Mathlib.Data.List.Basic
import SegAsm.Lexeme
import SegAsm.Text.Upper

/-! Case folding next to upper and lower case. On the characters of names each of the two cases gives the
class of a character but for one: lower case keeps the long s, and upper case keeps the Kelvin sign. -/
namespace SegAsm.Text

section Ascii

variable {c : Char} (hascii : (fold c).toNat < 128)
include hascii

/-- A character that folds to an ASCII one has the upper case of that one, the Kelvin sign apart. -/
theorem upper_of_fold (hk : c ≠ '\u212a') : upper c = (fold c).toUpper := by
  unfold fold at *
  split_ifs at * with hu hs
  · have hupper : 'A'.val ≤ c.val ∧ c.val ≤ 'Z'.val := of_decide_eq_true hu
    have hc : c.toNat < 128 := Nat.lt_of_le_of_lt hupper.2 (by decide)
    have hlower : ∀ n < 128, (Char.ofNat n).toLower.toUpper = (Char.ofNat n).toUpper := by decide
    rw [upper, if_pos hc, ← c.ofNat_toNat]
    exact (hlower c.toNat hc).symm
  · subst hs
    decide
  · rw [upper, if_pos hascii]

/-- A character that folds to an ASCII one has that one for its lower case, the long s apart. -/
theorem lower_of_fold (hs : c ≠ 'ſ') : lower c = fold c := by
  have hdotted : c ≠ 'İ' := by
    rintro rfl
    exact absurd hascii (by decide)
  unfold lower fold
  rw [if_neg hs, if_neg hdotted]

end Ascii

theorem map_lower_of_fold {cs : List Char} (hascii : (cs.map fold).all (·.toNat < 128))
    (hs : 'ſ' ∉ cs) : cs.map lower = cs.map fold := by
  refine List.map_congr_left fun c hc => lower_of_fold ?_ fun heq => hs (heq ▸ hc)
  simpa using List.all_eq_true.mp hascii _ (List.mem_map_of_mem hc)

section Word

open LexemeKind

variable {c d : Char}

theorem toNat_lt_of_wordChar (h : isWordChar c) : c.toNat < 128 := by
  simp only [isWordChar, Bool.or_eq_true, Bool.and_eq_true, decide_eq_true_eq] at h
  obtain hdigit | ⟨-, hlast⟩ := h
  · have hlast : c.toNat ≤ 57 := of_decide_eq_true (Bool.and_eq_true_iff.mp hdigit).2
    omega
  · have hlast : c.toNat ≤ 122 := hlast
    omega

theorem fold_toUpper (h : isWordChar c) : fold c.toUpper = c ∧ c.toUpper.toNat < 128 := by
  have hcodes : ∀ n < 128, isWordChar (Char.ofNat n) →
      fold (Char.ofNat n).toUpper = Char.ofNat n ∧ (Char.ofNat n).toUpper.toNat < 128 := by
    decide
  have hc := hcodes c.toNat (toNat_lt_of_wordChar h)
  rw [c.ofNat_toNat] at hc
  exact hc h

theorem upper_of_wordChar (h : isWordChar (fold c)) (hk : c ≠ '\u212a') :
    upper c = (fold c).toUpper :=
  upper_of_fold (toNat_lt_of_wordChar h) hk

theorem upper_kelvin : upper '\u212a' = '\u212a' := by decide

theorem upper_eq_kelvin_iff (h : isWordChar (fold c)) : upper c = '\u212a' ↔ c = '\u212a' := by
  refine ⟨fun heq => ?_, fun heq => heq ▸ upper_kelvin⟩
  by_contra hk
  have hascii := (fold_toUpper h).2
  rw [← upper_of_wordChar h hk, heq] at hascii
  exact absurd hascii (by decide)

/-- Upper case stays in the class of a character. -/
theorem fold_upper (h : isWordChar (fold c)) : fold (upper c) = fold c := by
  by_cases hk : c = '\u212a'
  · rw [hk, upper_kelvin]
  · rw [upper_of_wordChar h hk, (fold_toUpper h).1]

theorem upper_eq_upper_iff (hc : isWordChar (fold c)) (hd : isWordChar (fold d)) :
    upper c = upper d ↔ fold c = fold d ∧ (c = '\u212a' ↔ d = '\u212a') := by
  constructor
  · intro heq
    refine ⟨?_, ?_⟩
    · rw [← fold_upper hc, heq, fold_upper hd]
    · rw [← upper_eq_kelvin_iff hc, heq, upper_eq_kelvin_iff hd]
  · rintro ⟨hfold, hkelvin⟩
    by_cases hk : c = '\u212a'
    · rw [hk, hkelvin.mp hk]
    · rw [upper_of_wordChar hc hk, hfold, upper_of_wordChar hd (mt hkelvin.mpr hk)]

theorem map_fold_upper {cs : List Char} (h : ∀ c ∈ cs, isWordChar (fold c)) :
    (cs.map upper).map fold = cs.map fold := by
  rw [List.map_map]
  exact List.map_congr_left fun c hc => fold_upper (h c hc)

/-- Words have the same upper case if they fold to the same word and have the Kelvin sign at the same
places. -/
theorem map_upper_eq_iff {cs ds : List Char} (hcs : ∀ c ∈ cs, isWordChar (fold c))
    (hds : ∀ d ∈ ds, isWordChar (fold d)) :
    cs.map upper = ds.map upper ↔
      cs.map fold = ds.map fold ∧ cs.map (· == '\u212a') = ds.map (· == '\u212a') := by
  induction cs generalizing ds with
  | nil => cases ds <;> simp
  | cons c cs ih =>
    cases ds with
    | nil => simp
    | cons d ds =>
      obtain ⟨hc, hcs⟩ := List.forall_mem_cons.mp hcs
      obtain ⟨hd, hds⟩ := List.forall_mem_cons.mp hds
      have hkelvin : (c == '\u212a') = (d == '\u212a') ↔ (c = '\u212a' ↔ d = '\u212a') := by
        rw [Bool.eq_iff_iff, beq_iff_eq, beq_iff_eq]
      simp only [List.map_cons, List.cons.injEq, upper_eq_upper_iff hc hd, ih hcs hds, hkelvin]
      exact and_and_and_comm

end Word
end SegAsm.Text
