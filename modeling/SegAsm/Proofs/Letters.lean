import SegAsm.Encode

/-! What does not depend on the case of ASCII letters. Keywords, registers, constants and table keys
each ignore it in a way of their own: by folding, in lower case, digit by digit or in upper case. -/
namespace SegAsm

namespace Text

/-- The texts differ at most in the case of ASCII letters. -/
def SameLetters (s t : String) : Prop :=
  s.toList.map Char.toLower = t.toList.map Char.toLower

/-- A function that takes an ASCII letter and its lower case to the same value. -/
def IgnoresCase {α : Type} (f : Char → α) : Prop :=
  ∀ c, f c.toLower = f c

theorem ignoresCase_of_ascii {α : Type} {f : Char → α}
    (h : ∀ n < 128, f (Char.ofNat n).toLower = f (Char.ofNat n)) : IgnoresCase f := by
  intro c
  by_cases hc : c.toNat < 128
  · have hascii := h c.toNat hc
    rwa [c.ofNat_toNat] at hascii
  · -- No character beyond ASCII has a lower case of its own.
    have hupper : ¬('A'.val ≤ c.val ∧ c.val ≤ 'Z'.val) := fun hle =>
      hc (Nat.lt_of_le_of_lt hle.2 (by decide))
    have hsame : c.toLower = c := dif_neg hupper
    rw [hsame]

theorem IgnoresCase.map_toLower {α : Type} {f : Char → α} (hf : IgnoresCase f) (cs : List Char) :
    (cs.map Char.toLower).map f = cs.map f := by
  rw [List.map_map]
  exact List.map_congr_left fun c _ => hf c

theorem ignoresCase_beq {d : Char} (hd : d.isAlpha = false) : IgnoresCase (· == d) := by
  have hascii : ∀ n < 128, (Char.ofNat n).toLower = Char.ofNat n ∨
      ((Char.ofNat n).isAlpha && (Char.ofNat n).toLower.isAlpha) = true := by decide
  refine ignoresCase_of_ascii fun n hn => ?_
  obtain hsame | hletters := hascii n hn
  · rw [hsame]
  · obtain ⟨hupper, hlower⟩ := Bool.and_eq_true_iff.mp hletters
    have hne (c : Char) (hc : c.isAlpha = true) : (c == d) = false :=
      beq_eq_false_iff_ne.mpr fun heq => by simp [heq, hd] at hc
    rw [hne _ hupper, hne _ hlower]

/-- A character that is no letter is the lower case of itself alone. -/
theorem toLower_eq_iff {d : Char} (hd : d.isAlpha = false) (c : Char) : c.toLower = d ↔ c = d := by
  have hsame : (c.toLower == d) = (c == d) := ignoresCase_beq hd c
  rw [← beq_iff_eq, hsame, beq_iff_eq]

theorem ignoresCase_fold : IgnoresCase fold := ignoresCase_of_ascii (by decide)

theorem ignoresCase_lower : IgnoresCase lower := ignoresCase_of_ascii (by decide)

theorem ignoresCase_upper : IgnoresCase upper := ignoresCase_of_ascii (by decide)

namespace SameLetters

variable {s t u : String}

theorem refl (s : String) : SameLetters s s := rfl

theorem symm (h : SameLetters s t) : SameLetters t s := Eq.symm h

/-- A function of texts that ignores the case of letters gives the same for both. -/
theorem apply_eq {α : Type} {f : List Char → α} (hf : ∀ cs, f (cs.map Char.toLower) = f cs)
    (h : SameLetters s t) : f s.toList = f t.toList := by
  rw [← hf s.toList, h, hf]

theorem upperString_eq (h : SameLetters s t) : upperString s = upperString t :=
  congrArg String.ofList (h.apply_eq ignoresCase_upper.map_toLower)

theorem lowerString_eq (h : SameLetters s t) : lowerString s = lowerString t :=
  congrArg String.ofList (h.apply_eq ignoresCase_lower.map_toLower)

theorem fold_eq (h : SameLetters s t) : s.toList.map fold = t.toList.map fold :=
  h.apply_eq ignoresCase_fold.map_toLower

/-- A text without letters has no other spelling. -/
theorem eq_of_no_letter (h : SameLetters s t) (hs : s.toList.all (!·.isAlpha)) : s = t := by
  have hlists : ∀ cs ds : List Char, cs.all (!·.isAlpha) →
      cs.map Char.toLower = ds.map Char.toLower → cs = ds := by
    intro cs
    induction cs with
    | nil => simp [eq_comm]
    | cons c cs ih =>
      intro ds hcs heq
      cases ds with
      | nil => simp at heq
      | cons d ds =>
        rw [List.map_cons, List.map_cons, List.cons.injEq] at heq
        rw [List.all_cons, Bool.and_eq_true, Bool.not_eq_true'] at hcs
        have hc := toLower_eq_iff hcs.1
        have hd : d = c := (hc d).mp (heq.1.symm.trans ((hc c).mpr rfl))
        rw [ih ds hcs.2 heq.2, hd]
  exact String.toList_inj.mp (hlists _ _ hs h)

/-- Whether a text is a given one without letters does not depend on case. -/
theorem eq_iff_of_no_letter (h : SameLetters s t) (hu : u.toList.all (!·.isAlpha)) :
    s = u ↔ t = u := by
  constructor
  · rintro rfl
    exact (h.eq_of_no_letter hu).symm
  · rintro rfl
    exact (h.symm.eq_of_no_letter hu).symm

end SameLetters
end Text

open Text

section Kind

theorem isSymbolWord_map_toLower (w : List Char) :
    LexemeKind.isSymbolWord (w.map Char.toLower) = LexemeKind.isSymbolWord w := by
  match w with
  | [] => rfl
  | [c] =>
    have hsymbol : IgnoresCase fun c => LexemeKind.isSymbolWord [c] :=
      ignoresCase_of_ascii (by decide)
    exact hsymbol c
  | _ :: _ :: _ => simp [LexemeKind.isSymbolWord]

theorem isQuotedWord_map_toLower (w : List Char) :
    LexemeKind.isQuotedWord (w.map Char.toLower) = LexemeKind.isQuotedWord w := by
  have hquote : IgnoresCase (· == '\x27') := ignoresCase_beq (by decide)
  match w with
  | [] => rfl
  | c :: cs =>
    by_cases hc : c = '\x27'
    · subst hc
      have hlast : ((cs.map Char.toLower).getLast? == some '\x27') =
          (cs.getLast? == some '\x27') := by
        rw [List.getLast?_map]
        cases cs.getLast? with
        | none => rfl
        | some d => exact hquote d
      have hmiddle : (cs.map Char.toLower).dropLast.contains '\x27' =
          cs.dropLast.contains '\x27' := by
        rw [← List.map_dropLast, List.contains_eq_any_beq, List.contains_eq_any_beq, List.any_map]
        refine congrArg (List.any _) (funext fun d => ?_)
        exact (BEq.comm.trans (hquote d)).trans BEq.comm
      change (_ && !_) = (_ && !_)
      rw [hlast, hmiddle]
    · have hlower : c.toLower ≠ '\x27' := mt (toLower_eq_iff (by decide) c).mp hc
      simp [LexemeKind.isQuotedWord, hc, hlower]

theorem accepts_map_toLower (k : LexemeKind) (w : List Char) :
    k.accepts (w.map Char.toLower) = k.accepts w := by
  cases k with
  | quoted => exact isQuotedWord_map_toLower w
  | symbol => exact isSymbolWord_map_toLower w
  | _ => simp only [LexemeKind.accepts, ignoresCase_fold.map_toLower]

theorem ofWord_map_toLower (w : List Char) :
    LexemeKind.ofWord (w.map Char.toLower) = LexemeKind.ofWord w := by
  simp only [LexemeKind.ofWord, accepts_map_toLower]

end Kind

section Constant

theorem digits?_map_toLower (base : Nat) (cs : List Char) :
    digits? base (cs.map Char.toLower) = digits? base cs := by
  have hdigit : IgnoresCase digitValue? := ignoresCase_of_ascii (by decide)
  induction cs with
  | nil => rfl
  | cons c cs ih =>
    unfold digits? at ih ⊢
    rw [List.map_cons, List.mapM_cons, List.mapM_cons, ih, hdigit]

theorem parseInt64_map_toLower (base : Nat) (cs : List Char) :
    parseInt64 base (cs.map Char.toLower) = parseInt64 base cs := by
  have hsign : splitSign (cs.map Char.toLower) =
      ((splitSign cs).1, (splitSign cs).2.map Char.toLower) := by
    match cs with
    | [] => rfl
    | c :: cs =>
      by_cases hm : c = '-'
      · subst hm; rfl
      · by_cases hp : c = '+'
        · subst hp; rfl
        · have hm' : c.toLower ≠ '-' := mt (toLower_eq_iff (by decide) c).mp hm
          have hp' : c.toLower ≠ '+' := mt (toLower_eq_iff (by decide) c).mp hp
          simp [splitSign, hm, hp, hm', hp']
  have hnumeral (ds : List Char) : numeral? base (ds.map Char.toLower) = numeral? base ds := by
    unfold numeral?
    rw [List.isEmpty_map, digits?_map_toLower]
  unfold parseInt64
  rw [hsign]
  dsimp only
  rw [hnumeral]

theorem constantValue_map_toLower (cs : List Char) :
    constantValue (String.ofList (cs.map Char.toLower)) = constantValue (String.ofList cs) := by
  have hh : IgnoresCase fun c => c == 'h' || c == 'H' := ignoresCase_of_ascii (by decide)
  have hb : IgnoresCase fun c => c == 'b' || c == 'B' := ignoresCase_of_ascii (by decide)
  have hd : IgnoresCase fun c => c == 'd' || c == 'D' := ignoresCase_of_ascii (by decide)
  unfold constantValue
  simp only [String.toList_ofList, List.getLast?_map, ← List.map_dropLast, parseInt64_map_toLower]
  cases cs.getLast? with
  | none => rfl
  | some c =>
    have hc := And.intro (hh c) (And.intro (hb c) (hd c))
    dsimp only [Option.map_some] at hc ⊢
    rw [hc.1, hc.2.1, hc.2.2]

end Constant

namespace Text.SameLetters

variable {s t : String} (h : SameLetters s t)
include h

theorem ofWord_eq : LexemeKind.ofWord s.toList = LexemeKind.ofWord t.toList :=
  h.apply_eq ofWord_map_toLower

theorem constantValue_eq : constantValue s = constantValue t := by
  have hlists := h.apply_eq (f := fun cs => constantValue (String.ofList cs))
    constantValue_map_toLower
  rwa [String.ofList_toList, String.ofList_toList] at hlists

theorem nameKey_eq : nameKey s = nameKey t := h.upperString_eq

theorem register_eq : Register.ofOperand s = Register.ofOperand t := by
  unfold Register.ofOperand Register.ofName?
  rw [h.lowerString_eq]

theorem segmentRegister_eq : SegmentRegister.ofOperand s = SegmentRegister.ofOperand t := by
  unfold SegmentRegister.ofOperand SegmentRegister.ofName? sameFold
  rw [h.fold_eq]

end Text.SameLetters
end SegAsm
