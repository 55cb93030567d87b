import SegAsm.Proofs.Layout

/-! Code with its blanks collapsed. It is trimmed, and outside of text constants each run of blanks
in it is one space; code of that form is left as it is. -/
namespace SegAsm.Layout

open Text

/-- Whether a text constant is open behind a character. -/
def turn (inText : Bool) (c : Char) : Bool :=
  if c = '\x27' then !inText else inText

theorem turn_of_blank {c : Char} (h : isBlank c) (inText : Bool) : turn inText c = inText := by
  unfold turn
  rw [if_neg]
  rintro rfl
  exact absurd h (by decide)

/-- Outside of text constants a blank is a space with some other character behind it. -/
def Tidy (inText : Bool) : List Char → Prop
  | [] => True
  | c :: cs =>
    (turn inText c = false → isBlank c → c = ' ' ∧ ∃ d ∈ cs.head?, isBlank d = false) ∧
      Tidy (turn inText c) cs

namespace Tidy

variable {inText : Bool} {cs ds : List Char}

theorem append (hcs : Tidy inText cs) (hds : Tidy (cs.foldl turn inText) ds) :
    Tidy inText (cs ++ ds) := by
  induction cs generalizing inText with
  | nil => exact hds
  | cons c cs ih =>
    obtain ⟨hc, hcs⟩ := hcs
    refine ⟨fun hturn hblank => ?_, ih hcs hds⟩
    obtain ⟨hspace, d, hd, hnext⟩ := hc hturn hblank
    refine ⟨hspace, d, ?_, hnext⟩
    change d ∈ (cs ++ ds).head?
    rw [List.head?_append, Option.mem_def.mp hd]
    rfl

theorem of_append (h : Tidy inText (cs ++ ds)) : Tidy (cs.foldl turn inText) ds := by
  induction cs generalizing inText with
  | nil => exact h
  | cons c cs ih => exact ih h.2

theorem of_no_blank (h : ∀ c ∈ cs, isBlank c = false) : Tidy inText cs := by
  induction cs generalizing inText with
  | nil => trivial
  | cons c cs ih =>
    rw [List.forall_mem_cons] at h
    exact ⟨fun _ hblank => absurd hblank (by simp [h.1]), ih h.2⟩

end Tidy

theorem foldl_turn_of_no_quote {cs : List Char} (h : '\x27' ∉ cs) (inText : Bool) :
    cs.foldl turn inText = inText := by
  induction cs with
  | nil => rfl
  | cons c cs ih =>
    rw [List.mem_cons, not_or] at h
    rw [List.foldl_cons, turn, if_neg (Ne.symm h.1), ih h.2]

namespace Collapsed

variable {s : Collapsed} {c : Char}

theorem push_of_blank (hturn : turn s.inText c = false) (hblank : isBlank c) :
    s.push c = { s with pending := true } := by
  unfold turn at hturn
  unfold push
  simp only [hturn, hblank, Bool.not_false, Bool.and_self, if_true]

theorem push_of_kept (h : turn s.inText c = true ∨ isBlank c = false) :
    s.push c = ⟨c :: (if s.pending then ' ' :: s.done else s.done), turn s.inText c, false⟩ := by
  unfold turn at h ⊢
  unfold push
  dsimp only
  rw [if_neg]
  obtain h | h := h <;> simp [h]

end Collapsed

/-- Tidy code is read as it is. -/
theorem foldl_push_of_tidy {inText : Bool} {cs : List Char} (h : Tidy inText cs)
    (done : List Char) :
    cs.foldl Collapsed.push ⟨done, inText, false⟩ =
      ⟨cs.reverse ++ done, cs.foldl turn inText, false⟩ := by
  induction cs generalizing inText done with
  | nil => rfl
  | cons c cs ih =>
    obtain ⟨hc, hcs⟩ := h
    rw [List.reverse_cons, List.append_assoc, List.singleton_append, List.foldl_cons, List.foldl_cons,
      ← ih hcs]
    by_cases hblank : turn inText c = false ∧ isBlank c
    · -- The space waits until the next character, which is no blank, comes behind it.
      obtain ⟨rfl, d, hd, hnext⟩ := hc hblank.1 hblank.2
      obtain ⟨ds, rfl⟩ := List.head?_eq_some_iff.mp hd
      rw [Collapsed.push_of_blank hblank.1 hblank.2, List.foldl_cons, List.foldl_cons,
        Collapsed.push_of_kept (.inr hnext), Collapsed.push_of_kept (.inr hnext)]
      rfl
    · rw [Collapsed.push_of_kept]
      · rfl
      · simpa [or_iff_not_imp_left] using hblank

namespace Collapsed

/-- What has been read is tidy, and blanks wait only outside of text constants. -/
structure Sound (s : Collapsed) : Prop where
  tidy : Tidy false s.done.reverse
  inText : s.done.reverse.foldl turn false = s.inText
  outside : s.pending → s.inText = false

theorem Sound.push {s : Collapsed} (h : s.Sound) (c : Char) : (s.push c).Sound := by
  by_cases hblank : turn s.inText c = false ∧ isBlank c
  · rw [push_of_blank hblank.1 hblank.2]
    refine ⟨h.tidy, h.inText, fun _ => ?_⟩
    rw [← hblank.1, turn_of_blank hblank.2]
  · have hkept : turn s.inText c = true ∨ isBlank c = false := by
      simpa [or_iff_not_imp_left] using hblank
    have hlast : Tidy s.inText [c] := ⟨fun hturn hc => absurd ⟨hturn, hc⟩ hblank, trivial⟩
    rw [push_of_kept hkept]
    cases hpending : s.pending with
    | false =>
      refine ⟨?_, ?_, fun hwait => absurd hwait Bool.false_ne_true⟩
      · simp only [Bool.false_eq_true, if_false, List.reverse_cons]
        exact h.tidy.append (h.inText ▸ hlast)
      · simp only [Bool.false_eq_true, if_false, List.reverse_cons, List.foldl_concat, h.inText]
    | true =>
      have hspace : turn s.inText ' ' = s.inText := rfl
      have hc : isBlank c = false := by
        obtain hquote | hc := hkept
        · rw [h.outside hpending, turn] at hquote
          split_ifs at hquote with heq
          rw [heq]
          decide
        · exact hc
      refine ⟨?_, ?_, fun hwait => absurd hwait Bool.false_ne_true⟩
      · simp only [if_true, List.reverse_cons, List.append_assoc]
        exact h.tidy.append (h.inText ▸ ⟨fun _ _ => ⟨rfl, c, rfl, hc⟩, hlast⟩)
      · simp only [if_true, List.reverse_cons, List.foldl_concat, h.inText, hspace]

theorem sound_foldl_push (cs : List Char) : (cs.foldl Collapsed.push {}).Sound := by
  induction cs using List.reverseRecOn with
  | nil => exact ⟨trivial, rfl, fun h => absurd h (by decide)⟩
  | append_singleton cs c ih =>
    rw [List.foldl_concat]
    exact ih.push c

/-- What has been read stays. -/
theorem suffix_foldl_push (s : Collapsed) (cs : List Char) :
    s.done <:+ (cs.foldl Collapsed.push s).done := by
  induction cs generalizing s with
  | nil => exact List.suffix_rfl
  | cons c cs ih =>
    refine List.IsSuffix.trans ?_ (ih (s.push c))
    obtain ⟨hdone, -⟩ | ⟨-, hdone, -⟩ := s.push_cases c
    · rw [hdone]
      split_ifs
      · exact (List.suffix_cons _ _).trans (List.suffix_cons _ _)
      · exact List.suffix_cons _ _
    · exact hdone ▸ List.suffix_rfl

end Collapsed

theorem isBlank_of_not_white {c : Char} (h : isWhite c = false) : isBlank c = false := by
  unfold isBlank
  rw [Bool.or_eq_false_iff, beq_eq_false_iff_ne, beq_eq_false_iff_ne]
  constructor <;> rintro rfl <;> exact absurd h (by decide)

theorem isSeparator_of_not_white {c : Char} (h : isWhite c = false) : isSeparator c = false := by
  rw [Bool.eq_false_iff]
  intro hc
  simp only [isSeparator, Bool.or_eq_true, beq_iff_eq] at hc
  obtain rfl | hc := hc
  · exact absurd h (by decide)
  · simp [isWhite, hc] at h

theorem tidy_collapse (code : List Char) : Tidy false (collapse code) :=
  (Collapsed.sound_foldl_push (trimWhite code)).tidy

theorem trimmed_collapse (code : List Char) : Trimmed (collapse code) := by
  have htrimmed := trimmed_trimWhite code
  unfold collapse
  generalize trimWhite code = cs at htrimmed
  have hkept {c : Char} (hc : isWhite c = false) (s : Collapsed) :
      (s.push c).done = c :: (if s.pending then ' ' :: s.done else s.done) := by
    rw [Collapsed.push_of_kept (.inr (isBlank_of_not_white hc))]
  constructor
  · cases cs with
    | nil => exact fun c hc => by cases hc
    | cons c cs =>
      -- The first character is at the bottom of what is read.
      have hc := htrimmed.head c rfl
      obtain ⟨front, hfront⟩ := Collapsed.suffix_foldl_push (Collapsed.push {} c) cs
      rw [hkept hc] at hfront
      rw [List.foldl_cons, ← hfront, List.reverse_append, List.reverse_cons]
      intro d hd
      cases hd
      exact hc
  · cases cs using List.reverseRecOn with
    | nil => exact fun c hc => by cases hc
    | append_singleton cs c =>
      have hc := htrimmed.last c (by simp)
      rw [List.foldl_concat, hkept hc, List.reverse_cons]
      intro d hd
      rw [List.getLast?_concat] at hd
      cases hd
      exact hc

/-- Code in its own form is left as it is. -/
theorem collapse_of_tidy {code : List Char} (htidy : Tidy false code) (htrimmed : Trimmed code) :
    collapse code = code := by
  unfold collapse
  rw [htrimmed.trimWhite_eq, foldl_push_of_tidy htidy, List.append_nil, List.reverse_reverse]

end SegAsm.Layout
