import SegAsm.Proofs.Text.Words

/-! What a replacement leaves alone: a mark that no pattern holds divides the text into parts that
are treated apart, and a word that overlaps no pattern and no replacement occurs before it if and only
if it occurs behind it. -/
namespace SegAsm.Text

section Mark

variable {mark : Char}

theorem prefix_mark_iff {p : List Char} (hp : mark ∉ p) (cs ds : List Char) :
    p <+: cs ++ mark :: ds ↔ p <+: cs := by
  induction p generalizing cs with
  | nil => simp
  | cons a p ih =>
    have ha : a ≠ mark := fun h => hp (h ▸ List.mem_cons_self)
    have hp' : mark ∉ p := fun h => hp (List.mem_cons_of_mem _ h)
    cases cs with
    | nil => simp [ha]
    | cons c cs => simp only [List.cons_append, List.cons_prefix_cons, ih hp']

theorem replaceAny_mark {patterns : List String} (hne : ∀ p ∈ patterns, p.toList ≠ [])
    (hmark : ∀ p ∈ patterns, mark ∉ p.toList) (new : String) (cs ds : List Char) :
    replaceAny patterns new (cs ++ mark :: ds) =
      replaceAny patterns new cs ++ mark :: replaceAny patterns new ds := by
  induction hn : cs.length using Nat.strong_induction_on generalizing cs with
  | _ n ih =>
    cases cs with
    | nil =>
      refine replaceAny_keep fun p hp => not_prefix_cons (hne p hp) (fun hhead => ?_) ds
      exact hmark p hp (List.mem_of_head? hhead)
    | cons c cs =>
      have hsame (p : String) (hp : p ∈ patterns) :
          p.toList.isPrefixOf (c :: cs ++ mark :: ds) = p.toList.isPrefixOf (c :: cs) := by
        rw [Bool.eq_iff_iff, List.isPrefixOf_iff_prefix, List.isPrefixOf_iff_prefix]
        exact prefix_mark_iff (hmark p hp) _ _
      have hfind : patterns.find? (fun q => q.toList.isPrefixOf (c :: cs ++ mark :: ds)) =
          patterns.find? fun q => q.toList.isPrefixOf (c :: cs) :=
        List.find?_congr hsame
      cases hf : patterns.find? (fun q => q.toList.isPrefixOf (c :: cs)) with
      | none =>
        have hkeep : ∀ p ∈ patterns, ¬ p.toList <+: c :: cs := by
          simpa [List.find?_eq_none, List.isPrefixOf_iff_prefix] using hf
        have hkeep' : ∀ p ∈ patterns, ¬ p.toList <+: c :: (cs ++ mark :: ds) := by
          rw [hf] at hfind
          simpa [List.find?_eq_none, List.isPrefixOf_iff_prefix] using hfind
        rw [List.cons_append, replaceAny_keep hkeep', replaceAny_keep hkeep,
          ih cs.length (by simp [← hn]) cs rfl, List.cons_append]
      | some p =>
        have hp := List.mem_of_find?_eq_some hf
        obtain ⟨rest, hrest⟩ : p.toList <+: c :: cs := by simpa using List.find?_some hf
        have hpos := List.length_pos_iff.mpr (hne p hp)
        have hlength : rest.length < n := by
          rw [← hn, ← hrest, List.length_append]
          omega
        rw [hf] at hfind
        rw [← hrest] at hf hfind ⊢
        rw [List.append_assoc] at hfind ⊢
        rw [replaceAny_found_append (hne p hp) hfind, replaceAny_found_append (hne p hp) hf,
          ih _ hlength rest rfl, List.append_assoc]

/-- The texts are the same up to a mark that both hold. -/
def SameUpTo (mark : Char) (cs ds : List Char) : Prop :=
  ∃ xs ys zs, cs = xs ++ mark :: ys ∧ ds = xs ++ mark :: zs

namespace SameUpTo

variable {cs ds : List Char} (h : SameUpTo mark cs ds)
include h

theorem append_left (xs : List Char) : SameUpTo mark (xs ++ cs) (xs ++ ds) := by
  obtain ⟨us, ys, zs, rfl, rfl⟩ := h
  exact ⟨xs ++ us, ys, zs, (List.append_assoc _ _ _).symm, (List.append_assoc _ _ _).symm⟩

theorem replaceAny {patterns : List String} (hne : ∀ p ∈ patterns, p.toList ≠ [])
    (hmark : ∀ p ∈ patterns, mark ∉ p.toList) (new : String) :
    SameUpTo mark (Text.replaceAny patterns new cs) (Text.replaceAny patterns new ds) := by
  obtain ⟨xs, ys, zs, rfl, rfl⟩ := h
  exact ⟨_, _, _, replaceAny_mark hne hmark new xs ys, replaceAny_mark hne hmark new xs zs⟩

theorem prefix_iff {p : List Char} (hp : mark ∉ p) : p <+: cs ↔ p <+: ds := by
  obtain ⟨xs, ys, zs, rfl, rfl⟩ := h
  rw [prefix_mark_iff hp, prefix_mark_iff hp]

theorem mem : mark ∈ cs ∧ mark ∈ ds := by
  obtain ⟨xs, ys, zs, rfl, rfl⟩ := h
  simp

end SameUpTo

theorem SameUpTo.of_cons {c : Char} (hc : c ≠ mark) {cs ds : List Char}
    (h : SameUpTo mark (c :: cs) (c :: ds)) : SameUpTo mark cs ds := by
  obtain ⟨xs, ys, zs, hcs, hds⟩ := h
  cases xs with
  | nil => exact absurd (List.cons.inj hcs).1 hc
  | cons x xs => exact ⟨xs, ys, zs, (List.cons.inj hcs).2, (List.cons.inj hds).2⟩

/-- Texts with the same starts, as far as these do not hold the mark, and with the same occurrences of
a word keep both behind any other text. -/
theorem infix_append_congr {w cs ds : List Char} (hw : mark ∉ w)
    (hstart : ∀ p, mark ∉ p → (p <+: cs ↔ p <+: ds)) (hinside : w <:+: cs ↔ w <:+: ds)
    (us : List Char) : w <:+: us ++ cs ↔ w <:+: us ++ ds := by
  have hbegins : ∀ us p : List Char, mark ∉ p → (p <+: us ++ cs ↔ p <+: us ++ ds) := by
    intro us
    induction us with
    | nil => exact hstart
    | cons u us ih =>
      intro p hp
      cases p with
      | nil => simp
      | cons a p =>
        simp only [List.cons_append, List.cons_prefix_cons,
          ih p fun h => hp (List.mem_cons_of_mem _ h)]
  induction us with
  | nil => exact hinside
  | cons u us ih =>
    rw [List.cons_append, List.cons_append, List.infix_cons_iff, List.infix_cons_iff]
    exact or_congr (hbegins (u :: us) w hw) ih

end Mark

/-- No part of the text can be a part of an occurrence of a word: of the word and the rest of the
text from any place on, neither starts the other. -/
def isClear (words : List String) : List Char → Bool
  | [] => true
  | c :: cs => words.all (fun w => !(c :: cs).isPrefixOf w.toList && !w.toList.isPrefixOf (c :: cs)) &&
      isClear words cs

section Clear

variable {words : List String}

theorem isClear_cons_iff {c : Char} {cs : List Char} :
    isClear words (c :: cs) ↔
      (∀ w ∈ words, ¬ c :: cs <+: w.toList ∧ ¬ w.toList <+: c :: cs) ∧ isClear words cs := by
  simp [isClear, List.all_eq_true, ← List.isPrefixOf_iff_prefix]

/-- Two texts that go on from the same place: one starts the other. -/
theorem not_prefix_of_clear {c : Char} {cs : List Char} (h : isClear words (c :: cs)) {w : String}
    (hw : w ∈ words) (rest : List Char) : ¬ w.toList <+: c :: cs ++ rest := by
  intro hpre
  obtain ⟨hno, hno'⟩ := (isClear_cons_iff.mp h).1 w hw
  obtain hle | hle := List.prefix_or_prefix_of_prefix hpre (List.prefix_append (c :: cs) rest)
  · exact hno' hle
  · exact hno hle

theorem isClear_append {cs ds : List Char} (hcs : isClear words cs) (hds : isClear words ds) :
    isClear words (cs ++ ds) := by
  induction cs with
  | nil => exact hds
  | cons c cs ih =>
    obtain ⟨hc, hrest⟩ := isClear_cons_iff.mp hcs
    refine isClear_cons_iff.mpr ⟨fun w hw => ⟨fun hpre => ?_, ?_⟩, ih hrest⟩
    · exact (hc w hw).1 ((List.prefix_append (c :: cs) ds).trans hpre)
    · exact not_prefix_of_clear hcs hw ds

theorem infix_append_iff {w : String} {cs : List Char} (h : isClear [w] cs) (rest : List Char) :
    w.toList <:+: cs ++ rest ↔ w.toList <:+: rest := by
  induction cs with
  | nil => rfl
  | cons c cs ih =>
    have hno := not_prefix_of_clear h List.mem_cons_self rest
    rw [List.cons_append, List.infix_cons_iff, ih (isClear_cons_iff.mp h).2]
    exact or_iff_right hno

variable {patterns : List String} (hne : ∀ p ∈ patterns, p.toList ≠ []) {new : String}
include hne

theorem prefix_replaceAny_iff {v : List Char} (hv : isClear (new :: patterns) v) (cs : List Char) :
    v <+: replaceAny patterns new cs ↔ v <+: cs := by
  induction v generalizing cs with
  | nil => simp
  | cons a v ih =>
    cases cs with
    | nil => rfl
    | cons c cs =>
      obtain ⟨hno, hrest⟩ := isClear_cons_iff.mp hv
      rcases replaceAny_cases hne new c cs with ⟨-, heq⟩ | ⟨p, hp, hpre, heq⟩
      · rw [heq, List.cons_prefix_cons, List.cons_prefix_cons, ih hrest]
      · have hnew := hno new List.mem_cons_self
        have hold := hno p (List.mem_cons_of_mem _ hp)
        rw [heq]
        refine iff_of_false (fun h => ?_) fun h => ?_
        · obtain hle | hle := List.prefix_or_prefix_of_prefix h (List.prefix_append new.toList _)
          · exact hnew.1 hle
          · exact hnew.2 hle
        · obtain hle | hle := List.prefix_or_prefix_of_prefix h hpre
          · exact hold.1 hle
          · exact hold.2 hle

/-- A word that overlaps neither the patterns nor what replaces them is neither lost nor made. -/
theorem infix_replaceAny_iff {w : String} (hclear : isClear (new :: patterns) w.toList)
    (hover : ∀ q ∈ new :: patterns, isClear [w] q.toList) (cs : List Char) :
    w.toList <:+: replaceAny patterns new cs ↔ w.toList <:+: cs := by
  induction hn : cs.length using Nat.strong_induction_on generalizing cs with
  | _ n ih =>
    cases cs with
    | nil => rfl
    | cons c cs =>
      have hbegins := prefix_replaceAny_iff hne hclear (c :: cs)
      rcases replaceAny_cases hne new c cs with ⟨-, heq⟩ | ⟨p, hp, ⟨rest, hrest⟩, heq⟩
      · rw [heq] at hbegins ⊢
        rw [List.infix_cons_iff, List.infix_cons_iff, hbegins,
          ih cs.length (by simp [← hn]) cs rfl]
      · -- Neither the pattern nor what replaces it touches an occurrence, so the rest decides.
        have hpos := List.length_pos_iff.mpr (hne p hp)
        have hlength : rest.length < n := by
          rw [← hn, ← hrest, List.length_append]
          omega
        rw [heq, ← hrest, List.drop_left, infix_append_iff (hover new List.mem_cons_self),
          infix_append_iff (hover p (List.mem_cons_of_mem _ hp)), ih _ hlength rest rfl]

end Clear
end SegAsm.Text
