import Mathlib.Data.List.DropRight
import SegAsm.Text.Blank

/-! Trimming. What is popped from the end of a list is what `List.rdropWhile` drops. -/
namespace SegAsm.Text

theorem toList_popWhile {α : Type} (p : α → Bool) (xs : List α) :
    (xs.toArray.popWhile p).toList = xs.rdropWhile p := by
  rw [List.popWhile_toArray, List.rdropWhile]

theorem trimWhite_eq (cs : List Char) :
    trimWhite cs = (cs.dropWhile isWhite).rdropWhile isWhite :=
  toList_popWhile _ _

@[simp] theorem trimWhite_nil : trimWhite [] = [] := by
  rw [trimWhite_eq]
  rfl

theorem trimWhite_subset (cs : List Char) : trimWhite cs ⊆ cs := by
  rw [trimWhite_eq]
  exact fun c hc => (List.dropWhile_suffix _).subset ((List.rdropWhile_prefix _ _).subset hc)

theorem mem_dropWhile {α : Type} {p : α → Bool} {a : α} (ha : p a = false) {l : List α}
    (h : a ∈ l) : a ∈ l.dropWhile p := by
  rw [← List.takeWhile_append_dropWhile (p := p) (l := l), List.mem_append] at h
  refine h.resolve_left fun ht => ?_
  have hp := List.all_eq_true.mp List.all_takeWhile a ht
  simp [hp] at ha

theorem mem_trimWhite {c : Char} (hc : isWhite c = false) {cs : List Char} (h : c ∈ cs) :
    c ∈ trimWhite cs := by
  rw [trimWhite_eq, List.rdropWhile, List.mem_reverse]
  exact mem_dropWhile hc (List.mem_reverse.mpr (mem_dropWhile hc h))

/-- No white character stands at either end. -/
structure Trimmed (cs : List Char) : Prop where
  head : ∀ c ∈ cs.head?, isWhite c = false
  last : ∀ c ∈ cs.getLast?, isWhite c = false

variable {cs : List Char}

theorem Trimmed.trimWhite_eq (h : Trimmed cs) : trimWhite cs = cs := by
  have hfront : cs.dropWhile isWhite = cs := by
    cases cs with
    | nil => rfl
    | cons c cs => exact List.dropWhile_cons_of_neg (by simp [h.head c rfl])
  rw [Text.trimWhite_eq, hfront, List.rdropWhile_eq_self_iff]
  intro hne
  simp [h.last _ (List.getLast?_eq_some_getLast hne)]

theorem trimmed_trimWhite (cs : List Char) : Trimmed (trimWhite cs) := by
  rw [trimWhite_eq]
  have hkept := List.rdropWhile_prefix isWhite (l := cs.dropWhile isWhite)
  constructor
  · intro c hc
    have hhead : c ∈ (cs.dropWhile isWhite).head? := by
      obtain ⟨dropped, hdropped⟩ := hkept
      rw [← hdropped, List.head?_append, Option.mem_def.mp hc]
      rfl
    have hnot := List.head?_dropWhile_not isWhite cs
    rw [Option.mem_def.mp hhead] at hnot
    simpa using hnot
  · intro c hc
    have hne : (cs.dropWhile isWhite).rdropWhile isWhite ≠ [] := by
      rintro hnil
      rw [hnil] at hc
      cases hc
    rw [List.getLast?_eq_some_getLast hne] at hc
    obtain rfl := Option.some.inj hc
    simpa using List.rdropWhile_last_not isWhite _ hne

theorem trimWhite_white_append {front : List Char} (hfront : ∀ c ∈ front, isWhite c)
    (cs : List Char) : trimWhite (front ++ cs) = trimWhite cs := by
  rw [trimWhite_eq, trimWhite_eq, List.dropWhile_append_of_pos hfront]

theorem trimWhite_append_white {back : List Char} (hback : ∀ c ∈ back, isWhite c)
    (cs : List Char) : trimWhite (cs ++ back) = trimWhite cs := by
  have hright (ds : List Char) : (ds ++ back).rdropWhile isWhite = ds.rdropWhile isWhite := by
    unfold List.rdropWhile
    rw [List.reverse_append, List.dropWhile_append_of_pos]
    exact fun c hc => hback c (List.mem_reverse.mp hc)
  rw [trimWhite_eq, trimWhite_eq, List.dropWhile_append]
  split_ifs with hempty
  · rw [List.isEmpty_iff.mp hempty, List.dropWhile_eq_nil_iff.mpr hback]
  · exact hright _

/-- Where the last character is not white, trimming is done at the front. -/
theorem takeWhile_append_trimWhite (hlast : ∀ c ∈ cs.getLast?, isWhite c = false) :
    cs.takeWhile isWhite ++ trimWhite cs = cs := by
  have hsplit := List.takeWhile_append_dropWhile (p := isWhite) (l := cs)
  have hback : (cs.dropWhile isWhite).rdropWhile isWhite = cs.dropWhile isWhite := by
    rw [List.rdropWhile_eq_self_iff]
    intro hne
    rw [← hsplit, List.getLast?_append_of_ne_nil _ hne] at hlast
    simp [hlast _ (List.getLast?_eq_some_getLast hne)]
  rw [trimWhite_eq, hback, hsplit]

end SegAsm.Text
