import Mathlib.Data.List.TakeWhile
import SegAsm.Proofs.Lexeme.Token

/-! The texts of lexemes. They do not depend on where the lexemes stand, and separators count only as
the ends of words. -/
namespace SegAsm

/-- The texts of the lexemes that some characters make up. -/
def texts (cs : List Char) : List String :=
  (scanFrom 0 cs).map Lexeme.text

theorem map_text_scanFrom (offset : Nat) (cs : List Char) :
    (scanFrom offset cs).map Lexeme.text = texts cs := by
  have hoffset : ∀ offset', (scanFrom offset cs).map Lexeme.text =
      (scanFrom offset' cs).map Lexeme.text := by
    fun_induction scanFrom offset cs with
    | case1 => intro offset'; simp [scanFrom]
    | case2 offset c cs hs ih =>
      intro offset'
      rw [scanFrom, if_pos hs, ih]
    | case3 offset c cs hs hsym ih =>
      intro offset'
      rw [scanFrom, if_neg hs, if_pos hsym, List.map_cons, List.map_cons, ih]
    | case4 offset c cs hs hsym word ih =>
      intro offset'
      rw [scanFrom, if_neg hs, if_neg hsym, List.map_cons, List.map_cons, ih]
  exact hoffset 0

theorem map_text_lexemes (text : String) : (lexemes text).map Lexeme.text = texts (codePart text) :=
  rfl

@[simp] theorem texts_nil : texts [] = [] := by
  simp [texts, scanFrom]

section

variable {c : Char}

theorem not_separator_of_symbol (h : isSingleSymbol c) : isSeparator c = false := by
  simp only [isSingleSymbol, Bool.or_eq_true, beq_iff_eq] at h
  obtain ((rfl | rfl) | rfl) | rfl := h <;> decide

theorem texts_separator (h : isSeparator c) (cs : List Char) : texts (c :: cs) = texts cs := by
  unfold texts
  rw [scanFrom, if_pos h, map_text_scanFrom]
  rfl

theorem texts_symbol (h : isSingleSymbol c) (cs : List Char) :
    texts (c :: cs) = String.singleton c :: texts cs := by
  unfold texts
  rw [scanFrom, if_neg (by simp [not_separator_of_symbol h]), if_pos h, List.map_cons,
    map_text_scanFrom]
  rfl

theorem texts_word (h : isInsideWord c) (cs : List Char) :
    texts (c :: cs) = String.ofList (c :: cs.takeWhile isInsideWord) ::
      texts (cs.dropWhile isInsideWord) := by
  simp only [isInsideWord, Bool.and_eq_true, Bool.not_eq_true'] at h
  unfold texts
  rw [scanFrom, if_neg (by simp [h.1]), if_neg (by simp [h.2]), List.map_cons, map_text_scanFrom]
  rfl

theorem char_cases (c : Char) : isSeparator c ∨ isSingleSymbol c ∨ isInsideWord c := by
  unfold isInsideWord
  cases isSeparator c <;> cases isSingleSymbol c <;> simp

end

/-- What has no word at its start takes nothing away from the text before it. -/
theorem texts_append (cs : List Char) {ds : List Char} (h : ∀ d ∈ ds.head?, isInsideWord d = false) :
    texts (cs ++ ds) = texts cs ++ texts ds := by
  induction hn : cs.length using Nat.strongRecOn generalizing cs with
  | ind n ih =>
    cases cs with
    | nil => rw [List.nil_append, texts_nil, List.nil_append]
    | cons c cs =>
      rw [List.length_cons] at hn
      have hrest := ih cs.length (by omega) cs rfl
      rw [List.cons_append]
      obtain hc | hc | hc := char_cases c
      · rw [texts_separator hc, texts_separator hc, hrest]
      · rw [texts_symbol hc, texts_symbol hc, hrest, List.cons_append]
      · -- A word of `cs` ends where `ds` begins, if not before.
        have htake : ds.takeWhile isInsideWord = [] ∧ ds.dropWhile isInsideWord = ds := by
          cases ds with
          | nil => exact ⟨rfl, rfl⟩
          | cons d ds => simp [h d rfl]
        have hword : (cs ++ ds).takeWhile isInsideWord = cs.takeWhile isInsideWord := by
          rw [List.takeWhile_append, htake.1, List.append_nil]
          split_ifs with hall
          · exact ((List.takeWhile_prefix _).eq_of_length hall).symm
          · rfl
        have hbehind : (cs ++ ds).dropWhile isInsideWord = cs.dropWhile isInsideWord ++ ds := by
          rw [List.dropWhile_append, htake.2]
          split_ifs with hempty
          · rw [List.isEmpty_iff.mp hempty, List.nil_append]
          · rfl
        have hshort := (cs.dropWhile_sublist isInsideWord).length_le
        rw [texts_word hc, texts_word hc, hword, hbehind, ih _ (by omega) _ rfl, List.cons_append]

theorem texts_append_separator {c : Char} (hc : isSeparator c) (cs ds : List Char) :
    texts (cs ++ c :: ds) = texts cs ++ texts ds := by
  rw [texts_append cs (by simp [isInsideWord, hc]), texts_separator hc]

theorem texts_append_symbol {c : Char} (hc : isSingleSymbol c) (cs ds : List Char) :
    texts (cs ++ c :: ds) = texts cs ++ String.singleton c :: texts ds := by
  rw [texts_append cs (by simp [isInsideWord, hc]), texts_symbol hc]

section Separators

variable {ws : List Char} (hws : ∀ c ∈ ws, isSeparator c)
include hws

theorem texts_separators_append (cs : List Char) : texts (ws ++ cs) = texts cs := by
  induction ws with
  | nil => rfl
  | cons c ws ih =>
    rw [List.forall_mem_cons] at hws
    rw [List.cons_append, texts_separator hws.1, ih hws.2]

theorem texts_append_separators (cs : List Char) : texts (cs ++ ws) = texts cs := by
  cases ws with
  | nil => rw [List.append_nil]
  | cons c ws =>
    rw [List.forall_mem_cons] at hws
    have hnone := texts_separators_append hws.2 []
    rw [List.append_nil, texts_nil] at hnone
    rw [texts_append_separator hws.1, hnone, List.append_nil]

end Separators

/-- A lexeme holds characters of the line but no separators, and read again it is itself. -/
theorem of_mem_texts {cs : List Char} {w : String} (h : w ∈ texts cs) :
    (∀ c ∈ w.toList, c ∈ cs ∧ isSeparator c = false) ∧ texts w.toList = [w] := by
  induction hn : cs.length using Nat.strongRecOn generalizing cs with
  | ind n ih =>
    cases cs with
    | nil => simp at h
    | cons c cs =>
      rw [List.length_cons] at hn
      have hmem : ∀ ds : List Char, ds <:+ cs → w ∈ texts ds →
          (∀ c' ∈ w.toList, c' ∈ c :: cs ∧ isSeparator c' = false) ∧ texts w.toList = [w] := by
        intro ds hds hw
        have hlength := hds.length_le
        obtain ⟨hchars, htexts⟩ := ih ds.length (by omega) hw rfl
        refine ⟨fun c' hc' => ⟨?_, (hchars c' hc').2⟩, htexts⟩
        exact List.mem_cons_of_mem _ (hds.subset (hchars c' hc').1)
      obtain hc | hc | hc := char_cases c
      · rw [texts_separator hc] at h
        exact hmem cs List.suffix_rfl h
      · rw [texts_symbol hc] at h
        obtain rfl | h := List.mem_cons.mp h
        · rw [String.toList_singleton, texts_symbol hc, texts_nil]
          simp [not_separator_of_symbol hc]
        · exact hmem cs List.suffix_rfl h
      · rw [texts_word hc] at h
        obtain rfl | h := List.mem_cons.mp h
        · have hinside : ∀ d ∈ c :: cs.takeWhile isInsideWord, isInsideWord d := by
            rw [List.forall_mem_cons]
            exact ⟨hc, fun d hd => List.mem_takeWhile_imp hd⟩
          rw [String.toList_ofList]
          refine ⟨fun d hd => ⟨?_, ?_⟩, ?_⟩
          · exact (List.cons_subset_cons c (List.takeWhile_prefix isInsideWord).subset) hd
          · have hd' := hinside d hd
            simp only [isInsideWord, Bool.and_eq_true, Bool.not_eq_true'] at hd'
            exact hd'.1
          · have htail := fun d hd => hinside d (List.mem_cons_of_mem c hd)
            rw [texts_word hc, List.takeWhile_eq_self_iff.mpr htail,
              List.dropWhile_eq_nil_iff.mpr htail, texts_nil]
        · exact hmem _ (List.dropWhile_suffix _) h

/-- Every character but the separators is in a lexeme. -/
theorem exists_mem_texts {cs : List Char} {c : Char} (hmem : c ∈ cs) (hc : isSeparator c = false) :
    ∃ w ∈ texts cs, c ∈ w.toList := by
  unfold texts
  fun_induction scanFrom 0 cs with
  | case1 => exact absurd hmem List.not_mem_nil
  | case2 offset d cs hd ih =>
    obtain rfl | hmem := List.mem_cons.mp hmem
    · exact absurd hd (by simp [hc])
    · exact ih hmem
  | case3 offset d cs _ _ ih =>
    rw [List.map_cons]
    obtain rfl | hmem := List.mem_cons.mp hmem
    · exact ⟨_, List.mem_cons_self, by simp⟩
    · obtain ⟨w, hw, hcw⟩ := ih hmem
      exact ⟨w, List.mem_cons_of_mem _ hw, hcw⟩
  | case4 offset d cs _ _ word ih =>
    rw [List.map_cons]
    have hsplit : c ∈ word ∨ c ∈ cs.dropWhile isInsideWord := by
      rw [← List.takeWhile_append_dropWhile (p := isInsideWord) (l := cs), ← List.cons_append] at hmem
      exact List.mem_append.mp hmem
    obtain hword | hrest := hsplit
    · exact ⟨_, List.mem_cons_self, by rwa [String.toList_ofList]⟩
    · obtain ⟨w, hw, hcw⟩ := ih hrest
      exact ⟨w, List.mem_cons_of_mem _ hw, hcw⟩

/-- The texts of the lexemes are what the separators leave. -/
theorem flatMap_texts (cs : List Char) :
    (texts cs).flatMap String.toList = cs.filter (!isSeparator ·) := by
  unfold texts
  fun_induction scanFrom 0 cs with
  | case1 => rfl
  | case2 offset c cs hc ih => rw [ih, List.filter_cons_of_neg (by simp [hc])]
  | case3 offset c cs hc hsymbol ih =>
    rw [List.map_cons, List.flatMap_cons, ih, List.filter_cons_of_pos (by simp [hc]),
      String.toList_singleton, List.singleton_append]
  | case4 offset c cs hc hsymbol word ih =>
    have hword : ∀ d ∈ word, (!isSeparator d) = true := by
      refine List.forall_mem_cons.mpr ⟨by simp [hc], fun d hd => ?_⟩
      have hinside := List.mem_takeWhile_imp hd
      exact (Bool.and_eq_true_iff.mp hinside).1
    have hsplit : c :: cs = word ++ cs.dropWhile isInsideWord := by
      rw [List.cons_append, List.takeWhile_append_dropWhile]
    rw [List.map_cons, List.flatMap_cons, ih, String.toList_ofList, hsplit, List.filter_append,
      List.filter_eq_self.mpr hword]

end SegAsm
