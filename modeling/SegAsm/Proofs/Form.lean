import SegAsm.Proofs.Template
import SegAsm.Proofs.Text.Blank

/-! The form of a line by its words: the lexemes behind the label of a line of a form but `ASSUME` are
shown, one by one, by the words of the form. -/
namespace SegAsm

open Text

/-- The words of the template of the form. -/
def Form.words : Form → List String
  | .beginSegment => ["ID", "SEGMENT"]
  | .endSegment => ["ID", "ENDS"]
  | .assume => ["ASSUME", "rS", ":", "ID"]
  | .finishAt => ["END", "ID"]
  | .finish => ["END"]
  | .label => ["ID", ":"]
  | .dataByte => ["ID", "DB", "CONST"]
  | .dataWord => ["ID", "DW", "CONST"]
  | .dataDouble => ["ID", "DD", "CONST"]
  | .dataText => ["ID", "DB", "C_STR"]
  | .cli => ["CLI"]
  | .inc => ["INC", "ID", "[", "ADDR", "]"]
  | .incOverride => ["INC", "rS", ":", "ID", "[", "ADDR", "]"]
  | .dec => ["DEC", "reg"]
  | .add => ["ADD", "ID", "[", "ADDR", "]", ",", "CONST"]
  | .addOverride => ["ADD", "rS", ":", "ID", "[", "ADDR", "]", ",", "CONST"]
  | .cmp => ["CMP", "reg", ",", "ID", "[", "ADDR", "]"]
  | .cmpOverride => ["CMP", "reg", ",", "rS", ":", "ID", "[", "ADDR", "]"]
  | .xor => ["XOR", "ID", "[", "ADDR", "]", ",", "reg"]
  | .xorOverride => ["XOR", "rS", ":", "ID", "[", "ADDR", "]", ",", "reg"]
  | .mov => ["MOV", "reg", ",", "CONST"]
  | .or => ["OR", "reg", ",", "reg"]
  | .jb => ["JB", "ID"]
  | .jmp => ["JMP", "ID"]
  | .empty => []

namespace Form

theorem pattern_eq_words (f : Form) : f.pattern = String.intercalate " " f.words := by
  cases f <;> decide

theorem words_subset (f : Form) : f.words ⊆ shownWords := by
  cases f <;> decide

theorem assume_not_mem_words {f : Form} (hf : f ≠ .assume) : "ASSUME" ∉ f.words := by
  revert hf
  cases f <;> decide

theorem mark_not_mem_pattern (f : Form) : '<' ∉ f.pattern.toList := by
  cases f <;> decide

theorem ofTemplate?_eq_some_iff {t : String} {f : Form} :
    ofTemplate? t = some f ↔ t = f.pattern := by
  constructor
  · intro h
    have hpattern : f.pattern = t := by simpa using List.find?_some h
    exact hpattern.symm
  · rintro rfl
    cases f <;> rfl

end Form

theorem shownWords_ne_empty : ∀ w ∈ shownWords, w ≠ "" ∧ ' ' ∉ w.toList := by
  decide

theorem trimmed_of_mem_shownWords {w : String} (hw : w ∈ shownWords) :
    w.toList ≠ [] ∧ Trimmed w.toList := by
  have hall : shownWords.all fun w => w.toList.head?.any (!isWhite ·) &&
      w.toList.getLast?.any (!isWhite ·) := by
    decide
  obtain ⟨hhead, hlast⟩ := Bool.and_eq_true_iff.mp (List.all_eq_true.mp hall w hw)
  simp only [Option.any_eq_true, Bool.not_eq_true'] at hhead hlast
  obtain ⟨c, hc, hnot⟩ := hhead
  obtain ⟨d, hd, hnot'⟩ := hlast
  refine ⟨fun hnil => ?_, fun e he => ?_, fun e he => ?_⟩
  · rw [hnil] at hc
    cases hc
  · rwa [Option.some.inj (hc.symm.trans he)] at hnot
  · rwa [Option.some.inj (hd.symm.trans he)] at hnot'

/-- A text of words starts and ends with a character of a word. -/
theorem trimmed_append_spaced {w : String} {ws : List String} (hws : w :: ws ⊆ shownWords) :
    Trimmed (w.toList ++ spaced ws) := by
  induction ws generalizing w with
  | nil => simpa using (trimmed_of_mem_shownWords (hws (by simp))).2
  | cons v vs ih =>
    obtain ⟨hne, hw⟩ := trimmed_of_mem_shownWords (hws (by simp : w ∈ w :: v :: vs))
    have hrest := ih (w := v) fun u hu => hws (List.mem_cons_of_mem _ hu)
    have hv := (trimmed_of_mem_shownWords (hws (by simp : v ∈ w :: v :: vs))).1
    constructor
    · rw [List.head?_append_of_ne_nil _ hne]
      exact hw.head
    · rw [spaced_cons, List.getLast?_append_of_ne_nil _ (by simp),
        List.getLast?_cons_of_ne_nil (by simp [hv])]
      exact hrest.last

theorem trimWhite_spaced {ws : List String} (hws : ws ⊆ shownWords) :
    trimWhite (spaced ws) = (String.intercalate " " ws).toList := by
  cases ws with
  | nil => exact trimWhite_nil
  | cons w ws =>
    have hspace : ∀ c ∈ [' '], isWhite c := List.forall_mem_singleton.mpr rfl
    rw [toList_intercalate_cons, spaced_cons, ← List.singleton_append,
      trimWhite_white_append hspace, (trimmed_append_spaced hws).trimWhite_eq]

theorem classify_of_startsWithLabel {ls : List Lexeme} (h : startsWithLabel (template ls)) :
    classify ls =
      ⟨ls.head?, ls.drop 2, String.ofList (trimWhite ((template ls).toList.drop 4))⟩ := by
  simp [classify, h]

theorem classify_of_not_startsWithLabel {ls : List Lexeme}
    (h : ¬ startsWithLabel (template ls)) :
    classify ls = ⟨none, ls, template ls⟩ := by
  simp [classify, h]

/-- A line of a valid form holds no invalid lexeme. -/
theorem valid_of_form? {ls : List Lexeme} (hs : ∀ l ∈ ls, l.Scanned) {f : Form}
    (h : (classify ls).form? = some f) : ∀ l ∈ ls, l.Valid := by
  intro l hl
  refine ⟨hs l hl, fun hk => ?_⟩
  have hmark := mem_template_of_invalid hl (hs l hl) hk
  refine f.mark_not_mem_pattern ?_
  rw [← Form.ofTemplate?_eq_some_iff.mp h]
  by_cases hlabel : startsWithLabel (template ls)
  · rw [classify_of_startsWithLabel hlabel, String.toList_ofList]
    refine mem_trimWhite (by decide) ?_
    obtain ⟨rest, hrest⟩ : "ID :".toList <+: (template ls).toList := by
      simpa [startsWithLabel] using (Bool.and_eq_true_iff.mp hlabel).2
    rw [← hrest] at hmark ⊢
    exact (List.mem_append.mp hmark).resolve_left (by decide)
  · rw [classify_of_not_startsWithLabel hlabel]
    exact hmark

/-- Words with a label in front of others. -/
def Labelled (ws : List String) : Prop :=
  ["ID", ":"] <+: ws ∧ 2 < ws.length

instance (ws : List String) : Decidable (Labelled ws) :=
  inferInstanceAs (Decidable (_ ∧ _))

/-- The words behind a label; a label alone stays. -/
def unlabelled (ws : List String) : List String :=
  if Labelled ws then ws.drop 2 else ws

theorem mem_unlabelled {v : String} (hv : v ∉ ["ID", ":"]) {ws : List String} (h : v ∈ ws) :
    v ∈ unlabelled ws := by
  unfold unlabelled
  split_ifs with hlabel
  · obtain ⟨rest, rfl⟩ := hlabel.1
    exact (List.mem_append.mp h).resolve_left hv
  · exact h

theorem startsWithLabel_iff {ws : List String} (hws : ws ⊆ shownWords) :
    startsWithLabel (String.intercalate " " ws) = true ↔ Labelled ws := by
  have hlabel : String.intercalate " " ["ID", ":"] = "ID :" := rfl
  have hblank : ∀ w ∈ ws, w ≠ "" ∧ ' ' ∉ w.toList := fun w hw => shownWords_ne_empty w (hws hw)
  have hprefix : "ID :".toList <+: (String.intercalate " " ws).toList ↔ ["ID", ":"] <+: ws := by
    cases ws with
    | nil => decide
    | cons w ws =>
      have hspaced : spaced ["ID", ":"] <+: spaced (w :: ws) ↔ ["ID", ":"] <+: w :: ws :=
        spaced_prefix_iff (by decide) (fun v hv => (hblank v hv).2)
          (fun p hp v hv => shownWords_pair p (by revert p; decide) v (hws hv))
      rw [← hspaced, spaced_eq_cons (by simp), spaced_eq_cons (by simp), List.cons_prefix_cons, hlabel]
      simp
  have halone : String.intercalate " " ws = "ID :" ↔ ws = ["ID", ":"] := by
    rw [← hlabel]
    exact ⟨intercalate_inj hblank (by decide), congrArg _⟩
  unfold startsWithLabel Labelled
  rw [Bool.and_eq_true, bne_iff_ne, List.isPrefixOf_iff_prefix, hprefix, ne_eq, halone, and_comm]
  refine and_congr_right fun ⟨rest, hrest⟩ => ?_
  rw [← hrest]
  cases rest <;> simp

section

variable {ls : List Lexeme} (hls : ∀ l ∈ ls, l.Valid)
include hls

theorem classify_template :
    (classify ls).template = String.intercalate " " (unlabelled (mergePairs (shownAs ls))) := by
  have hws := mergePairs_shownAs_subset hls
  have heq := template_eq_words hls
  have hlabel := startsWithLabel_iff hws
  rw [← heq] at hlabel
  unfold unlabelled
  by_cases h : Labelled (mergePairs (shownAs ls))
  · rw [if_pos h, classify_of_startsWithLabel (hlabel.mpr h), heq]
    obtain ⟨rest, hrest⟩ := h.1
    rw [← hrest] at hws ⊢
    change String.ofList (trimWhite ((String.intercalate " " ("ID" :: ":" :: rest)).toList.drop 4)) =
      String.intercalate " " rest
    have hdrop : (String.intercalate " " ("ID" :: ":" :: rest)).toList.drop 4 = spaced rest := by
      rw [toList_intercalate_cons]
      rfl
    rw [hdrop, trimWhite_spaced fun w hw => hws (by simp [hw]), String.ofList_toList]
  · rw [if_neg h, classify_of_not_startsWithLabel (mt hlabel.mp h), heq]

theorem classify_operands :
    (classify ls).operands =
      if Labelled (mergePairs (shownAs ls)) then ls.drop 2 else ls := by
  have hlabel := startsWithLabel_iff (mergePairs_shownAs_subset hls)
  rw [← template_eq_words hls] at hlabel
  split_ifs with h
  · rw [classify_of_startsWithLabel (hlabel.mpr h)]
  · rw [classify_of_not_startsWithLabel (mt hlabel.mp h)]

/-- The form of a line without invalid lexemes is the one with its words. -/
theorem form?_eq_some_iff {f : Form} :
    (classify ls).form? = some f ↔ unlabelled (mergePairs (shownAs ls)) = f.words := by
  have hwords : ∀ w ∈ f.words, w ≠ "" ∧ ' ' ∉ w.toList := fun w hw =>
    shownWords_ne_empty w (f.words_subset hw)
  have hws : ∀ w ∈ unlabelled (mergePairs (shownAs ls)), w ≠ "" ∧ ' ' ∉ w.toList := by
    intro w hw
    refine shownWords_ne_empty w (mergePairs_shownAs_subset hls ?_)
    unfold unlabelled at hw
    split_ifs at hw
    · exact List.mem_of_mem_drop hw
    · exact hw
  unfold Classified.form?
  rw [Form.ofTemplate?_eq_some_iff, classify_template hls, f.pattern_eq_words]
  exact ⟨intercalate_inj hws hwords, congrArg _⟩

end

/-- No pair is left out of a line of a form but `ASSUME`. -/
theorem mergePairs_eq_of_form {ws : List String} {f : Form} (hf : f ≠ .assume)
    (h : unlabelled (mergePairs ws) = f.words) : mergePairs ws = ws := by
  refine mergePairs_eq_self fun hmem => Form.assume_not_mem_words hf ?_
  rw [← h]
  exact mem_unlabelled (by decide) hmem

/-- Behind its label, a line of a form but `ASSUME` has one lexeme for each word of the form. -/
theorem operands_shown {ls : List Lexeme} (hs : ∀ l ∈ ls, l.Scanned) {f : Form}
    (h : (classify ls).form? = some f) (hf : f ≠ .assume) :
    List.Forall₂ Lexeme.Shown (classify ls).operands f.words := by
  have hvalid := valid_of_form? hs h
  have hwords := (form?_eq_some_iff hvalid).mp h
  have hsame := mergePairs_eq_of_form hf hwords
  have hshown := (forall₂_shown hvalid).2
  rw [hsame] at hwords
  rw [classify_operands hvalid, hsame, ← hwords, unlabelled]
  split_ifs
  · exact List.forall₂_drop 2 hshown
  · exact hshown

theorem operands_suffix (ls : List Lexeme) : (classify ls).operands <:+ ls := by
  by_cases h : startsWithLabel (template ls)
  · rw [classify_of_startsWithLabel h]
    exact List.drop_suffix 2 ls
  · rw [classify_of_not_startsWithLabel h]

end SegAsm
