import Mathlib.Data.List.Basic
import SegAsm.Proofs.Text.Words
import SegAsm.Text.Lines
import SegAsm.Text.Number

/-! The lines of a text. Lines that hold no line feed can be joined and split again, and where CRLF is
turned into LF each line loses its carriage return. -/
namespace SegAsm.Text

theorem of_mem_splitOn {d : Char} {cs part : List Char} (h : part ∈ cs.splitOn d) :
    part ⊆ cs ∧ d ∉ part := by
  induction cs generalizing part with
  | nil =>
    obtain rfl : part = [] := by simpa using h
    exact ⟨List.Subset.refl _, List.not_mem_nil⟩
  | cons c cs ih =>
    rw [List.splitOn_cons_eq_if_modifyHead] at h
    split_ifs at h with hc
    · obtain rfl | hrest := List.mem_cons.mp h
      · exact ⟨List.nil_subset _, List.not_mem_nil⟩
      · exact ⟨List.subset_cons_of_subset c (ih hrest).1, (ih hrest).2⟩
    · obtain ⟨first, rest, hsplit⟩ := List.exists_cons_of_ne_nil (List.splitOn_ne_nil d cs)
      rw [hsplit, List.modifyHead_cons] at h
      rw [hsplit] at ih
      obtain rfl | hrest := List.mem_cons.mp h
      · obtain ⟨hsub, hd⟩ := ih List.mem_cons_self
        refine ⟨List.cons_subset_cons c hsub, fun hmem => ?_⟩
        obtain rfl | hmem := List.mem_cons.mp hmem
        · exact hc (beq_self_eq_true d)
        · exact hd hmem
      · obtain ⟨hsub, hd⟩ := ih (List.mem_cons_of_mem first hrest)
        exact ⟨List.subset_cons_of_subset c hsub, hd⟩

theorem of_mem_pieces {source piece : String} (h : piece ∈ pieces source) :
    piece.toList ⊆ source.toList ∧ '\n' ∉ piece.toList := by
  obtain ⟨part, hpart, rfl⟩ := List.mem_map.mp h
  rw [String.toList_ofList]
  exact of_mem_splitOn hpart

/-- A text without line feeds. -/
def OneLine (s : String) : Prop :=
  '\n' ∉ s.toList

instance (s : String) : Decidable (OneLine s) :=
  inferInstanceAs (Decidable (_ ∉ _))

theorem OneLine.append {s t : String} (hs : OneLine s) (ht : OneLine t) : OneLine (s ++ t) := by
  unfold OneLine
  rw [String.toList_append, List.mem_append]
  exact not_or.mpr ⟨hs, ht⟩

theorem OneLine.padRight {s : String} (h : OneLine s) (width : Nat) :
    OneLine (padRight width s) := by
  unfold OneLine Text.padRight
  rw [String.toList_ofList, List.mem_append, List.mem_replicate]
  exact not_or.mpr ⟨h, fun hblank => absurd hblank.2 (by decide)⟩

theorem OneLine.padLeft {s : String} (h : OneLine s) (fill : Char) (hfill : fill ≠ '\n')
    (width : Nat) : OneLine (padLeft fill width s) := by
  unfold OneLine Text.padLeft
  rw [String.toList_ofList, List.mem_append, List.mem_replicate]
  exact not_or.mpr ⟨fun hmem => hfill hmem.2.symm, h⟩

theorem OneLine.intercalate {glue : String} (hglue : OneLine glue) {ss : List String}
    (h : ∀ s ∈ ss, OneLine s) : OneLine (String.intercalate glue ss) := by
  match ss with
  | [] =>
    rw [String.intercalate_nil]
    decide
  | [s] =>
    rw [String.intercalate_singleton]
    exact h s (List.mem_singleton_self s)
  | s :: t :: ss =>
    obtain ⟨hs, hrest⟩ := List.forall_mem_cons.mp h
    rw [String.intercalate_cons_cons]
    exact (hs.append hglue).append (hglue.intercalate hrest)

theorem pieces_joined {lines : List String} (h : ∀ line ∈ lines, OneLine line) (hne : lines ≠ []) :
    pieces (String.intercalate "\n" lines) = lines := by
  have hfeed : "\n".toList = ['\n'] := rfl
  have hparts : ∀ part ∈ lines.map String.toList, '\n' ∉ part := by
    intro part hpart
    obtain ⟨line, hline, rfl⟩ := List.mem_map.mp hpart
    exact h line hline
  unfold pieces
  rw [String.toList_intercalate, hfeed, List.splitOn_intercalate '\n' hparts (by simpa using hne),
    List.map_map]
  simp [Function.comp_def]

theorem unlines_eq (lines : List String) :
    unlines lines = String.intercalate "\n" (lines ++ [""]) := by
  unfold unlines
  induction lines with
  | nil => rfl
  | cons line lines ih =>
    rw [List.cons_append, String.intercalate_cons_of_ne_nil (by simp), ← ih, List.map_cons,
      String.join_cons]

theorem prefix_dropReturn (cs : List Char) : dropReturn cs <+: cs := by
  unfold dropReturn
  split_ifs
  · exact List.dropLast_prefix cs
  · exact List.prefix_rfl

theorem dropReturn_cons {c : Char} {cs : List Char} (h : cs = [] → c ≠ '\r') :
    dropReturn (c :: cs) = c :: dropReturn cs := by
  cases cs with
  | nil => simp [dropReturn, h rfl]
  | cons d ds =>
    unfold dropReturn
    rw [List.getLast?_cons_cons]
    split_ifs <;> simp

/-- A line without the carriage return that ends it. -/
def chomp (line : String) : String :=
  String.ofList (dropReturn line.toList)

/-- The lines of a source are its pieces, but for an empty one at the end. -/
theorem map_chomp_pieces (source : String) :
    (pieces source).map chomp = splitLines source ∨
      (pieces source).map chomp = splitLines source ++ [""] := by
  have hchomp : chomp ∘ String.ofList = fun cs => String.ofList (dropReturn cs) := by
    funext cs
    rw [Function.comp_apply, chomp, String.toList_ofList]
  unfold pieces splitLines
  rw [List.map_map, hchomp]
  dsimp only
  split_ifs with hlast
  · obtain ⟨init, hinit⟩ := List.getLast?_eq_some_iff.mp hlast
    rw [hinit, List.dropLast_concat, List.map_append]
    exact .inr rfl
  · exact .inl rfl

theorem toList_chomp (line : String) : (chomp line).toList = dropReturn line.toList := by
  rw [chomp, String.toList_ofList]

theorem OneLine.chomp {line : String} (h : OneLine line) : OneLine (chomp line) := by
  unfold OneLine
  rw [toList_chomp]
  exact fun hmem => h ((prefix_dropReturn _).subset hmem)

theorem oneLine_of_mem_splitLines {source line : String} (h : line ∈ splitLines source) :
    OneLine line := by
  obtain ⟨part, hpart, rfl⟩ := List.mem_map.mp h
  have hmem : part ∈ source.toList.splitOn '\n' := by
    split_ifs at hpart
    · exact List.dropLast_subset _ hpart
    · exact hpart
  unfold OneLine
  rw [String.toList_ofList]
  exact fun hfeed => (of_mem_splitOn hmem).2 ((prefix_dropReturn part).subset hfeed)

/-- A line end of both characters becomes one of the line feed alone. -/
theorem replaceAny_line {cs : List Char} (h : '\n' ∉ cs) (rest : List Char) :
    replaceAny ["\r\n"] "\n" (cs ++ '\n' :: rest) =
      dropReturn cs ++ '\n' :: replaceAny ["\r\n"] "\n" rest := by
  induction cs with
  | nil =>
    apply replaceAny_keep
    simp
  | cons c cs ih =>
    have hcs : '\n' ∉ cs := fun hmem => h (List.mem_cons_of_mem c hmem)
    by_cases hend : cs = [] ∧ c = '\r'
    · obtain ⟨rfl, rfl⟩ := hend
      have hfound : ["\r\n"].find? (fun p => p.toList.isPrefixOf ("\r\n".toList ++ rest)) =
          some "\r\n" := by
        simp
      exact replaceAny_found_append (by decide) hfound
    · have hkeep : ∀ p ∈ ["\r\n"], ¬ p.toList <+: c :: (cs ++ '\n' :: rest) := by
        have hpattern : "\r\n".toList = ['\r', '\n'] := rfl
        rw [List.forall_mem_singleton, hpattern]
        intro hpre
        obtain ⟨hreturn, hfeed⟩ := List.cons_prefix_cons.mp hpre
        cases cs with
        | nil => exact hend ⟨rfl, hreturn.symm⟩
        | cons d ds =>
          rw [← (List.cons_prefix_cons.mp hfeed).1] at hcs
          exact hcs List.mem_cons_self
      rw [List.cons_append, replaceAny_keep hkeep, ih hcs,
        dropReturn_cons fun hnil hreturn => hend ⟨hnil, hreturn⟩, List.cons_append]

theorem replaceAny_of_oneLine {cs : List Char} (h : '\n' ∉ cs) :
    replaceAny ["\r\n"] "\n" cs = cs := by
  induction cs with
  | nil => rfl
  | cons c cs ih =>
    have hkeep : ∀ p ∈ ["\r\n"], ¬ p.toList <+: c :: cs := by
      rw [List.forall_mem_singleton]
      exact fun hpre => h (hpre.subset (by decide))
    rw [replaceAny_keep hkeep, ih fun hmem => h (List.mem_cons_of_mem c hmem)]

/-- Of lines that are joined, all but the last have a line end to lose a carriage return at. -/
theorem replaceAny_joined {lines : List String} {last : String} (hlines : ∀ line ∈ lines, OneLine line)
    (hlast : OneLine last) :
    replaceAny ["\r\n"] "\n" (String.intercalate "\n" (lines ++ [last])).toList =
      (String.intercalate "\n" (lines.map chomp ++ [last])).toList := by
  have hfeed : "\n".toList = ['\n'] := rfl
  induction lines with
  | nil => simpa using replaceAny_of_oneLine hlast
  | cons line lines ih =>
    obtain ⟨hline, hrest⟩ := List.forall_mem_cons.mp hlines
    rw [List.map_cons, List.cons_append, List.cons_append,
      String.intercalate_cons_of_ne_nil (by simp), String.intercalate_cons_of_ne_nil (by simp)]
    simp only [String.toList_append, hfeed, List.append_assoc, List.singleton_append,
      replaceAny_line hline, ih hrest, toList_chomp]

theorem isPrefixOf_of_head {mark line : String} {c : Char} (hmark : mark.toList.head? = some c)
    (h : line.toList.head? ≠ some c) : mark.toList.isPrefixOf line.toList = false := by
  rw [Bool.eq_false_iff, ne_eq, List.isPrefixOf_iff_prefix]
  rintro ⟨rest, hrest⟩
  apply h
  rw [← hrest, List.head?_append, hmark, Option.some_or]

end SegAsm.Text
