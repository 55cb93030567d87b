import SegAsm.Proofs.Text.Lines

/-! Lines with their ends. Whatever ends each line, LF or CRLF, a text is split into the lines that it was
written from. -/
namespace SegAsm.Text

/-- What can end a line: a line feed, perhaps with a carriage return in front. -/
inductive LineEnd where
  | feed
  | returnFeed
deriving DecidableEq, Repr

namespace LineEnd

def text : LineEnd → String
  | .feed => "\n"
  | .returnFeed => "\r\n"

/-- The characters between a line and its line feed. -/
def beforeFeed : LineEnd → List Char
  | .feed => []
  | .returnFeed => ['\r']

theorem toList_text (e : LineEnd) : e.text.toList = e.beforeFeed ++ ['\n'] := by
  cases e <;> rfl

end LineEnd

/-- The lines one behind the other, each with its end. -/
def terminated (ls : List (String × LineEnd)) : String :=
  String.join (ls.map fun p => p.1 ++ p.2.text)

/-- A line that shares no character with the end behind it. -/
structure IsLine (line : String) : Prop where
  oneLine : OneLine line
  getLast?_ne : line.toList.getLast? ≠ some '\r'

theorem terminated_concat (ls : List (String × LineEnd)) (p : String × LineEnd) :
    terminated (ls ++ [p]) = terminated ls ++ p.1 ++ p.2.text := by
  simp [terminated, String.join_append, String.append_assoc]

theorem IsLine.dropReturn {line : String} (h : IsLine line) :
    dropReturn line.toList = line.toList :=
  if_neg h.getLast?_ne

theorem IsLine.dropReturn_append {line : String} (h : IsLine line) (e : LineEnd) :
    Text.dropReturn (line.toList ++ e.beforeFeed) = line.toList := by
  cases e with
  | feed =>
    rw [LineEnd.beforeFeed, List.append_nil]
    exact h.dropReturn
  | returnFeed => simp [LineEnd.beforeFeed, Text.dropReturn]

/-- The first line is read off, and what follows its end is read as if it stood alone. -/
theorem IsLine.splitLines_append {line : String} (h : IsLine line) (e : LineEnd) (rest : String) :
    splitLines (line ++ e.text ++ rest) = line :: splitLines rest := by
  have hfeed : '\n' ∉ line.toList ++ e.beforeFeed := by
    rw [List.mem_append, not_or]
    exact ⟨h.oneLine, by cases e <;> decide⟩
  have hparts : (line ++ e.text ++ rest).toList.splitOn '\n' =
      (line.toList ++ e.beforeFeed) :: rest.toList.splitOn '\n' := by
    rw [← List.splitOn_append_cons_self_of_not_mem hfeed]
    simp [LineEnd.toList_text]
  -- There is always a part behind the first line end, so that the line is not the last part.
  obtain ⟨part, parts, hrest⟩ := List.exists_cons_of_ne_nil (List.splitOn_ne_nil '\n' rest.toList)
  unfold splitLines
  rw [hparts, hrest]
  dsimp only
  rw [List.getLast?_cons_cons, List.dropLast_cons_cons]
  split_ifs
  · rw [List.map_cons, h.dropReturn_append, String.ofList_toList]
  · rw [List.map_cons, h.dropReturn_append, String.ofList_toList]

theorem IsLine.splitLines_eq {line : String} (h : IsLine line) :
    splitLines line = if line = "" then [] else [line] := by
  unfold splitLines
  rw [List.splitOn_eq_singleton h.oneLine]
  dsimp only
  by_cases hempty : line = ""
  · simp [hempty]
  · have hlast : [line.toList].getLast? ≠ some [] := by simpa using hempty
    rw [if_neg hlast, if_neg hempty, List.map_singleton, h.dropReturn, String.ofList_toList]

theorem splitLines_terminated_append {ls : List (String × LineEnd)} (h : ∀ p ∈ ls, IsLine p.1)
    (rest : String) : splitLines (terminated ls ++ rest) = ls.map Prod.fst ++ splitLines rest := by
  induction ls with
  | nil => simp [terminated]
  | cons p ls ih =>
    obtain ⟨hp, hls⟩ := List.forall_mem_cons.mp h
    have hcons : terminated (p :: ls) = p.1 ++ p.2.text ++ terminated ls := by
      simp [terminated, String.join_cons]
    rw [hcons, String.append_assoc, hp.splitLines_append, ih hls, List.map_cons, List.cons_append]

/-- Lines that end in LF or CRLF, each as it likes, are split into just these lines. Without the last
line end the lines are the same, but for an empty line at the end, which is then not there. -/
theorem splitLines_of_line_ends (ls : List (String × LineEnd)) (h : ∀ p ∈ ls, IsLine p.1) :
    splitLines (terminated ls) = ls.map Prod.fst ∧
    ∀ init last e, ls = init ++ [(last, e)] →
      terminated ls = terminated init ++ last ++ e.text ∧
      splitLines (terminated init ++ last) =
        if last = "" then init.map Prod.fst else ls.map Prod.fst := by
  constructor
  · have hall := splitLines_terminated_append h ""
    rwa [String.append_empty, show splitLines "" = [] from rfl, List.append_nil] at hall
  · rintro init last e rfl
    obtain ⟨hinit, hlast⟩ := List.forall_mem_append.mp h
    have hline : IsLine last := hlast (last, e) (List.mem_singleton_self _)
    refine ⟨terminated_concat init (last, e), ?_⟩
    rw [splitLines_terminated_append hinit, hline.splitLines_eq]
    split_ifs
    · rw [List.append_nil]
    · rw [List.map_append, List.map_singleton]

/-- A carriage return inside a line is kept, and so is an empty line between others. -/
theorem splitLines_of_mixed_line_ends :
    let ls := [("a\rb", LineEnd.returnFeed), ("", .feed), ("c", .returnFeed), ("", .feed)]
    terminated ls = "a\rb\r\n\nc\r\n\n" ∧ (∀ p ∈ ls, IsLine p.1) ∧
      splitLines (terminated ls) = ["a\rb", "", "c", ""] ∧
      splitLines "a\rb\r\n\nc\r\n" = ["a\rb", "", "c"] := by
  intro ls
  have hls : ∀ p ∈ ls, IsLine p.1 := by
    simp only [ls, List.forall_mem_cons, List.not_mem_nil, false_implies, implies_true, and_true]
    exact ⟨⟨by decide, by decide⟩, ⟨by decide, by decide⟩, ⟨by decide, by decide⟩,
      ⟨by decide, by decide⟩⟩
  obtain ⟨hall, hshort⟩ := splitLines_of_line_ends ls hls
  obtain ⟨-, hlast⟩ :=
    hshort [("a\rb", .returnFeed), ("", .feed), ("c", .returnFeed)] "" .feed rfl
  exact ⟨by decide, hls, hall, hlast⟩

end SegAsm.Text
