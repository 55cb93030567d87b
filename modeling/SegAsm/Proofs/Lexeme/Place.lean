import SegAsm.Lexeme.Scan

/-! Where lexemes stand: one behind the other, and inside the code of their line. -/
namespace SegAsm

/-- A comment is empty or starts with its semicolon. -/
theorem comment_cases (cs : List Char) :
    cs.dropWhile (· ≠ ';') = [] ∨ ∃ ds, cs.dropWhile (· ≠ ';') = ';' :: ds := by
  have hhead := List.head?_dropWhile_not (· ≠ ';') cs
  cases h : cs.dropWhile (· ≠ ';') with
  | nil => exact .inl rfl
  | cons d ds =>
    rw [h, List.head?_cons] at hhead
    obtain rfl : d = ';' := by simpa using hhead
    exact .inr ⟨ds, rfl⟩

theorem foldl_utf8Size (cs : List Char) (n : Nat) :
    cs.foldl (fun n c => n + c.utf8Size) n = n + byteLength cs := by
  unfold byteLength
  induction cs generalizing n with
  | nil => rfl
  | cons c cs ih =>
    rw [List.foldl_cons, List.foldl_cons, ih, ih (0 + c.utf8Size)]
    omega

@[simp] theorem byteLength_cons (c : Char) (cs : List Char) :
    byteLength (c :: cs) = c.utf8Size + byteLength cs := by
  rw [byteLength, List.foldl_cons, foldl_utf8Size, Nat.zero_add]

@[simp] theorem byteLength_append (cs ds : List Char) :
    byteLength (cs ++ ds) = byteLength cs + byteLength ds := by
  rw [byteLength, List.foldl_append, foldl_utf8Size]
  rfl

theorem utf8ByteSize_ofList (cs : List Char) : (String.ofList cs).utf8ByteSize = byteLength cs := by
  induction cs with
  | nil => rfl
  | cons c cs ih => rw [String.ofList_cons, String.utf8ByteSize_append, ih, byteLength_cons,
      String.utf8ByteSize_singleton]

theorem length_le_byteLength (cs : List Char) : cs.length ≤ byteLength cs := by
  induction cs with
  | nil => exact Nat.le_refl 0
  | cons c cs ih =>
    have hpos := c.utf8Size_pos
    rw [List.length_cons, byteLength_cons]
    omega

/-- The lexeme stands between two byte offsets. -/
def Lexeme.Between (first last : Nat) (l : Lexeme) : Prop :=
  first ≤ l.start ∧ l.stop ≤ last

theorem Lexeme.Between.mono {first first' last last' : Nat} {l : Lexeme} (h : l.Between first last)
    (hfirst : first' ≤ first) (hlast : last ≤ last') : l.Between first' last' :=
  ⟨Nat.le_trans hfirst h.1, Nat.le_trans h.2 hlast⟩

theorem between_of_mem_scanFrom {offset : Nat} {cs : List Char} {l : Lexeme}
    (h : l ∈ scanFrom offset cs) : l.Between offset (offset + byteLength cs) := by
  fun_induction scanFrom offset cs with
  | case1 => exact absurd h List.not_mem_nil
  | case2 offset c cs _ ih =>
    rw [byteLength_cons]
    exact (ih h).mono (by omega) (by omega)
  | case3 offset c cs _ _ ih =>
    rw [byteLength_cons]
    obtain rfl | h := List.mem_cons.mp h
    · refine ⟨Nat.le_refl _, ?_⟩
      simp only [Lexeme.stop, String.utf8ByteSize_singleton]
      omega
    · exact (ih h).mono (by omega) (by omega)
  | case4 offset c cs _ _ word ih =>
    have hsplit : byteLength word + byteLength (cs.dropWhile isInsideWord) =
        byteLength (c :: cs) := by
      rw [← byteLength_append, List.cons_append, List.takeWhile_append_dropWhile]
    rw [← hsplit]
    obtain rfl | h := List.mem_cons.mp h
    · refine ⟨Nat.le_refl _, ?_⟩
      simp only [Lexeme.stop, utf8ByteSize_ofList]
      omega
    · exact (ih h).mono (by omega) (by omega)

/-- A lexeme ends where or before the next one starts. -/
theorem pairwise_scanFrom (offset : Nat) (cs : List Char) :
    (scanFrom offset cs).Pairwise fun l l' => l.stop ≤ l'.start := by
  fun_induction scanFrom offset cs with
  | case1 => exact .nil
  | case2 offset c cs _ ih => exact ih
  | case3 offset c cs _ _ ih =>
    refine .cons (fun l hl => ?_) ih
    simp only [Lexeme.stop, String.utf8ByteSize_singleton]
    exact (between_of_mem_scanFrom hl).1
  | case4 offset c cs _ _ word ih =>
    refine .cons (fun l hl => ?_) ih
    simp only [Lexeme.stop, utf8ByteSize_ofList]
    exact (between_of_mem_scanFrom hl).1

theorem stop_le_of_mem_lexemes {text : String} {l : Lexeme} (h : l ∈ lexemes text) :
    l.stop ≤ byteLength (codePart text) := by
  have hbetween := between_of_mem_scanFrom h
  rw [Nat.zero_add] at hbetween
  exact hbetween.2

end SegAsm
