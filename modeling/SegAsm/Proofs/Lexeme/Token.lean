import SegAsm.Form
import SegAsm.Proofs.Text.Fold

/-! The tokens of scanned lexemes: a lexeme that is not invalid has one of finitely many. -/
namespace SegAsm

namespace LexemeKind

theorem accepts_ofWord (w : List Char) : (ofWord w).accepts w = true := by
  unfold ofWord
  cases h : all.find? (·.accepts w) with
  | none => rfl
  | some k => simpa using List.find?_some h

/-- The words whose token is their upper case. -/
def keywords : List String :=
  mnemonicWords ++ directiveWords ++ dataWords

theorem upperString_of_fold {text x : String} (hx : x ∈ keywords)
    (h : x.toList = text.toList.map Text.fold) :
    Text.upperString text = String.ofList (x.toList.map Char.toUpper) := by
  have hletters : ∀ x ∈ keywords, x.toList.all fun c => c.toNat < 128 && c != 'k' := by decide
  unfold Text.upperString
  rw [h, List.map_map]
  congr 1
  refine List.map_congr_left fun c hc => ?_
  have hletter := List.all_eq_true.mp (hletters x hx) _ (h ▸ List.mem_map_of_mem hc)
  simp only [Bool.and_eq_true, decide_eq_true_eq, bne_iff_ne] at hletter
  refine Text.upper_of_fold hletter.1 fun hkelvin => hletter.2 ?_
  rw [hkelvin]
  decide

/-- The characters of identifiers. -/
theorem isWordChar_of_identifier {word : List Char} (h : ofWord word = .identifier) {c : Char}
    (hc : c ∈ word) : isWordChar (Text.fold c) := by
  have haccepts := accepts_ofWord word
  rw [h] at haccepts
  have hall : ∀ d ∈ word.map Text.fold, isWordChar d := by
    change isIdentifierWord (word.map Text.fold) = true at haccepts
    generalize word.map Text.fold = folded at haccepts
    cases folded with
    | nil => exact fun d hd => absurd hd List.not_mem_nil
    | cons d ds =>
      simp only [isIdentifierWord, Bool.and_eq_true, List.all_eq_true] at haccepts
      rw [List.forall_mem_cons]
      refine ⟨?_, haccepts.2⟩
      simp [isWordChar, haccepts.1.1]
  exact hall _ (List.mem_map_of_mem hc)

end LexemeKind

namespace Lexeme

/-- What the scanner promises of each lexeme. -/
structure Scanned (l : Lexeme) : Prop where
  kind_eq : l.kind = .ofWord l.text.toList
  ne_nil : l.text.toList ≠ []

theorem Scanned.accepts {l : Lexeme} (h : l.Scanned) : l.kind.accepts l.text.toList = true := by
  rw [h.kind_eq]
  exact LexemeKind.accepts_ofWord _

theorem ofWord_singleSymbol {c : Char} (h : isSingleSymbol c) :
    LexemeKind.ofWord [c] = .symbol := by
  simp only [isSingleSymbol, Bool.or_eq_true, beq_iff_eq] at h
  obtain ((rfl | rfl) | rfl) | rfl := h <;> decide

theorem scanned_of_mem_scanFrom {offset : Nat} {cs : List Char} {l : Lexeme}
    (h : l ∈ scanFrom offset cs) : l.Scanned := by
  fun_induction scanFrom offset cs with
  | case1 => simp at h
  | case2 offset c cs hs ih => exact ih h
  | case3 offset c cs _ hsym ih =>
    rcases List.mem_cons.mp h with rfl | h
    · refine ⟨?_, by simp⟩
      rw [String.toList_singleton]
      exact (ofWord_singleSymbol hsym).symm
    · exact ih h
  | case4 offset c cs _ _ word ih =>
    rcases List.mem_cons.mp h with rfl | h
    · exact ⟨by simp, by simp [word]⟩
    · exact ih h

theorem scanned_of_mem_lexemes {line : String} : ∀ l ∈ lexemes line, l.Scanned :=
  fun _ h => scanned_of_mem_scanFrom h

theorem token_keyword {l : Lexeme} {words : List String} (hsub : words ⊆ LexemeKind.keywords)
    (h : words.any (·.toList == l.text.toList.map Text.fold)) :
    Text.upperString l.text ∈ words.map fun x => String.ofList (x.toList.map Char.toUpper) := by
  obtain ⟨x, hx, heq⟩ := List.any_eq_true.mp h
  rw [LexemeKind.upperString_of_fold (hsub hx) (by simpa using heq)]
  exact List.mem_map_of_mem hx

theorem registerToken_mem (r : Register) : registerToken r ∈ ["r8", "r16a", "r16", "r32"] := by
  cases r <;> decide

theorem symbolWord_mem {text : String} (h : LexemeKind.isSymbolWord text.toList) :
    text ∈ [".", ",", ":", "[", "]"] := by
  simp only [LexemeKind.isSymbolWord, Bool.or_eq_true, beq_iff_eq] at h
  rcases h with (((h | h) | h) | h) | h <;>
    rw [← String.ofList_toList (s := text), h] <;> decide

end Lexeme

/-- The tokens that the lexemes of a kind can have. -/
def LexemeKind.tokens : LexemeKind → List String
  | .mnemonic => ["CLI", "INC", "DEC", "ADD", "CMP", "XOR", "MOV", "OR", "JB", "JMP"]
  | .directive => ["SEGMENT", "ENDS", "END", "ASSUME"]
  | .generalRegister => ["r8", "r16a", "r16", "r32"]
  | .segmentRegister => ["rS"]
  | .dataDirective => ["DB", "DW", "DD"]
  | .binary | .decimal | .hexadecimal => ["CONST"]
  | .quoted => ["C_STR"]
  | .symbol => [".", ",", ":", "[", "]"]
  | .identifier => ["ID"]
  | .invalid => []

def LexemeKind.allTokens : List String :=
  all.flatMap tokens

theorem LexemeKind.tokens_subset (k : LexemeKind) : k.tokens ⊆ allTokens := by
  cases k <;> decide

/-- A lexeme that the scanner could make sense of. -/
structure Lexeme.Valid (l : Lexeme) : Prop extends Lexeme.Scanned l where
  ne_invalid : l.kind ≠ .invalid

theorem Lexeme.Valid.token_mem {l : Lexeme} (h : l.Valid) : l.token ∈ l.kind.tokens := by
  have ha := h.accepts
  unfold token
  cases hkind : l.kind with
  | mnemonic =>
    rw [hkind] at ha
    have hupper := token_keyword (by simp [LexemeKind.keywords]) ha
    exact hupper
  | directive =>
    rw [hkind] at ha
    have hupper := token_keyword (by simp [LexemeKind.keywords]) ha
    exact hupper
  | dataDirective =>
    rw [hkind] at ha
    have hupper := token_keyword (by simp [LexemeKind.keywords]) ha
    exact hupper
  | generalRegister => exact registerToken_mem _
  | symbol =>
    rw [hkind] at ha
    exact symbolWord_mem ha
  | invalid => exact absurd hkind h.ne_invalid
  | segmentRegister | binary | decimal | hexadecimal | quoted | identifier =>
    simp [LexemeKind.tokens]

theorem Lexeme.Valid.token_mem_allTokens {l : Lexeme} (h : l.Valid) :
    l.token ∈ LexemeKind.allTokens :=
  LexemeKind.tokens_subset _ h.token_mem

end SegAsm
