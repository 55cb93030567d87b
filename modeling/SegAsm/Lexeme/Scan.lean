import SegAsm.Lexeme

/-! Splitting a source line into lexemes. -/
namespace SegAsm

/-- The six characters that only separate words. -/
def isSeparator (c : Char) : Bool :=
  c == ' ' || (9 ≤ c.toNat && c.toNat ≤ 13)

/-- The characters that are a lexeme of their own wherever they stand. -/
def isSingleSymbol (c : Char) : Bool :=
  c == ',' || c == ':' || c == '[' || c == ']'

/-- The characters that words are made of. -/
def isInsideWord (c : Char) : Bool :=
  !isSeparator c && !isSingleSymbol c

/-- What stands before the first semicolon of a line. -/
def codePart (line : String) : List Char :=
  line.toList.takeWhile (· ≠ ';')

/-- The first semicolon of a line and all that follows it. -/
def commentPart (line : String) : List Char :=
  line.toList.dropWhile (· ≠ ';')

def stripComment (line : String) : String :=
  String.ofList (codePart line)

/-- The number of bytes that the characters take in UTF-8. -/
def byteLength (cs : List Char) : Nat :=
  cs.foldl (fun n c => n + c.utf8Size) 0

/-- Reads lexemes from left to right; `offset` is the byte offset of the first character. A word
is as long as it can be. -/
def scanFrom (offset : Nat) : List Char → List Lexeme
  | [] => []
  | c :: cs =>
    if isSeparator c then scanFrom (offset + c.utf8Size) cs
    else if isSingleSymbol c then
      ⟨String.singleton c, .symbol, offset⟩ :: scanFrom (offset + c.utf8Size) cs
    else
      let word := c :: cs.takeWhile isInsideWord
      ⟨String.ofList word, .ofWord word, offset⟩ ::
        scanFrom (offset + byteLength word) (cs.dropWhile isInsideWord)
termination_by cs => cs.length
decreasing_by
  all_goals simp only [List.length_cons]
  · omega
  · omega
  · have := (List.dropWhile_sublist isInsideWord (l := cs)).length_le
    omega

/-- The lexemes of a source line; its comment holds none. -/
def lexemes (line : String) : List Lexeme :=
  scanFrom 0 (codePart line)

end SegAsm
