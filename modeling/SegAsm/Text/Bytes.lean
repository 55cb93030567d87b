/-! Texts as bytes. In bytes that are not UTF-8 some belong to no character. -/
namespace SegAsm.Text

/-- The bytes of a text in UTF-8. -/
def bytes (s : String) : List UInt8 :=
  s.toByteArray.data.toList

/-- The bytes of characters in UTF-8. -/
def encode (cs : List Char) : List UInt8 :=
  cs.flatMap String.utf8EncodeChar

/-- The character that the bytes start with, if they start with one. -/
def firstChar? (bs : List UInt8) : Option Char :=
  (bs.take 4).toByteArray.utf8DecodeChar? 0

/-- The characters of some bytes, with `stray` for each byte that belongs to none. -/
def decode (stray : Char) : List UInt8 → List Char
  | [] => []
  | b :: bs =>
    match firstChar? (b :: bs) with
    | some c => c :: decode stray (bs.drop (c.utf8Size - 1))
    | none => stray :: decode stray bs
termination_by bs => bs.length
decreasing_by
  all_goals simp only [List.length_cons, List.length_drop]
  all_goals omega

end SegAsm.Text
