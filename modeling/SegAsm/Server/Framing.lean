import SegAsm.Json.Print
import SegAsm.Lexeme.Constant
import SegAsm.Text.Blank

/-! Messages on a byte stream: header lines, an empty line, and the text of the message. -/
namespace SegAsm.Server

/-- A message with its header. -/
def frame (j : Json) : String :=
  let body := j.render
  "Content-Length: " ++ Text.decimal body.utf8ByteSize ++ "\r\n\r\n" ++ body

def lengthField : String := "Content-Length:"

/-- The length that a header line gives. -/
def contentLength? (line : String) : Option Nat :=
  if lengthField.toList.isPrefixOf line.toList then
    numeral? 10 (Text.trimWhite (line.toList.drop lengthField.length))
  else none

end SegAsm.Server
