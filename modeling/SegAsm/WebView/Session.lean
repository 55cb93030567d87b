import SegAsm.Files
import SegAsm.Json.Parse
import SegAsm.Json.Print
import SegAsm.Json.Read
import SegAsm.Listing.Render

/-! A page that shows the listing of a source file: what is answered to its messages. -/
namespace SegAsm.WebView

structure Request where
  type : String := ""
  text : String := ""
deriving DecidableEq, Repr, Inhabited

open Json (Reader) in
def Request.reader : Reader Request :=
  .record [
    ("type", .field type (fun r v => { r with type := v }) .string),
    ("text", .field text (fun r v => { r with text := v }) .string)]

/-- The listing of a text as a message. -/
def listingMessage (o : Listing.Options) (text : String) : Json :=
  let p := assemble text
  .object [("type", .string "listing"),
    ("text", .string (String.intercalate "\n" (Listing.render o p))),
    ("errors", .ofNat p.errorCount)]

def consoleMessage (text : String) : Json :=
  .object [("type", .string "console"), ("text", .string text)]

/-- What the view shows. -/
structure View where
  sourcePath : String
  options : Listing.Options := {}
deriving DecidableEq, Repr

/-- The answer to a text from the page, or nothing if the connection ends. -/
def View.answer? {m : Type → Type} [Monad m] (v : View) (fs : FileAccess m) (message : String) :
    m (Option (List Json)) := do
  match (Json.parse? message).bind (Request.reader {}) with
  | none => return none
  | some r =>
    match r.type with
    | "run" =>
      match ← fs.read v.sourcePath with
      | .ok text => return some [listingMessage v.options text]
      | .error f =>
        return some [consoleMessage ("could not read " ++ v.sourcePath ++ ": " ++ f.message)]
    | "assemble" => return some [listingMessage v.options r.text]
    | _ => return some []

end SegAsm.WebView
