import SegAsm.Layout
import SegAsm.Text.Bytes

/-! Sources of any bytes. A byte that belongs to no character is part of a word that is no name and no
number. A text constant emits it as it is, and laying out writes the replacement character for it. -/
namespace SegAsm.Raw

/-- Stands for a byte that belongs to no character: it takes one byte, too, and it is neither white
nor part of a name, of a number or of a symbol. -/
def mask : Char := '\x1a'

/-- What is written for a byte that belongs to no character. -/
def replacement : Char := '\ufffd'

/-- A source with a mask for each byte that belongs to no character; all offsets are kept. -/
def masked (source : List UInt8) : String :=
  String.ofList (Text.decode mask source)

/-- The record of a line from the one of the masked line: a text constant emits the bytes of the
line. -/
def unmask (line : List UInt8) (r : LineRecord) : LineRecord :=
  match (classify (lexemes r.text)).statement? with
  | some (.data _ _ value) =>
    if value.kind = .quoted && !r.code.isEmpty then
      { r with code := (line.extract (value.start + 1) (value.stop - 1)).map .byte }
    else r
  | _ => r

/-- Assembles a source. Texts of lines and of messages are shown with masks. -/
def assemble (source : List UInt8) : Program :=
  let p := SegAsm.assemble (masked source)
  let lines := source.splitOn 0x0a
  { p with
    lines := List.zipWith unmask lines p.lines
    firstPass := List.zipWith unmask lines p.firstPass }

/-- Lays out one line; its comment and a carriage return at its end are kept. -/
def layoutLine (column : Nat) (line : List UInt8) : List UInt8 :=
  let returns := line.getLast? = some 0x0d
  let bs := if returns then line.dropLast else line
  let code := Layout.collapse (Text.decode replacement (bs.takeWhile (· ≠ 0x3b)))
  let comment := bs.dropWhile (· ≠ 0x3b)
  let code := if code.isEmpty then [] else Layout.layoutCode column code
  let gap := if code.isEmpty || comment.isEmpty then [] else [0x20]
  Text.encode code ++ gap ++ comment ++ if returns then [0x0d] else []

/-- Lays out a whole source. -/
def reformat (source : List UInt8) : List UInt8 :=
  let column := Layout.column (assemble source)
  [0x0a].intercalate ((source.splitOn 0x0a).map (layoutLine column))

end SegAsm.Raw
