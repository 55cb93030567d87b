import SegAsm.CommandLine
import SegAsm.Server.Framing
import SegAsm.Server.Session
import Std.Time

/-! The program: it runs a command on real files, and serves editors on its standard streams. -/
namespace SegAsm.CommandLine

/-- Why the system refused a step. -/
def causeOf : IO.Error → FileCause
  | .noFileOrDirectory .. => .missing
  | .inappropriateType .. => .notDirectory
  | e => .other e.toString

/-- Does a step, and keeps the cause if it fails. -/
def attempt {α : Type} (step path : String) (action : IO α) : IO (Except FileFailure α) := do
  try
    return .ok (← action)
  catch e =>
    return .error ⟨step, path, causeOf e⟩

def readReal (path : String) : IO (Except FileFailure String) := do
  if ← ((← IO.currentDir) / path).isDir then
    return .error ⟨"read", path, .isDirectory⟩
  attempt "open" path (IO.FS.readFile path)

def writeReal (path content : String) : IO (Except FileFailure Unit) := do
  if ← ((← IO.currentDir) / path).isDir then
    return .error ⟨"open", path, .isDirectory⟩
  attempt "open" path (IO.FS.writeFile path content)

/-- The files of the system. -/
def realFiles : FileAccess IO where
  read := readReal
  write := writeReal
  isThere path := do ((← IO.currentDir) / path).pathExists
  makeDirectory path := attempt "mkdir" path (IO.FS.createDirAll path)

/-- The local time. -/
def currentMoment : IO Listing.Moment := do
  let t ← Std.Time.PlainDateTime.now
  return ⟨t.year.toInt.toNat, t.month.toNat, t.day.toNat, t.hour.toNat, t.minute.toNat,
    t.second.toNat⟩

/-- Reads the header of a message; nothing if the input ends in it. -/
partial def readHeader (input : IO.FS.Stream) (length : Nat) : IO (Option Nat) := do
  let line ← input.getLine
  if line.isEmpty then return none
  if (Text.trimWhite line.toList).isEmpty then return some length
  readHeader input ((Server.contentLength? line).getD length)

partial def readBytes (input : IO.FS.Stream) (count : Nat) (done : ByteArray) : IO ByteArray := do
  if count ≤ done.size then return done
  let next ← input.read (USize.ofNat (count - done.size))
  if next.isEmpty then return done
  readBytes input count (done ++ next)

/-- Answers messages until the connection ends. -/
partial def serve (input output : IO.FS.Stream) (s : Server.Session) : IO Unit := do
  match ← readHeader input 0 with
  | none => return
  | some length =>
    let bytes ← readBytes input length .empty
    match (String.fromUTF8? bytes).bind Json.parse? with
    | none => return
    | some message =>
      let (s', replies) := s.receive message
      for reply in replies do
        output.putStr (Server.frame reply)
      output.flush
      if s'.closed then return
      serve input output s'

end SegAsm.CommandLine

open SegAsm SegAsm.CommandLine in
def main (arguments : List String) : IO UInt32 := do
  let ending ← execute realFiles (some (← currentMoment)) arguments
  IO.print ending.output.stdout
  IO.eprint ending.output.stderr
  match ending.service with
  | .none => return UInt32.ofNat ending.exitCode
  | .languageServer =>
    serve (← IO.getStdin) (← IO.getStdout) {}
    return 0
  | .languageServerAt address | .webView _ address _ =>
    IO.eprintln s!"Serving on {address} is not supported"
    return 1
