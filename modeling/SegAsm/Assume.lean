import SegAsm.Lexeme
import SegAsm.Register
import SegAsm.Symbol

/-! The segments that the segment registers are assumed to address. -/
namespace SegAsm

/-- A segment name for each segment register. -/
structure AssumeTable where
  es : String := noSegment
  cs : String := noSegment
  ss : String := noSegment
  ds : String := noSegment
  fs : String := noSegment
  gs : String := noSegment
deriving DecidableEq, Repr, Inhabited

namespace AssumeTable

def get (t : AssumeTable) : SegmentRegister → String
  | .es => t.es
  | .cs => t.cs
  | .ss => t.ss
  | .ds => t.ds
  | .fs => t.fs
  | .gs => t.gs

def set (t : AssumeTable) (r : SegmentRegister) (name : String) : AssumeTable :=
  match r with
  | .es => { t with es := name }
  | .cs => { t with cs := name }
  | .ss => { t with ss := name }
  | .ds => { t with ds := name }
  | .fs => { t with fs := name }
  | .gs => { t with gs := name }

def names (t : AssumeTable) : List String :=
  SegmentRegister.all.map t.get

/-- Reads on with the last register and name seen; a comma and the end of the list store them. -/
def assumeFrom (t : AssumeTable) (r : SegmentRegister) (name : String) :
    List Lexeme → AssumeTable
  | [] => t.set r name
  | l :: ls =>
    if l.kind = .segmentRegister then assumeFrom t (.ofOperand l.text) name ls
    else if l.kind = .identifier then assumeFrom t r (Text.upperString l.text) ls
    else if l.text = "," then assumeFrom (t.set r name) r name ls
    else assumeFrom t r name ls

/-- Applies the pairs behind an `ASSUME`. -/
def assume (t : AssumeTable) (ls : List Lexeme) : AssumeTable :=
  assumeFrom t .es noSegment ls

/-- The first register that is assumed to address the segment. -/
def holding? (t : AssumeTable) (segment : String) : Option SegmentRegister :=
  SegmentRegister.all.find? fun r => Text.sameFold (t.get r) segment

end AssumeTable

end SegAsm
