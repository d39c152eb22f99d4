import HdlAlign.Text.Basic

namespace HdlAlign

/-- A file's number; 0 stands for no file. -/
abbrev FileId := UInt32

/-- A range of byte offsets in a file, without its end. -/
structure Span where
  file : FileId := 0
  start : UInt32 := 0
  stop : UInt32 := 0
  deriving DecidableEq

namespace Span

def isEmpty (span : Span) : Bool := span.start == span.stop

/-- The length, modulo the width of an offset. -/
def length (span : Span) : UInt32 := span.stop - span.start

def toText (span : Span) : Text :=
  Text.decimal span.file.toNat ++ ":" ++ Text.decimal span.start.toNat ++ "-" ++
    Text.decimal span.stop.toNat

/-- The smallest span that holds both; spans of different files are not joined. -/
def cover (span other : Span) : Span :=
  if span.file = other.file then
    { span with start := min span.start other.start, stop := max span.stop other.stop }
  else span

end Span

/-- A line and a column, both counted from 1. -/
structure Position where
  line : UInt32 := 0
  column : UInt32 := 0
  deriving DecidableEq

end HdlAlign
