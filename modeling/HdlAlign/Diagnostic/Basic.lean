import HdlAlign.Source.Span

namespace HdlAlign

/-- The importance of a diagnostic; levels above that of errors have no name. -/
structure Severity where
  level : UInt8
  deriving DecidableEq

namespace Severity

def info : Severity := ⟨0⟩

def warning : Severity := ⟨1⟩

def error : Severity := ⟨2⟩

def name (severity : Severity) : Text :=
  if severity = info then "INFO"
  else if severity = warning then "WARNING"
  else if severity = error then "ERROR"
  else "UNKNOWN"

def atLeast (severity least : Severity) : Bool := least.level ≤ severity.level

end Severity

structure Code where
  number : UInt16
  deriving DecidableEq

namespace Code

def unknown : Code := ⟨0⟩

def formatInfo : Code := ⟨1000⟩

def verbatimLine : Code := ⟨1001⟩

def rangeDimensions : Code := ⟨1002⟩

def notIdempotent : Code := ⟨1003⟩

def noAlignedLines : Code := ⟨1004⟩

def wouldChange : Code := ⟨1005⟩

def loadError : Code := ⟨4001⟩

def writeError : Code := ⟨4002⟩

def cacheError : Code := ⟨4003⟩

def badSettings : Code := ⟨5001⟩

def badRange : Code := ⟨5002⟩

def timings : Code := ⟨6001⟩

/-- The letters of the thousand that a number belongs to. -/
def family? (code : Code) : Option Text :=
  match code.number.toNat / 1000 with
  | 1 => some "FMT"
  | 4 => some "IO"
  | 5 => some "CFG"
  | 6 => some "OBS"
  | _ => none

def id (code : Code) : Text :=
  match code.family? with
  | some family => family ++ Text.fillLeft 0x30 4 (Text.decimal code.number.toNat)
  | none => "E0000"

def title (code : Code) : Text :=
  match code.number.toNat with
  | 1000 => "Formatter information"
  | 1001 => "Line left untouched"
  | 1002 => "Bracket group counts differ in block"
  | 1003 => "Second formatting pass changed the output"
  | 1004 => "Nothing to align in block"
  | 1005 => "Block is not aligned"
  | 4000 => "I/O information"
  | 4001 => "I/O load file error"
  | 4002 => "I/O write file error"
  | 4003 => "Format cache error"
  | 5000 => "Configuration information"
  | 5001 => "Invalid configuration"
  | 5002 => "Invalid line range"
  | 6000 => "Observability information"
  | 6001 => "Pipeline timings"
  | _ => "Unknown error"

def toText (code : Code) : Text := "[" ++ code.id ++ "]: " ++ code.title

end Code

structure Note where
  span : Span
  message : Text
  deriving DecidableEq

structure Edit where
  span : Span
  text : Text
  deriving DecidableEq

structure Fix where
  title : Text
  edits : List Edit
  deriving DecidableEq

structure Diagnostic where
  severity : Severity
  code : Code
  message : Text
  span : Span
  notes : List Note := []
  fixes : List Fix := []
  deriving DecidableEq

namespace Diagnostic

def error (code : Code) (span : Span) (message : Text) : Diagnostic :=
  { severity := .error, code, span, message }

def withNote (d : Diagnostic) (span : Span) (message : Text) : Diagnostic :=
  { d with notes := d.notes ++ [⟨span, message⟩] }

def withFix (d : Diagnostic) (title : Text) (edits : List Edit) : Diagnostic :=
  { d with fixes := d.fixes ++ [⟨title, edits⟩] }

end Diagnostic

end HdlAlign
