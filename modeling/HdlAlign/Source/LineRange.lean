import HdlAlign.Text.Blank
import HdlAlign.Text.Numeral
import HdlAlign.Text.Quoted

namespace HdlAlign

/-- Lines counted from 1, both ends included.  An end of 0 stands for the last line, and the
zero range for the whole file. -/
structure LineRange where
  first : Int := 0
  last : Int := 0
  deriving DecidableEq

inductive RangeError where
  | notNumber (range part : Text) (fault : Numeral.Fault)
  | unordered (range : Text)
  | noSuchLine (range : LineRange) (lines : Nat)
  | inverted (range : LineRange)
  deriving DecidableEq

namespace LineRange

def isZero (range : LineRange) : Bool := range.first == 0 && range.last == 0

def toText (range : LineRange) : Text :=
  if range.isZero then ":"
  else if range.last = 0 then Text.decimalInt range.first ++ ":"
  else Text.decimalInt range.first ++ ":" ++ Text.decimalInt range.last

def cutColon (text : Text) : Text × Option Text :=
  match Text.breakOn? ":" text with
  | none => (text, none)
  | some (left, right) => (left, some (right.drop 1))

/-- Reads one end of a range, which has a default if it is left out. -/
def readEnd (whole part : Text) (default : Int) : Except RangeError Int :=
  if part.isEmpty then .ok default
  else match Numeral.integer (Text.trim part) with
    | .ok n => .ok n
    | .error fault => .error (.notNumber whole (Text.trim part) fault)

def isOrdered (range : LineRange) : Bool :=
  1 ≤ range.first && 0 ≤ range.last && (range.last == 0 || range.first ≤ range.last)

/-- Reads a first and a last line, either of which may be left out, or a single line. -/
def parse (text : Text) : Except RangeError LineRange := do
  let whole := Text.trim text
  if whole.isEmpty then return {}
  let (left, right) := cutColon whole
  let first ← readEnd whole left 1
  let last ← match right with
    | none => pure first
    | some right => readEnd whole right 0
  if isOrdered ⟨first, last⟩ then return ⟨first, last⟩
  else throw (.unordered whole)

end LineRange

def RangeError.message : RangeError → Text
  | notNumber range part fault =>
    "bad line range " ++ Text.quote range ++ ": strconv.Atoi: parsing " ++ Text.quote part ++
      ": " ++ fault.message
  | unordered range => "bad line range " ++ Text.quote range
  | noSuchLine range lines =>
    "bad line range " ++ range.toText ++ ": file has " ++ Text.decimal lines ++ " lines"
  | inverted range => "bad line range " ++ range.toText

end HdlAlign
