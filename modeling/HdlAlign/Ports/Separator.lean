import HdlAlign.Layout.Line

/-! Commas between the entries of a port list. -/

namespace HdlAlign.Ports

def comma : Text := Text.ofString ","

/-- Removes the comma in front of a line's code and the one behind it.  The comment stays, one
blank behind the code. -/
def stripSeparator (line : Text) : Text :=
  let (code, comment) := Text.splitComment line
  let body := Text.trim (Text.trimHead comma (Text.trim code))
  let body := Text.trim (Text.trimTail comma body)
  let start := Text.indentation code ++ body
  if comment.isEmpty then start
  else if body.isEmpty then start ++ comment
  else start ++ Text.blank :: comment

def separatorColumn : Nat := 0

def nameColumn : Nat := 4

/-- The column that receives the commas: behind the name at the end of a line, or in front. -/
def commaColumn (endOfLine : Bool) : Nat :=
  if endOfLine then nameColumn else separatorColumn

/-- Adds a comma behind the name of every port but the last of the list. -/
def commasBehind : List Line → List Line
  | [] => []
  | line :: rest =>
    (if line.isAligned && rest.any Line.isAligned then
      line.withField nameColumn (line.field nameColumn ++ comma)
    else line) :: commasBehind rest

/-- Puts a comma in front of every port but the first; the flag tells that a port came before. -/
def commasBefore (portSeen : Bool) : List Line → List Line
  | [] => []
  | line :: rest =>
    (if line.isAligned && portSeen then line.withField separatorColumn comma else line) ::
      commasBefore (portSeen || line.isAligned) rest

/-- Separates the ports of a list.  The last one never ends with a comma. -/
def placeCommas (endOfLine : Bool) (lines : List Line) : List Line :=
  if endOfLine then commasBehind lines else commasBefore false lines

def separated (endOfLine : Bool) (lines : List Line) : List Line :=
  let ports := lines.filter Line.isAligned
  if endOfLine then ports.dropLast else ports.drop 1

def placeCommas? (endOfLine : Bool) (lines : List Line) : Option (List Line) :=
  if (separated endOfLine lines).all (Line.reaches (commaColumn endOfLine)) then
    some (placeCommas endOfLine lines)
  else none

end HdlAlign.Ports
