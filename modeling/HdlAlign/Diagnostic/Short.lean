import HdlAlign.Diagnostic.Basic
import HdlAlign.Source.FileSet

/-! One line for each diagnostic, in the order of their places. -/

namespace HdlAlign.Diagnostic

structure ShortLine where
  path : Text
  position : Position
  label : Text
  code : Text
  message : Text

namespace ShortLine

def toText (l : ShortLine) : Text :=
  l.label ++ " " ++ l.code ++ " " ++ l.path ++ ":" ++ Text.decimal l.position.line.toNat ++ ":" ++
    Text.decimal l.position.column.toNat ++ " " ++ l.message

def compare (a b : ShortLine) : Ordering :=
  (Text.compare a.path b.path).then <|
    (Ord.compare a.position.line.toNat b.position.line.toNat).then <|
    (Ord.compare a.position.column.toNat b.position.column.toNat).then <|
    (Text.compare a.label b.label).then <|
    (Text.compare a.code b.code).then (Text.compare a.message b.message)

end ShortLine

/-- The line for a span, if it has a file.  Runs of white space in the message become one blank. -/
def shortLine? (set : FileSet) (cwd : Text) (span : Span) (label code message : Text) :
    Option ShortLine :=
  (set.get? span.file).map fun file =>
    { path := Text.trimHead "./" (file.showPath .relative cwd (set.baseDirectory cwd))
      position := file.position span.start
      label
      code
      message := Text.join [Text.blank] (Text.fields message) }

def shortLines (set : FileSet) (cwd : Text) (notes : Bool) (d : Diagnostic) : List ShortLine :=
  let primary := shortLine? set cwd d.span (d.severity.name.map Text.lowerAscii) d.code.id d.message
  let remarks := if notes then d.notes else []
  primary.toList ++
    remarks.filterMap fun n => shortLine? set cwd n.span "note" d.code.id n.message

/-- The lines of all diagnostics, and of their notes if asked for; without files there are none. -/
def short (set : Option FileSet) (cwd : Text) (notes : Bool) (ds : List Diagnostic) : Text :=
  match set with
  | none => []
  | some set =>
    let lines := ds.flatMap (shortLines set cwd notes)
    Text.unlines ((lines.mergeSort fun a b => (a.compare b).isLE).map ShortLine.toText)

end HdlAlign.Diagnostic
