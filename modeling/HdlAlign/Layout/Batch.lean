import HdlAlign.Layout.Line

namespace HdlAlign

structure Batch where
  lines : List Line
  indent : Text

namespace Batch

/-- The column that a field asks for: its width and one blank, or nothing if it shows nothing. -/
def demand (field : Text) : Nat :=
  if field.width = 0 then 0 else field.width + 1

def widen : (anchors : List Nat) → (fields : List Text) → List Nat
  | anchors, [] => anchors
  | [], field :: fields => demand field :: widen [] fields
  | anchor :: anchors, field :: fields => max anchor (demand field) :: widen anchors fields

/-- The widths of the columns of a batch.  Verbatim lines do not count. -/
def anchors (lines : List Line) : List Nat :=
  lines.foldl (fun widths line =>
    match line with
    | .aligned fields _ => widen widths fields
    | .verbatim _ _ => widths) []

def alignedCount (batch : Batch) : Nat := batch.lines.countP Line.isAligned

def render (batch : Batch) : Text :=
  let widths := anchors batch.lines
  Text.unlines (batch.lines.map fun line => line.render widths batch.indent)

end Batch

def trimEmptyLines (lines : List Line) : List Line :=
  ((lines.dropWhile Line.isEmptyLine).reverse.dropWhile Line.isEmptyLine).reverse

/-- The sources of the lines that were passed through with a text. -/
def untouched (lines : List Line) : List Int :=
  lines.filterMap fun line =>
    match line with
    | .aligned _ _ => none
    | .verbatim text source => if text.isEmpty then none else some source

end HdlAlign
