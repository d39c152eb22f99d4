import HdlAlign.Layout.Writer

namespace HdlAlign

/-- One line of a batch: a statement whose fields take part in the column layout, or a text that
is passed through.  `source` is the index of the input line, -1 for a line that has none. -/
inductive Line where
  | aligned (fields : List Text) (source : Int)
  | verbatim (text : Text) (source : Int)
  deriving DecidableEq

namespace Line

def source : Line → Int
  | aligned _ source => source
  | verbatim _ source => source

def isAligned : Line → Bool
  | aligned _ _ => true
  | verbatim _ _ => false

/-- A field by its column, empty where the line has none. -/
def field (line : Line) (column : Nat) : Text :=
  match line with
  | aligned fields _ => fields.getD column []
  | verbatim _ _ => []

def withField (line : Line) (column : Nat) (value : Text) : Line :=
  match line with
  | aligned fields source => aligned (fields.set column value) source
  | verbatim text source => verbatim text source

def reaches (column : Nat) : Line → Bool
  | aligned fields _ => column < fields.length
  | verbatim _ _ => true

/-- A verbatim line without text. -/
def isEmptyLine : Line → Bool
  | aligned _ _ => false
  | verbatim text _ => text.isEmpty

/-- Writes every field up to its anchor; fields without an anchor stand as they are. -/
def writeFields (w : Writer) : List Text → List Nat → Writer
  | [], _ => w
  | field :: fields, [] => writeFields (w.write field) fields []
  | field :: fields, anchor :: anchors => writeFields (w.pad field anchor) fields anchors

/-- The output of a line for given column widths and left margin.  Blanks at the end of an
aligned line are dropped. -/
def render (line : Line) (anchors : List Nat) (indent : Text) : Text :=
  match line with
  | aligned fields _ => (writeFields (Writer.write {} indent) fields anchors).trimLineEnd.text
  | verbatim text _ => text

end Line

end HdlAlign
