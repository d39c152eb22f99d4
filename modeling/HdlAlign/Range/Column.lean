import HdlAlign.Layout.Line
import HdlAlign.Range.Groups

/-! Lining up the dimension lists of one column: every index expression is right-justified, so
that colons and brackets of the batch stand below each other. -/

namespace HdlAlign.Range

abbrev GroupWidth := Nat × Nat

def widen : List GroupWidth → List Group → List GroupWidth
  | widths, [] => widths
  | [], group :: groups => (group.left.width, group.right.width) :: widen [] groups
  | (left, right) :: widths, group :: groups =>
    (max left group.left.width, max right group.right.width) :: widen widths groups

def renderGroup (group : Group) (width : GroupWidth) : Text :=
  Text.ofString "[" ++ group.left.padLeft width.1 ++ Text.ofString ":" ++
    group.right.padLeft width.2 ++ Text.ofString "]"

def render (groups : List Group) (widths : List GroupWidth) : Text :=
  (groups.zipWith renderGroup widths).flatten

inductive Cell where
  | absent
  | unparsed
  | list (groups : List Group)

def cell (column : Nat) (line : Line) : Cell :=
  if (line.field column).isEmpty then .absent
  else match parse (line.field column) with
    | .ok groups => .list groups
    | .error _ => .unparsed

def Cell.list? : Cell → Option (List Group)
  | .list groups => some groups
  | _ => none

structure Stats where
  /-- The largest number of groups. -/
  dims : Nat
  mismatch : Bool
  /-- The sources of lines whose field is no dimension list; they keep it. -/
  unparsed : List Int
  deriving DecidableEq

def lists (column : Nat) (lines : List Line) : List (List Group) :=
  lines.filterMap fun line => (cell column line).list?

/-- Whether some list has another number of groups than the largest one before it. -/
def mismatch : (largest : Option Nat) → List (List Group) → Bool
  | _, [] => false
  | none, groups :: rest => mismatch (some groups.length) rest
  | some largest, groups :: rest =>
    groups.length != largest || mismatch (some (max largest groups.length)) rest

def unparsedSource (column : Nat) (line : Line) : Option Int :=
  match cell column line with
  | .unparsed => some line.source
  | _ => none

def stats (column : Nat) (lines : List Line) : Stats where
  dims := (lists column lines).foldl (fun most groups => max most groups.length) 0
  mismatch := mismatch none (lists column lines)
  unparsed := lines.filterMap (unparsedSource column)

def columnWidths (column : Nat) (lines : List Line) : List GroupWidth :=
  (lists column lines).foldl widen []

def layoutLine (column : Nat) (widths : List GroupWidth) (line : Line) : Line :=
  match cell column line with
  | .list groups => line.withField column (render groups widths)
  | _ => line

/-- Lines up a column.  Lines with fewer groups than others show only their own. -/
def alignColumn (column : Nat) (lines : List Line) : List Line :=
  lines.map (layoutLine column (columnWidths column lines))

end HdlAlign.Range
