import HdlAlign.Assignment.Basic
import HdlAlign.Layout.Line

/-! Lining up the assignments of one column.  Operators are right-justified in a column of their
own, so that right-hand sides start together; terminators stand behind the longest one. -/

namespace HdlAlign.Assignment

inductive Cell where
  | assignment (value : Assignment)
  | terminator
  /-- An equals sign that belongs to no known operator; such a field is left alone. -/
  | foreign
  | nothing

def cell (field : Text) : Cell :=
  if field.contains '=' then
    match parse? field with
    | some value => .assignment value
    | none => .foreign
  else if (splitTerminator field).1 then .terminator
  else .nothing

def Cell.assignment? : Cell → Option Assignment
  | .assignment value => some value
  | _ => none

structure Widths where
  operator : Nat
  value : Nat

def assignments (column : Nat) (lines : List Line) : List Assignment :=
  lines.filterMap fun line =>
    if line.isAligned then (cell (line.field column)).assignment? else none

def widths (assignments : List Assignment) : Widths where
  operator := assignments.foldl (fun most a => max most a.operator.width) 0
  value := assignments.foldl (fun most a => max most a.value.width) 0

def terminator : Text := Text.ofString ";"

def render (value : Assignment) (widths : Widths) : Text :=
  let start := value.operator.padLeft widths.operator ++ [Text.blank]
  if value.terminated then start ++ value.value.padRight (widths.value + 1) ++ terminator
  else start ++ value.value

/-- A lone terminator, under the terminators of the assignments if there are any. -/
def renderTerminator (anyAssignment : Bool) (widths : Widths) : Text :=
  if anyAssignment then
    terminator.padLeft (widths.operator + 1 + (widths.value + 1) + terminator.width)
  else terminator

def layoutField (anyAssignment : Bool) (widths : Widths) (field : Text) : Text :=
  match cell field with
  | .assignment value => render value widths
  | .terminator => renderTerminator anyAssignment widths
  | .foreign => field
  | .nothing => []

def layoutLine (column : Nat) (anyAssignment : Bool) (widths : Widths) (line : Line) : Line :=
  line.withField column (layoutField anyAssignment widths (line.field column))

def alignColumn (column : Nat) (lines : List Line) : List Line :=
  let found := assignments column lines
  lines.map (layoutLine column (!found.isEmpty) (widths found))

def alignColumn? (column : Nat) (lines : List Line) : Option (List Line) :=
  if lines.all (Line.reaches column) then some (alignColumn column lines) else none

end HdlAlign.Assignment
