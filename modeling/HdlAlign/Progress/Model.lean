import HdlAlign.Decimal.Double
import HdlAlign.Progress.Event
import HdlAlign.Text.Width

/-! The progress of a run on the terminal: a title, a row for each file, and a bar. -/

namespace HdlAlign.Progress

/-- The files that are shown; older ones scroll away. -/
def maxRows : Nat := 15

def statusWidth : Nat := 10

namespace Stage

def label : Stage → Text
  | load => "loading"
  | align => "aligning"
  | verify => "verifying"
  | write => "writing"
  | unknown _ => ""

/-- The tenths of the work on a file that are done when the stage begins. -/
def tenths : Stage → Nat
  | load => 1
  | align => 4
  | verify => 7
  | write => 9
  | unknown _ => 0

end Stage

structure Row where
  path : Text
  stage : Stage := .load
  status : Status := .queued
  deriving DecidableEq

namespace Row

def label (row : Row) : Text :=
  match row.status with
  | .working => row.stage.label
  | .done => "done"
  | .failed => "error"
  | _ => "queued"

/-- The tenths of the work on the file that are done. -/
def tenths (row : Row) : Nat :=
  match row.status with
  | .working => row.stage.tenths
  | .done | .failed => 10
  | _ => 0

end Row

structure Model where
  title : Text
  rows : List Row := []
  width : Int := 80
  barWidth : Int := 76
  failed : Nat := 0
  done : Bool := false
  turns : Nat := 0

namespace Model

def addRow (rows : List Row) (path : Text) : List Row :=
  if rows.any fun row => row.path = path then rows else rows ++ [{ path := path }]

def ofFiles (title : Text) (files : List Text) : Model :=
  { title, rows := files.foldl addRow [] }

/-- Takes in a report on a file; one on the whole run changes nothing. -/
def apply (model : Model) (event : Event) : Model :=
  if event.file.isEmpty then model
  else
    { model with
      rows := (addRow model.rows event.file).map fun row =>
        if row.path = event.file then { row with stage := event.stage, status := event.status }
        else row
      failed := if event.status = .failed then model.failed + 1 else model.failed }

def applyAll (model : Model) (events : List Event) : Model := events.foldl apply model

def close (model : Model) : Model := { model with done := true }

def tick (model : Model) : Model :=
  if model.done then model else { model with turns := model.turns + 1 }

def resize (model : Model) (width : Int) : Model :=
  if width ≤ 0 then model else { model with width, barWidth := max (width - 4) 10 }

def fraction (tenths : Nat) : Float := Float.ofScientific tenths true 1

def share (model : Model) : Double :=
  if model.rows.isEmpty then .ofFloat 0.0
  else
    let sum := model.rows.foldl (fun sum row => sum + fraction row.tenths) 0.0
    .ofFloat (sum / Float.ofNat model.rows.length)

/-! View -/

def frames : List Text := Text.literals ["⣾ ", "⣽ ", "⣻ ", "⢿ ", "⡿ ", "⣟ ", "⣯ ", "⣷ "]

def spinner (model : Model) : Text := frames.getD (model.turns % frames.length) []

def header (model : Model) : Text :=
  let failures : Text :=
    if 0 < model.failed then ", " ++ Text.decimal model.failed ++ " failed" else ""
  let title := model.title ++ failures
  if model.done then "done: " ++ title else model.spinner ++ " " ++ title

/-- Shortens a text to a width; three dots mark the cut where there is room for them. -/
def shorten (text : Text) (width : Int) : Text :=
  if width ≤ 0 || (text.width : Int) ≤ width then text
  else if width ≤ 3 then Text.truncate text width.toNat []
  else Text.truncate text width.toNat "..."

def rowLine (nameWidth : Int) (row : Row) : Text :=
  "  " ++ Text.fillLeft Text.blank statusWidth row.label ++ " " ++ shorten row.path nameWidth ++
    "\n"

def hiddenLine (hidden : Nat) : Text :=
  if hidden = 0 then []
  else "  " ++ Text.blanks statusWidth ++ " ... " ++ Text.decimal hidden ++ " more\n"

def bar (model : Model) : Text :=
  let cell : Text := if model.done then "█" else "░"
  let number : Text := if model.done then " 100%" else "   0%"
  (List.replicate (model.barWidth - 5).toNat cell).flatten ++ number

def view (model : Model) : Text :=
  if model.rows.isEmpty then []
  else
    let nameWidth := max (model.width - statusWidth - 4) 20
    let hidden := model.rows.length - maxRows
    model.header ++ "\n\n" ++ hiddenLine hidden ++
      (model.rows.drop hidden).flatMap (rowLine nameWidth) ++ "\n" ++ model.bar ++ "\n"

end Model

end HdlAlign.Progress
