import HdlAlign.Decimal.Fixed
import HdlAlign.Diagnostic.Bag
import HdlAlign.Json.Value

/-! Durations of the phases of a run. -/

namespace HdlAlign

/-- A phase with its duration in nanoseconds.  `started` tells that it was measured from a start
and not summed up. -/
structure Phase where
  name : Text
  nanoseconds : Int := 0
  count : Int := 1
  note : Text := []
  started : Bool := false

structure Timer where
  phases : List Phase := []

namespace Timer

def measure (timer : Timer) (name : Text) (nanoseconds : Int) : Timer :=
  ⟨timer.phases ++ [{ name, nanoseconds, started := true }]⟩

def addTo (name : Text) (nanoseconds : Int) : List Phase → List Phase
  | [] => [{ name, nanoseconds }]
  | phase :: rest =>
    if phase.name = name then
      { phase with
        nanoseconds := phase.nanoseconds + nanoseconds
        count := phase.count + 1 } :: rest
    else phase :: addTo name nanoseconds rest

def add (timer : Timer) (name : Text) (nanoseconds : Int) : Timer :=
  ⟨addTo name nanoseconds timer.phases⟩

/-- The measured phases together; summed ones lie inside them. -/
def total (timer : Timer) : Int :=
  (timer.phases.filter Phase.started).foldr (fun phase rest => phase.nanoseconds + rest) 0

end Timer

def milliseconds (nanoseconds : Int) : Double :=
  .ofFloat (Float.ofInt nanoseconds / 1000000.0)

structure PhaseReport where
  name : Text
  milliseconds : Double
  count : Int := 0
  note : Text := []

/-- Measured phases and their total; there are no phases at all where none was begun. -/
structure TimingReport where
  total : Double
  phases : Option (List PhaseReport)

namespace Timer

def report (timer : Timer) : TimingReport where
  total := milliseconds timer.total
  phases :=
    if timer.phases.isEmpty then none
    else some (timer.phases.map fun p => ⟨p.name, milliseconds p.nanoseconds, p.count, p.note⟩)

def summaryLine (name : Text) (ms : Double) : Text :=
  "  " ++ name ++ Text.blanks (20 - (Utf8.chars name).length) ++ " " ++
    Text.fillLeft Text.blank 7 (Decimal.fixed 2 ms) ++ " ms"

def phaseLine (p : PhaseReport) : Text :=
  let count : Text := if 1 < p.count then "  (x" ++ Text.decimalInt p.count ++ ")" else ""
  let note : Text := if p.note.isEmpty then "" else "  // " ++ p.note
  summaryLine p.name p.milliseconds ++ count ++ note ++ "\n"

def summary (timer : Timer) : Text :=
  let r := timer.report
  "timings:\n" ++ (r.phases.getD []).flatMap phaseLine ++ summaryLine "total" r.total ++ "\n"

end Timer

namespace TimingReport

open Json

def phaseJson (p : PhaseReport) : Json :=
  object <|
    member "name" (string p.name) ++ member "duration_ms" (double p.milliseconds) ++
    numberMember "count" p.count ++ textMember "note" p.note

def toJson (r : TimingReport) (kind path : Text) : Json :=
  object <|
    member "kind" (string kind) ++ textMember "path" path ++
    member "total_ms" (double r.total) ++
    member "phases" (match r.phases with
      | none => null
      | some phases => array (phases.map phaseJson))

/-- The diagnostic that carries a report; its note holds the report as a document. -/
def diagnostic (r : TimingReport) (kind path : Text) : Diagnostic :=
  let kind : Text := if kind.isEmpty then "file" else kind
  let where_ : Text := if path.isEmpty then "" else ", " ++ path
  let message : Text :=
    "timings (" ++ kind ++ "): total " ++ Decimal.fixed 2 r.total ++ " ms" ++ where_
  Diagnostic.withNote { severity := .info, code := .timings, span := {}, message } {}
    (r.toJson kind path).compact

end TimingReport

/-- Adds a timing report, which no limit keeps out as long as 16 bits can count the items. -/
def Bag.addTimings (bag : Bag) (d : Diagnostic) : Bag :=
  if bag.isFull then bag.merge ((Bag.ofLimit 1).add d) else bag.add d

end HdlAlign
