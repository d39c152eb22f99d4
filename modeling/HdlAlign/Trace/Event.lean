import HdlAlign.Decimal.Fixed
import HdlAlign.Json.Value
import HdlAlign.Text.Case
import HdlAlign.Text.Quoted
import HdlAlign.Timing.Duration

/-! Events that record the course of a run. -/

namespace HdlAlign.Trace

/-- How deep into a run events are recorded; codes above the last one record nothing. -/
structure Level where
  code : UInt8
  deriving DecidableEq

/-- How fine a part of a run is; greater codes are finer. -/
structure Scope where
  code : UInt8
  deriving DecidableEq

structure Kind where
  code : UInt8
  deriving DecidableEq

namespace Scope

def run : Scope := ⟨1⟩

def file : Scope := ⟨2⟩

def pass : Scope := ⟨3⟩

def name (scope : Scope) : Text :=
  if scope = run then "run"
  else if scope = file then "file"
  else if scope = pass then "pass"
  else "unknown"

end Scope

namespace Kind

def start : Kind := ⟨1⟩

def stop : Kind := ⟨2⟩

def point : Kind := ⟨3⟩

def heartbeat : Kind := ⟨4⟩

def name (kind : Kind) : Text :=
  if kind = start then "begin"
  else if kind = stop then "end"
  else if kind = point then "point"
  else if kind = heartbeat then "heartbeat"
  else "unknown"

def mark (kind : Kind) : Text :=
  if kind = start then "> "
  else if kind = stop then "< "
  else if kind = heartbeat then "~ "
  else "* "

end Kind

namespace Level

def off : Level := ⟨0⟩

def phase : Level := ⟨1⟩

def detail : Level := ⟨2⟩

def name (level : Level) : Text :=
  if level = off then "off"
  else if level = phase then "phase"
  else if level = detail then "detail"
  else "unknown"

def allows (level : Level) (scope : Scope) : Bool :=
  if level = phase then scope.code ≤ Scope.file.code
  else if level = detail then scope.code ≤ Scope.pass.code
  else false

end Level

/-- Where events are kept: written as they happen, the newest held until the end, or both. -/
inductive Mode where
  | stream
  | ring
  | both
  | unknown (code : UInt8)
  deriving DecidableEq

def Mode.ofCode (code : UInt8) : Mode :=
  if code = 1 then stream
  else if code = 2 then ring
  else if code = 3 then both
  else unknown code

def Mode.code : Mode → UInt8
  | stream => 1
  | ring => 2
  | both => 3
  | unknown code => code

inductive SettingError where
  | level (text : Text)
  | mode (text : Text)
  deriving DecidableEq

def SettingError.message : SettingError → Text
  | level text => "invalid trace level " ++ Text.quote text ++ " (expected off|phase|detail)"
  | mode text => "invalid trace mode " ++ Text.quote text ++ " (expected stream|ring|both)"

def Level.parse (text : Text) : Except SettingError Level :=
  let word := Text.keyword text
  if word = [] || word = "off" then .ok off
  else if word = "phase" then .ok phase
  else if word = "detail" then .ok detail
  else .error (.level text)

def Mode.parse (text : Text) : Except SettingError Mode :=
  let word := Text.keyword text
  if word = [] || word = "stream" then .ok stream
  else if word = "ring" then .ok ring
  else if word = "both" then .ok both
  else .error (.mode text)

structure Event where
  /-- Microseconds since 1970. -/
  time : Int := 0
  number : Nat
  kind : Kind
  scope : Scope
  /-- The part of the run that begins or ends, 0 for a point. -/
  span : Nat := 0
  parent : Nat := 0
  name : Text
  detail : Text := []
  extras : List (Text × Text) := []
  /-- The nanoseconds that an ended part took. -/
  took : Int := 0
  deriving DecidableEq

inductive Encoding where
  | text
  | json
  deriving DecidableEq

def Encoding.ofPath (path : Text) : Encoding :=
  if path.endsWith ".ndjson" || path.endsWith ".json" then json else text

namespace Event

def sortedExtras (event : Event) : List (Text × Text) :=
  event.extras.mergeSort fun a b => Text.le a.1 b.1

def offsetText (origin time : Int) : Text :=
  let microseconds := (Duration.clamp ((time - origin) * 1000)).tdiv 1000
  Text.fillLeft Text.blank 9
    (Decimal.fixed 3 (.ofFloat (Float.ofInt microseconds / 1000.0)))

def extraText (extra : Text × Text) : Text := extra.1 ++ "=" ++ extra.2

def text (event : Event) (origin : Int) : Text :=
  let detail : Text := if event.detail.isEmpty then "" else " (" ++ event.detail ++ ")"
  let took : Text :=
    if event.kind = .stop then " " ++ Duration.text (Duration.toMicrosecond event.took) else ""
  let extras : Text :=
    if event.extras.isEmpty then ""
    else " \x7b" ++ Text.join " " (event.sortedExtras.map extraText) ++ "\x7d"
  "[" ++ offsetText origin event.time ++ "ms] " ++ Text.blanks (2 * (event.scope.code.toNat - 1)) ++
    event.kind.mark ++ event.name ++ detail ++ took ++ extras ++ "\n"

open Json in
def toJson (event : Event) : Json :=
  object <|
    member "time" (string (Instant.text event.time)) ++
    member "seq" (integer event.number) ++ member "kind" (string event.kind.name) ++
    (if event.scope.code = 0 then [] else member "scope" (string event.scope.name)) ++
    numberMember "span" event.span ++ numberMember "parent" event.parent ++
    member "name" (string event.name) ++ textMember "detail" event.detail ++
    (if event.extras.isEmpty then []
      else
        member "attrs"
          (object (event.sortedExtras.map fun (name, value) => (name, string value)))) ++
    numberMember "took_us" (event.took.tdiv 1000)

def encode (encoding : Encoding) (origin : Int) (event : Event) : Text :=
  match encoding with
  | .text => event.text origin
  | .json => event.toJson.compact ++ "\n"

end Event

end HdlAlign.Trace
