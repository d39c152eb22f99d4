import HdlAlign.Trace.Event
import HdlAlign.Trace.Ring

/-! Recording: events are numbered and sent to every receiver. -/

namespace HdlAlign.Trace

def defaultRingSize : Nat := 4096

/-- What receives events: a ring that holds the newest, or a stream that holds them all. -/
inductive Receiver where
  | ring (level : Level) (events : Ring Event)
  | stream (level : Level) (events : List Event)

namespace Receiver

def ofRing (level : Level) (size : Int) : Receiver :=
  .ring level { size := if size ≤ 0 then defaultRingSize else size.toNat }

def level : Receiver → Level
  | ring level _ => level
  | stream level _ => level

def receive (event : Event) : Receiver → Receiver
  | ring level events => .ring level (events.push event)
  | stream level events => .stream level (events ++ [event])

def events : Receiver → List Event
  | ring _ events => events.toList
  | stream _ events => events

end Receiver

/-- A recording under way.  Parts of a run and events are numbered from 1. -/
structure Recorder where
  receivers : List Receiver := []
  lastSpan : Nat := 0
  lastEvent : Nat := 0

structure Span where
  id : Nat
  parent : Nat
  scope : Scope
  name : Text
  extras : List (Text × Text) := []
  deriving DecidableEq

namespace Span

def setExtra (span : Span) (name value : Text) : Span :=
  { span with extras := span.extras.filter (fun extra => extra.1 != name) ++ [(name, value)] }

end Span

namespace Recorder

def level (recorder : Recorder) : Level :=
  recorder.receivers.foldl (fun level receiver =>
    if level.code < receiver.level.code then receiver.level else level) .off

def emit (recorder : Recorder) (event : Nat → Event) : Recorder :=
  let number := recorder.lastEvent + 1
  { recorder with
    receivers := recorder.receivers.map (Receiver.receive (event number))
    lastEvent := number }

def start (recorder : Recorder) (scope : Scope) (name : Text) (parent : Nat) :
    Recorder × Option Span :=
  if !recorder.level.allows scope then (recorder, none)
  else
    let id := recorder.lastSpan + 1
    let recorder := { recorder with lastSpan := id }.emit fun number =>
      { number, kind := .start, scope, span := id, parent, name }
    (recorder, some { id, parent, scope, name })

def stop (recorder : Recorder) (span : Option Span) (detail : Text) : Recorder :=
  match span with
  | none => recorder
  | some span =>
    recorder.emit fun number =>
      { number, kind := .stop, scope := span.scope, span := span.id, parent := span.parent
        name := span.name, detail, extras := span.extras }

def point (recorder : Recorder) (scope : Scope) (name detail : Text) (parent : Nat) : Recorder :=
  if !recorder.level.allows scope then recorder
  else recorder.emit fun number => { number, kind := .point, scope, parent, name, detail }

end Recorder

/-- The number of a part of a run, 0 for one that is not recorded. -/
def spanId (span : Option Span) : Nat := (span.map Span.id).getD 0

end HdlAlign.Trace
