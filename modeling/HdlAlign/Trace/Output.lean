import HdlAlign.Disk
import HdlAlign.Trace.Recorder

/-! Where a recording goes: a stream to a file or to the error output, and a ring that is written
to the error output in the end. -/

namespace HdlAlign.Trace

structure Output where
  level : Level := .off
  mode : Mode := .stream
  /-- The file of the stream; the error output if it is empty or a dash. -/
  path : Text := []
  ringSize : Int := 0

inductive OutputError where
  | unknownMode (code : UInt8)
  | cannotOpen (failure : Disk.Failure)
  deriving DecidableEq

def OutputError.message : OutputError → Text
  | unknownMode code => "unknown trace mode " ++ Text.decimal code.toNat
  | cannotOpen failure => "open trace output: " ++ failure.message

namespace Output

def toErrors (output : Output) : Bool := output.path.isEmpty || output.path = "-"

def encoding (output : Output) : Encoding := .ofPath output.path

def openFile (output : Output) (disk : Disk) : Except OutputError Disk :=
  if output.toErrors then .ok disk
  else match disk.write output.path [] 0o644 with
    | .ok disk => .ok disk
    | .error failure => .error (.cannotOpen failure)

def start (output : Output) (disk : Disk) (recorder : Recorder) :
    Except OutputError (Disk × Recorder) :=
  let ring := Receiver.ofRing output.level output.ringSize
  let stream := Receiver.stream output.level []
  if output.level = .off then .ok (disk, { recorder with receivers := [] })
  else match output.mode with
    | .ring => .ok (disk, { recorder with receivers := [ring] })
    | .stream => do return (← output.openFile disk, { recorder with receivers := [stream] })
    | .both => do return (← output.openFile disk, { recorder with receivers := [stream, ring] })
    | .unknown code => .error (.unknownMode code)

def encodeAll (output : Output) (events : List Event) : Text :=
  events.flatMap (Event.encode output.encoding 0)

def streamed (output : Output) (recorder : Recorder) : Text :=
  output.encodeAll (recorder.receivers.flatMap fun receiver =>
    match receiver with
    | .stream _ events => events
    | .ring _ _ => [])

def live (output : Output) (recorder : Recorder) : Text :=
  if output.toErrors then output.streamed recorder else []

def dumped (output : Output) (recorder : Recorder) : Text :=
  output.encodeAll (recorder.receivers.flatMap fun receiver =>
    match receiver with
    | .stream _ _ => []
    | .ring _ events => events.toList)

def finish (output : Output) (recorder : Recorder) (disk : Disk) : Disk :=
  if output.toErrors || output.level = .off || output.mode = .ring then disk
  else match disk.write output.path (output.streamed recorder) 0o644 with
    | .ok disk => disk
    | .error _ => disk

end Output

end HdlAlign.Trace
