import HdlAlign.Progress.Event
import HdlAlign.Run.Outcome
import HdlAlign.Run.Sources
import HdlAlign.Settings.Basic
import HdlAlign.Trace.Recorder

/-! Formatting files and the block from standard input. -/

namespace HdlAlign

/-- A run under way: what is stored, what is recorded and what was reported so far. -/
structure Run where
  disk : Disk
  recorder : Trace.Recorder := {}
  events : List Progress.Event := []
  timer : Timer := {}

namespace Run

def emit (run : Run) (file : Text) (stage : Progress.Stage) (status : Progress.Status) : Run :=
  { run with events := run.events ++ [⟨file, stage, status, none⟩] }

def emitError (run : Run) (file : Text) (stage : Progress.Stage) (message : Text) : Run :=
  { run with events := run.events ++ [⟨file, stage, .failed, some message⟩] }

def countPhase (run : Run) (timer : Timer) (name : Text) : Run × Timer :=
  ({ run with timer := run.timer.add name 0 }, timer.measure name 0)

def flagText (b : Bool) : Text := if b then "true" else "false"

def alignBlock (run : Run) (request : Request) (block : Text) (parent : Nat) :
    Run × Cache.Answer :=
  let (recorder, span) := run.recorder.start .pass "align_block" parent
  let (disk, answer) := Cache.align request.cache run.disk block request.options request.lines
  let span := span.map (·.setExtra "cache_hit" (flagText answer.hit))
  ({ run with disk, recorder := recorder.stop span [] }, answer)

def writeFile (disk : Disk) (file : SourceFile) (path content : Text) : Except FileError Disk :=
  match disk.write path (file.encode content) 0o644 with
  | .ok disk => .ok disk
  | .error failure => .error (.write path failure)

def fail (run : Run) (outcome : Outcome) (span : Option Trace.Span) (stage : Progress.Stage)
    (error : FileError) : Run × Outcome :=
  let run := run.emitError outcome.path stage error.message
  ({ run with recorder := run.recorder.stop span error.message },
    { outcome with error := some error })

def succeed (run : Run) (request : Request) (outcome : Outcome) (span : Option Trace.Span)
    (timer : Timer) : Run × Outcome :=
  let bag :=
    if request.timings then outcome.bag.addTimings (timer.report.diagnostic [] outcome.path)
    else outcome.bag
  let run := run.emit outcome.path .align (if bag.hasErrors then .failed else .done)
  let span := span.map fun span =>
    (span.setExtra "mode" outcome.mode.name).setExtra "changed" (flagText outcome.changed)
  ({ run with recorder := run.recorder.stop span [] }, { outcome with bag })

/-- Does with the formatted content what is asked for: report, give back, or write a change. -/
def deliver (run : Run) (request : Request) (file : SourceFile) (outcome : Outcome)
    (selection : SourceFile.Selection) (text : Text) (span : Option Trace.Span) (timer : Timer) :
    Run × Outcome :=
  let content := file.splice selection.start selection.stop text
  let outcome := { outcome with changed := content != file.content }
  if request.check then
    let bag :=
      if outcome.changed then outcome.bag.add (file.changeReport selection text) else outcome.bag
    run.succeed request { outcome with bag } span timer
  else if request.stdout then
    run.succeed request { outcome with formatted := some (file.encode content) } span timer
  else if outcome.changed then
    let run := run.emit outcome.path .write .working
    let (run, timer) := run.countPhase timer "write"
    match writeFile run.disk file outcome.path content with
    | .error error =>
      let bag := outcome.bag.add (.error .writeError { file := file.id } error.message)
      run.fail { outcome with bag } span .write error
    | .ok disk => { run with disk }.succeed request outcome span timer
  else run.succeed request outcome span timer

def formatFile (run : Run) (request : Request) (file : SourceFile) (path : Text) (parent : Nat) :
    Run × Outcome :=
  let (recorder, span) := run.recorder.start .file "format_file" parent
  let run := { run with recorder }
  let span := span.map (·.setExtra "path" path)
  let outcome : Outcome := { path, file := file.id, bag := request.emptyBag }
  match file.select request.lines with
  | .error error =>
    let bag := outcome.bag.add (.error .badRange { file := file.id } error.message)
    run.fail { outcome with bag } span .load (.range error)
  | .ok selection =>
    let run := run.emit path .align .working
    let (run, answer) := run.alignBlock request selection.block (Trace.spanId span)
    let (run, timer) := run.countPhase {} "align"
    let bag := match answer.failure with
      | none => outcome.bag
      | some failure => outcome.bag.add (file.cacheReport failure)
    let bag := file.reportBlock request.firstLine answer.aligned bag
    let (run, timer, bag) :=
      if request.verify then
        let run := run.emit path .verify .working
        let (run, timer) := run.countPhase timer "verify"
        (run, timer, file.verifyBlock request selection.block bag)
      else (run, timer, bag)
    let outcome :=
      { outcome with bag, mode := answer.aligned.mode, cacheHit := answer.hit }
    run.deliver request file outcome selection answer.aligned.text span timer

/-- Formats bytes that did not come from a file; nothing is written to disk. -/
def formatSource (run : Run) (request : Request) (name raw : Text) (parent : Nat) :
    Run × Outcome × FileSet :=
  let (set, _) := ({} : FileSet).addRaw name raw
  let request := { request with stdout := !request.check }
  match set.files with
  | [] => (run, { path := name, bag := request.emptyBag }, set)
  | file :: _ =>
    let (run, outcome) := run.formatFile request file name parent
    (run, outcome, set)

abbrev Loaded := Text × Except Disk.Failure SourceFile

def loadEach (run : Run) (set : FileSet) : List Text → Run × FileSet × List Loaded
  | [] => (run, set, [])
  | path :: rest =>
    let run := run.emit path .load .queued
    match run.disk.read path with
    | .error failure =>
      let (run, set, loaded) := run.loadEach set rest
      (run, set, (path, .error failure) :: loaded)
    | .ok raw =>
      let (set, id) := set.addStored path raw 0
      let here : List Loaded := match set.get? id with
        | none => []
        | some file => [(path, .ok file)]
      let (run, set, loaded) := run.loadEach set rest
      (run, set, here ++ loaded)

def formatLoaded (run : Run) (request : Request) (parent : Nat) : Loaded → Run × Outcome
  | (path, .error failure) =>
    let outcome := Outcome.notLoaded request path failure
    (run.emitError path .load failure.message, outcome)
  | (path, .ok file) => run.formatFile request file path parent

def formatEach (run : Run) (request : Request) (parent : Nat) :
    List Loaded → Run × List Outcome
  | [] => (run, [])
  | loaded :: rest =>
    let (run, outcome) := run.formatLoaded request parent loaded
    let (run, outcomes) := run.formatEach request parent rest
    (run, outcome :: outcomes)

inductive Failure where
  | disk (failure : Disk.Failure)
  | noFiles
  | cancelled
  deriving DecidableEq

def Failure.message : Failure → Text
  | disk failure => failure.message
  | noFiles => "format: no source files found"
  | cancelled => "context canceled"

/-- Formats the files of a list of paths.  All of them are loaded before the first is written. -/
def formatPaths (run : Run) (request : Request) (paths : List Text) (parent : Nat) :
    Run × Except Failure (List Outcome × FileSet) :=
  let (recorder, span) := run.recorder.start .run "format_paths" parent
  let run := { run with recorder }
  let close (run : Run) (span : Option Trace.Span) : Run :=
    { run with recorder := run.recorder.stop span [] }
  match Sources.collect run.disk request.extensions request.excluded paths with
  | .error failure => (close run span, .error (.disk failure))
  | .ok [] => (close run span, .error .noFiles)
  | .ok files =>
    let span := span.map (·.setExtra "files" (Text.decimal files.length))
    let (run, set, loaded) := run.loadEach {} files
    let (run, outcomes) := run.formatEach request (Trace.spanId span) loaded
    (close run span, .ok (outcomes, set))

end Run

end HdlAlign
