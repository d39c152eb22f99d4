import HdlAlign.Command.Flag
import HdlAlign.Command.Report
import HdlAlign.Run.Format
import HdlAlign.Settings.Discovery
import HdlAlign.Trace.Output

/-! The command that formats files, or a block from standard input. -/

namespace HdlAlign.Command

structure Surroundings where
  disk : Disk
  stdin : Text := []
  terminal : Bool := false
  /-- The directory for caches, empty where there is none of its own. -/
  cacheHome : Text := []
  home : Text := []

/-- What appears on the error output: messages of the command, and events of a recording that are
streamed there. -/
inductive Notice where
  | message (text : Text)
  | event (text : Text)
  deriving DecidableEq

namespace Notice

def text : Notice → Text
  | message text => text
  | event text => text

def messageText : Notice → Text
  | message text => text
  | event _ => []

end Notice

structure Result where
  disk : Disk
  stdout : Text := []
  notices : List Notice := []
  error : Option Text := none
  crashed : Bool := false

namespace Result

def stderr (result : Result) : Text := result.notices.flatMap Notice.messageText

def errorOutput (result : Result) : Text := result.notices.flatMap Notice.text

end Result

/-- An option whose value is not among those it may have. -/
structure BadChoice where
  flag : Text
  value : Text
  choices : Text
  deriving DecidableEq

def BadChoice.message (error : BadChoice) : Text :=
  "invalid --" ++ error.flag ++ " value " ++ Text.quote error.value ++ " (expected " ++
    error.choices ++ ")"

inductive FormatError where
  | badChoice (error : BadChoice)
  | contentOfCheck
  | contentInDocument
  | badSettings (error : SettingsError)
  | badLines (error : RangeError)

def FormatError.message : FormatError → Text
  | badChoice error => error.message
  | contentOfCheck => "--stdout cannot be used with --check"
  | contentInDocument => "--stdout is only supported with text output"
  | badSettings error => Code.badSettings.id ++ ": " ++ error.message
  | badLines error => Code.badRange.id ++ ": " ++ error.message

inductive ProgressMode where
  | auto
  | on
  | off
  deriving DecidableEq

def ProgressMode.parse (value : Text) : Except BadChoice ProgressMode :=
  let word := Text.keyword value
  if word = [] || word = "auto" then .ok auto
  else if word = "on" then .ok on
  else if word = "off" then .ok off
  else .error ⟨"ui", value, "auto|on|off"⟩

def ProgressMode.isDrawn (mode : ProgressMode) (terminal : Bool) (paths : Nat) : Bool :=
  match mode with
  | on => true
  | off => false
  | auto => 1 < paths && terminal

def readDisplay (parsed : Parsed) (color : Bool) : Except FormatError Display := do
  if let .error error := ProgressMode.parse (parsed.text "ui" "auto") then throw (.badChoice error)
  let name := parsed.text "format" "text"
  let some format := ReportFormat.parse? name
    | throw (.badChoice ⟨"format", name, "text|short|json"⟩)
  let display : Display :=
    { format, color, check := parsed.toggle "check", content := parsed.toggle "stdout"
      report := parsed.toggle "report", quiet := parsed.toggle "quiet" }
  if display.content && display.check then throw .contentOfCheck
  if display.content && format = .json then throw .contentInDocument
  return display

/-- The settings of the file that the options name, or of the one that applies to the working
directory. -/
def readSettings (disk : Disk) (parsed : Parsed) : Except SettingsError Settings :=
  let path := parsed.text "config" ""
  if !path.isEmpty then Settings.load disk path
  else
    let discovery := Settings.discover disk disk.cwdPath
    match discovery.error with
    | some error => .error error
    | none => .ok discovery.settings

/-- The request that the settings and the options make; options outweigh settings. -/
def readRequest (settings : Settings) (parsed : Parsed) : Except FormatError Request := do
  let lines ← match LineRange.parse (parsed.text "lines" "") with
    | .ok lines => pure lines
    | .error error => throw (.badLines error)
  return {
    check := parsed.toggle "check"
    stdout := parsed.toggle "stdout"
    verify := parsed.toggle "verify"
    timings := parsed.toggle "timings"
    options :=
      { condense := (parsed.toggle? "condense-blank-lines").getD settings.options.condense
        endOfLine := (parsed.toggle? "align-end-of-line").getD settings.options.endOfLine }
    lines
    limit := parsed.number "max-diagnostics" 100
    extensions := settings.extensions
    excluded := settings.excludes }

def cacheDirectory? (around : Surroundings) (settings : Settings) : Option Text :=
  if !settings.cacheDirectory.isEmpty then some settings.cacheDirectory
  else if !around.cacheHome.isEmpty then some (Path.join around.cacheHome "vlalign")
  else if !around.home.isEmpty then some (Path.join (Path.join around.home ".cache") "vlalign")
  else none

def openCache (around : Surroundings) (settings : Settings) : Except Text (Disk × Cache) :=
  match cacheDirectory? around settings with
  | none => .error "$HOME is not defined"
  | some directory =>
    match Cache.open? around.disk directory with
    | .ok opened => .ok opened
    | .error failure => .error ("cache: " ++ failure.message)

/-- What is stored once the cache is open, the cache if it is in use, and a message if it cannot
be.  Formatting goes on without it. -/
def chooseCache (around : Surroundings) (settings : Settings) (parsed : Parsed) :
    Disk × Option Cache × Text :=
  if !(parsed.toggle? "cache").getD settings.cacheEnabled then (around.disk, none, [])
  else match openCache around settings with
    | .ok (disk, cache) => (disk, some cache, [])
    | .error message =>
      (around.disk, none,
        "fmt: " ++ Code.cacheError.id ++ ": cache disabled: " ++ message ++ "\n")

structure Plan where
  display : Display
  request : Request
  disk : Disk
  remark : Text

def plan (around : Surroundings) (parsed : Parsed) (color : Bool) : Except FormatError Plan := do
  let display ← readDisplay parsed color
  let settings ← match readSettings around.disk parsed with
    | .ok settings => pure settings
    | .error error => throw (.badSettings error)
  let request ← readRequest settings parsed
  let (disk, cache, remark) := chooseCache around settings parsed
  return { display, request := { request with cache }, disk, remark }

def isFromInput (paths : List Text) : Bool :=
  match paths with
  | [] => true
  | [path] => path = "-"
  | _ => false

structure Formatted where
  display : Display
  outcomes : List Outcome
  set : FileSet

def runPlan (run : Run) (plan : Plan) (stdin : Text) (paths : List Text) (parent : Nat) :
    Run × Except Run.Failure Formatted :=
  if isFromInput paths then
    let (run, outcome, set) := run.formatSource plan.request "<stdin>" stdin parent
    let display := { plan.display with content := !plan.display.check }
    (run, .ok { display, outcomes := [outcome], set })
  else
    let (run, result) := run.formatPaths plan.request paths parent
    (run, result.map fun (outcomes, set) => { display := plan.display, outcomes, set })

def runSummary (timer : Timer) (files : Nat) : Text :=
  let whole : Phase := { name := "fmt", note := Text.decimal files ++ " files", started := true }
  Timer.summary ⟨whole :: timer.phases⟩

/-- What is seen of a run in the end. -/
structure Ending where
  stdout : Text := []
  messages : Text := []
  error : Option Text := none
  crashed : Bool := false
  deriving DecidableEq

/-- What is shown of a run, and why it failed, if it did.  A program that breaks off comes to no
verdict. -/
def showRun (run : Run) (timings : Bool) (result : Except Run.Failure Formatted) : Ending :=
  match result with
  | .error failure =>
    { messages := "fmt: " ++ failure.message ++ "\n", error := some failure.message }
  | .ok formatted =>
    let shown := showOutcomes formatted.display formatted.set run.disk.cwdPath formatted.outcomes
    let summary := if timings then runSummary run.timer formatted.outcomes.length else []
    if shown.crashed then { stdout := shown.stdout, messages := shown.stderr, crashed := true }
    else
      { stdout := shown.stdout, messages := shown.stderr ++ summary
        error := (verdict formatted.display shown).message? }

def formatCommand (around : Surroundings) (output : Trace.Output) (recorder : Trace.Recorder)
    (color : Bool) (parsed : Parsed) : Trace.Recorder × Result :=
  match plan around parsed color with
  | .error error =>
    (recorder,
      { disk := around.disk, notices := [.message ("fmt: " ++ error.message ++ "\n")]
        error := some error.message })
  | .ok plan =>
    let (recorder, span) := recorder.start .run "fmt" 0
    let (run, result) := runPlan { disk := plan.disk, recorder } plan around.stdin parsed.arguments
      (Trace.spanId span)
    let ending := showRun run plan.request.timings result
    let during := output.live run.recorder
    let recorder := run.recorder.stop span []
    let after := (output.live recorder).drop during.length
    (recorder,
      { disk := run.disk, stdout := ending.stdout, error := ending.error, crashed := ending.crashed
        notices :=
          [.message plan.remark, .event during, .message ending.messages, .event after] })

end HdlAlign.Command
