import HdlAlign.Command.Format
import HdlAlign.Command.Version

/-! The command line: which command it names, what its options are, and what becomes of it. -/

namespace HdlAlign.Command

/-! Commands and their options -/

inductive Subcommand where
  | format
  | version
  | help
  | completion
  deriving DecidableEq

namespace Subcommand

def all : List Subcommand := [format, version, help, completion]

def name : Subcommand → Text
  | format => "fmt"
  | version => "version"
  | help => "help"
  | completion => "completion"

def find? (name : Text) : Option Subcommand := all.find? fun sub => sub.name = name

def isSuggested (sub : Subcommand) : Bool := sub != help

end Subcommand

def flag (name : String) (kind : Kind) : Flag := { name, kind }

def commonFlags : List Flag :=
  [flag "color" .text, flag "quiet" .toggle, flag "timings" .toggle, flag "max-diagnostics" .number,
    flag "config" .text, flag "trace" .text, flag "trace-level" .text, flag "trace-mode" .text,
    flag "trace-ring-size" .number, flag "trace-heartbeat" .duration]

def helpFlag : Flag := { name := "help", letter := some 0x68, kind := .toggle }

def versionFlag : Flag := { name := "version", letter := some 0x76, kind := .toggle }

def ownFlags : Option Subcommand → List Flag
  | none => [versionFlag]
  | some .format =>
    [flag "check" .toggle, flag "format" .text, flag "stdout" .toggle, flag "lines" .text,
      flag "condense-blank-lines" .toggle, flag "align-end-of-line" .toggle, flag "jobs" .number,
      flag "cache" .toggle, flag "verify" .toggle, flag "ui" .text, flag "report" .toggle]
  | some .version =>
    [flag "hash" .toggle, flag "message" .toggle, flag "date" .toggle, flag "full" .toggle,
      flag "format" .text]
  | some .help => []
  | some .completion => []

def flagsOf (sub : Option Subcommand) : List Flag := helpFlag :: ownFlags sub ++ commonFlags

/-! Help -/

def description : Option Subcommand → List String
  | none =>
    ["vlalign lines up declarations, assignments and module port lists",
      "of HDL source into columns. It is meant to be run on a selection from an",
      "editor (stdin) or on whole files."]
  | some .format =>
    ["Align declarations, assignments and module port lists into columns.",
      "Without paths (or with \"-\") the block is read from stdin and written to",
      "stdout, which is how editors call vlalign on a selection."]
  | some .version => ["Show vlalign build information"]
  | some .help =>
    ["Help provides help for any command in the application.",
      "Simply type vlalign help [path to command] for full details."]
  | some .completion =>
    ["Generate the autocompletion script for vlalign for the specified shell.",
      "See each sub-command's help for details on how to use the generated script."]

def helpText (sub : Option Subcommand) : Text :=
  Text.unlines (Text.literals (description sub)) ++ "\n\n"

/-! The command that a line names -/

/-- The distances of the beginnings of a word from a text, one byte longer than the text of the row
before.  `left` is the distance in the column before, `corner` the one above it. -/
def distanceRow (byte : UInt8) (left corner : Nat) : Text → List Nat → List Nat
  | b :: word, above :: row =>
    let here := if b = byte then corner else min left (min above corner) + 1
    here :: distanceRow byte here above word row
  | _, _ => []

/-- The number of bytes to insert, remove or replace to make one word of another. -/
def distance (text word : Text) : Nat :=
  let first := List.range (word.length + 1)
  let last := text.foldl (fun row byte =>
    match row with
    | [] => []
    | corner :: above => (corner + 1) :: distanceRow byte (corner + 1) corner word above) first
  last.getLast?.getD 0

def suggestions (typed : Text) : List Text :=
  let typed := Text.lowerCase typed
  ((Subcommand.all.filter Subcommand.isSuggested).map Subcommand.name).filter fun name =>
    distance typed name ≤ 2 || name.startsWith typed

def suggestionLine (name : Text) : Text := "\t" ++ name ++ "\n"

structure UnknownCommand where
  name : Text
  deriving DecidableEq

def UnknownCommand.message (error : UnknownCommand) : Text :=
  let hint : Text := match suggestions error.name with
    | [] => []
    | names => "\n\nDid you mean this?\n" ++ names.flatMap suggestionLine
  "unknown command " ++ Text.quote error.name ++ " for \"vlalign\"" ++ hint

def selectCommand (arguments : List Text) :
    Except UnknownCommand (Option Subcommand × List Text) :=
  match plainArguments commonFlags arguments with
  | [] => .ok (none, arguments)
  | name :: _ =>
    match Subcommand.find? name with
    | some sub => .ok (some sub, withoutFirst commonFlags name arguments)
    | none => .error ⟨name⟩

/-! Preparations that all commands share -/

inductive SetupError where
  | badChoice (error : BadChoice)
  | badRecording (error : Trace.SettingError)
  | noRecording (error : Trace.OutputError)
  deriving DecidableEq

def SetupError.message : SetupError → Text
  | badChoice error => error.message
  | badRecording error => error.message
  | noRecording error => "trace: " ++ error.message

def readColor (parsed : Parsed) (terminal : Bool) : Except SetupError Bool :=
  let value := parsed.text "color" "auto"
  if value = "on" then .ok true
  else if value = "off" then .ok false
  else if value = "auto" then .ok terminal
  else .error (.badChoice ⟨"color", value, "auto|on|off"⟩)

/-- Where the recording goes.  An output without a level records phases. -/
def readOutput (parsed : Parsed) : Except SetupError Trace.Output := do
  let path := parsed.text "trace" ""
  let level ← (Trace.Level.parse (parsed.text "trace-level" "off")).mapError .badRecording
  let mode ← (Trace.Mode.parse (parsed.text "trace-mode" "stream")).mapError .badRecording
  return {
    level := if level = .off && !path.isEmpty then .phase else level
    mode
    path
    ringSize := parsed.number "trace-ring-size" 4096 }

structure Setup where
  color : Bool
  output : Trace.Output
  disk : Disk
  recorder : Trace.Recorder

def setup (around : Surroundings) (parsed : Parsed) : Except SetupError Setup := do
  let color ← readColor parsed around.terminal
  let output ← readOutput parsed
  let (disk, recorder) ← (output.start around.disk {}).mapError .noRecording
  return { color, output, disk, recorder }

/-! Running commands -/

def refuse (disk : Disk) (message : Text) : Result :=
  { disk, notices := [.message ("Error: " ++ message ++ "\n")], error := some message }

def versionCommand (build : BuildInfo) (disk : Disk) (color : Bool) (parsed : Parsed) : Result :=
  let value := parsed.text "format" "pretty"
  let format := Text.lowerCase value
  let wants (name : String) : Bool := parsed.toggle name || parsed.toggle "full"
  let parts : Version.Parts :=
    { commit := wants "hash", message := wants "message", date := wants "date" }
  if format = "json" then { disk, stdout := Version.document build.trimmed parts }
  else if format = "pretty" then { disk, stdout := Version.pretty color build.trimmed parts }
  else refuse disk (BadChoice.message ⟨"format", value, "pretty|json"⟩)

def quoteTopic (topic : Text) : Text :=
  let plain := topic.all fun byte => (0x20 ≤ byte && byte != 0x60 && byte != 0x7F) || byte == 0x09
  if plain && (Utf8.toString? topic).isSome then "`" ++ topic ++ "`" else Text.quote topic

def helpCommand (disk : Disk) (arguments : List Text) : Result :=
  match selectCommand arguments with
  | .ok (sub, _) => { disk, stdout := helpText sub }
  | .error _ =>
    { disk, stdout :=
        "Unknown help topic [" ++ Text.join " " (arguments.map quoteTopic) ++ "]\n" }

/-- Runs a command that is ready to run, and closes the recording, unless the program breaks off. -/
def runReady (build : BuildInfo) (around : Surroundings) (sub : Subcommand) (parsed : Parsed)
    (ready : Setup) : Result :=
  let (recorder, result) := match sub with
    | .format =>
      formatCommand { around with disk := ready.disk } ready.output ready.recorder ready.color
        parsed
    | .version => (ready.recorder, versionCommand build ready.disk ready.color parsed)
    | .help => (ready.recorder, helpCommand ready.disk parsed.arguments)
    | .completion => (ready.recorder, { disk := ready.disk, stdout := helpText (some .completion) })
  { result with
    disk := ready.output.finish recorder result.disk
    notices := result.notices ++
      if result.crashed then [] else [.message (ready.output.dumped recorder)] }

def takesArguments (sub : Subcommand) : Bool := sub != .version

def runSubcommand (build : BuildInfo) (around : Surroundings) (sub : Subcommand)
    (parsed : Parsed) : Result :=
  if parsed.toggle "help" || sub = .completion then
    { disk := around.disk, stdout := helpText (some sub) }
  else match takesArguments sub, parsed.arguments with
    | false, argument :: _ =>
      refuse around.disk
        ("unknown command " ++ Text.quote argument ++ " for \"vlalign " ++ sub.name ++ "\"")
    | _, _ =>
      match setup around parsed with
      | .error error => refuse around.disk error.message
      | .ok ready => runReady build around sub parsed ready

inductive LineError where
  | unknownCommand (error : UnknownCommand)
  | badFlag (error : FlagError)
  deriving DecidableEq

def readLine (arguments : List Text) : Except LineError (Option Subcommand × Parsed) :=
  match selectCommand arguments with
  | .error error => .error (.unknownCommand error)
  | .ok (sub, rest) =>
    match parse (flagsOf sub) rest with
    | .error error => .error (.badFlag error)
    | .ok parsed => .ok (sub, parsed)

def execute (build : BuildInfo) (around : Surroundings) (arguments : List Text) : Result :=
  match readLine arguments with
  | .error (.unknownCommand error) =>
    { disk := around.disk
      notices := [.message ("Error: " ++ error.message ++ "\nRun 'vlalign --help' for usage.\n")]
      error := some error.message }
  | .error (.badFlag error) => refuse around.disk error.message
  | .ok (some sub, parsed) => runSubcommand build around sub parsed
  | .ok (none, parsed) =>
    let text : Text :=
      if !parsed.toggle "help" && parsed.toggle "version" then
        "vlalign version " ++ build.version ++ "\n"
      else helpText none
    { disk := around.disk, stdout := text }

end HdlAlign.Command
