import HdlAlign.Diagnostic.Document
import HdlAlign.Diagnostic.Pretty
import HdlAlign.Diagnostic.Short
import HdlAlign.Run.Outcome

/-! How the outcomes of a run are shown, and what they mean for its success. -/

namespace HdlAlign.Command

inductive ReportFormat where
  | text
  | short
  | json
  deriving DecidableEq

def ReportFormat.parse? (name : Text) : Option ReportFormat :=
  if name = "text" then some text
  else if name = "short" then some short
  else if name = "json" then some json
  else none

structure Display where
  format : ReportFormat := .text
  check : Bool := false
  /-- Show the formatted content instead of the names of changed files. -/
  content : Bool := false
  report : Bool := false
  quiet : Bool := false
  color : Bool := false
  deriving DecidableEq

/-- What was written, and what is known of the outcomes that were shown so far. -/
structure Shown where
  stdout : Text := []
  stderr : Text := []
  failed : Bool := false
  changed : Bool := false
  crashed : Bool := false
  deriving DecidableEq

namespace Shown

def append (a b : Shown) : Shown where
  stdout := a.stdout ++ b.stdout
  stderr := a.stderr ++ b.stderr
  failed := a.failed || b.failed
  changed := a.changed || b.changed
  crashed := a.crashed || b.crashed

def concat (parts : List Shown) : Shown := parts.foldr append {}

end Shown

def errorLine (outcome : Outcome) (error : FileError) : Text :=
  "fmt: " ++ outcome.path ++ ": " ++ error.message ++ "\n"

def showContent (outcome : Outcome) : Shown :=
  match outcome.error with
  | some error => { stderr := errorLine outcome error, failed := true }
  | none => { stdout := outcome.formatted.getD [], failed := outcome.bag.hasErrors }

def changeLine (display : Display) (outcome : Outcome) : Text :=
  if display.check then Style.paint display.color [Style.yellow] outcome.path ++ "\n"
  else "aligned " ++ outcome.path ++ "\n"

def showName (display : Display) (outcome : Outcome) : Shown :=
  match outcome.error with
  | some error => { stderr := errorLine outcome error, failed := true }
  | none =>
    { stdout := if outcome.changed && !display.quiet then changeLine display outcome else []
      failed := outcome.bag.hasErrors
      changed := outcome.changed }

/-! Diagnostics -/

def summarize (outcomes : List Outcome) : Text :=
  let failed := outcomes.countP fun outcome => outcome.error.isSome
  let changed := outcomes.countP fun outcome => outcome.error.isNone && outcome.changed
  let part (count : Nat) (what : Text) : Text :=
    if count = 0 then [] else ", " ++ Text.decimal count ++ what
  Text.decimal outcomes.length ++ " files" ++ part changed " aligned" ++ part failed " failed"

def reportOptions (color : Bool) : Diagnostic.PrettyOptions :=
  { color, context := 1, notes := true, fixes := true }

/-- The diagnostics of every file with their source lines, and a summary. -/
def reportText? (color : Bool) (set : FileSet) (cwd : Text) (outcomes : List Outcome) :
    Option Text :=
  (outcomes.mapM fun (outcome : Outcome) =>
    outcome.bag.sort.pretty? (some set) cwd (reportOptions color)).map fun reports =>
      reports.flatten ++ "fmt: " ++ summarize outcomes ++ "\n"

def reportShort (set : FileSet) (cwd : Text) (outcomes : List Outcome) : Text :=
  let diagnostics := outcomes.flatMap fun outcome => outcome.bag.items
  match Diagnostic.short (some set) cwd true diagnostics with
  | [] => []
  | text => text ++ "\n"

/-! The document -/

open Json in
def outcomeJson (display : Display) (set : FileSet) (cwd : Text) (outcome : Outcome) : Json :=
  let options : Diagnostic.DocumentOptions := { positions := true, notes := true, fixes := true }
  let diagnostics := if display.report then outcome.bag.sort.items else []
  object <|
    member "path" (string outcome.path) ++ member "changed" (bool outcome.changed) ++
    (match outcome.error with
      | none => member "mode" (string outcome.mode.name)
      | some _ => []) ++
    (if outcome.cacheHit then member "cache_hit" (bool true) else []) ++
    (match outcome.error with
      | none => []
      | some error => textMember "error" error.message) ++
    member "check" (bool display.check) ++
    listMember "diagnostics" (diagnostics.map (Diagnostic.toJson (some set) cwd options))

def documentOf (display : Display) (set : FileSet) (cwd : Text) (outcomes : List Outcome) : Text :=
  (Json.array (outcomes.map (outcomeJson display set cwd))).indented 0 ++ "\n"

def inDocument (outcome : Outcome) : Shown where
  failed := outcome.isFailed
  changed := outcome.changed

/-! All together -/

def quieten (display : Display) (outcome : Outcome) : Outcome :=
  if display.quiet then { outcome with bag := outcome.bag.filter .warning } else outcome

def showReport (display : Display) (set : FileSet) (cwd : Text) (outcomes : List Outcome) : Shown :=
  if !display.report then {}
  else if display.format = .short then { stderr := reportShort set cwd outcomes }
  else match reportText? display.color set cwd outcomes with
    | some text => { stderr := text }
    | none => { crashed := true }

def showOutcomes (display : Display) (set : FileSet) (cwd : Text) (outcomes : List Outcome) :
    Shown :=
  let outcomes := outcomes.map (quieten display)
  if display.format = .json then
    { Shown.concat (outcomes.map inDocument) with stdout := documentOf display set cwd outcomes }
  else
    let each := if display.content then showContent else showName display
    (Shown.concat (outcomes.map each)).append (showReport display set cwd outcomes)

inductive Verdict where
  | success
  | failed
  | changesRequired
  deriving DecidableEq

def Verdict.message? : Verdict → Option Text
  | success => none
  | failed => some "fmt: failed to format some files"
  | changesRequired => some "fmt: formatting changes required"

/-- A failure outweighs everything else; changes matter only to a check. -/
def verdict (display : Display) (shown : Shown) : Verdict :=
  if shown.failed then .failed
  else if display.check && shown.changed then .changesRequired
  else .success

end HdlAlign.Command
