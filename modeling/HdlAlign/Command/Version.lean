import HdlAlign.Json.Value
import HdlAlign.Text.Blank
import HdlAlign.Text.Style

/-! What the program knows about its own build. -/

namespace HdlAlign

structure BuildInfo where
  version : Text := "0.1.0-dev"
  commit : Text := []
  message : Text := []
  date : Text := []
  deriving DecidableEq

namespace BuildInfo

/-- The parts without blanks around them; a version always has a name. -/
def trimmed (info : BuildInfo) : BuildInfo :=
  let version := Text.trim info.version
  { version := if version.isEmpty then Text.ofString "dev" else version
    commit := Text.trim info.commit
    message := Text.trim info.message
    date := Text.trim info.date }

end BuildInfo

namespace Version

def isSuffixMark (byte : UInt8) : Bool := byte == '-' || byte == '+'

/-- The version with a colour for each of its three numbers.  One without three parts stays as it
is, and so does what follows the numbers. -/
def paint (color : Bool) (version : Text) : Text :=
  let core := version.takeWhile (!isSuffixMark ·)
  match Text.splitOn '.' core with
  | [major, minor, patch] =>
    Style.paint color [Style.yellow, Style.bold] major ++ "." ++
      Style.paint color [Style.green, Style.bold] minor ++ "." ++
      Style.paint color [Style.blue, Style.bold] patch ++ version.dropWhile (!isSuffixMark ·)
  | _ => version

structure Parts where
  commit : Bool := false
  message : Bool := false
  date : Bool := false
  deriving DecidableEq

def orUnknown (text : Text) : Text := if text.isEmpty then "unknown" else text

def pretty (color : Bool) (info : BuildInfo) (parts : Parts) : Text :=
  let line (shown : Bool) (label value : Text) : Text :=
    if shown then label ++ orUnknown value ++ "\n" else []
  "vlalign " ++ paint color info.version ++ "\n" ++ line parts.commit "commit:  " info.commit ++
    line parts.message "message: " info.message ++ line parts.date "built:   " info.date

open Json in
def document (info : BuildInfo) (parts : Parts) : Text :=
  let part (shown : Bool) (name : String) (value : Text) : List (Text × Json) :=
    if shown then member name (string (orUnknown value)) else []
  let json := object <|
    member "tool" (string "vlalign") ++ member "version" (string info.version) ++
    part parts.commit "git_commit" info.commit ++ part parts.message "git_message" info.message ++
    part parts.date "build_date" info.date
  json.indented 0 ++ "\n"

end Version

end HdlAlign
