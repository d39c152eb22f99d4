import HdlAlign.Settings.Basic

/-! The settings file that applies to a directory: the nearest one on the way to the root. -/

namespace HdlAlign.Settings

def fileName : Text := ".vlalign.toml"

def upward : Nat → Disk.Place → List Disk.Place
  | 0, place => [place]
  | n + 1, place => if place.isEmpty then [place] else place :: upward n place.dropLast

def findIn (disk : Disk) : List Disk.Place → Except SettingsError (Option Text)
  | [] => .ok none
  | place :: rest =>
    let candidate := Path.join (Path.ofNames true place) fileName
    match disk.stat candidate with
    | .ok _ => .ok (some candidate)
    | .error failure =>
      if failure.cause = .noEntry then findIn disk rest
      else .error (.notSearchable candidate failure)

def find? (disk : Disk) (start : Text) : Except SettingsError (Option Text) :=
  let start := if start.isEmpty then Path.dot else start
  let names := Path.cleanNames (Path.absolute disk.cwdPath start)
  findIn disk (upward names.length names)

def findRoot? (disk : Disk) (start : Text) : Except SettingsError (Option Text) :=
  (find? disk start).map fun path => path.map Path.directory

/-- What looking for settings came to.  Settings that cannot be used leave the defaults. -/
structure Discovery where
  settings : Settings := {}
  found : Bool := false
  error : Option SettingsError := none

def discover (disk : Disk) (start : Text) : Discovery :=
  match find? disk start with
  | .error error => { error := some error }
  | .ok none => {}
  | .ok (some path) =>
    match load disk path with
    | .error error => { found := true, error := some error }
    | .ok settings => { found := true, settings }

end HdlAlign.Settings
