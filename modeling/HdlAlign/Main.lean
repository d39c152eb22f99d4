import HdlAlign.Command.Execute

/-! The program.  What a command may need of the real files is taken into a value, the command runs
on that value, and what it changed is written back. -/

namespace HdlAlign.Program

def stringOf (text : Text) : String := (Utf8.toString? text).getD ""

def pathOf (place : Disk.Place) : String := stringOf (Path.ofNames true place)

/-! Taking in -/

/-- What is stored at an absolute path.  A link is taken to lead to what it stands for in the end,
and a broken one to a path that is never taken in. -/
def nodeAt? (path : String) : IO (Option Disk.Node) := do
  let file := (← IO.currentDir) / path
  try
    match (← file.symlinkMetadata).type with
    | .dir => return some .directory
    | .symlink =>
      if ← file.pathExists then
        return some (.link (Text.ofString (← IO.FS.realPath path).toString))
      else return some (.link "/nowhere/at/all")
    | _ => return some (.file (← IO.FS.readBinFile path).toList 0o644)
  catch _ => return none

def takeNode (disk : Disk) (place : Disk.Place) : IO Disk := do
  if (disk.node? place).isSome then return disk
  match ← nodeAt? (pathOf place) with
  | none => return disk
  | some node => return disk.set place node

def takeWay (disk : Disk) (place : Disk.Place) : IO Disk :=
  (List.range place.length).foldlM (fun disk i => takeNode disk (place.take (i + 1))) disk

def realPlace (path : Text) : IO Disk.Place := do
  try return Path.cleanNames (Text.ofString (← IO.FS.realPath (stringOf path)).toString)
  catch _ => return Path.cleanNames path

def takePath (disk : Disk) (path : Text) : IO Disk := do
  let whole := Path.absolute disk.cwdPath path
  let disk ← takeWay disk (Path.cleanNames whole)
  let disk ← takeWay disk (← realPlace (Path.directory whole))
  takeWay disk (← realPlace whole)

/-- Takes in the files below a directory whose names are wanted, hidden directories left out. -/
partial def takeBelow (wanted : Text → Bool) (disk : Disk) (place : Disk.Place) : IO Disk := do
  let directory := (← IO.currentDir) / pathOf place
  let entries ← try directory.readDir catch _ => pure #[]
  entries.foldlM (fun disk entry => do
    let name := Text.ofString entry.fileName
    let inner := place ++ [name]
    if ← (directory / entry.fileName).isDir then
      let disk ← takeNode disk inner
      if Sources.isHidden name || disk.node? inner != some .directory then return disk
      else takeBelow wanted disk inner
    else if wanted name then takePath disk (Path.ofNames true inner)
    else return disk) disk

def takeTree (wanted : Text → Bool) (disk : Disk) (path : Text) : IO Disk := do
  let disk ← takePath disk path
  match disk.find true path with
  | .ok (place, .directory) => takeBelow wanted disk place
  | _ => return disk

def takeSettings (disk : Disk) : IO Disk :=
  (Settings.upward disk.cwd.length disk.cwd).foldlM
    (fun disk place => takeNode disk (place ++ [Settings.fileName])) disk

def takeSources (around : Command.Surroundings) (settings : Settings) (parsed : Command.Parsed) :
    IO Disk := do
  let disk ← parsed.arguments.foldlM (takeTree (Sources.hasExtension settings.extensions))
    around.disk
  if !(parsed.toggle? "cache").getD settings.cacheEnabled then return disk
  match Command.cacheDirectory? around settings with
  | none => return disk
  | some directory => takeTree (fun _ => true) disk directory

partial def readAll (stream : IO.FS.Stream) (bytes : ByteArray) : IO ByteArray := do
  let more ← stream.read 65536
  if more.isEmpty then return bytes else readAll stream (bytes ++ more)

def workingDirectory : IO Disk := do
  let path := Text.ofString (← IO.currentDir).toString
  takePath { cwd := Path.cleanNames path } path

def readVariable (name : String) : IO Text :=
  return Text.ofString ((← IO.getEnv name).getD "")

def gather (arguments : List Text) : IO Command.Surroundings := do
  let disk ← takeSettings (← workingDirectory)
  let around : Command.Surroundings :=
    { disk, terminal := ← (← IO.getStdout).isTty, cacheHome := ← readVariable "XDG_CACHE_HOME"
      home := ← readVariable "HOME" }
  let .ok (sub, parsed) := Command.readLine arguments | return around
  let named := [parsed.text "config" "", parsed.text "trace" ""].filter (!·.isEmpty)
  let around := { around with disk := ← named.foldlM takePath disk }
  if sub != some .format || parsed.toggle "help" then return around
  let stdin ← if Command.isFromInput parsed.arguments then
      pure (← readAll (← IO.getStdin) .empty).toList
    else pure []
  match Command.readSettings around.disk parsed with
  | .error _ => return { around with stdin }
  | .ok settings => return { around with stdin, disk := ← takeSources around settings parsed }

/-! Writing back -/

/-- Stores what was not there before, or had other bytes.  Old files keep their modes. -/
def writeNode (before : Disk) (place : Disk.Place) (node : Disk.Node) : IO Unit := do
  let path := pathOf place
  let old := before.node? place
  match node with
  | .directory => if old.isNone then IO.FS.createDirAll path
  | .file data mode =>
    if old != some node then
      IO.FS.writeBinFile path ⟨data.toArray⟩
      if old.isNone && mode = 0o600 then
        IO.setAccessRights path { user := { read := true, write := true } }
  | .link _ => pure ()

def writeBack (before after : Disk) : IO Unit :=
  (after.nodes.mergeSort fun a b => a.1.length ≤ b.1.length).forM fun (place, node) =>
    writeNode before place node

def print (stream : IO.FS.Stream) (text : Text) : IO Unit := do
  stream.write ⟨text.toArray⟩
  stream.flush

end HdlAlign.Program

open HdlAlign in
/-- Runs a command line.  Every failure ends the program with 1, and a crash with 2. -/
def main (arguments : List String) : IO UInt32 := do
  let arguments := arguments.map Text.ofString
  let around ← Program.gather arguments
  let result := Command.execute {} around arguments
  Program.writeBack around.disk result.disk
  Program.print (← IO.getStdout) result.stdout
  Program.print (← IO.getStderr) result.errorOutput
  return if result.crashed then 2 else if result.error.isSome then 1 else 0
