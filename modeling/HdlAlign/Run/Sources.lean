import HdlAlign.Settings.Basic
import HdlAlign.Text.Case

/-! The files that a list of paths stands for. -/

namespace HdlAlign.Sources

/-- The extensions that directories are searched for: the default ones, if none are given. -/
def searched (extensions : List Text) : List Text :=
  if extensions.isEmpty then Settings.defaultExtensions else extensions

/-- Whether the extension of a path, in lower case, is one of the given. -/
def hasExtension (extensions : List Text) (path : Text) : Bool :=
  extensions.contains (Text.lowerCase (Path.extension path))

def isHidden (name : Text) : Bool := name.head? == some 0x2E

mutual

/-- The files below a directory, in the order of their names, hidden directories left out.  Links
are files. -/
def below (disk : Disk) : (depth : Nat) → (place : Disk.Place) → (path : Text) → List Text
  | 0, _, _ => []
  | depth + 1, place, path => belowEach disk depth place path (disk.entries place)

def belowEach (disk : Disk) (depth : Nat) (place : Disk.Place) (path : Text) :
    List (Text × Disk.Node) → List Text
  | [] => []
  | (name, node) :: rest =>
    let inner := Path.join path name
    let here := match node with
      | .directory => if isHidden name then [] else below disk depth (place ++ [name]) inner
      | _ => [inner]
    here ++ belowEach disk depth place path rest

end

def depthBound (disk : Disk) : Nat :=
  disk.nodes.foldl (fun most (place, _) => max most (place.length + 1)) 1

/-- The files that a path stands for.  A file stands for itself whatever its extension; a
directory stands for the files below it with one of the extensions; a link to a directory counts
as a file of its own name. -/
def ofPath (disk : Disk) (extensions : List Text) (path : Text) :
    Except Disk.Failure (List Text) :=
  match disk.stat path with
  | .error failure => .error failure
  | .ok .directory =>
    match disk.find false path with
    | .ok (place, .directory) =>
      .ok ((below disk (depthBound disk) place path).filter (hasExtension extensions))
    | _ => .ok ([path].filter (hasExtension extensions))
  | .ok _ => .ok [path]

def ofPaths (disk : Disk) (extensions : List Text) : List Text → Except Disk.Failure (List Text)
  | [] => .ok []
  | path :: rest => do
    let here ← ofPath disk extensions path
    return here ++ (← ofPaths disk extensions rest)

def distinct : List Text → List Text
  | [] => []
  | path :: rest => path :: (distinct rest).filter (· != path)

/-- The files of a list of paths, each once, in the order of their paths, without excluded ones. -/
def collect (disk : Disk) (extensions : List Text) (excluded : Text → Bool) (paths : List Text) :
    Except Disk.Failure (List Text) := do
  let found ← ofPaths disk (searched extensions) paths
  return (distinct (found.filter (!excluded ·))).mergeSort Text.le

end HdlAlign.Sources
