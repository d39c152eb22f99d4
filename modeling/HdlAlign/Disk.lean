import HdlAlign.Source.Path

/-! Files, directories and symbolic links, as a value. -/

namespace HdlAlign

namespace Disk

inductive Node where
  | file (data : Text) (mode : Nat)
  | directory
  | link (target : Text)
  deriving DecidableEq

inductive Cause where
  | noEntry
  | notDirectory
  | isDirectory
  | alreadyThere
  | notEmpty
  | tooManyLinks
  deriving DecidableEq

def Cause.message : Cause → Text
  | noEntry => "no such file or directory"
  | notDirectory => "not a directory"
  | isDirectory => "is a directory"
  | alreadyThere => "file exists"
  | notEmpty => "directory not empty"
  | tooManyLinks => "too many levels of symbolic links"

structure Failure where
  operation : Text
  path : Text
  cause : Cause
  deriving DecidableEq

def Failure.message (failure : Failure) : Text :=
  failure.operation ++ " " ++ failure.path ++ ": " ++ failure.cause.message

/-- A place, as the names on the way from the root. -/
abbrev Place := List Text

end Disk

/-- Everything that is stored, and the working directory.  The root is always a directory. -/
structure Disk where
  nodes : List (Disk.Place × Disk.Node) := []
  cwd : Disk.Place := []

namespace Disk

def cwdPath (disk : Disk) : Text := Path.ofNames true disk.cwd

def node? (disk : Disk) (place : Place) : Option Node :=
  if place.isEmpty then some .directory else disk.nodes.lookup place

def set (disk : Disk) (place : Place) (node : Node) : Disk :=
  { disk with nodes := (place, node) :: disk.nodes.filter fun entry => entry.1 != place }

def erase (disk : Disk) (place : Place) : Disk :=
  { disk with nodes := disk.nodes.filter fun entry => entry.1 != place }

/-- The names to walk for a path; a slash at its end asks for a directory. -/
def steps (path : Text) : List Text :=
  Path.names path ++ if path.getLast? = some Path.slash then [Path.dot] else []

def maxLinks : Nat := 40

/-- Walks names from a directory.  The last name need not exist, and a link there is followed only
if asked for.  Each link costs a unit of `links`. -/
def walk (disk : Disk) (follow : Bool) :
    (links : Nat) → (steps : Nat) → Place → List Text → Except Cause Place
  | _, _, place, [] => .ok place
  | _, 0, _, _ :: _ => .error .tooManyLinks
  | links, n + 1, place, name :: rest =>
    if name = Path.dot then disk.walk follow links n place rest
    else if name = Path.dotDot then disk.walk follow links n place.dropLast rest
    else
      let next := place ++ [name]
      match disk.node? next with
      | none => if rest.isEmpty then .ok next else .error .noEntry
      | some .directory => disk.walk follow links n next rest
      | some (.file _ _) => if rest.isEmpty then .ok next else .error .notDirectory
      | some (.link target) =>
        if rest.isEmpty && !follow then .ok next
        else match links with
          | 0 => .error .tooManyLinks
          | links + 1 =>
            disk.walk follow links n (if Path.isAbsolute target then [] else place)
              (steps target ++ rest)

/-- A bound on the names that a walk takes in: those of the path and of every link it follows. -/
def walkBound (disk : Disk) (path : Text) : Nat :=
  let longest := disk.nodes.foldl (fun most (_, node) =>
    match node with
    | .link target => max most (target.length + 1)
    | _ => most) 0
  path.length + 2 + (maxLinks + 1) * longest

def locate (disk : Disk) (follow : Bool) (path : Text) : Except Cause Place :=
  if path.isEmpty then .error .noEntry
  else disk.walk follow maxLinks (disk.walkBound path)
    (if Path.isAbsolute path then [] else disk.cwd) (steps path)

def find (disk : Disk) (follow : Bool) (path : Text) : Except Cause (Place × Node) :=
  match disk.locate follow path with
  | .error cause => .error cause
  | .ok place =>
    match disk.node? place with
    | none => .error .noEntry
    | some node => .ok (place, node)

def stat (disk : Disk) (path : Text) : Except Failure Node :=
  match disk.find true path with
  | .error cause => .error ⟨"stat", path, cause⟩
  | .ok (_, node) => .ok node

def read (disk : Disk) (path : Text) : Except Failure Text :=
  match disk.find true path with
  | .error cause => .error ⟨"open", path, cause⟩
  | .ok (_, .file data _) => .ok data
  | .ok _ => .error ⟨"read", path, .isDirectory⟩

/-- Writes a file; a new one gets the mode, an old one keeps its own. -/
def write (disk : Disk) (path data : Text) (mode : Nat) : Except Failure Disk :=
  match disk.locate true path with
  | .error cause => .error ⟨"open", path, cause⟩
  | .ok place =>
    match disk.node? place with
    | some (.file _ old) => .ok (disk.set place (.file data old))
    | some _ => .error ⟨"open", path, .isDirectory⟩
    | none =>
      match disk.node? place.dropLast with
      | some .directory => .ok (disk.set place (.file data mode))
      | some _ => .error ⟨"open", path, .notDirectory⟩
      | none => .error ⟨"open", path, .noEntry⟩

/-- Puts a new file in the place of a name, whatever file or link it was before. -/
def replace (disk : Disk) (path data : Text) (mode : Nat) : Except Failure Disk :=
  match disk.locate false path with
  | .error cause => .error ⟨"open", path, cause⟩
  | .ok place =>
    match disk.node? place with
    | some .directory => .error ⟨"rename", path, .alreadyThere⟩
    | _ => .ok (disk.set place (.file data mode))

def isDirectory (disk : Disk) (path : Text) : Bool :=
  match disk.find true path with
  | .ok (_, .directory) => true
  | _ => false

def makeDirectory (disk : Disk) (path : Text) : Except Failure Disk :=
  match disk.locate false path with
  | .error cause => .error ⟨"mkdir", path, cause⟩
  | .ok place =>
    if (disk.node? place).isSome then .error ⟨"mkdir", path, .alreadyThere⟩
    else .ok (disk.set place .directory)

/-- Makes a directory and those on the way to it, given as ever longer paths. -/
def makeEach (disk : Disk) : List Text → Except Failure Disk
  | [] => .ok disk
  | path :: rest =>
    match disk.find true path with
    | .ok (_, .directory) => disk.makeEach rest
    | .ok _ => .error ⟨"mkdir", path, .notDirectory⟩
    | .error _ =>
      match disk.makeDirectory path with
      | .ok disk => disk.makeEach rest
      | .error failure => .error failure

def leadingPaths (path : Text) : List Text :=
  (List.range path.length).filterMap fun i =>
    let part := path.take (i + 1)
    if part.getLast? = some Path.slash then none
    else match path[i + 1]? with
      | none => some part
      | some byte => if byte = Path.slash then some part else none

def makeDirectories (disk : Disk) (path : Text) : Except Failure Disk :=
  if disk.isDirectory path then .ok disk else disk.makeEach (leadingPaths path)

def entries (disk : Disk) (place : Place) : List (Text × Node) :=
  let found := disk.nodes.filterMap fun (at_, node) =>
    if at_.dropLast = place then at_.getLast?.map fun name => (name, node) else none
  found.mergeSort fun a b => Text.le a.1 b.1

def isWithin (place directory : Place) : Bool := directory.isPrefixOf place

def eraseTree (disk : Disk) (place : Place) : Disk :=
  { disk with nodes := disk.nodes.filter fun entry => !isWithin entry.1 place }

end Disk

end HdlAlign
