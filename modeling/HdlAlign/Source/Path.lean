import HdlAlign.Text.Basic

/-! Slash-separated paths. -/

namespace HdlAlign.Path

def slash : UInt8 := 0x2F

def dot : Text := "."

def dotDot : Text := ".."

def isAbsolute (path : Text) : Bool := path.head? == some slash

def names (path : Text) : List Text :=
  (Text.splitOn slash path).filter fun name => !name.isEmpty

/-- Takes in one name: a dot changes nothing, two dots take back the name before, if there is one
to take back.  Names are kept newest first. -/
def step (absolute : Bool) (kept : List Text) (name : Text) : List Text :=
  if name = dot then kept
  else if name = dotDot then
    match kept with
    | [] => if absolute then [] else [dotDot]
    | last :: before => if last = dotDot then dotDot :: kept else before
  else name :: kept

/-- The names of a path without dots and without pairs that cancel out. -/
def cleanNames (path : Text) : List Text :=
  ((names path).foldl (step (isAbsolute path)) []).reverse

def ofNames (absolute : Bool) (names : List Text) : Text :=
  if absolute then slash :: Text.join [slash] names
  else if names.isEmpty then dot
  else Text.join [slash] names

/-- The shortest path that means the same. -/
def clean (path : Text) : Text := ofNames (isAbsolute path) (cleanNames path)

def join (directory path : Text) : Text :=
  match directory, path with
  | [], [] => []
  | [], path => clean path
  | directory, [] => clean directory
  | directory, path => clean (directory ++ slash :: path)

def absolute (cwd path : Text) : Text :=
  if isAbsolute path then clean path else join cwd path

def dropCommon : List Text → List Text → List Text × List Text
  | a :: as, b :: bs => if a = b then dropCommon as bs else (a :: as, b :: bs)
  | as, bs => (as, bs)

/-- The way from one directory to a path, where both are absolute or both relative.  No way leads
out of a directory that itself begins with two dots. -/
def relative? (base target : Text) : Option Text :=
  if clean base = clean target then some dot
  else if isAbsolute base != isAbsolute target then none
  else
    let targetNames := if clean target = dot then [dot] else cleanNames target
    let (up, down) := dropCommon (cleanNames base) targetNames
    if up.head? = some dotDot then none
    else some (Text.join [slash] (List.replicate up.length dotDot ++ down))

/-- A path as seen from a directory; what lies outside it is written absolute. -/
def seenFrom (cwd base path : Text) : Text :=
  let whole := absolute cwd path
  match relative? (absolute cwd base) whole with
  | none => whole
  | some way => if (cleanNames way).head? = some dotDot then whole else clean way

def base (path : Text) : Text :=
  if path.isEmpty then dot
  else match Text.afterLast slash (Text.dropTailWhile (· == slash) path) with
    | [] => [slash]
    | name => name

def directory (path : Text) : Text :=
  clean (path.take (path.length - (Text.afterLast slash path).length))

/-- From the last dot of the last name on, empty if it has none. -/
def extension (path : Text) : Text :=
  let name := Text.afterLast slash path
  match Text.beforeLast? '.' name with
  | none => []
  | some before => name.drop before.length

end HdlAlign.Path
