import HdlAlign.Cache.Payload
import HdlAlign.Digest.Sha256
import HdlAlign.Disk
import HdlAlign.Source.LineRange

/-! Cached outcomes on disk, one file for each key. -/

namespace HdlAlign

structure Cache where
  directory : Text
  deriving DecidableEq

namespace Cache

/-- The key of a block: its digest together with those of the options and of the selected lines. -/
def key (block : Text) (options : Options) (lines : LineRange) : Digest :=
  .combine [.of block,
    .of ("condense=" ++ flag options.condense ++ " eol=" ++ flag options.endOfLine),
    .of lines.toText]
where
  flag (b : Bool) : Text := if b then "true" else "false"

inductive Failure where
  | disk (failure : Disk.Failure)
  | undecodable
  deriving DecidableEq

def Failure.message : Failure → Text
  | disk failure => failure.message
  | undecodable => "decode error"

def open? (disk : Disk) (directory : Text) : Except Disk.Failure (Disk × Cache) := do
  let disk ← disk.makeDirectories directory
  return (disk, ⟨directory⟩)

def blocks (cache : Cache) : Text := Path.join cache.directory "blocks"

/-- The file of a key lies in a directory that is named for its first byte. -/
def file (cache : Cache) (key : Digest) : Text :=
  Path.join (Path.join cache.blocks (Text.hex (key.take 1))) (Text.hex key ++ ".mp")

/-- The payload of a key.  One of another version is as good as none. -/
def get (cache : Cache) (disk : Disk) (key : Digest) : Except Failure (Option Payload) :=
  match disk.read (cache.file key) with
  | .error failure => if failure.cause = .noEntry then .ok none else .error (.disk failure)
  | .ok bytes =>
    match Payload.decode? bytes with
    | none => .error .undecodable
    | some payload => .ok (if payload.schema = schema then some payload else none)

def put (cache : Cache) (disk : Disk) (key : Digest) (payload : Payload) :
    Except Disk.Failure Disk := do
  let path := cache.file key
  let disk ← disk.makeDirectories (Path.directory path)
  disk.replace path payload.encode 0o600

def drop (cache : Cache) (disk : Disk) : Disk :=
  match disk.locate false cache.blocks with
  | .error _ => disk
  | .ok place => disk.eraseTree place

end Cache

end HdlAlign
