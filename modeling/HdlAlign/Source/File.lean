import HdlAlign.Digest.Sha256
import HdlAlign.Source.Encoding
import HdlAlign.Source.LineRange
import HdlAlign.Source.Path
import HdlAlign.Source.Span

namespace HdlAlign

abbrev FileMarks := UInt8

namespace FileMarks

/-- The content did not come from disk. -/
def virtual : FileMarks := 1

/-- A byte order mark was removed. -/
def byteOrderMark : FileMarks := 2

/-- Carriage returns before newlines were removed. -/
def returns : FileMarks := 4

def utf16 : FileMarks := 8

def bigEndian : FileMarks := 16

def has (marks mark : FileMarks) : Bool := marks &&& mark != 0

def ofStorage : Storage → FileMarks
  | .plain => 0
  | .utf8Mark => byteOrderMark
  | .utf16 big => byteOrderMark ||| utf16 ||| if big then bigEndian else 0

def storage (marks : FileMarks) : Storage :=
  if marks.has bigEndian then .utf16 true
  else if marks.has utf16 then .utf16 false
  else if marks.has byteOrderMark then .utf8Mark
  else .plain

end FileMarks

/-- A version of a source file.  The content is plain text whose lines end in newlines. -/
structure SourceFile where
  id : FileId
  path : Text
  content : Text
  marks : FileMarks := 0

namespace SourceFile

def hash (file : SourceFile) : Digest := Digest.of file.content

def newlinesFrom (offset : Nat) : Text → List Nat
  | [] => []
  | byte :: rest =>
    if byte = Text.newline then offset :: newlinesFrom (offset + 1) rest
    else newlinesFrom (offset + 1) rest

/-- The offsets of the newlines, as far as 32 bits can tell them. -/
def newlines (file : SourceFile) : List Nat :=
  (newlinesFrom 0 file.content).takeWhile (· < 0x100000000)

/-- The number of lines; a last line without a newline counts. -/
def lineCount (file : SourceFile) : Nat :=
  file.newlines.length +
    match file.content.getLast? with
    | none => 0
    | some byte => if byte = Text.newline then 0 else 1

/-- The offset at which a line starts, 0 for a line that does not exist. -/
def lineStart (file : SourceFile) (line : Int) : Nat :=
  if line ≤ 1 then 0
  else match file.newlines[(line - 2).toNat]? with
    | none => 0
    | some offset => offset + 1

/-- The offset at which a line ends, before its newline. -/
def lineStop (file : SourceFile) (line : Int) : Nat :=
  (file.newlines[(line - 1).toNat]?).getD file.content.length

def slice (file : SourceFile) (start stop : Nat) : Text :=
  (file.content.take stop).drop start

/-- A line without its newline, empty if it does not exist. -/
def line (file : SourceFile) (number : Int) : Text :=
  if number < 1 || (file.lineCount : Int) < number then []
  else file.slice (file.lineStart number) (file.lineStop number)

def lineSpan (file : SourceFile) (number : Int) : Span :=
  let start := file.lineStart number
  let stop := start + (file.line number).length
  if stop < 0x100000000 then ⟨file.id, start.toUInt32, stop.toUInt32⟩ else ⟨file.id, 0, 0⟩

def position (file : SourceFile) (offset : UInt32) : Position :=
  let before := file.newlines.takeWhile (· < offset.toNat)
  let start : UInt32 := match before.getLast? with
    | none => 0
    | some newline => newline.toUInt32 + 1
  ⟨before.length.toUInt32 + 1, offset - start + 1⟩

/-! Selecting lines and putting text in their place -/

structure Selection where
  block : Text
  start : Nat
  stop : Nat
  deriving DecidableEq

def lastLine (file : SourceFile) (range : LineRange) : Int :=
  if range.last = 0 || (file.lineCount : Int) < range.last then file.lineCount else range.last

def lineEnd (file : SourceFile) (line : Int) : Nat :=
  match file.newlines[(line - 1).toNat]? with
  | none => file.content.length
  | some newline => newline + 1

/-- Selects lines.  An end past the last line is taken as the last line. -/
def select (file : SourceFile) (range : LineRange) : Except RangeError Selection :=
  if range.isZero then .ok ⟨file.content, 0, file.content.length⟩
  else if range.first < 1 || (file.lineCount : Int) < range.first then
    .error (.noSuchLine range file.lineCount)
  else if file.lastLine range < range.first then .error (.inverted range)
  else
    let start := file.lineStart range.first
    let stop := file.lineEnd (file.lastLine range)
    .ok ⟨file.slice start stop, start, stop⟩

def splice (file : SourceFile) (start stop : Nat) (block : Text) : Text :=
  file.content.take start ++ block ++ file.content.drop stop

/-- Replaces a part whose offsets must lie in the content. -/
def splice? (file : SourceFile) (start stop : Int) (block : Text) : Option Text :=
  if 0 ≤ start && start ≤ file.content.length && 0 ≤ stop && stop ≤ file.content.length then
    some (file.splice start.toNat stop.toNat block)
  else none

/-! Stored form -/

def encode (file : SourceFile) (content : Text) : Text :=
  file.marks.storage.encode
    (if file.marks.has FileMarks.returns then restoreReturns content else content)

/-! Naming files -/

inductive PathStyle where
  | automatic
  | absolute
  | relative
  | baseName
  | asStored
  deriving DecidableEq

def shortPath : Nat := 40

def showPath (file : SourceFile) (style : PathStyle) (cwd base : Text) : Text :=
  match style with
  | .absolute => Path.absolute cwd file.path
  | .relative => Path.seenFrom cwd (if base.isEmpty then cwd else base) file.path
  | .baseName => Path.base file.path
  | .automatic =>
    if file.path.length < shortPath || !Path.isAbsolute file.path then file.path
    else Path.base file.path
  | .asStored => file.path

end SourceFile

end HdlAlign
