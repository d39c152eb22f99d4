import HdlAlign.Block.Stability
import HdlAlign.Cache.Store
import HdlAlign.Disk
import HdlAlign.Source.FileSet
import HdlAlign.Timing.Timer

/-! Formatting one file: what is asked for, what comes of it, and the diagnostics on the way. -/

namespace HdlAlign

structure Request where
  check : Bool := false
  /-- Give back the formatted bytes and leave the files alone. -/
  stdout : Bool := false
  /-- Align every block a second time and report a difference. -/
  verify : Bool := false
  timings : Bool := false
  options : Options := {}
  lines : LineRange := {}
  /-- The number of diagnostics kept for each file; none and less stand for a default. -/
  limit : Int := 0
  extensions : List Text := []
  excluded : Text → Bool := fun _ => false
  cache : Option Cache := none

namespace Request

def diagnosticLimit (request : Request) : Int := if request.limit ≤ 0 then 256 else request.limit

def firstLine (request : Request) : Int := max request.lines.first 1

def emptyBag (request : Request) : Bag := .ofLimit request.diagnosticLimit

end Request

inductive FileError where
  | load (failure : Disk.Failure)
  | range (error : RangeError)
  | write (path : Text) (failure : Disk.Failure)
  deriving DecidableEq

def FileError.message : FileError → Text
  | load failure => failure.message
  | range error => error.message
  | write path failure => "write " ++ path ++ ": " ++ failure.message

structure Outcome where
  path : Text
  file : FileId := 0
  changed : Bool := false
  error : Option FileError := none
  formatted : Option Text := none
  mode : Mode := .empty
  cacheHit : Bool := false
  bag : Bag

namespace Outcome

def notLoaded (request : Request) (path : Text) (failure : Disk.Failure) : Outcome where
  path
  error := some (.load failure)
  bag := request.emptyBag.add
    (.error .loadError {} ("failed to load file: " ++ failure.message))

def isFailed (outcome : Outcome) : Bool := outcome.error.isSome || outcome.bag.hasErrors

end Outcome

namespace Cache

/-- A block as the cache or the engine aligns it. -/
structure Answer where
  aligned : Aligned
  hit : Bool := false
  /-- What is wrong with the cache; the block is aligned all the same. -/
  failure : Option Cache.Failure := none

def lookup (cache : Cache) (disk : Disk) (key : Digest) : Option Aligned × Option Failure :=
  match cache.get disk key with
  | .ok (some payload) => (some payload.toAligned, none)
  | .ok none => (none, none)
  | .error failure => (none, some failure)

/-- Aligns a block, if the cache does not hold it, and stores the outcome.  A failure to store is
reported before one to look up. -/
def align (cache : Option Cache) (disk : Disk) (block : Text) (options : Options)
    (lines : LineRange) : Disk × Answer :=
  match cache with
  | none => (disk, { aligned := Block.align options block })
  | some cache =>
    let key := Cache.key block options lines
    match cache.lookup disk key with
    | (some aligned, _) => (disk, { aligned, hit := true })
    | (none, failure) =>
      let aligned := Block.align options block
      match cache.put disk key (.ofAligned aligned) with
      | .error putFailure => (disk, { aligned, failure := some (.disk putFailure) })
      | .ok disk => (disk, { aligned, failure })

end Cache

namespace SourceFile

/-! Diagnostics on a block.  `first` is the line at which the block begins. -/

def verbatimReport (file : SourceFile) (first index : Int) : Diagnostic :=
  { severity := .info, code := .verbatimLine, span := file.lineSpan (first + index)
    message := "line left untouched" }

def mismatchReport (file : SourceFile) (first : Int) : Diagnostic :=
  Diagnostic.withNote
    { severity := .warning, code := .rangeDimensions, span := file.lineSpan first
      message := "bracket group counts differ inside the block; missing groups are padded" }
    (file.lineSpan first) "lines with fewer groups get empty columns"

def nothingReport (file : SourceFile) (first : Int) (mode : Mode) : Diagnostic :=
  { severity := .info, code := .noAlignedLines, span := file.lineSpan first
    message := "no " ++ mode.name ++ " to align" }

def blockReports (file : SourceFile) (first : Int) (aligned : Aligned) : List Diagnostic :=
  if aligned.mode = .empty then []
  else
    aligned.verbatim.map (file.verbatimReport first) ++
      (if aligned.rangeMismatch then [file.mismatchReport first] else []) ++
      (if aligned.count = 0 then [file.nothingReport first aligned.mode] else [])

def reportBlock (file : SourceFile) (first : Int) (aligned : Aligned) (bag : Bag) : Bag :=
  ((file.blockReports first aligned).foldl Collector.report { bag := bag }).bag

def cacheReport (file : SourceFile) (failure : Cache.Failure) : Diagnostic :=
  { severity := .warning, code := .cacheError, span := { file := file.id }
    message := "cache: " ++ failure.message }

/-- The span of a part of the content, empty if 32 bits cannot express it. -/
def partSpan (file : SourceFile) (start stop : Nat) : Span :=
  if start < 0x100000000 && stop < 0x100000000 then ⟨file.id, start.toUInt32, stop.toUInt32⟩
  else { file := file.id }

/-- The report that a block is not aligned, with the edit that aligns it. -/
def changeReport (file : SourceFile) (selection : Selection) (text : Text) : Diagnostic :=
  let span := file.partSpan selection.start selection.stop
  Diagnostic.withFix
    { severity := .warning, code := .wouldChange, span, message := "block is not aligned" }
    "align block" [⟨span, text⟩]

def checkStability (file : SourceFile) (lines : LineRange) (options : Options) : Bool × Text :=
  match file.select lines with
  | .error error => (false, "fmt-check: " ++ error.message)
  | .ok selection =>
    let stability := Block.stability options selection.block
    (stability.isStable, stability.message)

def verifyBlock (file : SourceFile) (request : Request) (block : Text) (bag : Bag) : Bag :=
  let stability := Block.stability request.options block
  if stability.isStable then bag
  else bag.add (.error .notIdempotent (file.lineSpan request.firstLine) stability.message)

end SourceFile

end HdlAlign
