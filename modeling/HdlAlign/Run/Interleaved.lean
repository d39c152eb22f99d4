import HdlAlign.Run.Format

/-! Files of one run that are worked on at the same time.  The work on a file shares the disk with
that on the others: it looks into the cache, stores an entry there, and writes the file.  Between
these accesses it depends on nothing else. -/

namespace HdlAlign

/-- How far the work on a file has come. -/
inductive Stage where
  | waiting
  /-- The cache was asked in vain; the block is to be aligned and stored. -/
  | missed (cache : Cache) (file : SourceFile) (selection : SourceFile.Selection)
      (failure : Option Cache.Failure)
  | answered (file : SourceFile) (selection : SourceFile.Selection) (answer : Cache.Answer)
  | finished (outcome : Outcome)

def Request.blockTimer (request : Request) : Timer :=
  let timer := ({} : Timer).measure "align" 0
  if request.verify then timer.measure "verify" 0 else timer

namespace SourceFile

def badRangeOutcome (file : SourceFile) (request : Request) (path : Text) (error : RangeError) :
    Outcome where
  path
  file := file.id
  error := some (.range error)
  bag := request.emptyBag.add (.error .badRange { file := file.id } error.message)

def answeredOutcome (file : SourceFile) (request : Request) (path : Text) (answer : Cache.Answer)
    (block : Text) : Outcome :=
  let bag := match answer.failure with
    | none => request.emptyBag
    | some failure => request.emptyBag.add (file.cacheReport failure)
  let bag := file.reportBlock request.firstLine answer.aligned bag
  let bag := if request.verify then file.verifyBlock request block bag else bag
  { path, file := file.id, bag, mode := answer.aligned.mode, cacheHit := answer.hit }

end SourceFile

structure Work where
  loaded : Run.Loaded
  stage : Stage := .waiting

namespace Work

def isFinished (work : Work) : Bool := match work.stage with
  | .finished _ => true
  | _ => false

def outcome? (work : Work) : Option Outcome := match work.stage with
  | .finished outcome => some outcome
  | _ => none

def step (request : Request) (disk : Disk) (work : Work) : Disk × Work :=
  match work.stage with
  | .waiting =>
    match work.loaded with
    | (path, .error failure) =>
      (disk, { work with stage := .finished (.notLoaded request path failure) })
    | (path, .ok file) =>
      match file.select request.lines with
      | .error error =>
        (disk, { work with stage := .finished (file.badRangeOutcome request path error) })
      | .ok selection =>
        match request.cache with
        | none =>
          let aligned := Block.align request.options selection.block
          (disk, { work with stage := .answered file selection { aligned } })
        | some cache =>
          let key := Cache.key selection.block request.options request.lines
          match cache.lookup disk key with
          | (some aligned, _) =>
            (disk, { work with stage := .answered file selection { aligned, hit := true } })
          | (none, failure) =>
            (disk, { work with stage := .missed cache file selection failure })
  | .missed cache file selection failure =>
    let key := Cache.key selection.block request.options request.lines
    let aligned := Block.align request.options selection.block
    match cache.put disk key (.ofAligned aligned) with
    | .error putFailure =>
      (disk, { work with
        stage := .answered file selection { aligned, failure := some (.disk putFailure) } })
    | .ok disk => (disk, { work with stage := .answered file selection { aligned, failure } })
  | .answered file selection answer =>
    let outcome := file.answeredOutcome request work.loaded.1 answer selection.block
    let (run, outcome) := ({ disk } : Run).deliver request file outcome selection
      answer.aligned.text none request.blockTimer
    (run.disk, { work with stage := .finished outcome })
  | .finished _ => (disk, work)

end Work

structure Interleaving where
  disk : Disk
  works : List Work

namespace Interleaving

/-- How many files are worked on at the same time: as many as asked for, or one for each
processor, but no more than there are. -/
def limit (jobs : Int) (processors files : Nat) : Nat :=
  min (if jobs ≤ 0 then processors else jobs.toNat) files

def start (disk : Disk) (files : List Text) : Interleaving :=
  ⟨disk, (Run.loadEach { disk } {} files).2.2.map fun loaded => { loaded }⟩

/-- The work on one file goes on.  It is begun in the order of the files, and only if there is
room below the limit. -/
inductive Move (request : Request) (limit : Nat) : Interleaving → Interleaving → Prop
  | next (disk : Disk) (before : List Work) (work : Work) (after : List Work)
      (begun : before.length < (before ++ work :: after).countP Work.isFinished + limit) :
      Move request limit ⟨disk, before ++ work :: after⟩
        ⟨(work.step request disk).1, before ++ (work.step request disk).2 :: after⟩

def go (request : Request) (limit : Nat) (run : Interleaving) (number : Nat) : Interleaving :=
  match run.works[number]? with
  | none => run
  | some work =>
    if number < run.works.countP Work.isFinished + limit then
      let (disk, work) := work.step request run.disk
      ⟨disk, run.works.set number work⟩
    else run

def isDone (run : Interleaving) : Bool := run.works.all Work.isFinished

def outcomes (run : Interleaving) : List Outcome := run.works.filterMap Work.outcome?

end Interleaving

end HdlAlign
