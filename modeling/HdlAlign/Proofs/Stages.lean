import HdlAlign.Proofs.Delivery
import HdlAlign.Proofs.Transparency

/-! Stages of the work on a file: what it comes to if it is alone, and what it leaves on disk. -/

namespace HdlAlign

def Outcome.withoutHit (outcome : Outcome) : Outcome := { outcome with cacheHit := false }

namespace Bag

theorem mem_add_of_mem {bag : Bag} {d other : Diagnostic} (member : other ∈ bag.items) :
    other ∈ (bag.add d).items := by
  have grown : (bag.add d).Extends bag fun _ => True := extends_add bag trivial
  exact grown.subset member

theorem mem_addTimings_of_mem {bag : Bag} {d other : Diagnostic} (member : other ∈ bag.items) :
    other ∈ (bag.addTimings d).items := by
  have grown : (bag.addTimings d).Extends bag fun _ => True := extends_addTimings bag trivial
  exact grown.subset member

end Bag

theorem SourceFile.cacheReport_mem_blockBag (file : SourceFile) (request : Request)
    {answer : Cache.Answer} {failure : Cache.Failure} (failed : answer.failure = some failure)
    (block : Text) : file.cacheReport failure ∈ (file.blockBag request answer block).items := by
  have room : 0 < request.emptyBag.capacity.toNat := by
    have positive : 0 < request.diagnosticLimit := by
      rw [Request.diagnosticLimit]
      split <;> omega
    show 0 < (if request.diagnosticLimit < 0 then (0 : UInt16)
      else if 65535 < request.diagnosticLimit then 65535
      else request.diagnosticLimit.toNat.toUInt16).toNat
    rw [if_neg (by omega)]
    split
    · decide
    · simp
      omega
  -- It is the first of the reports that are offered to the empty bag.
  have first : file.cacheReport failure ∈
      ((file.firstReports request answer).foldl Bag.add request.emptyBag).items := by
    have holds : request.emptyBag.Holds := Bag.holds_ofLimit _
    rw [Bag.items_foldl_add holds, firstReports, failed]
    obtain ⟨n, capacity⟩ := Nat.exists_eq_succ_of_ne_zero (Nat.pos_iff_ne_zero.mp room)
    rw [capacity]
    exact List.mem_cons_self
  rw [blockBag]
  split
  · rw [verifyBlock]
    split
    · exact first
    · exact Bag.mem_add_of_mem first
  · exact first

namespace Run

/-! How little the outcome of a delivery depends on -/

theorem mem_succeed (run : Run) (request : Request) {outcome : Outcome} (span : Option Trace.Span)
    (timer : Timer) {d : Diagnostic} (member : d ∈ outcome.bag.items) :
    d ∈ (run.succeed request outcome span timer).2.bag.items := by
  rw [succeed]
  cases request.timings with
  | false => exact member
  | true => exact Bag.mem_addTimings_of_mem member

theorem mem_deliver (run : Run) (request : Request) (file : SourceFile) {outcome : Outcome}
    (selection : SourceFile.Selection) (text : Text) (span : Option Trace.Span) (timer : Timer)
    {d : Diagnostic} (member : d ∈ outcome.bag.items) :
    d ∈ (run.deliver request file outcome selection text span timer).2.bag.items := by
  generalize result : run.deliver request file outcome selection text span timer = delivered
  simp only [deliver] at result
  split at result
  · subst result
    apply mem_succeed
    split
    · exact Bag.mem_add_of_mem member
    · exact member
  · split at result
    · subst result
      exact mem_succeed _ _ _ _ member
    · split at result
      · split at result
        · subst result
          exact Bag.mem_add_of_mem member
        · subst result
          exact mem_succeed _ _ _ _ member
      · subst result
        exact mem_succeed _ _ _ _ member

theorem withoutHit_deliver {run other : Run} {request : Request} {file : SourceFile}
    {outcome outcome' : Outcome} (same : outcome.withoutHit = outcome'.withoutHit)
    (selection : SourceFile.Selection) (text : Text) (span span' : Option Trace.Span)
    (timer : Timer)
    (writable : ∀ disk ∈ [run.disk, other.disk], ∃ later, disk.write outcome.path
      (file.encode (file.splice selection.start selection.stop text)) 0o644 = .ok later) :
    (run.deliver request file outcome selection text span timer).2.withoutHit =
      (other.deliver request file outcome' selection text span' timer).2.withoutHit := by
  obtain ⟨hit, rfl⟩ : ∃ hit, outcome' = { outcome with cacheHit := hit } :=
    ⟨outcome'.cacheHit, by cases outcome; cases outcome'; cases same; rfl⟩
  obtain ⟨later, written⟩ := writable run.disk List.mem_cons_self
  obtain ⟨later', written'⟩ := writable other.disk (List.mem_cons_of_mem _ List.mem_cons_self)
  -- A write that succeeds does not show in the outcome, so neither disk does.
  simp only [deliver, writeFile, disk_countPhase, disk_emit, written, written']
  split
  · rfl
  · split
    · rfl
    · split
      · rfl
      · rfl

/-! A file alone -/

def alone (request : Request) (disk : Disk) (loaded : Loaded) : Run × Outcome :=
  formatLoaded { disk } { request with cache := none } 0 loaded

def Loaded.call? (request : Request) : Loaded → Option Call
  | (_, .error _) => none
  | (_, .ok file) =>
    match file.select request.lines with
    | .error _ => none
    | .ok selection => some { request, block := selection.block }

def Loaded.rewrite? (request : Request) : Loaded → Option Text
  | (_, .error _) => none
  | (_, .ok file) =>
    match file.select request.lines with
    | .error _ => none
    | .ok selection =>
      let text := (Block.align request.options selection.block).text
      let content := file.splice selection.start selection.stop text
      if request.check || request.stdout || content == file.content then none
      else some (file.encode content)

variable {request : Request} {disk : Disk} {path : Text} {file : SourceFile}

theorem alone_badRange {error : RangeError} (refused : file.select request.lines = .error error) :
    (alone request disk (path, .ok file)).2 = file.badRangeOutcome request path error := by
  have refused' : file.select { request with cache := none }.lines = .error error := refused
  simp only [alone, formatLoaded, formatFile, refused']
  rfl

theorem alone_selected {selection : SourceFile.Selection}
    (selected : file.select request.lines = .ok selection) :
    ∃ (begun : Run) (span : Option Trace.Span), begun.disk = disk ∧
      alone request disk (path, .ok file) =
        begun.deliver request file
          (file.blockOutcome request path { aligned := Block.align request.options selection.block }
            selection.block)
          selection (Block.align request.options selection.block).text span request.blockTimer := by
  have selected' : file.select { request with cache := none }.lines = .ok selection := selected
  exact formatFile_delivered { disk } path 0 selected'

theorem Loaded.rewrite?_selected {selection : SourceFile.Selection}
    (selected : file.select request.lines = .ok selection) :
    Loaded.rewrite? request (path, .ok file) =
      if request.check ∨ request.stdout ∨ file.splice selection.start selection.stop
          (Block.align request.options selection.block).text = file.content then none
      else some (file.encode (file.splice selection.start selection.stop
        (Block.align request.options selection.block).text)) := by
  simp [rewrite?, selected, or_assoc]

theorem disk_deliver_selected (run : Run) {selection : SourceFile.Selection}
    (selected : file.select request.lines = .ok selection) {outcome : Outcome}
    (named : outcome.path = path) (span : Option Trace.Span) (timer : Timer) {place : Disk.Place}
    {old : Text} {mode : Nat} (located : run.disk.locate true path = .ok place)
    (stored : run.disk.node? place = some (.file old mode)) :
    (run.deliver request file outcome selection (Block.align request.options selection.block).text
        span timer).1.disk =
      match Loaded.rewrite? request (path, .ok file) with
      | none => run.disk
      | some bytes => run.disk.set place (.file bytes mode) := by
  rw [Loaded.rewrite?_selected selected]
  by_cases dry : request.check ∨ request.stdout ∨ file.splice selection.start selection.stop
      (Block.align request.options selection.block).text = file.content
  · rw [if_pos dry, run.disk_deliver_of_dry outcome span timer dry]
  · rw [if_neg dry]
    simp only [not_or, Bool.not_eq_true] at dry
    have rewritten := run.deliver_rewrite outcome span timer dry.1 dry.2.1 dry.2.2
    simp only [named, Disk.write_eq_ok located stored] at rewritten
    exact rewritten.2

theorem disk_alone (entry : Loaded) {place : Disk.Place} {old : Text} {mode : Nat}
    (located : disk.locate true entry.1 = .ok place)
    (stored : disk.node? place = some (.file old mode)) :
    (alone request disk entry).1.disk =
      match entry.rewrite? request with
      | none => disk
      | some bytes => disk.set place (.file bytes mode) := by
  obtain ⟨path, failure | file⟩ := entry
  · rfl
  · cases selected : file.select request.lines with
    | error error =>
        have refused : file.select { request with cache := none }.lines = .error error := selected
        simp only [alone, formatLoaded, formatFile, refused, Loaded.rewrite?]
        rfl
    | ok selection =>
        obtain ⟨begun, span, rfl, formatted⟩ := @alone_selected request disk path file selection selected
        rw [formatted]
        exact begun.disk_deliver_selected selected rfl span _ located stored

end Run

/-! What is left on disk -/

namespace Disk

/-- The files of a later disk are those of a disk, but for what was left at some places. -/
def Left (disk : Disk) (left : Place → Node → Prop) (later : Disk) : Prop :=
  ∀ place data mode, later.node? place = some (.file data mode) ↔
    left place (.file data mode) ∨
      (∀ node, ¬ left place node) ∧ disk.node? place = some (.file data mode)

namespace Left

variable {disk later latest : Disk} {left left' : Place → Node → Prop}

theorem nothing (disk : Disk) (none : ∀ place node, ¬ left place node) : disk.Left left disk :=
  fun place _ _ =>
    ⟨fun found => .inr ⟨none place, found⟩, fun found => (found.resolve_left (none _ _)).2⟩

theorem congr (files : disk.Left left later)
    (same : ∀ place node, left' place node ↔ left place node) : disk.Left left' later := by
  intro place data mode
  simp only [same]
  exact files place data mode

theorem untouched (files : disk.Left left later) {place : Place} (none : ∀ node, ¬ left place node)
    (data : Text) (mode : Nat) :
    later.node? place = some (.file data mode) ↔ disk.node? place = some (.file data mode) := by
  rw [files]
  exact (or_iff_right (none _)).trans (and_iff_right none)

theorem add (files : disk.Left left later) {place : Place} {data : Text} {mode : Nat}
    (stored : ∀ other data' mode', latest.node? other = some (.file data' mode') ↔
      if other = place then data' = data ∧ mode' = mode
      else later.node? other = some (.file data' mode'))
    (agree : ∀ node, left place node → node = .file data mode)
    (more : ∀ other node, left' other node ↔
      left other node ∨ other = place ∧ node = .file data mode) : disk.Left left' latest := by
  intro other data' mode'
  rw [stored]
  by_cases same : other = place
  · subst same
    have only (node : Node) : left' other node ↔ node = .file data mode := by
      rw [more]
      exact ⟨fun found => found.elim (agree node) And.right, fun found => .inr ⟨rfl, found⟩⟩
    simp [only]
  · have kept (node : Node) : left' other node ↔ left other node := by simp [more, same]
    simp only [kept, if_neg same]
    exact files other data' mode'

end Left

end Disk

open Cache

def Cache.Lacks (cache : Cache) (disk : Disk) (key : Digest) : Prop :=
  ∀ payload, cache.get disk key ≠ .ok (some payload)

/-- The entry that the work on a loaded file leaves, if the cache lacks it at first. -/
inductive Run.Loaded.Stores (request : Request) (cache : Cache) (root : Disk.Place) (disk : Disk)
    (loaded : Run.Loaded) : Disk.Place → Disk.Node → Prop
  | entry (call : Call) (called : loaded.call? request = some call)
      (lacks : cache.Lacks disk call.key) :
    Stores request cache root disk loaded (root ++ [directoryName call.key, fileName call.key])
      (.file (Payload.ofAligned call.aligned).encode 0o600)

inductive Run.Loaded.Rewrites (request : Request) (disk : Disk) (loaded : Run.Loaded) :
    Disk.Place → Disk.Node → Prop
  | file (bytes : Text) (changed : loaded.rewrite? request = some bytes) (place : Disk.Place)
      (located : disk.locate true loaded.1 = .ok place) (old : Text) (mode : Nat)
      (stored : disk.node? place = some (.file old mode)) :
    Rewrites request disk loaded place (.file bytes mode)

theorem Run.Loaded.stores_iff {request : Request} {cache : Cache} {root : Disk.Place} {disk : Disk}
    {loaded : Run.Loaded} {call : Call} (called : loaded.call? request = some call)
    {place : Disk.Place} {node : Disk.Node} :
    loaded.Stores request cache root disk place node ↔
      cache.Lacks disk call.key ∧ place = root ++ [directoryName call.key, fileName call.key] ∧
        node = .file (Payload.ofAligned call.aligned).encode 0o600 := by
  constructor
  · rintro ⟨other, called', lacks⟩
    cases called.symm.trans called'
    exact ⟨lacks, rfl, rfl⟩
  · rintro ⟨lacks, rfl, rfl⟩
    exact .entry call called lacks

theorem Run.Loaded.rewrites_iff {request : Request} {disk : Disk} {loaded : Run.Loaded}
    {bytes : Text} (changed : loaded.rewrite? request = some bytes) {place : Disk.Place}
    (located : disk.locate true loaded.1 = .ok place) {old : Text} {mode : Nat}
    (stored : disk.node? place = some (.file old mode)) {other : Disk.Place} {node : Disk.Node} :
    loaded.Rewrites request disk other node ↔ other = place ∧ node = .file bytes mode := by
  constructor
  · rintro ⟨bytes', changed', place', located', old', mode', stored'⟩
    cases located.symm.trans located'
    cases stored.symm.trans stored'
    cases changed.symm.trans changed'
    exact ⟨rfl, rfl⟩
  · rintro ⟨rfl, rfl⟩
    exact .file bytes changed _ located old mode stored

def Stage.isAligned : Stage → Bool
  | .answered _ _ _ | .finished _ => true
  | _ => false

def Work.Leaves (request : Request) (cache : Cache) (root : Disk.Place) (disk : Disk) (work : Work)
    (place : Disk.Place) (node : Disk.Node) : Prop :=
  work.stage.isAligned ∧ work.loaded.Stores request cache root disk place node ∨
    work.isFinished ∧ work.loaded.Rewrites request disk place node

theorem Run.Loaded.not_rewrites {request : Request} {disk : Disk} {loaded : Run.Loaded}
    (unchanged : loaded.rewrite? request = none) (place : Disk.Place) (node : Disk.Node) :
    ¬ loaded.Rewrites request disk place node := by
  rintro ⟨bytes, changed, -⟩
  cases unchanged.symm.trans changed

theorem Run.Loaded.rewrite?_of_uncalled {request : Request} {loaded : Run.Loaded}
    (uncalled : loaded.call? request = none) : loaded.rewrite? request = none := by
  obtain ⟨path, failure | file⟩ := loaded
  · rfl
  · rw [call?] at uncalled
    rw [rewrite?]
    split at uncalled
    · rfl
    · cases uncalled

theorem Work.Leaves.entry {request : Request} {cache : Cache} {root : Disk.Place} {disk : Disk}
    {work : Work} {place : Disk.Place} {node : Disk.Node}
    (leaves : work.Leaves request cache root disk place node) :
    work.loaded.Stores request cache root disk place node ∨
      work.loaded.Rewrites request disk place node :=
  leaves.imp And.right And.right

theorem Work.not_leaves {request : Request} {cache : Cache} {root : Disk.Place} {disk : Disk}
    {work : Work} (early : work.stage.isAligned = false) (place : Disk.Place) (node : Disk.Node) :
    ¬ work.Leaves request cache root disk place node := by
  obtain ⟨loaded, stage⟩ := work
  cases stage <;> simp [Leaves, Stage.isAligned, isFinished] at early ⊢

theorem Work.leaves_answered {request : Request} {cache : Cache} {root : Disk.Place} {disk : Disk}
    {loaded : Run.Loaded} {file : SourceFile} {selection : SourceFile.Selection}
    {answer : Cache.Answer} {place : Disk.Place} {node : Disk.Node} :
    Leaves request cache root disk ⟨loaded, .answered file selection answer⟩ place node ↔
      loaded.Stores request cache root disk place node := by
  simp [Leaves, Stage.isAligned, isFinished]

theorem Work.leaves_finished {request : Request} {cache : Cache} {root : Disk.Place} {disk : Disk}
    {loaded : Run.Loaded} {outcome : Outcome} {place : Disk.Place} {node : Disk.Node} :
    Leaves request cache root disk ⟨loaded, .finished outcome⟩ place node ↔
      loaded.Stores request cache root disk place node ∨
        loaded.Rewrites request disk place node := by
  simp [Leaves, Stage.isAligned, isFinished]

/-- A stage of the work on a file at which the cache has not failed so far. -/
inductive Work.Fair (request : Request) (cache : Cache) (disk : Disk) : Work → Prop
  | waiting (loaded : Run.Loaded) : Fair request cache disk ⟨loaded, .waiting⟩
  | missed {path : Text} {file : SourceFile} {selection : SourceFile.Selection}
      (selected : file.select request.lines = .ok selection)
      (lacks : cache.Lacks disk (Cache.key selection.block request.options request.lines)) :
    Fair request cache disk ⟨(path, .ok file), .missed cache file selection none⟩
  | answered {path : Text} {file : SourceFile} {selection : SourceFile.Selection}
      {answer : Cache.Answer} (selected : file.select request.lines = .ok selection)
      (aligned : answer.aligned = Block.align request.options selection.block)
      (well : answer.failure = none) :
    Fair request cache disk ⟨(path, .ok file), .answered file selection answer⟩
  | finished {loaded : Run.Loaded} {outcome : Outcome}
      (same : outcome.withoutHit = (Run.alone request disk loaded).2.withoutHit) :
    Fair request cache disk ⟨loaded, .finished outcome⟩

end HdlAlign
