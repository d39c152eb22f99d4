import HdlAlign.Proofs.Reporting
import HdlAlign.Proofs.Walks
import HdlAlign.Run.Interleaved

/-! How the work on a file ends: the selected block is aligned, reported on, and delivered. -/

namespace HdlAlign

namespace SourceFile

def firstReports (file : SourceFile) (request : Request) (answer : Cache.Answer) :
    List Diagnostic :=
  answer.failure.toList.map file.cacheReport ++
    Collector.fresh [] (file.blockReports request.firstLine answer.aligned)

theorem foldl_firstReports (file : SourceFile) (request : Request) (answer : Cache.Answer) :
    (file.firstReports request answer).foldl Bag.add request.emptyBag =
      file.reportBlock request.firstLine answer.aligned
        (answer.failure.elim request.emptyBag fun failure =>
          request.emptyBag.add (file.cacheReport failure)) := by
  rw [reportBlock, Collector.bag_foldl_report, firstReports, List.foldl_append]
  cases answer.failure <;> rfl

def blockBag (file : SourceFile) (request : Request) (answer : Cache.Answer) (block : Text) : Bag :=
  let bag := (file.firstReports request answer).foldl Bag.add request.emptyBag
  if request.verify then file.verifyBlock request block bag else bag

def blockOutcome (file : SourceFile) (request : Request) (path : Text) (answer : Cache.Answer)
    (block : Text) : Outcome where
  path
  file := file.id
  mode := answer.aligned.mode
  cacheHit := answer.hit
  bag := file.blockBag request answer block

theorem answeredOutcome_eq (file : SourceFile) (request : Request) (path : Text)
    (answer : Cache.Answer) (block : Text) :
    file.answeredOutcome request path answer block =
      file.blockOutcome request path answer block := by
  rw [answeredOutcome, blockOutcome, blockBag, foldl_firstReports]
  cases answer.failure <;> rfl

theorem forall_firstReports {holds : Diagnostic → Prop} (file : SourceFile) (request : Request)
    (answer : Cache.Answer) (cache : ∀ failure, holds (file.cacheReport failure))
    (verbatim : ∀ index ∈ answer.aligned.verbatim,
      holds (file.verbatimReport request.firstLine index))
    (mismatch : holds (file.mismatchReport request.firstLine))
    (nothing : holds (file.nothingReport request.firstLine answer.aligned.mode)) :
    ∀ d ∈ file.firstReports request answer, holds d := by
  have block : ∀ d ∈ file.blockReports request.firstLine answer.aligned, holds d := by
    intro d member
    rw [blockReports] at member
    split at member
    · cases member
    · rcases List.mem_append.mp member with front | last
      · rcases List.mem_append.mp front with untouched | ranges
        · obtain ⟨index, listed, rfl⟩ := List.mem_map.mp untouched
          exact verbatim index listed
        · split at ranges
          · rwa [List.mem_singleton.mp ranges]
          · cases ranges
      · split at last
        · rwa [List.mem_singleton.mp last]
        · cases last
  intro d member
  rcases List.mem_append.mp member with stored | fresh
  · obtain ⟨failure, -, rfl⟩ := List.mem_map.mp stored
    exact cache failure
  · exact block d (Collector.fresh_subset _ _ fresh)

theorem mild_firstReports (file : SourceFile) (request : Request) (answer : Cache.Answer) :
    ∀ d ∈ file.firstReports request answer, d.Mild :=
  file.forall_firstReports request answer (fun _ => rfl) (fun _ _ => rfl) rfl rfl

theorem mild_changeReport (file : SourceFile) (selection : Selection) (text : Text) :
    (file.changeReport selection text).Mild := rfl

end SourceFile

namespace Run

def answer (run : Run) (request : Request) (block : Text) : Disk × Cache.Answer :=
  Cache.align request.cache run.disk block request.options request.lines

theorem formatFile_begun (run : Run) {request : Request} {file : SourceFile} (path : Text)
    (parent : Nat) {selection : SourceFile.Selection}
    (selected : file.select request.lines = .ok selection) :
    ∃ (begun : Run) (span : Option Trace.Span),
      begun.disk = (run.answer request selection.block).1 ∧
        begun.events = run.events ++ (⟨path, .align, .working, none⟩ ::
          if request.verify then [⟨path, .verify, .working, none⟩] else []) ∧
        run.formatFile request file path parent =
          begun.deliver request file
            (file.blockOutcome request path (run.answer request selection.block).2 selection.block)
            selection (run.answer request selection.block).2.aligned.text span
            request.blockTimer := by
  rw [formatFile, SourceFile.blockOutcome, SourceFile.blockBag, SourceFile.foldl_firstReports,
    Request.blockTimer]
  simp only [selected]
  cases request.verify with
  | false =>
      simp only [Bool.false_eq_true, if_false]
      split
      · next failed =>
          rw [show (run.answer request selection.block).2.failure = none from failed]
          refine ⟨_, _, ?_, ?_, rfl⟩ <;> rfl
      · next failure failed =>
          rw [show (run.answer request selection.block).2.failure = some failure from failed]
          refine ⟨_, _, ?_, ?_, rfl⟩ <;> rfl
  | true =>
      simp only [if_true]
      split
      · next failed =>
          rw [show (run.answer request selection.block).2.failure = none from failed]
          exact ⟨_, _, rfl, List.append_assoc _ _ _, rfl⟩
      · next failure failed =>
          rw [show (run.answer request selection.block).2.failure = some failure from failed]
          exact ⟨_, _, rfl, List.append_assoc _ _ _, rfl⟩

/-- A valid selection is delivered, when the phases in front of that are over. -/
theorem formatFile_delivered (run : Run) {request : Request} {file : SourceFile} (path : Text)
    (parent : Nat) {selection : SourceFile.Selection}
    (selected : file.select request.lines = .ok selection) :
    ∃ (begun : Run) (span : Option Trace.Span),
      begun.disk = (run.answer request selection.block).1 ∧
        run.formatFile request file path parent =
          begun.deliver request file
            (file.blockOutcome request path (run.answer request selection.block).2 selection.block)
            selection (run.answer request selection.block).2.aligned.text span
            request.blockTimer := by
  obtain ⟨begun, span, disk, -, delivered⟩ := run.formatFile_begun path parent selected
  exact ⟨begun, span, disk, delivered⟩

theorem formatFile_selected (run : Run) {request : Request} {file : SourceFile} (path : Text)
    (parent : Nat) {selection : SourceFile.Selection}
    (selected : file.select request.lines = .ok selection) :
    ∃ (begun : Run) (span : Option Trace.Span) (timer : Timer),
      begun.disk = (run.answer request selection.block).1 ∧
        run.formatFile request file path parent =
          begun.deliver request file
            (file.blockOutcome request path (run.answer request selection.block).2 selection.block)
            selection (run.answer request selection.block).2.aligned.text span timer := by
  obtain ⟨begun, span, disk, formatted⟩ := run.formatFile_delivered path parent selected
  exact ⟨begun, span, request.blockTimer, disk, formatted⟩

theorem formatFile_uncached (run : Run) {request : Request} {file : SourceFile} (path : Text)
    (parent : Nat) (uncached : request.cache = none) {selection : SourceFile.Selection}
    (selected : file.select request.lines = .ok selection) :
    ∃ (begun : Run) (span : Option Trace.Span) (timer : Timer),
      begun.disk = run.disk ∧
        run.formatFile request file path parent =
          begun.deliver request file
            (file.blockOutcome request path { aligned := Block.align request.options selection.block }
              selection.block)
            selection (Block.align request.options selection.block).text span timer := by
  have answered : run.answer request selection.block =
      (run.disk, { aligned := Block.align request.options selection.block }) := by
    rw [answer, uncached]
    rfl
  have formatted := run.formatFile_selected path parent selected
  rwa [answered] at formatted

/-! Whether a delivered file counts as failed -/

theorem isFailed_succeed (run : Run) (request : Request) (outcome : Outcome)
    (span : Option Trace.Span) (timer : Timer) :
    (run.succeed request outcome span timer).2.isFailed ↔ outcome.isFailed := by
  have errors :
      (run.succeed request outcome span timer).2.bag.hasErrors ↔ outcome.bag.hasErrors := by
    cases timings : request.timings with
    | false => simp only [succeed, timings, Bool.false_eq_true, if_false]
    | true =>
        simp only [succeed, timings, if_true]
        exact Bag.hasErrors_addTimings_of_mild rfl
  have error : (run.succeed request outcome span timer).2.error = outcome.error := rfl
  rw [Outcome.isFailed, Outcome.isFailed, Bool.or_eq_true, Bool.or_eq_true, errors, error]

/-- A changed file is to be written, and cannot be. -/
def Unwritable (disk : Disk) (request : Request) (file : SourceFile) (path content : Text) :
    Prop :=
  request.check = false ∧ request.stdout = false ∧ content ≠ file.content ∧
    ∃ error, writeFile disk file path content = .error error

theorem isFailed_deliver (run : Run) (request : Request) (file : SourceFile) (outcome : Outcome)
    (selection : SourceFile.Selection) (text : Text) (span : Option Trace.Span) (timer : Timer) :
    (run.deliver request file outcome selection text span timer).2.isFailed ↔
      outcome.isFailed ∨ Unwritable run.disk request file outcome.path
        (file.splice selection.start selection.stop text) := by
  rw [deliver, Unwritable]
  cases request.check with
  | true =>
      simp only [if_true, isFailed_succeed, Bool.true_eq_false, false_and, or_false]
      split
      · rw [Outcome.isFailed, Outcome.isFailed, Bool.or_eq_true, Bool.or_eq_true,
          Bag.hasErrors_add_of_mild (file.mild_changeReport selection text)]
      · exact Iff.rfl
  | false =>
      cases request.stdout with
      | true =>
          simp only [Bool.false_eq_true, if_false, if_true, isFailed_succeed, Bool.true_eq_false,
            false_and, and_false, or_false]
          exact Iff.rfl
      | false =>
          by_cases same : file.splice selection.start selection.stop text = file.content
          · simp only [Bool.false_eq_true, if_false, same, bne_self_eq_false, isFailed_succeed,
              ne_eq, not_true, false_and, and_false, or_false]
            exact Iff.rfl
          · have changed :
                (file.splice selection.start selection.stop text != file.content) = true :=
              bne_iff_ne.mpr same
            simp only [Bool.false_eq_true, if_false, changed, if_true, ne_eq, same,
              not_false_eq_true, true_and]
            split
            · next error failed => exact iff_of_true rfl (.inr ⟨error, failed⟩)
            · next disk written =>
                rw [isFailed_succeed]
                refine (or_iff_left ?_).symm
                rintro ⟨error, failed⟩
                cases written.symm.trans failed

/-! What is delivered -/

@[simp]
theorem disk_emit (run : Run) (file : Text) (stage : Progress.Stage) (status : Progress.Status) :
    (run.emit file stage status).disk = run.disk := rfl

@[simp]
theorem disk_countPhase (run : Run) (timer : Timer) (name : Text) :
    (run.countPhase timer name).1.disk = run.disk := rfl

theorem changed_deliver (run : Run) (request : Request) (file : SourceFile) (outcome : Outcome)
    (selection : SourceFile.Selection) (text : Text) (span : Option Trace.Span) (timer : Timer) :
    (run.deliver request file outcome selection text span timer).2.changed =
      (file.splice selection.start selection.stop text != file.content) := by
  generalize result : run.deliver request file outcome selection text span timer = delivered
  simp only [deliver] at result
  split at result
  · subst result
    rfl
  · split at result
    · subst result
      rfl
    · split at result
      · split at result
        · subst result
          rfl
        · subst result
          rfl
      · subst result
        rfl

theorem disk_deliver_of_dry (run : Run) {request : Request} {file : SourceFile} (outcome : Outcome)
    {selection : SourceFile.Selection} {text : Text} (span : Option Trace.Span) (timer : Timer)
    (dry : request.check ∨ request.stdout ∨
      file.splice selection.start selection.stop text = file.content) :
    (run.deliver request file outcome selection text span timer).1.disk = run.disk := by
  rw [deliver]
  split
  · rfl
  · next kept =>
      split
      · rfl
      · next rewrites =>
          have same : (file.splice selection.start selection.stop text != file.content) = false := by
            simpa [kept, rewrites] using dry
          simp only [same, Bool.false_eq_true, if_false]
          rfl

theorem deliver_rewrite (run : Run) {request : Request} {file : SourceFile} (outcome : Outcome)
    {selection : SourceFile.Selection} {text : Text} (span : Option Trace.Span) (timer : Timer)
    (kept : request.check = false) (rewrites : request.stdout = false)
    (other : file.splice selection.start selection.stop text ≠ file.content) :
    let delivered := run.deliver request file outcome selection text span timer
    match run.disk.write outcome.path
        (file.encode (file.splice selection.start selection.stop text)) 0o644 with
    | .ok later => delivered.2.error = outcome.error ∧ delivered.1.disk = later
    | .error failure => delivered.2.error = some (.write outcome.path failure) ∧
        delivered.1.disk = run.disk := by
  have changed : (file.splice selection.start selection.stop text != file.content) = true :=
    bne_iff_ne.mpr other
  simp only [deliver, kept, rewrites, changed, Bool.false_eq_true, if_false, if_true,
    disk_countPhase, disk_emit, writeFile]
  cases run.disk.write outcome.path
      (file.encode (file.splice selection.start selection.stop text)) 0o644 with
  | error failure => exact ⟨rfl, rfl⟩
  | ok later => exact ⟨rfl, rfl⟩

theorem formatted_deliver (run : Run) {request : Request} (file : SourceFile) (outcome : Outcome)
    (selection : SourceFile.Selection) (text : Text) (span : Option Trace.Span) (timer : Timer)
    (kept : request.check = false) (stdout : request.stdout) :
    (run.deliver request file outcome selection text span timer).2.formatted =
      some (file.encode (file.splice selection.start selection.stop text)) := by
  simp only [deliver, kept, stdout, Bool.false_eq_true, if_false, if_true]
  rfl

theorem read_writeFile {disk later : Disk} {file : SourceFile} {path content : Text}
    (written : writeFile disk file path content = .ok later) :
    later.read path = .ok (file.encode content) := by
  rw [writeFile] at written
  split at written
  · next stored =>
      cases written
      exact Disk.read_write stored
  · cases written

theorem read_deliver (run : Run) {request : Request} (file : SourceFile) {outcome : Outcome}
    (selection : SourceFile.Selection) (text : Text) (span : Option Trace.Span) (timer : Timer)
    (kept : request.check = false) (rewrites : request.stdout = false)
    (changed : (run.deliver request file outcome selection text span timer).2.changed)
    (written : (run.deliver request file outcome selection text span timer).2.error = none) :
    (run.deliver request file outcome selection text span timer).1.disk.read outcome.path =
      .ok (file.encode (file.splice selection.start selection.stop text)) := by
  generalize result : run.deliver request file outcome selection text span timer = delivered
    at changed written ⊢
  simp only [deliver, kept, rewrites, Bool.false_eq_true, if_false] at result
  split at result
  · split at result
    · subst result
      cases written
    · next later stored =>
        subst result
        exact read_writeFile stored
  · next same =>
      subst result
      exact absurd changed same

end Run

end HdlAlign
