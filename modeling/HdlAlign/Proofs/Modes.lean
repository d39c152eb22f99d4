import HdlAlign.Proofs.Delivery
import HdlAlign.Proofs.Selections

/-! What the three ways to deliver a formatted file have in common. -/

namespace HdlAlign

/-! The parts of a bag -/

namespace Bag

theorem mem_add {bag : Bag} {d other : Diagnostic} (member : other ∈ (bag.add d).items) :
    other ∈ bag.items ∨ other = d := by
  have grown : (bag.add d).Extends bag (· = d) := extends_add bag rfl
  exact grown.mem member

theorem mem_foldl_add {ds : List Diagnostic} {bag : Bag} {other : Diagnostic}
    (member : other ∈ (ds.foldl add bag).items) : other ∈ bag.items ∨ other ∈ ds := by
  induction ds generalizing bag with
  | nil => exact .inl member
  | cons d ds ih =>
      rcases ih member with early | later
      · rcases mem_add early with old | rfl
        · exact .inl old
        · exact .inr List.mem_cons_self
      · exact .inr (List.mem_cons_of_mem d later)

theorem mem_addTimings {bag : Bag} {d other : Diagnostic}
    (member : other ∈ (bag.addTimings d).items) : other ∈ bag.items ∨ other = d := by
  have grown : (bag.addTimings d).Extends bag (· = d) := extends_addTimings bag rfl
  exact grown.mem member

end Bag

/-! Offsets of a selection -/

namespace SourceFile

theorem le_of_select (file : SourceFile) {range : LineRange} {selection : Selection}
    (selected : file.select range = .ok selection) :
    selection.start ≤ file.content.length ∧ selection.stop ≤ file.content.length := by
  rw [select] at selected
  split at selected
  · cases selected
    exact ⟨Nat.zero_le _, Nat.le_refl _⟩
  · split at selected
    · cases selected
    · split at selected
      · cases selected
      · cases selected
        exact ⟨file.lineStart_le _, file.lineEnd_le _⟩

def edited (file : SourceFile) (edit : Edit) : Text :=
  file.splice edit.span.start.toNat edit.span.stop.toNat edit.text

theorem edited_changeReport (file : SourceFile) {selection : Selection} (text : Text)
    (first : selection.start < 0x100000000) (last : selection.stop < 0x100000000) :
    ∃ title edit, (file.changeReport selection text).fixes = [⟨title, [edit]⟩] ∧
      edit.span.file = file.id ∧
      file.edited edit = file.splice selection.start selection.stop text := by
  refine ⟨_, _, rfl, ?_, ?_⟩
  · rw [partSpan]
    split <;> rfl
  · have span : file.partSpan selection.start selection.stop =
        ⟨file.id, selection.start.toUInt32, selection.stop.toUInt32⟩ := by
      rw [partSpan, if_pos (by simp [first, last])]
    rw [edited, span]
    simp only [Nat.toUInt32_eq, UInt32.toNat_ofNat']
    rw [Nat.mod_eq_of_lt first, Nat.mod_eq_of_lt last]

theorem code_of_mem_blockBag (file : SourceFile) (request : Request) (answer : Cache.Answer)
    (block : Text) {d : Diagnostic} (member : d ∈ (file.blockBag request answer block).items) :
    d.code ≠ .wouldChange := by
  have first : ∀ d ∈ file.firstReports request answer, d.code ≠ .wouldChange :=
    file.forall_firstReports request answer
      (fun _ => (by decide : Code.cacheError ≠ .wouldChange))
      (fun _ _ => (by decide : Code.verbatimLine ≠ .wouldChange))
      (by decide : Code.rangeDimensions ≠ .wouldChange)
      (by decide : Code.noAlignedLines ≠ .wouldChange)
  have early (d : Diagnostic)
      (member : d ∈ ((file.firstReports request answer).foldl Bag.add request.emptyBag).items) :
      d.code ≠ .wouldChange := by
    rcases Bag.mem_foldl_add member with none | listed
    · cases none
    · exact first d listed
  rw [blockBag] at member
  split at member
  · rw [verifyBlock] at member
    split at member
    · exact early d member
    · rcases Bag.mem_add member with old | rfl
      · exact early d old
      · exact (by decide : Code.notIdempotent ≠ .wouldChange)
  · exact early d member

end SourceFile

/-! Ways of delivery -/

inductive Delivery where
  | check
  | stdout
  | rewrite
  deriving DecidableEq

def Request.delivering (request : Request) : Delivery → Request
  | .check => { request with check := true }
  | .stdout => { request with check := false, stdout := true }
  | .rewrite => { request with check := false, stdout := false }

namespace Run

theorem changeReport_of_mem_deliver (run : Run) (request : Request) {file : SourceFile}
    {outcome : Outcome} {selection : SourceFile.Selection} {text : Text}
    (span : Option Trace.Span) (timer : Timer)
    (quiet : ∀ d ∈ outcome.bag.items, d.code ≠ .wouldChange) {d : Diagnostic}
    (member : d ∈ (run.deliver (request.delivering .check) file outcome selection text span
      timer).2.bag.items)
    (code : d.code = .wouldChange) :
    d = file.changeReport selection text ∧
      file.splice selection.start selection.stop text ≠ file.content := by
  have added (bag : Bag) (listed : d ∈ (if request.timings then
      bag.addTimings (timer.report.diagnostic [] outcome.path) else bag).items) : d ∈ bag.items := by
    split at listed
    · rcases Bag.mem_addTimings listed with old | rfl
      · exact old
      · exact absurd code (by decide : Code.timings ≠ .wouldChange)
    · exact listed
  by_cases same : file.splice selection.start selection.stop text = file.content
  · simp only [deliver, Request.delivering, same, bne_self_eq_false, Bool.false_eq_true, if_false,
      if_true] at member
    exact absurd code (quiet d (added outcome.bag member))
  · have changed : (file.splice selection.start selection.stop text != file.content) = true :=
      bne_iff_ne.mpr same
    simp only [deliver, Request.delivering, changed, if_true] at member
    rcases Bag.mem_add (added _ member) with old | new
    · exact absurd code (quiet d old)
    · exact ⟨new, same⟩

/-! The three deliveries of one file -/

/-- Every way to deliver a file delivers the same content. -/
structure Agree (run : Run) (request : Request) (file : SourceFile) (path : Text) (parent : Nat)
    (content : Text) : Prop where
  changed (way : Delivery) :
    (run.formatFile (request.delivering way) file path parent).2.changed = (content != file.content)
  dry (way : Delivery) : way ≠ .rewrite →
    (run.formatFile (request.delivering way) file path parent).1.disk = run.disk
  /-- Checking proposes one edit, which leads to the content, and only where that is new. -/
  checked : ∀ d ∈ (run.formatFile (request.delivering .check) file path parent).2.bag.items,
    d.code = .wouldChange → content ≠ file.content ∧
      ∃ title edit, d.fixes = [⟨title, [edit]⟩] ∧ edit.span.file = file.id ∧
        file.edited edit = content
  formatted : (run.formatFile (request.delivering .stdout) file path parent).2.formatted =
    some (file.encode content)
  kept : content = file.content →
    (run.formatFile (request.delivering .rewrite) file path parent).1.disk = run.disk
  /-- A changed file is written, unless the disk refuses it. -/
  written : content ≠ file.content →
    let rewritten := run.formatFile (request.delivering .rewrite) file path parent
    match run.disk.write path (file.encode content) 0o644 with
    | .ok later => rewritten.2.error = none ∧ rewritten.1.disk = later ∧
        later.read path = .ok (file.encode content)
    | .error failure => rewritten.2.error = some (.write path failure) ∧
        rewritten.1.disk = run.disk

theorem formatFile_delivering (run : Run) {request : Request} {file : SourceFile} (path : Text)
    (parent : Nat) (uncached : request.cache = none) {selection : SourceFile.Selection}
    (selected : file.select request.lines = .ok selection) (way : Delivery) :
    ∃ (begun : Run) (span : Option Trace.Span) (timer : Timer),
      begun.disk = run.disk ∧
        run.formatFile (request.delivering way) file path parent =
          begun.deliver (request.delivering way) file
            (file.blockOutcome request path { aligned := Block.align request.options selection.block }
              selection.block)
            selection (Block.align request.options selection.block).text span timer := by
  have unchanged : (request.delivering way).lines = request.lines ∧
      (request.delivering way).options = request.options ∧
        (request.delivering way).cache = request.cache := by
    cases way <;> exact ⟨rfl, rfl, rfl⟩
  obtain ⟨lines, options, cache⟩ := unchanged
  have outcome (answer : Cache.Answer) :
      file.blockOutcome (request.delivering way) path answer selection.block =
        file.blockOutcome request path answer selection.block := by
    cases way <;> rfl
  have formatted := run.formatFile_uncached path parent (cache.trans uncached)
    ((congrArg file.select lines).trans selected)
  rwa [options, outcome] at formatted

/-- Checking, giving back and rewriting agree on every file whose content 32 bits can count, and
on every valid selection of its lines. -/
theorem formatFile_agree (run : Run) {request : Request} {file : SourceFile} (path : Text)
    (parent : Nat) (uncached : request.cache = none) (small : file.content.length < 0x100000000)
    {selection : SourceFile.Selection} (selected : file.select request.lines = .ok selection) :
    ∃ content, run.Agree request file path parent content := by
  have ways := run.formatFile_delivering path parent uncached selected
  obtain ⟨first, last⟩ := file.le_of_select selected
  refine ⟨file.splice selection.start selection.stop
    (Block.align request.options selection.block).text, ?_⟩
  constructor
  case changed =>
    intro way
    obtain ⟨begun, span, timer, -, formatted⟩ := ways way
    rw [formatted, changed_deliver]
  case dry =>
    intro way dry
    obtain ⟨begun, span, timer, disk, formatted⟩ := ways way
    rw [formatted, begun.disk_deliver_of_dry _ span timer, disk]
    cases way with
    | check => exact .inl rfl
    | stdout => exact .inr (.inl rfl)
    | rewrite => exact absurd rfl dry
  case checked =>
    intro d member code
    obtain ⟨begun, span, timer, -, formatted⟩ := ways .check
    rw [formatted] at member
    -- Nothing that is reported on the block itself says that it would change.
    have quiet (d : Diagnostic) (listed : d ∈ (file.blockBag request
        { aligned := Block.align request.options selection.block } selection.block).items) :
        d.code ≠ .wouldChange := file.code_of_mem_blockBag _ _ _ listed
    obtain ⟨rfl, other⟩ := begun.changeReport_of_mem_deliver request span timer quiet member code
    exact ⟨other, file.edited_changeReport _ (by omega) (by omega)⟩
  case formatted =>
    obtain ⟨begun, span, timer, -, formatted⟩ := ways .stdout
    rw [formatted]
    exact begun.formatted_deliver file _ selection _ span timer rfl rfl
  case kept =>
    intro same
    obtain ⟨begun, span, timer, disk, formatted⟩ := ways .rewrite
    rw [formatted, begun.disk_deliver_of_dry _ span timer (.inr (.inr same)), disk]
  case written =>
    intro other
    obtain ⟨begun, span, timer, disk, formatted⟩ := ways .rewrite
    have kept : (request.delivering .rewrite).check = false := rfl
    have delivered := begun.deliver_rewrite
      (file.blockOutcome request path { aligned := Block.align request.options selection.block }
        selection.block) span timer kept rfl other
    simp only [← formatted, disk] at delivered
    simp only [SourceFile.blockOutcome] at delivered
    generalize stored : run.disk.write path _ 0o644 = result at delivered ⊢
    cases result with
    | error failure => exact delivered
    | ok later => exact ⟨delivered.1, delivered.2, Disk.read_write stored⟩

def looseFile : SourceFile where
  id := 1
  path := "t.v"
  content := "wire  a;\nwire   b;\n"
  marks := 4

theorem formatFile_agree_second :
    ∃ content,
      Run.Agree ⟨{}, {}, [], {}⟩ { lines := ⟨2, 2⟩ } looseFile "t.v" 0 content := by
  have small : looseFile.content.length < 0x100000000 := by decide
  have selected : looseFile.select ⟨2, 2⟩ = .ok ⟨"wire   b;\n", 9, 19⟩ := rfl
  exact formatFile_agree ⟨{}, {}, [], {}⟩ "t.v" 0 rfl small selected

end Run

end HdlAlign
