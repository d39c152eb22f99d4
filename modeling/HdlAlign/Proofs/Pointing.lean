import HdlAlign.Proofs.LineSpans

/-! Where the diagnostics of a formatted file point: into its content, and those on lines that were
left alone at these lines, each once. -/

namespace HdlAlign

open Text

namespace SourceFile

def aligned (file : SourceFile) (request : Request) : Text :=
  match file.select request.lines with
  | .error _ => file.content
  | .ok selection =>
    file.splice selection.start selection.stop (Block.format request.options selection.block)

def Remarks (file : SourceFile) (d : Diagnostic) : Prop :=
  d.code ≠ .verbatimLine ∧ file.Contains d.span

variable {file : SourceFile}

theorem contains_partSpan {start stop : Nat} (ordered : start ≤ stop)
    (inside : stop ≤ file.content.length) : file.Contains (file.partSpan start stop) := by
  rw [partSpan]
  split
  · next small =>
      rw [Bool.and_eq_true, decide_eq_true_eq, decide_eq_true_eq] at small
      exact contains_of_le ordered inside small.2
  · exact .inl ⟨rfl, rfl⟩

theorem remarks_or_verbatimReport (file : SourceFile) (request : Request) (answer : Cache.Answer) :
    ∀ d ∈ file.firstReports request answer, file.Remarks d ∨
      ∃ index ∈ answer.aligned.verbatim, d = file.verbatimReport request.firstLine index :=
  file.forall_firstReports request answer
    (fun _ => .inl ⟨(by decide : Code.cacheError ≠ .verbatimLine), .inl ⟨rfl, rfl⟩⟩)
    (fun index listed => .inr ⟨index, listed, rfl⟩)
    (.inl ⟨(by decide : Code.rangeDimensions ≠ .verbatimLine), file.contains_lineSpan _⟩)
    (.inl ⟨(by decide : Code.noAlignedLines ≠ .verbatimLine), file.contains_lineSpan _⟩)

theorem extends_blockBag (file : SourceFile) (request : Request) (answer : Cache.Answer)
    (block : Text) :
    (file.blockBag request answer block).Extends
      ((file.firstReports request answer).foldl Bag.add request.emptyBag) file.Remarks := by
  rw [blockBag]
  split
  · rw [verifyBlock]
    split
    · exact .refl _
    · exact Bag.extends_add _ ⟨(by decide : Code.notIdempotent ≠ .verbatimLine),
        file.contains_lineSpan _⟩
  · exact .refl _

def Apart (a b : Diagnostic) : Prop :=
  a.code = .verbatimLine → b.code = .verbatimLine → a.span ≠ b.span

theorem apart_of_extends {bag later : Bag}
    (grown : later.Extends bag file.Remarks) (apart : bag.items.Pairwise Apart) :
    later.items.Pairwise Apart := by
  obtain ⟨more, items, remarks⟩ := grown
  rw [items, List.pairwise_append]
  refine ⟨apart, List.pairwise_of_forall_mem_list fun a member b _ code => ?_,
    fun a _ b member _ code => ?_⟩
  · exact absurd code (remarks a member).1
  · exact absurd code (remarks b member).1

theorem apart_fresh (file : SourceFile) (request : Request) (aligned : Aligned) :
    (file.firstReports request { aligned }).Pairwise Apart := by
  have once : (file.firstReports request { aligned }).Pairwise fun a b =>
      Collector.sameReport b a = false := Collector.pairwise_fresh _ _
  refine once.imp_of_mem fun {a b} memberA memberB other codeA codeB same => ?_
  obtain ⟨index, -, rfl⟩ :=
    (file.remarks_or_verbatimReport request _ a memberA).resolve_left fun remark => remark.1 codeA
  obtain ⟨index', -, rfl⟩ :=
    (file.remarks_or_verbatimReport request _ b memberB).resolve_left fun remark => remark.1 codeB
  have repeated : Collector.sameReport (file.verbatimReport request.firstLine index')
      (file.verbatimReport request.firstLine index) = true := by
    rw [Collector.sameReport, ← same]
    simp [verbatimReport]
  rw [repeated] at other
  cases other

theorem sublist_firstReports (file : SourceFile) (request : Request) (answer : Cache.Answer) :
    ((file.firstReports request answer).foldl Bag.add request.emptyBag).items.Sublist
      (file.firstReports request answer) := by
  rw [Request.emptyBag, Bag.items_foldl_add (Bag.holds_ofLimit _)]
  exact List.take_sublist _ _

theorem reports_of_extends {request : Request} {aligned : Aligned} {bag : Bag}
    (grown : bag.Extends ((file.firstReports request { aligned }).foldl Bag.add request.emptyBag)
      file.Remarks) :
    (∀ d ∈ bag.items, file.Remarks d ∨
        ∃ index ∈ aligned.verbatim, d = file.verbatimReport request.firstLine index) ∧
      bag.items.Pairwise Apart := by
  have kept := file.sublist_firstReports request { aligned }
  have once := (file.apart_fresh request aligned).sublist kept
  refine ⟨fun d member => ?_, apart_of_extends grown once⟩
  rcases grown.mem member with first | remark
  · exact file.remarks_or_verbatimReport request _ d (kept.subset first)
  · exact .inl remark

theorem contains_of_extends {request : Request} {answer : Cache.Answer} {bag : Bag}
    (grown : bag.Extends ((file.firstReports request answer).foldl Bag.add request.emptyBag)
      file.Remarks) : ∀ d ∈ bag.items, file.Contains d.span := by
  intro d member
  rcases grown.mem member with first | remark
  · rcases file.remarks_or_verbatimReport request answer d
      ((file.sublist_firstReports request answer).subset first) with remark | ⟨index, -, rfl⟩
    · exact remark.2
    · exact file.contains_lineSpan _
  · exact remark.2

theorem spansLine_verbatimReport {request : Request} (small : file.content.length < 0x100000000)
    {selection : Selection} (selected : file.select request.lines = .ok selection) {index : Int}
    (reported : index ∈ (Block.align request.options selection.block).verbatim) :
    ∃ number line,
      file.SpansLine (file.verbatimReport request.firstLine index).span number line ∧
        isBlank line = false ∧ request.firstLine ≤ number ∧
        number ≤ file.lastLine request.lines ∧
        ((Block.align request.options selection.block).mode = .declarations →
          line ∈ (file.aligned request).lines) := by
  obtain ⟨place, line, rfl, found, visible⟩ := Block.visible_of_mem_verbatim reported
  have filled : line ≠ [] := by
    rintro rfl
    cases visible
  obtain ⟨before, after, whole, number, last⟩ :=
    wholeLine_of_select small.le selected (Block.getElem?_lines_of_body found) filled
  have spans := spansLine_lineSpan whole filled small
  rw [show (before.count newline : Int) + 1 = request.firstLine + place from number] at spans
  refine ⟨_, line, spans, visible, ?_, last, fun mode => ?_⟩
  · rw [Request.firstLine]
    omega
  · rw [aligned, selected]
    exact mem_lines_splice small.le selected (Block.mem_lines_format mode reported found) filled

end SourceFile

namespace Run

variable {file : SourceFile} {selection : SourceFile.Selection}

theorem extends_succeed (run : Run) (request : Request) (file : SourceFile) (outcome : Outcome)
    (span : Option Trace.Span) (timer : Timer) :
    (run.succeed request outcome span timer).2.bag.Extends outcome.bag file.Remarks := by
  rw [succeed]
  dsimp only
  split
  · exact Bag.extends_addTimings _ ⟨(by decide : Code.timings ≠ .verbatimLine), .inl ⟨rfl, rfl⟩⟩
  · exact .refl _

theorem extends_deliver (run : Run) (request : Request) (outcome : Outcome) (text : Text)
    (span : Option Trace.Span) (timer : Timer) (ordered : selection.start ≤ selection.stop)
    (inside : selection.stop ≤ file.content.length) :
    (run.deliver request file outcome selection text span timer).2.bag.Extends outcome.bag
      file.Remarks := by
  rw [deliver]
  dsimp only
  split
  · refine (extends_succeed ..).trans ?_
    dsimp only
    split
    · exact Bag.extends_add _ ⟨(by decide : Code.wouldChange ≠ .verbatimLine),
        SourceFile.contains_partSpan ordered inside⟩
    · exact .refl _
  · split
    · exact extends_succeed ..
    · split
      · split
        · exact Bag.extends_add _ ⟨(by decide : Code.writeError ≠ .verbatimLine), .inl ⟨rfl, rfl⟩⟩
        · exact extends_succeed ..
      · exact extends_succeed ..

theorem mode_deliver (run : Run) (request : Request) (file : SourceFile) (outcome : Outcome)
    (selection : SourceFile.Selection) (text : Text) (span : Option Trace.Span) (timer : Timer) :
    (run.deliver request file outcome selection text span timer).2.mode = outcome.mode := by
  rw [deliver]
  dsimp only
  split
  · rfl
  · split
    · rfl
    · split
      · split <;> rfl
      · rfl

theorem formatted_of_mem_deliver (run : Run) (request : Request) {outcome : Outcome} (text : Text)
    (span : Option Trace.Span) (timer : Timer) (empty : outcome.formatted = none) :
    ∀ bytes ∈ (run.deliver request file outcome selection text span timer).2.formatted,
      bytes = file.encode (file.splice selection.start selection.stop text) := by
  intro bytes
  rw [deliver]
  dsimp only
  split
  · simp [succeed, empty]
  · split
    · exact fun found => (Option.some.inj found).symm
    · split
      · split <;> simp [succeed, fail, empty]
      · simp [succeed, empty]

structure Pointed (request : Request) (file : SourceFile) (path : Text) (done : Run × Outcome) :
    Prop where
  inside : ∀ d ∈ done.2.bag.items, file.Contains d.span
  /-- A line that is reported as left alone is a whole selected line that shows something.  Among
  declarations it stands in the output as it is. -/
  whole : ∀ d ∈ done.2.bag.items, d.code = .verbatimLine → ∃ number line,
    file.SpansLine d.span number line ∧ isBlank line = false ∧ request.firstLine ≤ number ∧
      number ≤ file.lastLine request.lines ∧
      (done.2.mode = .declarations → line ∈ (file.aligned request).lines)
  once : done.2.bag.items.Pairwise SourceFile.Apart
  /-- The output is what is compared with the content, and given back or written as it is stored. -/
  changed : done.2.changed = (file.aligned request != file.content)
  formatted : ∀ bytes ∈ done.2.formatted, bytes = file.encode (file.aligned request)
  written : request.check = false → request.stdout = false → done.2.changed →
    done.2.error = none → done.1.disk.read path = .ok (file.encode (file.aligned request))

theorem formatFile_unselected (run : Run) {request : Request} {file : SourceFile} (path : Text)
    (parent : Nat) {error : RangeError} (unselected : file.select request.lines = .error error) :
    Pointed request file path (run.formatFile request file path parent) := by
  have same : file.aligned request = file.content := by rw [SourceFile.aligned, unselected]
  have grown : (run.formatFile request file path parent).2.bag.Extends request.emptyBag
      file.Remarks := by
    simp only [formatFile, unselected]
    exact Bag.extends_add _ ⟨(by decide : Code.badRange ≠ .verbatimLine), .inl ⟨rfl, rfl⟩⟩
  have failed : (run.formatFile request file path parent).2.error = some (.range error) := by
    simp only [formatFile, unselected]
    rfl
  have remark (d : Diagnostic)
      (member : d ∈ (run.formatFile request file path parent).2.bag.items) : file.Remarks d :=
    (grown.mem member).resolve_left List.not_mem_nil
  refine ⟨fun d member => (remark d member).2, fun d member code => absurd code (remark d member).1,
    SourceFile.apart_of_extends grown .nil, ?_, ?_, fun _ _ _ done => ?_⟩
  · rw [same, bne_self_eq_false]
    simp only [formatFile, unselected]
    rfl
  · simp only [formatFile, unselected]
    intro bytes given
    cases given
  · cases failed.symm.trans done

theorem extends_deliver_block (run : Run) (request : Request) (path : Text) (answer : Cache.Answer)
    (span : Option Trace.Span) (timer : Timer) (small : file.content.length ≤ 0x100000000)
    (selected : file.select request.lines = .ok selection) :
    (run.deliver request file (file.blockOutcome request path answer selection.block) selection
      answer.aligned.text span timer).2.bag.Extends
        ((file.firstReports request answer).foldl Bag.add request.emptyBag) file.Remarks :=
  (run.extends_deliver request _ _ span timer (SourceFile.slice_of_select small selected).1
    (file.le_of_select selected).2).trans (file.extends_blockBag request answer selection.block)

theorem contains_of_mem_formatFile (run : Run) (request : Request) (path : Text) (parent : Nat)
    (small : file.content.length ≤ 0x100000000) :
    ∀ d ∈ (run.formatFile request file path parent).2.bag.items, file.Contains d.span := by
  cases selected : file.select request.lines with
  | error error => exact (run.formatFile_unselected path parent selected).inside
  | ok selection =>
      obtain ⟨begun, span, timer, -, formatted⟩ := run.formatFile_selected path parent selected
      rw [formatted]
      exact SourceFile.contains_of_extends
        (begun.extends_deliver_block request path _ span timer small selected)

/-- Every file whose content 32 bits can count is reported on in the right places, whatever is
selected and whatever is asked for, as long as no cache is used. -/
theorem formatFile_pointed (run : Run) {request : Request} {file : SourceFile} (path : Text)
    (parent : Nat) (uncached : request.cache = none) (small : file.content.length < 0x100000000) :
    Pointed request file path (run.formatFile request file path parent) := by
  cases selected : file.select request.lines with
  | error error => exact run.formatFile_unselected path parent selected
  | ok selection =>
      obtain ⟨begun, span, timer, -, delivered⟩ :=
        run.formatFile_uncached path parent uncached selected
      have output : file.aligned request = file.splice selection.start selection.stop
          (Block.align request.options selection.block).text := by
        rw [SourceFile.aligned, selected]
        rfl
      obtain ⟨each, once⟩ := SourceFile.reports_of_extends
        (begun.extends_deliver_block request path _ span timer small.le selected)
      have inside := run.contains_of_mem_formatFile request path parent small.le
      rw [delivered] at inside ⊢
      refine ⟨inside, fun d member code => ?_, once, ?_, ?_, fun kept rewrites changed done => ?_⟩
      · obtain ⟨index, reported, rfl⟩ := (each d member).resolve_left fun remark => remark.1 code
        rw [mode_deliver]
        exact SourceFile.spansLine_verbatimReport small selected reported
      · rw [changed_deliver, output]
      · rw [output]
        exact begun.formatted_of_mem_deliver request _ span timer rfl
      · rw [output]
        exact begun.read_deliver file selection _ span timer kept rewrites changed done

def notedFile : SourceFile where
  id := 1
  path := "t.v"
  content := "wire  a;\n  // note\nwire  b;\n"

theorem formatFile_pointed_note :
    let request : Request := { lines := ⟨2, 3⟩, stdout := true, verify := true, timings := true }
    let done := Run.formatFile ⟨{}, {}, [], {}⟩ request notedFile "t.v" 0
    (done.2.bag.items.map fun d => (d.code, d.span)) =
        [(.verbatimLine, ⟨1, 9, 18⟩), (.timings, {})] ∧
      Pointed request notedFile "t.v" done := by
  intro request done
  have small : notedFile.content.length < 0x100000000 := by decide
  exact ⟨by decide +kernel, formatFile_pointed _ "t.v" 0 rfl small⟩

end Run

end HdlAlign
