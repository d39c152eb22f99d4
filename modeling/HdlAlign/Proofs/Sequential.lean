import HdlAlign.Proofs.Delivery
import HdlAlign.Run.Reported
import Mathlib.Logic.Relation

/-! Formatting files one after the other is one of the ways to work on them at the same time. -/

namespace HdlAlign

open Relation

namespace Run

theorem deliver_congr {run other : Run} (same : run.disk = other.disk) (request : Request)
    (file : SourceFile) (outcome : Outcome) (selection : SourceFile.Selection) (text : Text)
    (span span' : Option Trace.Span) (timer : Timer) :
    (run.deliver request file outcome selection text span timer).1.disk =
        (other.deliver request file outcome selection text span' timer).1.disk ∧
      (run.deliver request file outcome selection text span timer).2 =
        (other.deliver request file outcome selection text span' timer).2 := by
  simp only [deliver, writeFile, disk_countPhase, disk_emit, same]
  split
  · exact ⟨same, rfl⟩
  · split
    · exact ⟨same, rfl⟩
    · split
      · split
        · exact ⟨same, rfl⟩
        · exact ⟨rfl, rfl⟩
      · exact ⟨same, rfl⟩

theorem events_deliver {run other : Run} (same : run.disk = other.disk) (silent : other.events = [])
    (request : Request) (file : SourceFile) (outcome : Outcome) (selection : SourceFile.Selection)
    (text : Text) (span span' : Option Trace.Span) (timer : Timer) :
    (run.deliver request file outcome selection text span timer).1.events =
      run.events ++ (other.deliver request file outcome selection text span' timer).1.events := by
  simp only [deliver, writeFile, disk_countPhase, disk_emit, same]
  split
  · simp [succeed, emit, silent]
  · split
    · simp [succeed, emit, silent]
    · split
      · split
        · simp [fail, countPhase, emit, emitError, silent]
        · simp only [succeed, countPhase, emit, silent, List.append_assoc, List.nil_append]
          rfl
      · simp [succeed, emit, silent]

end Run

namespace Reported

variable {request : Request} {limit : Nat} {before after : List Work}

theorem Move.run {reported next : Reported} (move : Move request limit reported next) :
    Interleaving.Move request limit reported.run next.run := by
  obtain ⟨disk, before, work, after, events, begun⟩ := move
  exact .next disk before work after begun

theorem move (positive : 0 < limit) (done : before.all Work.isFinished) (disk : Disk) (work : Work)
    (events : List Progress.Event) :
    Move request limit ⟨⟨disk, before ++ work :: after⟩, events⟩
      ⟨⟨(work.step request disk).1, before ++ (work.step request disk).2 :: after⟩,
        events ++ work.reports request disk⟩ := by
  refine .next disk before work after events ?_
  have all : before.countP Work.isFinished = before.length :=
    List.countP_eq_length.mpr (List.all_eq_true.mp done)
  rw [List.countP_append, all]
  omega

theorem moves_answer (positive : 0 < limit) (done : before.all Work.isFinished) (run : Run)
    {path : Text} {file : SourceFile} {selection : SourceFile.Selection}
    (selected : file.select request.lines = .ok selection) :
    ReflTransGen (Move request limit)
      ⟨⟨run.disk, before ++ ⟨(path, .ok file), .waiting⟩ :: after⟩, run.events⟩
      ⟨⟨(run.answer request selection.block).1, before ++ ⟨(path, .ok file),
          .answered file selection (run.answer request selection.block).2⟩ :: after⟩,
        run.events ++ [⟨path, .align, .working, none⟩]⟩ := by
  have looked := @move request limit before after positive done run.disk
    ⟨(path, .ok file), .waiting⟩ run.events
  simp only [Work.step, Work.reports, selected] at looked
  simp only [Run.answer]
  cases shared : request.cache with
  | none =>
      simp only [shared] at looked
      exact .single looked
  | some cache =>
      simp only [shared] at looked
      simp only [Cache.align]
      cases found : cache.lookup run.disk
          (Cache.key selection.block request.options request.lines) with
      | mk aligned failure =>
          rw [found] at looked
          cases aligned with
          | some aligned => exact .single looked
          | none =>
              refine .tail (.single looked) ?_
              have stored := @move request limit before after positive done run.disk
                ⟨(path, .ok file), .missed cache file selection failure⟩
                (run.events ++ [⟨path, .align, .working, none⟩])
              simp only [Work.step, Work.reports, List.append_nil] at stored
              dsimp only
              split
              · next putFailure refused =>
                  rw [refused] at stored
                  exact stored
              · next later put =>
                  rw [put] at stored
                  exact stored

theorem moves_formatLoaded (positive : 0 < limit) (done : before.all Work.isFinished) (run : Run)
    (parent : Nat) (entry : Run.Loaded) :
    ReflTransGen (Move request limit)
      ⟨⟨run.disk, before ++ ⟨entry, .waiting⟩ :: after⟩, run.events⟩
      ⟨⟨(run.formatLoaded request parent entry).1.disk,
          before ++ ⟨entry, .finished (run.formatLoaded request parent entry).2⟩ :: after⟩,
        (run.formatLoaded request parent entry).1.events⟩ := by
  obtain ⟨path, failure | file⟩ := entry
  · exact .single (move positive done run.disk _ run.events)
  · show ReflTransGen _ _ (Reported.mk ⟨(run.formatFile request file path parent).1.disk,
      before ++ ⟨_, .finished (run.formatFile request file path parent).2⟩ :: after⟩
        (run.formatFile request file path parent).1.events)
    cases selected : file.select request.lines with
    | error error =>
        have ended := @move request limit before after positive done run.disk
          ⟨(path, .ok file), .waiting⟩ run.events
        simp only [Work.step, Work.reports, selected] at ended
        simp only [Run.formatFile, selected]
        exact .single ended
    | ok selection =>
        obtain ⟨begun, span, disk, events, formatted⟩ := run.formatFile_begun path parent selected
        have delivered := @move request limit before after positive done
          (run.answer request selection.block).1
          ⟨(path, .ok file), .answered file selection (run.answer request selection.block).2⟩
          (run.events ++ [⟨path, .align, .working, none⟩])
        simp only [Work.step, Work.reports, file.answeredOutcome_eq] at delivered
        have same : ({ disk := (run.answer request selection.block).1 } : Run).disk = begun.disk :=
          disk.symm
        let outcome :=
          file.blockOutcome request path (run.answer request selection.block).2 selection.block
        let text := (run.answer request selection.block).2.aligned.text
        obtain ⟨later, result⟩ := Run.deliver_congr same request file outcome selection text none span
          request.blockTimer
        have reported := Run.events_deliver same.symm rfl request file outcome selection text span
          none request.blockTimer
        rw [later, result, ← List.append_assoc, List.append_assoc run.events, List.singleton_append,
          ← events, ← reported, ← formatted] at delivered
        exact (moves_answer positive done run selected).tail delivered

/-- Formatting files one after the other, and reporting on it, is one of the ways to interleave the
work on them. -/
theorem moves_formatEach (positive : 0 < limit) (done : before.all Work.isFinished) (run : Run)
    (parent : Nat) (entries : List Run.Loaded) :
    ∃ final, ReflTransGen (Move request limit)
        ⟨⟨run.disk, before ++ entries.map (Work.mk · .waiting)⟩, run.events⟩ final ∧
      final.run.isDone ∧ final.run.disk = (run.formatEach request parent entries).1.disk ∧
      final.events = (run.formatEach request parent entries).1.events ∧
      final.run.outcomes =
        before.filterMap Work.outcome? ++ (run.formatEach request parent entries).2 := by
  induction entries generalizing run before with
  | nil =>
      refine ⟨_, .refl, ?_, rfl, rfl, ?_⟩
      · simpa [Interleaving.isDone] using done
      · simp [Interleaving.outcomes, Run.formatEach]
  | cons entry rest ih =>
      have first := @moves_formatLoaded request limit before
        (rest.map (Work.mk · .waiting)) positive done run parent entry
      let outcome := (run.formatLoaded request parent entry).2
      have done' : (before ++ [Work.mk entry (.finished outcome)]).all Work.isFinished := by
        rw [List.all_append, done]
        rfl
      obtain ⟨final, moves, finished, disk, events, outcomes⟩ :=
        ih done' (run.formatLoaded request parent entry).1
      rw [List.append_assoc, List.singleton_append] at moves
      refine ⟨final, first.trans moves, finished, disk, events, ?_⟩
      rw [outcomes, List.filterMap_append, List.append_assoc]
      rfl

end Reported

end HdlAlign
