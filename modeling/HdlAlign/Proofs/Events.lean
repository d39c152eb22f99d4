import HdlAlign.Proofs.Parallel
import HdlAlign.Proofs.Rows
import HdlAlign.Run.Reported

/-! Every file of a run is reported on until its work has ended, and one report says how.  So the
view of a run shows in the end what came of it, whatever the order in which files were worked on. -/

namespace HdlAlign

open Progress

/-! The files of a run have names -/

theorem Path.clean_ne_nil (path : Text) : clean path ≠ [] := by
  rw [clean, ofNames]
  split
  · exact List.cons_ne_nil _ _
  · split
    · exact (by decide : dot ≠ [])
    · next some =>
        refine join_ne_nil (by simpa using some) fun name member => ?_
        exact ((settled_cleanNames path).isName name (List.mem_reverse.mpr member)).1

theorem Path.join_ne_nil_of_ne_nil {directory : Text} (named : directory ≠ []) (path : Text) :
    join directory path ≠ [] := by
  obtain ⟨byte, rest, rfl⟩ := List.exists_cons_of_ne_nil named
  cases path <;> exact clean_ne_nil _

namespace Sources

theorem ne_nil_of_mem_below {disk : Disk} {depth : Nat} {place : Disk.Place} {path inner : Text}
    (named : path ≠ []) (member : inner ∈ below disk depth place path) : inner ≠ [] := by
  induction depth generalizing place path with
  | zero =>
      rw [below] at member
      cases member
  | succ depth ih =>
      rw [below] at member
      revert member
      generalize disk.entries place = entries
      intro member
      induction entries with
      | nil =>
          rw [belowEach] at member
          cases member
      | cons entry rest each =>
          obtain ⟨name, node⟩ := entry
          have deeper := Path.join_ne_nil_of_ne_nil named name
          rw [belowEach.eq_def] at member
          rcases List.mem_append.mp member with here | later
          · cases node with
            | directory =>
                dsimp only at here
                split at here
                · cases here
                · exact ih deeper here
            | file data mode => exact List.mem_singleton.mp here ▸ deeper
            | link target => exact List.mem_singleton.mp here ▸ deeper
          · exact each later

theorem ne_nil_of_mem_ofPath {disk : Disk} {extensions : List Text} {path : Text}
    {found : List Text} (stands : ofPath disk extensions path = .ok found) :
    ∀ file ∈ found, file ≠ [] := by
  have named : path ≠ [] := by
    rintro rfl
    cases stands
  rw [ofPath] at stands
  intro file member
  split at stands
  · cases stands
  · split at stands
    · cases stands
      exact ne_nil_of_mem_below named (List.mem_filter.mp member).1
    · cases stands
      exact List.mem_singleton.mp (List.mem_filter.mp member).1 ▸ named
  · cases stands
    exact List.mem_singleton.mp member ▸ named

theorem ne_nil_of_mem_ofPaths {disk : Disk} {extensions : List Text} {paths found : List Text}
    (stands : ofPaths disk extensions paths = .ok found) : ∀ file ∈ found, file ≠ [] := by
  induction paths generalizing found with
  | nil =>
      cases stands
      simp
  | cons path paths ih =>
      rw [ofPaths] at stands
      cases here : ofPath disk extensions path with
      | error failure => rw [here] at stands; cases stands
      | ok files =>
          cases later : ofPaths disk extensions paths with
          | error failure => rw [here, later] at stands; cases stands
          | ok others =>
              rw [here, later] at stands
              cases stands
              intro file member
              rcases List.mem_append.mp member with front | back
              · exact ne_nil_of_mem_ofPath here file front
              · exact ih later file back

theorem distinct_subset (paths : List Text) : distinct paths ⊆ paths := by
  induction paths with
  | nil => exact List.Subset.refl []
  | cons path rest ih =>
      rw [distinct]
      exact List.cons_subset_cons path (List.Subset.trans (List.filter_subset_self _) ih)

theorem ne_nil_of_mem_collect {disk : Disk} {extensions : List Text} {excluded : Text → Bool}
    {paths files : List Text} (collected : collect disk extensions excluded paths = .ok files) :
    ∀ file ∈ files, file ≠ [] := by
  rw [collect] at collected
  cases found : ofPaths disk (searched extensions) paths with
  | error failure => rw [found] at collected; cases collected
  | ok all =>
      rw [found] at collected
      cases collected
      intro file member
      have kept := distinct_subset _ ((List.mergeSort_perm _ _).subset member)
      exact ne_nil_of_mem_ofPaths found file (List.mem_filter.mp kept).1

end Sources

/-! The reports on one file -/

/-- Reports on a file of which the last, and no other, says how the work on it ended. -/
structure Ends (path : Text) (outcome : Outcome) (events : List Event) : Prop where
  ends : ∃ front last, events = front ++ [last] ∧ last.file = path ∧
    (last.status = if outcome.isFailed then .failed else .done) ∧
    ∀ event ∈ front, event.file = path ∧ event.status = .working

namespace Ends

variable {path : Text} {outcome : Outcome} {events : List Event}

theorem single (stage : Progress.Stage) {status : Status} (error : Option Text)
    (same : status = if outcome.isFailed then .failed else .done) :
    Ends path outcome [⟨path, stage, status, error⟩] :=
  ⟨[], _, rfl, rfl, same, by simp⟩

theorem append {front : List Event} (ends : Ends path outcome events)
    (working : ∀ event ∈ front, event.file = path ∧ event.status = .working) :
    Ends path outcome (front ++ events) := by
  obtain ⟨others, last, rfl, own, same, each⟩ := ends
  refine ⟨front ++ others, last, (List.append_assoc _ _ _).symm, own, same, fun event member => ?_⟩
  exact (List.mem_append.mp member).elim (working event) (each event)

theorem own (ends : Ends path outcome events) : ∀ event ∈ events, event.file = path := by
  obtain ⟨front, last, rfl, own, -, each⟩ := ends
  intro event member
  rcases List.mem_append.mp member with early | late
  · exact (each event early).1
  · exact List.mem_singleton.mp late ▸ own

theorem countP_failed (ends : Ends path outcome events) :
    (events.countP fun event => event.status = .failed) = if outcome.isFailed then 1 else 0 := by
  obtain ⟨front, last, rfl, -, same, each⟩ := ends
  have none : (front.countP fun event => event.status = .failed) = 0 := by
    refine List.countP_eq_zero.mpr fun event member => ?_
    simp [(each event member).2]
  rw [List.countP_append, none, List.countP_singleton, same]
  cases outcome.isFailed <;> rfl

theorem latest (ends : Ends path outcome events) :
    ∃ event, latest? events path = some event ∧ (event.status = .done ∨ event.status = .failed) := by
  obtain ⟨front, last, rfl, own, same, -⟩ := ends
  refine ⟨last, by rw [latest?_concat, if_pos own], ?_⟩
  rw [same]
  cases outcome.isFailed
  · exact .inl rfl
  · exact .inr rfl

end Ends

namespace Run

theorem ends_succeed (run : Run) (request : Request) {outcome : Outcome} (fine : outcome.error = none)
    (span : Option Trace.Span) (timer : Timer) :
    ∃ events, (run.succeed request outcome span timer).1.events = run.events ++ events ∧
      Ends outcome.path (run.succeed request outcome span timer).2 events := by
  refine ⟨_, rfl, .single .align none ?_⟩
  simp only [Outcome.isFailed, succeed, fine, Option.isSome_none, Bool.false_or]

theorem deliver_ends (run : Run) (request : Request) (file : SourceFile) (outcome : Outcome)
    (selection : SourceFile.Selection) (text : Text) (span : Option Trace.Span) (timer : Timer) :
    ∃ (begun : Run) (writing : List Event) (given : Outcome) (timer' : Timer),
      (run.deliver request file outcome selection text span timer =
          begun.succeed request given span timer' ∨
        ∃ error, run.deliver request file outcome selection text span timer =
          begun.fail given span .write error) ∧
      given.path = outcome.path ∧ given.error = outcome.error ∧
      begun.events = run.events ++ writing ∧
      ∀ event ∈ writing, event.file = outcome.path ∧ event.status = .working := by
  have silent : ∀ event ∈ ([] : List Event),
      event.file = outcome.path ∧ event.status = .working := by simp
  generalize result : run.deliver request file outcome selection text span timer = delivered
  simp only [deliver] at result
  split at result
  · exact ⟨run, [], _, _, .inl result.symm, rfl, rfl, (List.append_nil _).symm, silent⟩
  · split at result
    · exact ⟨run, [], _, _, .inl result.symm, rfl, rfl, (List.append_nil _).symm, silent⟩
    · split at result
      · have working : ∀ event ∈ [Event.mk outcome.path .write .working none],
            event.file = outcome.path ∧ event.status = .working := by simp
        split at result
        · exact ⟨_, _, _, timer, .inr ⟨_, result.symm⟩, rfl, rfl, rfl, working⟩
        · exact ⟨_, _, _, _, .inl result.symm, rfl, rfl, rfl, working⟩
      · exact ⟨run, [], _, _, .inl result.symm, rfl, rfl, (List.append_nil _).symm, silent⟩

theorem ends_deliver (run : Run) (request : Request) (file : SourceFile) {outcome : Outcome}
    (fine : outcome.error = none) (selection : SourceFile.Selection) (text : Text)
    (span : Option Trace.Span) (timer : Timer) :
    ∃ events, (run.deliver request file outcome selection text span timer).1.events =
        run.events ++ events ∧
      Ends outcome.path (run.deliver request file outcome selection text span timer).2 events := by
  obtain ⟨begun, writing, given, timer', succeeds | ⟨failure, fails⟩, path, error, before, working⟩ :=
    run.deliver_ends request file outcome selection text span timer
  · obtain ⟨events, reported, ends⟩ := begun.ends_succeed request (error.trans fine) span timer'
    rw [succeeds]
    refine ⟨writing ++ events, ?_, (path ▸ ends).append working⟩
    rw [reported, before, List.append_assoc]
  · rw [fails]
    refine ⟨writing ++ [⟨given.path, .write, .failed, some failure.message⟩], ?_,
      Ends.append ?_ working⟩
    · rw [← List.append_assoc, ← before]
      rfl
    · exact path ▸ .single .write _ rfl

end Run

namespace Work

theorem loaded_step (request : Request) (disk : Disk) (work : Work) :
    (work.step request disk).2.loaded = work.loaded := by
  simp only [step]
  (repeat' split) <;> rfl

theorem step_finished (request : Request) (disk : Disk) {work : Work} (finished : work.isFinished) :
    (work.step request disk).2 = work ∧ work.reports request disk = [] := by
  obtain ⟨loaded, stage⟩ := work
  cases stage with
  | finished outcome => exact ⟨rfl, rfl⟩
  | _ => cases finished

theorem told_step (request : Request) (disk : Disk) {work : Work} (unfinished : ¬ work.isFinished) :
    (¬ (work.step request disk).2.isFinished ∧ ∀ event ∈ work.reports request disk,
        event.file = work.loaded.1 ∧ event.status = .working) ∨
      ∃ outcome, (work.step request disk).2.stage = .finished outcome ∧
        Ends work.loaded.1 outcome (work.reports request disk) := by
  obtain ⟨⟨path, loaded⟩, stage⟩ := work
  cases stage with
  | waiting =>
      cases loaded with
      | error failure => exact .inr ⟨_, rfl, .single .load _ rfl⟩
      | ok file =>
          simp only [step, reports]
          cases file.select request.lines with
          | error error => exact .inr ⟨_, rfl, .single .load _ rfl⟩
          | ok selection =>
              refine .inl ⟨?_, by simp⟩
              cases request.cache with
              | none => exact Bool.false_ne_true
              | some cache =>
                  dsimp only
                  split <;> exact Bool.false_ne_true
  | missed cache file selection failure =>
      refine .inl ⟨?_, by simp [reports]⟩
      simp only [step]
      split <;> exact Bool.false_ne_true
  | answered file selection answer =>
      have fine : (file.answeredOutcome request path answer selection.block).error = none := rfl
      obtain ⟨events, reported, ends⟩ := Run.ends_deliver { disk } request file fine selection
        answer.aligned.text none request.blockTimer
      refine .inr ⟨_, rfl, ?_⟩
      simp only [reports]
      rw [reported]
      refine Ends.append ends fun event member => ?_
      split at member
      · simp [List.mem_singleton.mp member]
      · cases member
  | finished outcome => exact absurd rfl unfinished

end Work

end HdlAlign
