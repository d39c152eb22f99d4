import HdlAlign.Run.Interleaved

/-! What is reported on files that are worked on at the same time. -/

namespace HdlAlign

def Work.reports (request : Request) (disk : Disk) (work : Work) : List Progress.Event :=
  match work.stage with
  | .waiting =>
    match work.loaded with
    | (path, .error failure) => [⟨path, .load, .failed, some failure.message⟩]
    | (path, .ok file) =>
      match file.select request.lines with
      | .error error => [⟨path, .load, .failed, some error.message⟩]
      | .ok _ => [⟨path, .align, .working, none⟩]
  | .missed _ _ _ _ => []
  | .answered file selection answer =>
    let outcome := file.answeredOutcome request work.loaded.1 answer selection.block
    let (run, _) := ({ disk } : Run).deliver request file outcome selection answer.aligned.text
      none request.blockTimer
    (if request.verify then [⟨work.loaded.1, .verify, .working, none⟩] else []) ++ run.events
  | .finished _ => []

structure Reported where
  run : Interleaving
  events : List Progress.Event

namespace Reported

/-- The files of a run are loaded, which was reported, and none is begun yet. -/
def start (disk : Disk) (files : List Text) : Reported :=
  ⟨.start disk files, (Run.loadEach { disk } {} files).1.events⟩

inductive Move (request : Request) (limit : Nat) : Reported → Reported → Prop
  | next (disk : Disk) (before : List Work) (work : Work) (after : List Work)
      (events : List Progress.Event)
      (begun : before.length < (before ++ work :: after).countP Work.isFinished + limit) :
      Move request limit ⟨⟨disk, before ++ work :: after⟩, events⟩
        ⟨⟨(work.step request disk).1, before ++ (work.step request disk).2 :: after⟩,
          events ++ work.reports request disk⟩

end Reported

end HdlAlign
