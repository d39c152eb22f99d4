import HdlAlign.Proofs.Events
import HdlAlign.Proofs.Parallel
import HdlAlign.Proofs.Rows

/-! What the view of a run shows in the end is what came of the files. -/

namespace HdlAlign

open Progress Relation

theorem Run.events_loadEach (run : Run) (set : FileSet) (paths : List Text) :
    (run.loadEach set paths).1.events =
      run.events ++ paths.map fun path => ⟨path, .load, .queued, none⟩ := by
  induction paths generalizing run set with
  | nil => exact (List.append_nil _).symm
  | cons path rest ih =>
      rw [loadEach]
      split
      · rw [List.map_cons, List.append_cons]
        exact ih (run.emit path .load .queued) set
      · rw [List.map_cons, List.append_cons]
        exact ih (run.emit path .load .queued) _

theorem Work.outcome?_of_unfinished {work : Work} (unfinished : ¬ work.isFinished) :
    work.outcome? = none := by
  obtain ⟨loaded, stage⟩ := work
  cases stage with
  | finished outcome => exact absurd rfl unfinished
  | _ => rfl

namespace Reported

structure Told (files : List Text) (reported : Reported) : Prop where
  paths : (reported.run.works.map fun work => work.loaded.1) = files
  named : ∀ event ∈ reported.events, event.file ∈ files
  every : ∀ path ∈ files, latest? reported.events path ≠ none
  ended : ∀ work ∈ reported.run.works, work.isFinished → ∀ event,
    latest? reported.events work.loaded.1 = some event → event.status = .done ∨ event.status = .failed
  failed : (reported.events.countP fun event => event.status = .failed) =
    reported.run.outcomes.countP Outcome.isFailed

namespace Told

variable {files : List Text} {request : Request} {disk : Disk}

theorem start (disk : Disk) (few : files.length < 0x100000000) :
    Told files (.start disk files) := by
  have queued : (Reported.start disk files).events =
      files.map fun path => ⟨path, .load, .queued, none⟩ := Run.events_loadEach { disk } {} files
  have waiting : (Reported.start disk files).run.outcomes = [] := by
    refine List.filterMap_eq_nil_iff.mpr fun work member => ?_
    obtain ⟨entry, -, rfl⟩ := List.mem_map.mp member
    rfl
  refine ⟨?_, fun event member => ?_, fun path listed unreported => ?_,
    fun work member finished => ?_, ?_⟩
  · rw [Reported.start, Interleaving.start, List.map_map]
    exact Run.paths_loadEach { disk } {} files (by simpa using few)
  · rw [queued] at member
    obtain ⟨path, listed, rfl⟩ := List.mem_map.mp member
    exact listed
  · rw [queued] at unreported
    exact latest?_eq_none_iff.mp unreported _ (List.mem_map_of_mem listed) rfl
  · obtain ⟨entry, -, rfl⟩ := List.mem_map.mp member
    cases finished
  · rw [queued, waiting, List.countP_map]
    simp

variable {before after : List Work} {work next : Work} {events reports : List Event} {later : Disk}

/-- The work on one file goes on.  What is reported on the others stays the last of it. -/
theorem advance (told : Told files ⟨⟨disk, before ++ work :: after⟩, events⟩) (once : files.Nodup)
    (unfinished : ¬ work.isFinished) (same : next.loaded = work.loaded)
    (own : ∀ event ∈ reports, event.file = work.loaded.1)
    (ended : next.isFinished → ∃ event, latest? reports work.loaded.1 = some event ∧
      (event.status = .done ∨ event.status = .failed))
    (failed : (reports.countP fun event => event.status = .failed) =
      next.outcome?.toList.countP Outcome.isFailed) :
    Told files ⟨⟨later, before ++ next :: after⟩, events ++ reports⟩ := by
  have here : work ∈ before ++ work :: after := List.mem_append_right _ List.mem_cons_self
  have paths := told.paths
  have other {path : Text} (differ : path ≠ work.loaded.1) :
      latest? (events ++ reports) path = latest? events path := by
    have silent : latest? reports path = none :=
      latest?_eq_none_iff.mpr fun event member same => differ (same.symm.trans (own event member))
    rw [latest?_append, silent, Option.none_or]
  -- The paths differ, so the other works are those on other files.
  have apart : ∀ other, other ∈ before ∨ other ∈ after → other.loaded.1 ≠ work.loaded.1 := by
    have differ := paths ▸ once
    simp only [List.map_append, List.map_cons, List.nodup_append, List.nodup_cons] at differ
    obtain ⟨-, ⟨behind, -⟩, front⟩ := differ
    rintro other (member | member) same
    · exact front _ (List.mem_map_of_mem member) _ List.mem_cons_self same
    · exact behind (same ▸ List.mem_map_of_mem (f := fun work : Work => work.loaded.1) member)
  refine ⟨?_, fun event member => ?_, fun path listed unreported => ?_,
    fun work' member finished event last => ?_, ?_⟩
  · simp only [List.map_append, List.map_cons] at paths ⊢
    rwa [same]
  · rcases List.mem_append.mp member with old | new
    · exact told.named event old
    · rw [own event new, ← paths]
      exact List.mem_map_of_mem (f := fun work : Work => work.loaded.1) here
  · rw [latest?_append, Option.or_eq_none_iff] at unreported
    exact told.every path listed unreported.2
  · have listed : work' = next ∨ work' ∈ before ∨ work' ∈ after := by
      simpa [or_left_comm] using member
    rcases listed with rfl | others
    · obtain ⟨final, found, how⟩ := ended finished
      rw [same, latest?_append, found, Option.some_or, Option.some.injEq] at last
      exact last ▸ how
    · rw [other (apart work' others)] at last
      refine told.ended work' ?_ finished event last
      exact List.mem_append.mpr (others.imp id (List.mem_cons_of_mem work))
  · have count := told.failed
    simp only [Interleaving.outcomes, List.filterMap_append, List.filterMap_cons,
      Work.outcome?_of_unfinished unfinished, List.countP_append] at count ⊢
    rw [count, failed]
    cases next.outcome? with
    | none => simp
    | some outcome =>
        simp only [Option.toList_some, List.countP_cons, List.countP_nil]
        omega

theorem step (told : Told files ⟨⟨disk, before ++ work :: after⟩, events⟩) (once : files.Nodup) :
    Told files ⟨⟨(work.step request disk).1, before ++ (work.step request disk).2 :: after⟩,
      events ++ work.reports request disk⟩ := by
  by_cases unfinished : work.isFinished
  · obtain ⟨same, silent⟩ := work.step_finished request disk unfinished
    rw [same, silent, List.append_nil]
    exact ⟨told.paths, told.named, told.every, told.ended, told.failed⟩
  · have same := work.loaded_step request disk
    rcases work.told_step request disk unfinished with ⟨goes, working⟩ | ⟨outcome, ends, told'⟩
    · refine told.advance once unfinished same (fun event member => (working event member).1)
        (fun finished => absurd finished goes) ?_
      rw [Work.outcome?_of_unfinished goes]
      exact List.countP_eq_zero.mpr fun event member => by simp [(working event member).2]
    · refine told.advance once unfinished same told'.own (fun _ => told'.latest) ?_
      rw [told'.countP_failed, Work.outcome?, ends]
      simp [List.countP_singleton]

theorem moves {limit : Nat} {reported final : Reported} (told : Told files reported)
    (once : files.Nodup) (moves : ReflTransGen (Move request limit) reported final) :
    Told files final := by
  induction moves with
  | refl => exact told
  | tail _ move ih =>
      obtain ⟨disk, before, work, after, events, begun⟩ := move
      exact ih.step once

end Told

end Reported

theorem Run.formatPaths_reported (run : Run) {request : Request} {paths files : List Text}
    (parent : Nat)
    (collected : Sources.collect run.disk request.extensions request.excluded paths = .ok files)
    (some : files ≠ []) (unreported : run.events = [])
    {limit : Nat} (positive : 0 < limit) :
    ∃ final set, ReflTransGen (Reported.Move request limit) (.start run.disk files) final ∧
      final.run.isDone ∧ (run.formatPaths request paths parent).1.events = final.events ∧
      (run.formatPaths request paths parent).2 = .ok (final.run.outcomes, set) := by
  obtain ⟨path, rest, rfl⟩ := List.exists_cons_of_ne_nil some
  obtain ⟨disk, recorder, events, timer⟩ := run
  obtain rfl : events = [] := unreported
  simp only [formatPaths, collected]
  generalize recorder.start .run "format_paths" parent = recorded
  let begun : Run := ⟨disk, recorded.1, [], timer⟩
  let loaded := begun.loadEach {} (path :: rest)
  obtain ⟨final, moves, done, -, events, outcomes⟩ := @Reported.moves_formatEach request limit []
    positive rfl loaded.1 (Trace.spanId (recorded.2.map
      (·.setExtra "files" (Text.decimal (path :: rest).length)))) loaded.2.2
  have start : Reported.start disk (path :: rest) =
      ⟨⟨loaded.1.disk, [] ++ loaded.2.2.map (Work.mk · .waiting)⟩, loaded.1.events⟩ := by
    have same := @loadEach_congr begun { disk } rfl {} (path :: rest)
    rw [Reported.start, Interleaving.start, begun.disk_loadEach, events_loadEach, events_loadEach,
      ← same]
    rfl
  rw [← start] at moves
  refine ⟨final, loaded.2.1, moves, done, events.symm, ?_⟩
  rw [outcomes]
  rfl

namespace Progress.Model

/-- What a view shows of a run that has ended: each file once, as done or failed, and how many of
them failed. -/
structure Reflects (model : Model) (files : List Text) (outcomes : List Outcome) : Prop where
  once : (model.rows.map Row.path).Nodup
  paths : ∀ path, path ∈ model.rows.map Row.path ↔ path ∈ files
  ended : ∀ row ∈ model.rows, row.status = .done ∨ row.status = .failed
  full : ∀ row ∈ model.rows, row.tenths = 10
  failed : model.failed = outcomes.countP Outcome.isFailed

end Progress.Model

/-- A view that takes in what is reported on a run shows what came of it in the end.  Neither the
order in which the files are worked on matters, nor how the reports on different files are mixed;
some of the files may be known to the view from the start. -/
theorem Run.formatPaths_reflected (run : Run) {request : Request} {paths files : List Text}
    (collected : Sources.collect run.disk request.extensions request.excluded paths = .ok files)
    (few : files.length < 0x100000000) {limit : Nat}
    {final : Reported} (moves : ReflTransGen (Reported.Move request limit) (.start run.disk files) final)
    (done : final.run.isDone) {events : List Event}
    (mixed : ∀ path, events.filter (·.file = path) = final.events.filter (·.file = path))
    (title : Text) {known : List Text} (listed : known ⊆ files) :
    ((Model.ofFiles title known).applyAll events).Reflects files final.run.outcomes := by
  have told := (Reported.Told.start run.disk few).moves (Sources.pairwise_collect collected).2 moves
  have shown := Model.shows_applyAll title known events
  have last (path : Text) : latest? events path = latest? final.events path := by
    rw [latest?, latest?, mixed]
  have rows (path : Text) :
      path ∈ ((Model.ofFiles title known).applyAll events).rows.map Row.path ↔ path ∈ files := by
    rw [shown.paths, last]
    refine ⟨fun found => found.elim (@listed path) fun reported => ?_, fun member => .inr
      ⟨Sources.ne_nil_of_mem_collect collected path member, told.every path member⟩⟩
    obtain ⟨event, member, same⟩ :
        ∃ event ∈ final.events, event.file = path := by
      simpa [latest?_eq_none_iff] using reported.2
    exact same ▸ told.named event member
  have ended : ∀ row ∈ ((Model.ofFiles title known).applyAll events).rows,
      row.status = .done ∨ row.status = .failed := by
    intro row member
    have file := (rows row.path).mp (List.mem_map_of_mem member)
    obtain ⟨event, found⟩ := Option.ne_none_iff_exists'.mp (told.every row.path file)
    rw [shown.status row member (Sources.ne_nil_of_mem_collect collected _ file) event
      ((last _).trans found)]
    rw [← told.paths] at file
    obtain ⟨work, here, same⟩ := List.mem_map.mp file
    exact told.ended work here (List.all_eq_true.mp done work here) event (same ▸ found)
  refine ⟨shown.once, rows, ended, fun row member => ?_, ?_⟩
  · rw [Row.tenths]
    rcases ended row member with status | status <;> rw [status]
  · rw [shown.failed, ← told.failed, (perm_of_filter_eq mixed).countP_eq]
    refine List.countP_congr fun event member => ?_
    have named := Sources.ne_nil_of_mem_collect collected _ (told.named event member)
    simp [named]

namespace Run

def unevenDisk : Disk where
  nodes := [([Text.ofString "a.v"], .file "wire a;\nwire  b;" 0o644),
    ([Text.ofString "b.v"], .file "wire a;" 0o644)]

def unevenFiles : List Text := ["a.v", "b.v"]

def secondLine : Request := { lines := { first := 2, last := 2 } }

def unevenReports : List Event :=
  [⟨"b.v", .load, .queued, none⟩, ⟨"a.v", .load, .queued, none⟩, ⟨"a.v", .align, .working, none⟩,
    ⟨"b.v", .load, .failed, some (RangeError.noSuchLine { first := 2, last := 2 } 1).message⟩,
    ⟨"a.v", .write, .working, none⟩, ⟨"a.v", .align, .done, none⟩]

theorem unevenFiles_collected :
    Sources.collect unevenDisk secondLine.extensions secondLine.excluded unevenFiles =
      .ok unevenFiles := by
  have found : Sources.ofPaths unevenDisk Settings.defaultExtensions unevenFiles =
      .ok unevenFiles := by rfl
  show Sources.collect unevenDisk [] (fun _ => false) unevenFiles = _
  rw [Sources.collect, show Sources.searched [] = Settings.defaultExtensions from rfl, found]
  show Except.ok (unevenFiles.mergeSort Text.le) = _
  rw [List.mergeSort_of_pairwise (by decide)]

theorem unevenReports_filter (path : Text) :
    unevenReports.filter (·.file = path) =
      ((({ disk := unevenDisk } : Run).loadEach {} unevenFiles).1.formatEach secondLine 0
        (({ disk := unevenDisk } : Run).loadEach {} unevenFiles).2.2).1.events.filter
          (·.file = path) := by
  have events : ((({ disk := unevenDisk } : Run).loadEach {} unevenFiles).1.formatEach secondLine 0
      (({ disk := unevenDisk } : Run).loadEach {} unevenFiles).2.2).1.events =
      [⟨"a.v", .load, .queued, none⟩, ⟨"b.v", .load, .queued, none⟩,
        ⟨"a.v", .align, .working, none⟩, ⟨"a.v", .write, .working, none⟩,
        ⟨"a.v", .align, .done, none⟩,
        ⟨"b.v", .load, .failed, some (RangeError.noSuchLine { first := 2, last := 2 } 1).message⟩] := by
    decide +kernel
  rw [events, unevenReports]
  by_cases first : path = "a.v"
  · subst first
    rfl
  · by_cases second : path = "b.v"
    · subst second
      rfl
    · simp [Ne.symm first, Ne.symm second]

theorem formatPaths_reflected_uneven : ∃ final,
    ReflTransGen (Reported.Move secondLine 1) (.start unevenDisk unevenFiles) final ∧
      ((Model.ofFiles "format" []).applyAll unevenReports).Reflects unevenFiles
        final.run.outcomes ∧
      final.run.outcomes.countP Outcome.isFailed = 1 := by
  obtain ⟨final, moves, done, -, events, outcomes⟩ := @Reported.moves_formatEach secondLine 1 []
    Nat.one_pos rfl (({ disk := unevenDisk } : Run).loadEach {} unevenFiles).1 0
    (({ disk := unevenDisk } : Run).loadEach {} unevenFiles).2.2
  refine ⟨final, moves, formatPaths_reflected { disk := unevenDisk } unevenFiles_collected (by decide)
    moves done (fun path => ?_) "format" (List.nil_subset _), ?_⟩
  · rw [events]
    exact unevenReports_filter path
  · rw [outcomes]
    decide +kernel

end Run

end HdlAlign
