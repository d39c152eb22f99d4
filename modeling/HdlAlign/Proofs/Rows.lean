import HdlAlign.Progress.Model
import Mathlib.Data.List.Induction
import Mathlib.Data.List.Perm.Basic

/-! What the view of a run shows is decided by the reports on each file in their order, however
those on different files are mixed. -/

namespace HdlAlign.Progress

def latest? (events : List Event) (path : Text) : Option Event :=
  (events.filter (·.file = path)).getLast?

theorem latest?_append (events more : List Event) (path : Text) :
    latest? (events ++ more) path = (latest? more path).or (latest? events path) := by
  rw [latest?, List.filter_append, List.getLast?_append]
  rfl

theorem latest?_concat (events : List Event) (event : Event) (path : Text) :
    latest? (events ++ [event]) path =
      if event.file = path then some event else latest? events path := by
  rw [latest?_append, latest?, List.filter_singleton]
  by_cases own : event.file = path <;> simp [own]

theorem latest?_eq_none_iff {events : List Event} {path : Text} :
    latest? events path = none ↔ ∀ event ∈ events, event.file ≠ path := by
  simp [latest?]

/-- Lists with the same reports on each file have the same reports. -/
theorem perm_of_filter_eq {events others : List Event}
    (same : ∀ path, events.filter (·.file = path) = others.filter (·.file = path)) :
    events.Perm others := by
  refine List.perm_iff_count.mpr fun event => ?_
  have own (list : List Event) : list.count event =
      (list.filter (·.file = event.file)).count event :=
    (List.count_filter (by simp)).symm
  rw [own events, own others, same]

namespace Model

theorem paths_addRow (rows : List Row) (path : Text) :
    (addRow rows path).map Row.path =
      if path ∈ rows.map Row.path then rows.map Row.path else rows.map Row.path ++ [path] := by
  have listed : (rows.any fun row => row.path = path) = true ↔ path ∈ rows.map Row.path := by simp
  rw [addRow]
  split
  · next found => rw [if_pos (listed.mp found)]
  · next new => rw [if_neg (mt listed.mpr new), List.map_append]; rfl

theorem mem_paths_addRow {rows : List Row} {path other : Text} :
    other ∈ (addRow rows path).map Row.path ↔ other ∈ rows.map Row.path ∨ other = path := by
  rw [paths_addRow]
  split
  · next listed => exact ⟨.inl, fun found => found.elim id fun same => same ▸ listed⟩
  · simp

theorem nodup_addRow {rows : List Row} (once : (rows.map Row.path).Nodup) (path : Text) :
    ((addRow rows path).map Row.path).Nodup := by
  rw [paths_addRow]
  split
  · exact once
  · next new => exact List.nodup_append.mpr ⟨once, by simp, by simpa using new⟩

theorem mem_addRow {rows : List Row} {path : Text} {row : Row} (member : row ∈ addRow rows path) :
    row ∈ rows ∨ row.path = path := by
  rw [addRow] at member
  split at member
  · exact .inl member
  · rcases List.mem_append.mp member with old | new
    · exact .inl old
    · exact .inr (by rw [List.mem_singleton.mp new])

/-- What the rows of a view show of the reports that it took in. -/
structure Shows (known : List Text) (events : List Event) (model : Model) : Prop where
  once : (model.rows.map Row.path).Nodup
  paths : ∀ path, path ∈ model.rows.map Row.path ↔
    path ∈ known ∨ path ≠ [] ∧ latest? events path ≠ none
  status : ∀ row ∈ model.rows, row.path ≠ [] → ∀ event,
    latest? events row.path = some event → row.status = event.status
  failed : model.failed = events.countP fun event => event.file ≠ [] && event.status = .failed

theorem shows_ofFiles (title : Text) (known : List Text) :
    Shows known [] (ofFiles title known) := by
  have rows (known : List Text) {rows : List Row} (once : (rows.map Row.path).Nodup) :
      ((known.foldl addRow rows).map Row.path).Nodup ∧
        ∀ path, path ∈ (known.foldl addRow rows).map Row.path ↔
          path ∈ rows.map Row.path ∨ path ∈ known := by
    induction known generalizing rows with
    | nil => exact ⟨once, by simp⟩
    | cons first known ih =>
        obtain ⟨nodup, paths⟩ := ih (nodup_addRow once first)
        refine ⟨nodup, fun path => (paths path).trans ?_⟩
        rw [mem_paths_addRow, List.mem_cons, or_assoc]
  obtain ⟨once, paths⟩ := @rows known [] List.nodup_nil
  refine ⟨once, fun path => (paths path).trans ?_, fun row _ _ event found => ?_, rfl⟩
  · simp [latest?]
  · cases found

def reported (event : Event) (row : Row) : Row :=
  if row.path = event.file then { row with stage := event.stage, status := event.status } else row

@[simp]
theorem path_reported (event : Event) (row : Row) : (reported event row).path = row.path := by
  rw [reported]
  split <;> rfl

theorem rows_apply (model : Model) {event : Event} (named : event.file ≠ []) :
    (model.apply event).rows = (addRow model.rows event.file).map (reported event) := by
  have filled : event.file.isEmpty = false := by simpa using named
  rw [Model.apply, filled]
  rfl

theorem failed_apply (model : Model) {event : Event} (named : event.file ≠ []) :
    (model.apply event).failed =
      if event.status = .failed then model.failed + 1 else model.failed := by
  have filled : event.file.isEmpty = false := by simpa using named
  rw [Model.apply, filled]
  rfl

theorem paths_apply (model : Model) {event : Event} (named : event.file ≠ []) :
    (model.apply event).rows.map Row.path = (addRow model.rows event.file).map Row.path := by
  rw [rows_apply model named, List.map_map]
  exact List.map_congr_left fun row _ => path_reported event row

section

variable {known : List Text} {events : List Event} {model : Model}

theorem Shows.apply_whole (shown : Shows known events model) {event : Event}
    (whole : event.file = []) : Shows known (events ++ [event]) (model.apply event) := by
  have same : model.apply event = model := by
    rw [Model.apply, whole]
    rfl
  have other {path : Text} (named : path ≠ []) :
      latest? (events ++ [event]) path = latest? events path := by
    rw [latest?_concat, if_neg fun own => named (own.symm.trans whole)]
  rw [same]
  refine ⟨shown.once, fun path => (shown.paths path).trans ?_, fun row member named => ?_, ?_⟩
  · refine or_congr_right (and_congr_right fun named => ?_)
    rw [other named]
  · rw [other named]
    exact shown.status row member named
  · simp [shown.failed, whole]

theorem Shows.apply_named (shown : Shows known events model) {event : Event}
    (named : event.file ≠ []) : Shows known (events ++ [event]) (model.apply event) := by
  have paths := model.paths_apply named
  refine ⟨paths ▸ nodup_addRow shown.once event.file, fun path => ?_,
    fun row member filled found last => ?_, ?_⟩
  · rw [paths, mem_paths_addRow, shown.paths, latest?_concat]
    by_cases own : event.file = path
    · subst own
      simp [named]
    · simp [own, Ne.symm own]
  · rw [model.rows_apply named] at member
    obtain ⟨old, listed, rfl⟩ := List.mem_map.mp member
    rw [path_reported] at filled last
    rw [latest?_concat] at last
    by_cases own : event.file = old.path
    · rw [if_pos own] at last
      cases last
      rw [reported, if_pos own.symm]
    · rw [if_neg own] at last
      have before : old ∈ model.rows := (mem_addRow listed).resolve_right (Ne.symm own)
      rw [reported, if_neg (Ne.symm own)]
      exact shown.status old before filled found last
  · rw [model.failed_apply named, shown.failed, List.countP_append, List.countP_singleton]
    by_cases failed : event.status = .failed <;> simp [failed, named]

end

theorem shows_applyAll (title : Text) (known : List Text) (events : List Event) :
    Shows known events ((ofFiles title known).applyAll events) := by
  induction events using List.reverseRecOn with
  | nil => exact shows_ofFiles title known
  | append_singleton events event ih =>
      rw [applyAll, List.foldl_append]
      by_cases named : event.file = []
      · exact ih.apply_whole named
      · exact ih.apply_named named

end Model

end HdlAlign.Progress
