import HdlAlign.Proofs.Exclusion

/-! The settings file that applies to a directory is that of the deepest directory among it and those
above it that has one.  The way up ends, since the parent of a clean absolute path is shorter than the
path, but for the root, which is its own parent. -/

namespace HdlAlign

namespace Path

variable {names : List Text}

structure Rooted where
  path : Text
  clean : ∃ names, LeadDown names ∧ path = ofNames true names

namespace Rooted

def ofNames (down : LeadDown names) : Rooted := ⟨Path.ofNames true names, names, down, rfl⟩

@[simp] theorem path_ofNames (down : LeadDown names) :
    (ofNames down).path = Path.ofNames true names := rfl

theorem clean_directory {path : Text}
    (clean : ∃ names, LeadDown names ∧ path = Path.ofNames true names) :
    ∃ names, LeadDown names ∧ directory path = Path.ofNames true names := by
  obtain ⟨names, down, rfl⟩ := clean
  rcases List.eq_nil_or_concat' names with rfl | ⟨above, name, rfl⟩
  · exact ⟨[], down, directory_ofNames_nil⟩
  · exact ⟨above, (leadDown_append.mp down).1, directory_ofNames_concat down⟩

def parent (place : Rooted) : Rooted := ⟨directory place.path, clean_directory place.clean⟩

theorem length_parent_lt {place : Rooted} (inner : place.parent.path ≠ place.path) :
    place.parent.path.length < place.path.length := by
  obtain ⟨path, names, down, rfl⟩ := place
  rcases List.eq_nil_or_concat' names with rfl | ⟨above, name, rfl⟩
  · exact absurd directory_ofNames_nil inner
  · have shorter : (Path.ofNames true above).length < (Path.ofNames true (above ++ [name])).length :=
      length_ofNames_lt (down.isName name (by simp))
    rwa [← directory_ofNames_concat down] at shorter

end Rooted

theorem exists_absolute_eq {cwd : Text} (rooted : isAbsolute cwd = true) (path : Text) :
    ∃ whole, absolute cwd path = clean whole := by
  obtain ⟨byte, rest, rfl⟩ : ∃ byte rest, cwd = byte :: rest :=
    List.exists_cons_of_ne_nil (by rintro rfl; cases rooted)
  rw [absolute]
  split
  · exact ⟨path, rfl⟩
  · cases path with
    | nil => exact ⟨_, rfl⟩
    | cons first others => exact ⟨_, rfl⟩

theorem absolute_eq {cwd : Text} (rooted : isAbsolute cwd = true) (path : Text) :
    absolute cwd path = ofNames true (cleanNames (absolute cwd path)) := by
  have kind := isAbsolute_absolute rooted path
  obtain ⟨whole, same⟩ := exists_absolute_eq rooted path
  rw [same, isAbsolute_clean] at kind
  rw [same, clean, kind, (leadDown_cleanNames kind).cleanNames_ofNames_true]

def Rooted.absolute {cwd : Text} (rooted : isAbsolute cwd = true) (path : Text) : Rooted where
  path := Path.absolute cwd path
  clean := ⟨_, leadDown_cleanNames (isAbsolute_absolute rooted path), absolute_eq rooted path⟩

end Path

namespace Settings

open HdlAlign.Path (Rooted LeadDown)

variable {disk : Disk}

/-- The settings file from a directory on, given by its path. -/
def climb (disk : Disk) (place : Rooted) : Except SettingsError (Option Text) :=
  let candidate := Path.join place.path fileName
  match disk.stat candidate with
  | .ok _ => .ok (some candidate)
  | .error failure =>
    if failure.cause = .noEntry then
      if place.parent.path = place.path then .ok none else climb disk place.parent
    else .error (.notSearchable candidate failure)
termination_by place.path.length
decreasing_by exact Rooted.length_parent_lt ‹_›

theorem upward_concat (place : Disk.Place) (name : Text) :
    upward (place ++ [name]).length (place ++ [name]) =
      (place ++ [name]) :: upward place.length place := by
  have filled : (place ++ [name]).isEmpty = false := by simp
  rw [List.length_append, List.length_singleton, upward, filled, List.dropLast_concat]
  exact if_neg Bool.false_ne_true

theorem climb_ofNames {place : Disk.Place} (down : LeadDown place) :
    climb disk (.ofNames down) = findIn disk (upward place.length place) := by
  induction place using List.reverseRecOn with
  | nil =>
      have root : (Rooted.ofNames down).parent.path = (Rooted.ofNames down).path :=
        Path.directory_ofNames_nil
      rw [List.length_nil, upward]
      cases found : disk.stat (Path.join (Path.ofNames true []) fileName) with
      | ok node => rw [climb, findIn, Rooted.path_ofNames, found]
      | error failure => rw [climb, if_pos root, findIn, findIn, Rooted.path_ofNames, found]
  | append_singleton place name ih =>
      have above : (Rooted.ofNames down).parent =
          .ofNames (Path.leadDown_append.mp down).1 := by
        rw [Rooted.parent, Rooted.ofNames, Rooted.ofNames, Rooted.mk.injEq]
        exact Path.directory_ofNames_concat down
      have inner : (Rooted.ofNames down).parent.path ≠ (Rooted.ofNames down).path := by
        intro same
        have shorter : (Path.ofNames true place).length < _ :=
          Path.length_ofNames_lt (down.isName name (by simp))
        rw [above] at same
        exact shorter.ne (congrArg List.length same)
      rw [upward_concat]
      cases found : disk.stat (Path.join (Path.ofNames true (place ++ [name])) fileName) with
      | ok node => rw [climb, findIn, Rooted.path_ofNames, found]
      | error failure =>
          rw [climb, if_neg inner, above, ih, findIn, Rooted.path_ofNames, found]

/-! Probing one directory after the other -/

def probe (disk : Disk) (place : Disk.Place) : Option (Except SettingsError (Option Text)) :=
  match disk.stat (settingsAt place) with
  | .ok _ => some (.ok (some (settingsAt place)))
  | .error failure =>
    if failure.cause = .noEntry then none
    else some (.error (.notSearchable (settingsAt place) failure))

def Lacks (disk : Disk) (place : Disk.Place) : Prop :=
  ∃ failure, disk.stat (settingsAt place) = .error failure ∧ failure.cause = .noEntry

theorem probe_eq_none_iff {place : Disk.Place} : probe disk place = none ↔ Lacks disk place := by
  rw [probe, Lacks]
  cases found : disk.stat (settingsAt place) with
  | ok node => simp
  | error failure =>
      by_cases missing : failure.cause = .noEntry
      · simp [missing]
      · simp [missing]

theorem findIn_eq_findSome? {places : List Disk.Place} (down : ∀ place ∈ places, LeadDown place) :
    findIn disk places = (places.findSome? (probe disk)).getD (.ok none) := by
  induction places with
  | nil => rfl
  | cons place rest ih =>
      have later := ih fun other member => down other (List.mem_cons_of_mem place member)
      rw [findIn, join_fileName (down place List.mem_cons_self), List.findSome?_cons, probe]
      cases found : disk.stat (settingsAt place) with
      | ok node => rfl
      | error failure =>
          by_cases missing : failure.cause = .noEntry
          · simp only [if_pos missing, later]
          · simp only [if_neg missing, Option.getD_some]

theorem mem_upward_iff {place outer : Disk.Place} :
    outer ∈ upward place.length place ↔ outer <+: place := by
  induction place using List.reverseRecOn with
  | nil => simp [upward]
  | append_singleton place name ih =>
      rw [upward_concat, List.mem_cons, ih, List.prefix_concat_iff]

theorem pairwise_upward (place : Disk.Place) :
    (upward place.length place).Pairwise fun inner outer => outer.length < inner.length := by
  induction place using List.reverseRecOn with
  | nil => simp [upward]
  | append_singleton place name ih =>
      rw [upward_concat]
      refine List.pairwise_cons.mpr ⟨fun outer member => ?_, ih⟩
      rw [List.length_append, List.length_singleton]
      exact Nat.lt_succ_of_le (mem_upward_iff.mp member).length_le

structure Reaches (disk : Disk) (place outer : Disk.Place) : Prop where
  above : outer <+: place
  lacking : ∀ inner, inner <+: place → outer.length < inner.length → Lacks disk inner

variable {place : Disk.Place}

theorem findSome?_upward_eq_some_iff {result : Except SettingsError (Option Text)} :
    (upward place.length place).findSome? (probe disk) = some result ↔
      ∃ outer, Reaches disk place outer ∧ probe disk outer = some result := by
  have ordered := pairwise_upward place
  constructor
  · intro found
    obtain ⟨front, outer, back, split, ended, passed⟩ := List.findSome?_eq_some_iff.mp found
    refine ⟨outer, ⟨?_, fun inner below longer => ?_⟩, ended⟩
    · rw [← mem_upward_iff, split]
      simp
    · -- What is longer than the directory stands in front of it.
      rw [← mem_upward_iff, split, List.mem_append, List.mem_cons] at below
      rw [split, List.pairwise_append, List.pairwise_cons] at ordered
      rcases below with before | rfl | behind
      · exact probe_eq_none_iff.mp (passed inner before)
      · exact absurd longer (Nat.lt_irrefl _)
      · exact absurd longer (Nat.lt_asymm (ordered.2.1.1 inner behind))
  · rintro ⟨outer, reaches, ended⟩
    obtain ⟨front, back, split⟩ := List.append_of_mem (mem_upward_iff.mpr reaches.above)
    refine List.findSome?_eq_some_iff.mpr ⟨front, outer, back, split, ended, fun inner before => ?_⟩
    rw [split, List.pairwise_append] at ordered
    refine probe_eq_none_iff.mpr (reaches.lacking inner (mem_upward_iff.mp ?_) ?_)
    · rw [split]
      exact List.mem_append_left _ before
    · exact ordered.2.2 inner before outer List.mem_cons_self

theorem findSome?_upward_eq_none_iff :
    (upward place.length place).findSome? (probe disk) = none ↔
      ∀ outer, outer <+: place → Lacks disk outer := by
  rw [List.findSome?_eq_none_iff]
  exact forall_congr' fun outer => imp_congr mem_upward_iff probe_eq_none_iff

def origin (disk : Disk) (start : Text) : Disk.Place :=
  Path.cleanNames (Path.absolute disk.cwdPath (if start.isEmpty then Path.dot else start))

theorem leadDown_origin (disk : Disk) (start : Text) : LeadDown (origin disk start) :=
  Path.leadDown_cleanNames (Path.isAbsolute_absolute (Path.isAbsolute_ofNames_true disk.cwd) _)

theorem find?_eq (disk : Disk) (start : Text) :
    find? disk start =
      ((upward (origin disk start).length (origin disk start)).findSome? (probe disk)).getD
        (.ok none) := by
  refine findIn_eq_findSome? fun outer member => ?_
  obtain ⟨names, whole⟩ : outer <+: origin disk start := mem_upward_iff.mp member
  have down := leadDown_origin disk start
  rw [← whole] at down
  exact (Path.leadDown_append.mp down).1

theorem find?_eq_climb (disk : Disk) (start : Text) :
    find? disk start =
      climb disk (.absolute (Path.isAbsolute_ofNames_true disk.cwd)
        (if start.isEmpty then Path.dot else start)) := by
  have begun : Rooted.absolute (Path.isAbsolute_ofNames_true disk.cwd)
      (if start.isEmpty then Path.dot else start) = .ofNames (leadDown_origin disk start) := by
    rw [Rooted.absolute, Rooted.ofNames, Rooted.mk.injEq]
    exact Path.absolute_eq (Path.isAbsolute_ofNames_true disk.cwd) _
  rw [begun, climb_ofNames]
  rfl

theorem probe_eq_some_iff {result : Except SettingsError (Option Text)} :
    probe disk place = some result ↔
      (∃ node, disk.stat (settingsAt place) = .ok node) ∧ result = .ok (some (settingsAt place)) ∨
      ∃ failure, disk.stat (settingsAt place) = .error failure ∧ failure.cause ≠ .noEntry ∧
        result = .error (.notSearchable (settingsAt place) failure) := by
  rw [probe]
  cases found : disk.stat (settingsAt place) with
  | ok node => simp [eq_comm]
  | error failure =>
      by_cases missing : failure.cause = .noEntry
      · simp [missing]
      · simp [missing, @eq_comm _ result]

theorem find?_eq_iff {start : Text} {result : Except SettingsError (Option Text)}
    (found : result ≠ .ok none) :
    find? disk start = result ↔
      ∃ outer, Reaches disk (origin disk start) outer ∧ probe disk outer = some result := by
  rw [find?_eq, ← findSome?_upward_eq_some_iff]
  cases (upward (origin disk start).length (origin disk start)).findSome? (probe disk) with
  | none => exact iff_of_false found.symm (Option.some_ne_none result).symm
  | some ended => exact Option.some_inj.symm

/-- The search gives the settings file of the deepest directory that has one, among the directory it
begins with and those above it.  It finds none exactly if each of them lacks one, and it fails in a
directory that cannot be searched only if all deeper ones lack the file.  Every step up shortens the
path, but for the last one. -/
theorem find?_nearest (disk : Disk) (start : Text) :
    (∀ place : Rooted, place.parent.path = place.path ∨
      place.parent.path.length < place.path.length) ∧
    find? disk start =
      climb disk (.absolute (Path.isAbsolute_ofNames_true disk.cwd)
        (if start.isEmpty then Path.dot else start)) ∧
    (∀ path, find? disk start = .ok (some path) ↔
      ∃ outer, Reaches disk (origin disk start) outer ∧
        (∃ node, disk.stat (settingsAt outer) = .ok node) ∧ path = settingsAt outer) ∧
    (find? disk start = .ok none ↔ ∀ outer, outer <+: origin disk start → Lacks disk outer) ∧
    ∀ error, find? disk start = .error error ↔
      ∃ outer failure, Reaches disk (origin disk start) outer ∧
        disk.stat (settingsAt outer) = .error failure ∧ failure.cause ≠ .noEntry ∧
        error = .notSearchable (settingsAt outer) failure := by
  refine ⟨fun place => ?_, find?_eq_climb disk start, fun path => ?_, ?_, fun error => ?_⟩
  · exact or_iff_not_imp_left.mpr Rooted.length_parent_lt
  · rw [find?_eq_iff (by simp)]
    simp [probe_eq_some_iff]
  · rw [find?_eq, ← findSome?_upward_eq_none_iff]
    cases ended : (upward (origin disk start).length (origin disk start)).findSome? (probe disk) with
    | none => exact iff_of_true rfl rfl
    | some result =>
        refine iff_of_false ?_ (Option.some_ne_none result)
        rintro rfl
        obtain ⟨outer, -, last⟩ := findSome?_upward_eq_some_iff.mp ended
        simp [probe_eq_some_iff] at last
  · rw [find?_eq_iff (by simp)]
    simp [probe_eq_some_iff]

end Settings

end HdlAlign
