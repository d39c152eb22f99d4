import HdlAlign.Proofs.RelativePaths
import HdlAlign.Settings.Discovery

/-! Exclusion of files by patterns.  Settings that are found have a clean absolute root; the way from
it is seen of an absolute path only. -/

namespace HdlAlign

namespace Settings

variable {disk : Disk} {start path : Text} {settings : Settings}

theorem isPrefix_of_mem_upward {n : Nat} {place outer : Disk.Place}
    (member : outer ∈ upward n place) : outer <+: place := by
  induction n generalizing place with
  | zero =>
      rw [List.mem_singleton.mp member]
  | succ n ih =>
      rw [upward] at member
      split at member
      · rw [List.mem_singleton.mp member]
      · rcases List.mem_cons.mp member with rfl | later
        · exact List.prefix_rfl
        · exact (ih later).trans (List.dropLast_prefix place)

theorem exists_mem_of_findIn {places : List Disk.Place}
    (found : findIn disk places = .ok (some path)) :
    ∃ place ∈ places, path = Path.join (Path.ofNames true place) fileName := by
  induction places with
  | nil => cases found
  | cons place rest ih =>
      rw [findIn] at found
      split at found
      · cases found
        exact ⟨place, List.mem_cons_self, rfl⟩
      · split at found
        · obtain ⟨outer, member, same⟩ := ih found
          exact ⟨outer, List.mem_cons_of_mem _ member, same⟩
        · cases found

theorem exists_place_of_find? (found : find? disk start = .ok (some path)) :
    ∃ place, Path.LeadDown place ∧ path = Path.join (Path.ofNames true place) fileName := by
  obtain ⟨place, member, same⟩ := exists_mem_of_findIn found
  have rooted : Path.isAbsolute disk.cwdPath = true := Path.isAbsolute_ofNames_true disk.cwd
  refine ⟨place, fun name inside => ?_, same⟩
  exact Path.leadDown_cleanNames (Path.isAbsolute_absolute rooted _) name
    ((isPrefix_of_mem_upward member).subset inside)

def settingsAt (place : Disk.Place) : Text := Path.ofNames true (place ++ [fileName])

theorem join_fileName {place : Disk.Place} (down : Path.LeadDown place) :
    Path.join (Path.ofNames true place) fileName = settingsAt place := by
  have isName : Path.IsName fileName := ⟨by decide, by decide⟩
  have filled : Path.ofNames true place ≠ [] := List.cons_ne_nil _ _
  rw [Path.join_of_isName filled isName ⟨by decide, by decide⟩, down.cleanNames_ofNames_true]
  rfl

theorem directory_join {place : Disk.Place} (down : Path.LeadDown place) :
    Path.directory (Path.join (Path.ofNames true place) fileName) = Path.ofNames true place := by
  have named : Path.LeadDown [fileName] := by decide
  rw [join_fileName down, settingsAt]
  exact Path.directory_ofNames_concat (Path.leadDown_append.mpr ⟨down, named⟩)

/-- What settings are accepted for: well-formed patterns, and the directory of the file as root. -/
structure Accepted (path : Text) (settings : Settings) : Prop where
  root : settings.root = Path.directory path
  patterns : ∀ pattern ∈ settings.exclude, (Glob.parse? pattern).isSome

theorem patterns_of_check {doc : Toml.Document} (checked : check path doc settings = .ok ()) :
    ∀ pattern ∈ settings.exclude, (Glob.parse? pattern).isSome := by
  cases bad : settings.exclude.find? fun pattern => (Glob.parse? pattern).isNone with
  | none => simpa [Option.isSome_iff_ne_none] using bad
  | some pattern =>
      -- The check ends with the malformed pattern, if nothing before it has failed.
      simp only [check, bad] at checked
      split at checked
      · cases checked
      · split at checked
        · split at checked
          · cases checked
          · split at checked <;> cases checked
        · cases checked

theorem accepted_of_load (loaded : load disk path = .ok settings) : Accepted path settings := by
  rw [load] at loaded
  split at loaded
  · cases loaded
  · simp only [ofText] at loaded
    split at loaded
    · next doc _ =>
        split at loaded
        · next applied _ =>
            cases checked : check path doc applied with
            | error failure =>
                rw [checked] at loaded
                cases loaded
            | ok _ =>
                rw [checked] at loaded
                cases loaded
                exact ⟨rfl, patterns_of_check checked⟩
        · cases loaded
    · cases loaded

theorem place_of_discover (discovered : discover disk start = { settings, found := true }) :
    ∃ place, Path.LeadDown place ∧
      (∀ pattern ∈ settings.exclude, (Glob.parse? pattern).isSome) ∧
        settings.root = Path.ofNames true place := by
  rw [discover] at discovered
  split at discovered
  · cases discovered
  · cases discovered
  · next path found =>
      split at discovered
      · cases discovered
      · next loaded =>
          cases discovered
          obtain ⟨place, down, rfl⟩ := exists_place_of_find? found
          have accepted := accepted_of_load loaded
          exact ⟨place, down, accepted.patterns, accepted.root.trans (directory_join down)⟩

/-! What patterns see of a path -/

/-- Some pattern of the settings accepts a name as a whole. -/
def Hits (settings : Settings) (name : Text) : Prop :=
  ∃ pattern ∈ settings.exclude, ∃ glob, Glob.parse? pattern = some glob ∧ Glob.accepts glob name

theorem excludes_iff {path : Text} (rooted : settings.root ≠ []) :
    settings.excludes path = true ↔ settings.Hits (Path.base path) ∨
      ∃ way, Path.relative? settings.root path = some way ∧ settings.Hits way := by
  have filled : settings.root.isEmpty = false := by simpa using rooted
  rw [excludes, List.any_eq_true, filled, if_neg Bool.false_ne_true]
  constructor
  · rintro ⟨pattern, member, accepted⟩
    cases read : Glob.parse? pattern with
    | none =>
        rw [read] at accepted
        cases accepted
    | some glob =>
        rw [read] at accepted
        obtain ⟨name, candidate, fits⟩ := List.any_eq_true.mp accepted
        rcases List.mem_cons.mp candidate with rfl | far
        · exact .inl ⟨pattern, member, glob, read, fits⟩
        · exact .inr ⟨name, Option.mem_toList.mp far, pattern, member, glob, read, fits⟩
  · rintro (⟨pattern, member, glob, read, fits⟩ | ⟨way, found, pattern, member, glob, read, fits⟩)
    · refine ⟨pattern, member, ?_⟩
      rw [read]
      exact List.any_eq_true.mpr ⟨_, List.mem_cons_self, fits⟩
    · refine ⟨pattern, member, ?_⟩
      rw [read]
      exact List.any_eq_true.mpr ⟨way, List.mem_cons_of_mem _ (Option.mem_toList.mpr found), fits⟩

theorem excludes_iff_of_relative?_eq_some {path way : Text} (rooted : settings.root ≠ [])
    (found : Path.relative? settings.root path = some way) :
    settings.excludes path = true ↔ settings.Hits (Path.base path) ∨ settings.Hits way := by
  simp [excludes_iff rooted, found]

theorem excludes_iff_of_relative?_eq_none {path : Text} (rooted : settings.root ≠ [])
    (lost : Path.relative? settings.root path = none) :
    settings.excludes path = true ↔ settings.Hits (Path.base path) := by
  simp [excludes_iff rooted, lost]

def below (settings : Settings) (names : List Text) : Text :=
  Path.join settings.root (Text.join [Path.slash] names)

/-- A file in its absolute spelling and in the one seen from a directory: patterns see the way from
the root in the former only. -/
structure Spellings (settings : Settings) (whole seen way name : Text) : Prop where
  rooted : Path.isAbsolute whole
  relative : Path.isAbsolute seen = false
  fromRoot : Path.relative? settings.root whole = some way
  whole_iff : settings.excludes whole ↔ settings.Hits name ∨ settings.Hits way
  seen_iff : settings.excludes seen ↔ settings.Hits name
  agree_iff : settings.excludes seen = settings.excludes whole ↔
    (settings.Hits way → settings.Hits name)

/-- The exclusion of a file below the root of discovered settings, from every directory in it. -/
theorem excludes_exact (discovered : discover disk start = { settings, found := true }) :
    (∀ pattern ∈ settings.exclude, (Glob.parse? pattern).isSome) ∧
      ∀ (within front : List Text) (name : Text), Path.LeadDown within →
        Path.LeadDown (front ++ [name]) → ¬front ++ [name] <+: within →
          ∃ seen, Path.relative? (settings.below within) (settings.below (front ++ [name])) =
              some seen ∧
            Spellings settings (settings.below (front ++ [name])) seen
              (Text.join [Path.slash] (front ++ [name])) name := by
  obtain ⟨root, down, patterns, rootPath⟩ := place_of_discover discovered
  refine ⟨patterns, fun within front name inside outside apart => ?_⟩
  have rooted : settings.root ≠ [] := rootPath ▸ List.cons_ne_nil _ _
  have isName : Path.IsName name := outside.isName name (by simp)
  have place (names : List Text) (down' : Path.LeadDown names) :
      settings.below names = Path.ofNames true (root ++ names) := by
    rw [below, rootPath, Path.join_ofNames down down']
  have down' : Path.LeadDown (root ++ front ++ [name]) := by
    rw [List.append_assoc]
    exact Path.leadDown_append.mpr ⟨down, outside⟩
  obtain ⟨seen, found, relative, last⟩ :=
    Path.exists_relative? (Path.leadDown_append.mpr ⟨down, inside⟩) down' fun passed =>
      apart (List.prefix_append_right_inj root |>.mp (by rwa [← List.append_assoc]))
  rw [place within inside, place _ outside, ← List.append_assoc]
  refine ⟨seen, found, ?_⟩
  have fromRoot : Path.relative? settings.root (Path.ofNames true (root ++ front ++ [name])) =
      some (Text.join [Path.slash] (front ++ [name])) := by
    rw [rootPath, List.append_assoc]
    exact Path.relative?_below (by rwa [← List.append_assoc]) (by simp)
  have lost : Path.relative? settings.root seen = none :=
    Path.relative?_of_not_isAbsolute
      (by rw [rootPath]; exact Path.isAbsolute_ofNames_true root) relative
  have whole_iff := excludes_iff_of_relative?_eq_some rooted fromRoot
  rw [Path.base_ofNames_true isName] at whole_iff
  have seen_iff := excludes_iff_of_relative?_eq_none rooted lost
  rw [last] at seen_iff
  refine ⟨Path.isAbsolute_ofNames_true _, relative, fromRoot, whole_iff, seen_iff, ?_⟩
  rw [Bool.eq_iff_iff, whole_iff, seen_iff]
  exact iff_comm.trans or_iff_left_iff_imp

/-! A pattern for one file in a directory -/

def passedDisk : Disk where
  nodes := [(Text.literals ["p"], .directory),
    (Text.literals ["p", ".vlalign.toml"], .file "[files]\nexclude = [\"sub/a.v\"]\n" 0o644),
    (Text.literals ["p", "sub"], .directory),
    (Text.literals ["p", "sub", "a.v"], .file [] 0o644)]
  cwd := Text.literals ["p"]

def passedSettings : Settings where
  path := "/p/.vlalign.toml"
  root := "/p"
  exclude := Text.literals ["sub/a.v"]

theorem eq_ok_of_toOption {ε α : Type} {result : Except ε α} {value : α}
    (present : result.toOption = some value) : result = .ok value := by
  cases result with
  | error _ => cases present
  | ok _ => exact congrArg Except.ok (Option.some.inj present)

theorem discover_passedDisk :
    discover passedDisk Path.dot = { settings := passedSettings, found := true } := by
  have found : find? passedDisk Path.dot = .ok (some passedSettings.path) :=
    eq_ok_of_toOption (by decide +kernel)
  have loaded : load passedDisk passedSettings.path = .ok passedSettings :=
    eq_ok_of_toOption (by decide +kernel)
  rw [discover, found]
  dsimp only
  rw [loaded]

theorem excludes_exact_passed :
    let file := Text.literals ["sub", "a.v"]
    discover passedDisk Path.dot = { settings := passedSettings, found := true } ∧
      ∃ seen, Path.relative? (passedSettings.below []) (passedSettings.below file) = some seen ∧
        Spellings passedSettings (passedSettings.below file) seen "sub/a.v" "a.v" :=
  ⟨discover_passedDisk, (excludes_exact discover_passedDisk).2 [] (Text.literals ["sub"]) "a.v"
    (by decide) (by decide) (by decide)⟩

/-- The file is excluded by its absolute path, and not by the path from the working directory. -/
theorem relative_spelling_kept :
    discover passedDisk Path.dot = { settings := passedSettings, found := true } ∧
      Path.relative? passedDisk.cwdPath "/p/sub/a.v" = some (Text.ofString "sub/a.v") ∧
      passedSettings.excludes "/p/sub/a.v" = true ∧ passedSettings.excludes "sub/a.v" = false :=
  ⟨discover_passedDisk, by decide +kernel, by decide +kernel, by decide +kernel⟩

end Settings

end HdlAlign
