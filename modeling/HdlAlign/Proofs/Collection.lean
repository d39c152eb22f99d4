import HdlAlign.Proofs.Directories
import HdlAlign.Proofs.Events

/-! The files that a list of paths stands for depend on what is in the list, and on nothing else. -/

namespace HdlAlign

namespace Text

theorem lt_of_le_of_ne {s t : Text} (first : le s t) (other : s ≠ t) : lt s t := by
  rcases lt_or_lt_or_eq s t with less | greater | same
  · exact less
  · rw [le, greater] at first
    cases first
  · exact absurd same other

theorem eq_of_increasing {paths others : List Text} (increasing : paths.Pairwise fun s t => lt s t)
    (increasing' : others.Pairwise fun s t => lt s t) (same : ∀ path, path ∈ paths ↔ path ∈ others) :
    paths = others := by
  have distinct {s t : Text} (less : lt s t = true) : s ≠ t := by
    rintro rfl
    rw [not_lt_self] at less
    cases less
  have perm : paths.Perm others :=
    (List.perm_ext_iff_of_nodup (increasing.imp distinct) (increasing'.imp distinct)).mpr same
  refine perm.eq_of_pairwise (fun s t _ _ less greater => ?_) increasing increasing'
  exact absurd (lt_trans less greater) (by rw [not_lt_self]; exact Bool.false_ne_true)

end Text

namespace Disk

variable {disk : Disk} {place : Place} {name : Text} {node : Node}

structure IsListed (disk : Disk) : Prop extends disk.IsTree where
  stored : ∀ entry ∈ disk.nodes, disk.node? entry.1 = some entry.2

theorem isListed_of_nodes (stored : ∀ entry ∈ disk.nodes, disk.node? entry.1 = some entry.2 ∧
      disk.node? entry.1.dropLast = some .directory)
    (cwd : disk.node? disk.cwd = some .directory) : disk.IsListed where
  stored entry member := (stored entry member).1
  cwd := cwd
  rooted place node found := by
    by_cases root : place = []
    · rw [root]
      rfl
    · rw [node?_of_ne_nil disk root] at found
      exact (stored _ (mem_of_lookup found)).2

def Unlinked (disk : Disk) : Prop := ∀ place target, disk.node? place ≠ some (.link target)

theorem unlinked_of_nodes (plain : ∀ entry ∈ disk.nodes, ∀ target, entry.2 ≠ .link target) :
    disk.Unlinked := by
  intro place target found
  have other : disk.node? place ≠ some .directory := by simp [found]
  have filled : place ≠ [] := ne_nil_of_node? other
  rw [node?_of_ne_nil disk filled] at found
  exact plain _ (mem_of_lookup found) target rfl

theorem IsListed.mem_entries_iff (listed : disk.IsListed) :
    (name, node) ∈ disk.entries place ↔ disk.node? (place ++ [name]) = some node := by
  rw [entries, List.mem_mergeSort, List.mem_filterMap]
  constructor
  · rintro ⟨⟨inner, node'⟩, member, shown⟩
    dsimp only at shown
    by_cases inside : inner.dropLast = place
    · rw [if_pos inside] at shown
      obtain ⟨last, isLast, same⟩ := Option.map_eq_some_iff.mp shown
      cases same
      obtain ⟨front, rfl⟩ := List.getLast?_eq_some_iff.mp isLast
      rw [List.dropLast_concat] at inside
      exact inside ▸ listed.stored _ member
    · rw [if_neg inside] at shown
      cases shown
  · intro found
    rw [node?_of_ne_nil disk (by simp)] at found
    exact ⟨_, mem_of_lookup found, by simp⟩

theorem IsTree.directory_of_append (tree : disk.IsTree) {names more : List Text}
    (found : disk.node? (place ++ (names ++ more)) = some node) (further : more ≠ []) :
    disk.node? (place ++ names) = some .directory := by
  induction more using List.reverseRecOn generalizing node with
  | nil => exact absurd rfl further
  | append_singleton more name ih =>
      have outer := tree.rooted _ _ found
      rw [← List.append_assoc, ← List.append_assoc, List.dropLast_concat, List.append_assoc] at outer
      cases more with
      | nil => rwa [List.append_nil] at outer
      | cons next more => exact ih outer (List.cons_ne_nil _ _)

theorem Unlinked.walk_eq (unlinked : disk.Unlinked) (follow : Bool) (links steps : Nat)
    (place : Place) (names : List Text) :
    disk.walk follow links steps place names = disk.walk false links steps place names := by
  induction steps generalizing place names with
  | zero => cases names <;> rfl
  | succ steps ih =>
      cases names with
      | nil => rfl
      | cons name rest =>
          simp only [walk, ih]
          split
          · rfl
          · split
            · rfl
            · split
              · rfl
              · rfl
              · rfl
              · next target found => exact absurd found (unlinked _ target)

theorem Unlinked.find_eq (unlinked : disk.Unlinked) (follow : Bool) (path : Text) :
    disk.find follow path = disk.find false path := by
  rw [find, find, locate, locate, unlinked.walk_eq follow]

theorem stat_of_find {path : Text} (found : disk.find false path = .ok (place, .directory)) :
    disk.stat path = .ok .directory := by
  rw [find] at found
  cases located : disk.locate false path with
  | error cause =>
      rw [located] at found
      cases found
  | ok last =>
      rw [located] at found
      dsimp only at found
      cases here : disk.node? last with
      | none =>
          rw [here] at found
          cases found
      | some node =>
          rw [here] at found
          cases found
          rw [stat, find, locate_followed located (by simp [here])]
          dsimp only
          rw [here]

end Disk

namespace Sources

variable {disk : Disk} {place : Disk.Place} {path file : Text} {extensions : List Text}

def walkedPath (path : Text) (names : List Text) : Text := names.foldl Path.join path

/-- A file, or a link, that a walk comes to: no directory on the way to it is hidden. -/
structure Shown (disk : Disk) (place : Disk.Place) (names : List Text) : Prop where
  named : names ≠ []
  found : ∃ node, disk.node? (place ++ names) = some node ∧ node ≠ .directory
  visible : ∀ name ∈ names.dropLast, isHidden name = false

theorem shown_singleton_iff {name : Text} :
    Shown disk place [name] ↔
      ∃ node, disk.node? (place ++ [name]) = some node ∧ node ≠ .directory :=
  ⟨fun shown => shown.found, fun found => ⟨List.cons_ne_nil _ _, found, by simp⟩⟩

theorem shown_cons_iff (tree : disk.IsTree) {name : Text} {rest : List Text} (more : rest ≠ []) :
    Shown disk place (name :: rest) ↔
      disk.node? (place ++ [name]) = some .directory ∧ isHidden name = false ∧
        Shown disk (place ++ [name]) rest := by
  have behind : place ++ name :: rest = place ++ [name] ++ rest := List.append_cons _ _ _
  have front : (name :: rest).dropLast = name :: rest.dropLast := List.dropLast_cons_of_ne_nil more
  constructor
  · intro shown
    obtain ⟨node, found, other⟩ := shown.found
    have visible := shown.visible
    rw [front] at visible
    obtain ⟨first, later⟩ := List.forall_mem_cons.mp visible
    have directory : disk.node? (place ++ [name]) = some .directory :=
      tree.directory_of_append found more
    exact ⟨directory, first, more,
      ⟨node, behind ▸ found, other⟩, later⟩
  · rintro ⟨-, first, shown⟩
    refine ⟨List.cons_ne_nil _ _, behind ▸ shown.found, ?_⟩
    rw [front]
    exact List.forall_mem_cons.mpr ⟨first, shown.visible⟩

theorem mem_belowEach_iff (depth : Nat) (entries : List (Text × Disk.Node)) :
    file ∈ belowEach disk depth place path entries ↔ ∃ entry ∈ entries,
      entry.2 ≠ .directory ∧ file = Path.join path entry.1 ∨
        entry.2 = .directory ∧ isHidden entry.1 = false ∧
          file ∈ below disk depth (place ++ [entry.1]) (Path.join path entry.1) := by
  induction entries with
  | nil =>
      rw [belowEach]
      simp
  | cons entry rest ih =>
      obtain ⟨name, node⟩ := entry
      rw [belowEach.eq_def]
      simp only [List.mem_append, ih, List.exists_mem_cons_iff]
      refine or_congr_left ?_
      cases node with
      | directory => cases hidden : isHidden name <;> simp
      | file data mode => simp
      | link target => simp

theorem mem_below_iff (listed : disk.IsListed) (depth : Nat) (place : Disk.Place) (path : Text) :
    file ∈ below disk depth place path ↔
      ∃ names, Shown disk place names ∧ names.length ≤ depth ∧ file = walkedPath path names := by
  induction depth generalizing place path with
  | zero =>
      rw [below]
      refine iff_of_false List.not_mem_nil ?_
      rintro ⟨names, shown, few, -⟩
      exact shown.named (List.length_eq_zero_iff.mp (Nat.le_zero.mp few))
  | succ depth ih =>
      rw [below, mem_belowEach_iff]
      simp only [ih]
      constructor
      · rintro ⟨⟨name, node⟩, member, ⟨other, rfl⟩ | ⟨rfl, visible, names, shown, few, rfl⟩⟩
        all_goals have found := listed.mem_entries_iff.mp member
        · exact ⟨[name], shown_singleton_iff.mpr ⟨node, found, other⟩, Nat.succ_le_succ (Nat.zero_le _),
            rfl⟩
        · exact ⟨name :: names, (shown_cons_iff listed.toIsTree shown.named).mpr ⟨found, visible, shown⟩,
            Nat.succ_le_succ few, rfl⟩
      · rintro ⟨names, shown, few, rfl⟩
        obtain ⟨name, rest, rfl⟩ := List.exists_cons_of_ne_nil shown.named
        by_cases last : rest = []
        · subst last
          obtain ⟨node, found, other⟩ := shown_singleton_iff.mp shown
          exact ⟨(name, node), listed.mem_entries_iff.mpr found, .inl ⟨other, rfl⟩⟩
        · obtain ⟨found, visible, deeper⟩ := (shown_cons_iff listed.toIsTree last).mp shown
          exact ⟨(name, .directory), listed.mem_entries_iff.mpr found,
            .inr ⟨rfl, visible, rest, deeper, Nat.le_of_succ_le_succ few, rfl⟩⟩

/-- No place lies deeper than the bound. -/
theorem length_lt_depthBound {node : Disk.Node} (named : place ≠ [])
    (found : disk.node? place = some node) : place.length < depthBound disk := by
  rw [disk.node?_of_ne_nil named] at found
  exact Disk.le_foldl_of_mem (f := fun most (entry : Disk.Place × Disk.Node) =>
    max most (entry.1.length + 1)) (fun _ _ => Nat.le_max_left _ _)
    (fun _ => Nat.le_max_right _ _) (Disk.mem_of_lookup found) 1

theorem mem_below_depthBound_iff (listed : disk.IsListed) (place : Disk.Place) (path : Text) :
    file ∈ below disk (depthBound disk) place path ↔
      ∃ names, Shown disk place names ∧ file = walkedPath path names := by
  rw [mem_below_iff listed]
  refine exists_congr fun names => and_congr_right fun shown => and_iff_right ?_
  obtain ⟨node, found, -⟩ := shown.found
  have deep := length_lt_depthBound (by simp [shown.named]) found
  rw [List.length_append] at deep
  omega

/-! What a path stands for -/

/-- The files that a path stands for: one that leads to no directory stands for itself, as it is
written, and a directory stands for the files below it with one of the extensions. -/
inductive Stands (disk : Disk) (extensions : List Text) (path : Text) : Text → Prop where
  | itself {node : Disk.Node} (found : disk.stat path = .ok node) (other : node ≠ .directory) :
      Stands disk extensions path path
  | below {place : Disk.Place} {names : List Text}
      (walked : disk.find false path = .ok (place, .directory))
      (shown : Shown disk place names)
      (suitable : Text.lowerCase (Path.extension (walkedPath path names)) ∈ extensions) :
      Stands disk extensions path (walkedPath path names)

def Forwards (disk : Disk) (path : Text) : Prop :=
  disk.stat path = .ok .directory ∧ ∀ place, disk.find false path ≠ .ok (place, .directory)

theorem hasExtension_iff :
    hasExtension extensions path ↔ Text.lowerCase (Path.extension path) ∈ extensions :=
  List.contains_iff_mem

theorem ofPath_of_find (walked : disk.find false path = .ok (place, .directory)) :
    ofPath disk extensions path =
      .ok ((below disk (depthBound disk) place path).filter (hasExtension extensions)) := by
  rw [ofPath, Disk.stat_of_find walked, walked]

theorem ofPath_of_forwards (forwards : Forwards disk path) :
    ofPath disk extensions path = .ok ([path].filter (hasExtension extensions)) := by
  rw [ofPath, forwards.1]
  dsimp only
  split
  · next place found => exact absurd found (forwards.2 place)
  · rfl

theorem ofPath_of_ne_directory {node : Disk.Node} (found : disk.stat path = .ok node)
    (other : node ≠ .directory) : ofPath disk extensions path = .ok [path] := by
  rw [ofPath, found]
  cases node with
  | directory => exact absurd rfl other
  | file data mode => rfl
  | link target => rfl

theorem find_or_forwards_or_ne_directory {node : Disk.Node} (found : disk.stat path = .ok node) :
    (∃ place, disk.find false path = .ok (place, .directory)) ∨ Forwards disk path ∨
      node ≠ .directory := by
  by_cases inside : node = .directory
  · subst inside
    by_cases walked : ∃ place, disk.find false path = .ok (place, .directory)
    · exact .inl walked
    · exact .inr (.inl ⟨found, fun place walked' => walked ⟨place, walked'⟩⟩)
  · exact .inr (.inr inside)

theorem exists_ofPath (extensions : List Text) (listed : disk.IsListed) {node : Disk.Node}
    (present : disk.stat path = .ok node) :
    ∃ found, ofPath disk extensions path = .ok found ∧ ∀ file, file ∈ found ↔
      Stands disk extensions path file ∨
        Forwards disk path ∧ file = path ∧ hasExtension extensions path := by
  rcases find_or_forwards_or_ne_directory present with ⟨place, walked⟩ | forwards | other
  · refine ⟨_, ofPath_of_find walked, fun file => ?_⟩
    rw [List.mem_filter, mem_below_depthBound_iff listed, hasExtension_iff]
    constructor
    · rintro ⟨⟨names, shown, rfl⟩, suitable⟩
      exact .inl (.below walked shown suitable)
    · rintro ((⟨found, other⟩ | ⟨walked', shown, suitable⟩) | ⟨⟨-, other⟩, -⟩)
      · exact absurd (Except.ok.inj (found.symm.trans (Disk.stat_of_find walked))) other
      · cases walked'.symm.trans walked
        exact ⟨⟨_, shown, rfl⟩, suitable⟩
      · exact absurd walked (other place)
  · refine ⟨_, ofPath_of_forwards forwards, fun file => ?_⟩
    rw [List.mem_filter, List.mem_singleton]
    constructor
    · rintro ⟨rfl, suitable⟩
      exact .inr ⟨forwards, rfl, suitable⟩
    · rintro ((⟨found, other⟩ | ⟨walked, -, -⟩) | ⟨-, rfl, suitable⟩)
      · exact absurd (Except.ok.inj (found.symm.trans forwards.1)) other
      · exact absurd walked (forwards.2 _)
      · exact ⟨rfl, suitable⟩
  · refine ⟨_, ofPath_of_ne_directory present other, fun file => ?_⟩
    rw [List.mem_singleton]
    constructor
    · rintro rfl
      exact .inl (.itself present other)
    · rintro ((⟨-, -⟩ | ⟨walked, -, -⟩) | ⟨-, same, -⟩)
      · rfl
      · exact absurd (Except.ok.inj (present.symm.trans (Disk.stat_of_find walked))) other
      · exact same

/-! Collecting -/

theorem mem_distinct {paths : List Text} : file ∈ distinct paths ↔ file ∈ paths := by
  induction paths with
  | nil => exact Iff.rfl
  | cons path rest ih =>
      rw [distinct, List.mem_cons, List.mem_cons, List.mem_filter, ih]
      by_cases same : file = path <;> simp [same]

variable {paths : List Text} {excluded : Text → Bool}

theorem exists_ofPaths (extensions : List Text) (listed : disk.IsListed)
    (present : ∀ path ∈ paths, ∃ node, disk.stat path = .ok node) :
    ∃ found, ofPaths disk extensions paths = .ok found ∧ ∀ file, file ∈ found ↔
      ∃ path ∈ paths, Stands disk extensions path file ∨
        Forwards disk path ∧ file = path ∧ hasExtension extensions path := by
  induction paths with
  | nil => exact ⟨[], rfl, fun file => by simp⟩
  | cons path rest ih =>
      obtain ⟨⟨node, first⟩, later⟩ := List.forall_mem_cons.mp present
      obtain ⟨here, stands, mem_here⟩ := exists_ofPath extensions listed first
      obtain ⟨others, stands', mem_others⟩ := ih later
      refine ⟨here ++ others, ?_, fun file => ?_⟩
      · rw [ofPaths, stands, stands']
        rfl
      · rw [List.mem_append, mem_here, mem_others, List.exists_mem_cons_iff]

theorem searched_of_mem {extension : Text} (member : extension ∈ extensions) :
    searched extensions = extensions := by
  cases extensions with
  | nil => cases member
  | cons first rest => rfl

theorem exists_collect (extensions : List Text) (excluded : Text → Bool) (listed : disk.IsListed)
    (present : ∀ path ∈ paths, ∃ node, disk.stat path = .ok node) :
    ∃ files, collect disk extensions excluded paths = .ok files ∧ ∀ file, file ∈ files ↔
      (∃ path ∈ paths, Stands disk (searched extensions) path file ∨
        Forwards disk path ∧ file = path ∧ hasExtension (searched extensions) path) ∧
          excluded file = false := by
  obtain ⟨found, stands, mem_found⟩ := exists_ofPaths (searched extensions) listed present
  refine ⟨_, by rw [collect, stands]; rfl, fun file => ?_⟩
  rw [List.mem_mergeSort, mem_distinct, List.mem_filter, mem_found, Bool.not_eq_true']

theorem increasing_collect {files : List Text}
    (collected : collect disk extensions excluded paths = .ok files) :
    files.Pairwise fun path later => Text.lt path later := by
  obtain ⟨sorted, once⟩ := pairwise_collect collected
  exact (sorted.and once).imp fun both => Text.lt_of_le_of_ne both.1 both.2

theorem not_forwards (unlinked : disk.Unlinked) : ¬Forwards disk path := by
  rintro ⟨found, forwards⟩
  rw [Disk.stat, unlinked.find_eq true] at found
  cases walked : disk.find false path with
  | error cause =>
      rw [walked] at found
      cases found
  | ok entry =>
      obtain ⟨place, node⟩ := entry
      rw [walked] at found
      cases found
      exact forwards place walked

structure Collected (disk : Disk) (extensions : List Text) (excluded : Text → Bool)
    (paths files : List Text) : Prop where
  increasing : files.Pairwise fun path later => Text.lt path later
  members : ∀ file, file ∈ files ↔
    (∃ path ∈ paths, Stands disk (searched extensions) path file) ∧ excluded file = false

/-- The files are told by the set of the paths, and come in the order of their own paths. -/
theorem collect_exact (extensions : List Text) (excluded : Text → Bool) (listed : disk.IsListed)
    (unlinked : disk.Unlinked)
    (present : ∀ path ∈ paths, ∃ node, disk.stat path = .ok node) :
    ∃ files, collect disk extensions excluded paths = .ok files ∧
      Collected disk extensions excluded paths files ∧
        ∀ others, (∀ path, path ∈ others ↔ path ∈ paths) →
          collect disk extensions excluded others = .ok files := by
  obtain ⟨files, collected, mem_files⟩ :=
    exists_collect extensions excluded listed present
  have members : ∀ file, file ∈ files ↔
      (∃ path ∈ paths, Stands disk (searched extensions) path file) ∧ excluded file = false := by
    simpa only [not_forwards unlinked, false_and, or_false] using mem_files
  refine ⟨files, collected, ⟨increasing_collect collected, members⟩, fun others same => ?_⟩
  obtain ⟨files', collected', mem_files'⟩ :=
    exists_collect extensions excluded listed
      fun path member => present path ((same path).mp member)
  rw [collected', Text.eq_of_increasing (increasing_collect collected')
    (increasing_collect collected) fun file => ?_]
  simp only [mem_files, mem_files', same]

def crowdedDisk : Disk where
  nodes := [([".git"], .directory), ([".git", "x.sv"], .file [] 0o644),
    (["a.v"], .file [] 0o644), (["notes.txt"], .file [] 0o644), (["sub"], .directory),
    (["sub", "c.SV"], .file [] 0o644), (["sub", "gen_d.v"], .file [] 0o644)]

def crowdedPaths : List Text := Text.literals ["sub/c.SV", "sub", "./notes.txt", ".", ".git", "sub"]

def crowdedFiles : List Text := Text.literals ["./notes.txt", ".git/x.sv", "a.v", "sub/c.SV"]

def isGenerated (path : Text) : Bool := Path.base path == Text.ofString "gen_d.v"

theorem crowdedFiles_collected :
    collect crowdedDisk [] isGenerated crowdedPaths = .ok crowdedFiles := by
  cbv

/-- Overlapping paths, one of them twice, and with the hidden directory itself, searched for the
default extensions. -/
theorem collect_exact_crowded :
    Collected crowdedDisk [] isGenerated crowdedPaths crowdedFiles ∧
      collect crowdedDisk [] isGenerated (crowdedPaths.reverse ++ crowdedPaths) =
        .ok crowdedFiles := by
  have listed : crowdedDisk.IsListed := Disk.isListed_of_nodes (by decide) rfl
  have unlinked : crowdedDisk.Unlinked := Disk.unlinked_of_nodes (by simp [crowdedDisk])
  have present : ∀ path ∈ crowdedPaths, ∃ node, crowdedDisk.stat path = .ok node := by
    simp only [crowdedPaths, Text.literals, List.map_cons, List.map_nil, List.forall_mem_cons]
    exact ⟨⟨_, rfl⟩, ⟨_, rfl⟩, ⟨_, rfl⟩, ⟨_, rfl⟩, ⟨_, rfl⟩, ⟨_, rfl⟩, by simp⟩
  obtain ⟨files, collected, all, same⟩ :=
    collect_exact [] isGenerated listed unlinked present
  obtain rfl := Except.ok.inj (collected.symm.trans crowdedFiles_collected)
  exact ⟨all, same _ fun path => by simp⟩

end Sources

end HdlAlign
