import HdlAlign.Proofs.Paths

/-! Directories: which are made on the way to a path, and what is left when one is removed with
everything in it. -/

namespace HdlAlign.Disk

/-! The front parts of a walk -/

section

variable {disk : Disk} {follow : Bool} {links : Nat} {place last : Place} {names more : List Text}

namespace Leads

theorem followed (leads : Leads disk false links place names last)
    (unlinked : ∀ target, disk.node? last ≠ some (.link target)) :
    Leads disk true links place names last := by
  induction leads with
  | here links place => exact .here links place
  | dot links place rest last leads ih => exact .dot links place rest last (ih unlinked)
  | dotDot links place rest last leads ih => exact .dotDot links place rest last (ih unlinked)
  | last links place name proper kept =>
      exact .last links place name proper fun target found => absurd found (unlinked target)
  | directory links place name rest last proper found leads ih =>
      exact .directory links place name rest last proper found (ih unlinked)
  | link links place name rest last target proper found further leads ih =>
      have goesOn : (rest.isEmpty && !true) = false := Bool.and_false _
      exact .link links place name rest last target proper found goesOn (ih unlinked)

theorem exists_directory (leads : Leads disk follow links place (names ++ more) last)
    (further : more ≠ []) (tree : disk.IsTree) (inside : disk.node? place = some .directory) :
    ∃ middle, Leads disk true links place names middle ∧ disk.node? middle = some .directory := by
  -- A link puts the names of its target in front of those that are left, so that the names in front
  -- change along the walk, and only those behind stay.
  generalize whole : names ++ more = all at leads
  induction leads generalizing names with
  | here links place =>
      rw [List.append_eq_nil_iff] at whole
      exact absurd whole.2 further
  | dot links place rest last leads ih =>
      cases names with
      | nil => exact ⟨place, .here links place, inside⟩
      | cons name names =>
          obtain ⟨rfl, rfl⟩ := List.cons.inj whole
          obtain ⟨middle, front, found⟩ := ih inside rfl
          exact ⟨middle, .dot _ _ _ _ front, found⟩
  | dotDot links place rest last leads ih =>
      cases names with
      | nil => exact ⟨place, .here links place, inside⟩
      | cons name names =>
          obtain ⟨rfl, rfl⟩ := List.cons.inj whole
          obtain ⟨middle, front, found⟩ := ih (tree.rooted _ _ inside) rfl
          exact ⟨middle, .dotDot _ _ _ _ front, found⟩
  | last links place name proper kept =>
      cases names with
      | nil => exact ⟨place, .here links place, inside⟩
      | cons name names =>
          exact absurd (List.append_eq_nil_iff.mp (List.cons.inj whole).2).2 further
  | directory links place name rest last proper found leads ih =>
      cases names with
      | nil => exact ⟨place, .here links place, inside⟩
      | cons name names =>
          obtain ⟨rfl, rfl⟩ := List.cons.inj whole
          obtain ⟨middle, front, found'⟩ := ih found rfl
          exact ⟨middle, .directory _ _ _ _ _ proper found front, found'⟩
  | link links place name rest last target proper found followed leads ih =>
      cases names with
      | nil => exact ⟨place, .here (links + 1) place, inside⟩
      | cons name names =>
          obtain ⟨rfl, rfl⟩ := List.cons.inj whole
          obtain ⟨middle, front, found'⟩ := ih (node?_begin inside _) (List.append_assoc _ _ _)
          exact ⟨middle, .link _ _ _ _ _ _ proper found (Bool.and_false _) front, found'⟩

theorem walk_append_of_missing (leads : Leads disk true links place names last)
    (tree : disk.IsTree) (inside : disk.node? place = some .directory)
    (missing : disk.node? last = none) :
    ∃ n, ∀ k {follow : Bool} {more : List Text}, more ≠ [] →
      disk.walk follow links (n + k) place (names ++ more) = .error .noEntry := by
  induction leads with
  | here links place =>
      rw [inside] at missing
      cases missing
  | dot links place rest last leads ih =>
      obtain ⟨n, walked⟩ := ih inside missing
      exact ⟨n + 1, fun k _ _ further => by rw [Nat.add_right_comm]; exact walked k further⟩
  | dotDot links place rest last leads ih =>
      obtain ⟨n, walked⟩ := ih (tree.rooted _ _ inside) missing
      exact ⟨n + 1, fun k _ _ further => by rw [Nat.add_right_comm]; exact walked k further⟩
  | last links place name proper kept =>
      refine ⟨1, fun k follow more further => ?_⟩
      have goesOn : more.isEmpty = false := by simpa using further
      rw [Nat.add_comm, List.singleton_append, walk_missing proper missing, goesOn]
      rfl
  | directory links place name rest last proper found leads ih =>
      obtain ⟨n, walked⟩ := ih found missing
      refine ⟨n + 1, fun k _ _ further => ?_⟩
      rw [Nat.add_right_comm, List.cons_append, walk_directory proper found, walked k further]
  | link links place name rest last target proper found followed leads ih =>
      obtain ⟨n, walked⟩ := ih (node?_begin inside _) missing
      refine ⟨n + 1, fun k follow more further => ?_⟩
      rw [Nat.add_right_comm, List.cons_append, walk_link proper found (goesOn further rest follow),
        ← List.append_assoc, walked k further]

end Leads

theorem locate_followed {path : Text} (located : disk.locate false path = .ok last)
    (unlinked : ∀ target, disk.node? last ≠ some (.link target)) :
    disk.locate true path = .ok last := by
  obtain ⟨filled, leads⟩ := locate_eq_ok_iff.mp located
  exact locate_eq_ok_iff.mpr ⟨filled, leads.followed unlinked⟩

theorem locate_below_missing (tree : disk.IsTree) {path path' : Text}
    (located : disk.locate true path = .ok last) (missing : disk.node? last = none)
    (filled : path' ≠ []) (start : disk.start path' = disk.start path)
    (below : steps path' = steps path ++ more) (further : more ≠ []) :
    disk.locate follow path' = .error .noEntry := by
  obtain ⟨-, leads⟩ := locate_eq_ok_iff.mp located
  obtain ⟨n, walked⟩ := leads.walk_append_of_missing tree (tree.start path) missing
  rw [locate_eq_walk filled n, start, below, Nat.add_comm, walked _ further]

end

/-! The leading parts of a path -/

section

open HdlAlign.Path

def leadingPart (path : Text) (last : Nat) : Option Text :=
  if (path.take (last + 1)).getLast? = some slash then none
  else if path[last + 1]?.getD slash = slash then some (path.take (last + 1)) else none

theorem leadingPaths_eq (path : Text) :
    leadingPaths path = (List.range path.length).filterMap (leadingPart path) := by
  refine List.filterMap_congr fun last _ => ?_
  rw [leadingPart]
  cases path[last + 1]? <;> simp

theorem leadingPart_zero (byte : UInt8) (rest : Text) :
    leadingPart (byte :: rest) 0 =
      if byte ≠ slash ∧ rest.head?.getD slash = slash then some [byte] else none := by
  by_cases same : byte = slash <;> simp [leadingPart, same, List.head?_eq_getElem?]

theorem leadingPart_succ {last : Nat} {rest : Text} (inside : last < rest.length) (byte : UInt8) :
    leadingPart (byte :: rest) (last + 1) = (leadingPart rest last).map (byte :: ·) := by
  have filled : rest.take (last + 1) ≠ [] := by
    rw [← List.length_pos_iff, List.length_take]
    omega
  rw [leadingPart, leadingPart, List.take_succ_cons, List.getLast?_cons_of_ne_nil filled,
    List.getElem?_cons_succ]
  split
  · rfl
  · split <;> rfl

theorem leadingPaths_cons (byte : UInt8) (rest : Text) :
    leadingPaths (byte :: rest) =
      (if byte ≠ slash ∧ rest.head?.getD slash = slash then [[byte]] else []) ++
        (leadingPaths rest).map (byte :: ·) := by
  have later : (List.range rest.length).filterMap (leadingPart (byte :: rest) ∘ Nat.succ) =
      (leadingPaths rest).map (byte :: ·) := by
    rw [leadingPaths_eq, List.map_filterMap]
    exact List.filterMap_congr fun last inside => leadingPart_succ (List.mem_range.mp inside) byte
  rw [leadingPaths_eq, List.length_cons, List.range_succ_eq_map, List.filterMap_cons,
    List.filterMap_map, later, leadingPart_zero]
  by_cases ends : byte ≠ slash ∧ rest.head?.getD slash = slash
  · rw [if_pos ends, if_pos ends]
    rfl
  · rw [if_neg ends, if_neg ends]
    rfl

theorem leadingPaths_append {front : Text} (filled : front ≠ [])
    (unended : front.getLast? ≠ some slash) (rest : Text) :
    leadingPaths (front ++ slash :: rest) =
      leadingPaths front ++ (leadingPaths rest).map (front ++ slash :: ·) := by
  induction front with
  | nil => exact absurd rfl filled
  | cons byte front ih =>
      cases front with
      | nil =>
          have other : byte ≠ slash := by simpa using unended
          simp [leadingPaths_cons, other, leadingPaths_eq []]
      | cons next front =>
          rw [List.getLast?_cons_of_ne_nil (List.cons_ne_nil _ _)] at unended
          rw [List.cons_append, leadingPaths_cons, ih (List.cons_ne_nil _ _) unended,
            leadingPaths_cons byte, List.map_append, List.map_map, List.append_assoc]
          rfl

theorem leadingPaths_of_isName {name : Text} (isName : IsName name) : leadingPaths name = [name] := by
  obtain ⟨filled, clear⟩ := isName
  induction name with
  | nil => exact absurd rfl filled
  | cons byte rest ih =>
      rw [List.mem_cons, not_or] at clear
      cases rest with
      | nil => simp [leadingPaths_cons, Ne.symm clear.1, leadingPaths_eq []]
      | cons next rest =>
          have goesOn : next ≠ slash := fun same => clear.2 (same ▸ List.mem_cons_self)
          rw [leadingPaths_cons, ih (List.cons_ne_nil _ _) clear.2]
          simp [goesOn]

theorem leadingPaths_ofNames_singleton (absolute : Bool) {name : Text} (isName : IsName name) :
    leadingPaths (ofNames absolute [name]) = [ofNames absolute [name]] := by
  have alone : Text.join [slash] [name] = name := by simp [Text.join]
  cases absolute with
  | true =>
      rw [ofNames, if_pos rfl, alone, leadingPaths_cons, leadingPaths_of_isName isName]
      simp
  | false =>
      rw [ofNames, if_neg Bool.false_ne_true, List.isEmpty_cons, if_neg Bool.false_ne_true, alone]
      exact leadingPaths_of_isName isName

theorem tail_inits_concat (names : List Text) (name : Text) :
    (names ++ [name]).inits.tail = names.inits.tail ++ [names ++ [name]] := by
  rw [List.inits_append, List.tail_append_of_ne_nil (by cases names <;> simp)]
  simp

theorem isPrefix_of_mem_tail_inits {part names : List Text} (listed : part ∈ names.inits.tail) :
    part ≠ [] ∧ part <+: names := by
  refine ⟨?_, (List.mem_inits _ _).mp (List.mem_of_mem_tail listed)⟩
  rintro rfl
  cases names with
  | nil => simp at listed
  | cons name names => simp at listed

theorem leadingPaths_ofNames {absolute : Bool} {names : List Text} (filled : names ≠ [])
    (isName : ∀ name ∈ names, IsName name) :
    leadingPaths (ofNames absolute names) = names.inits.tail.map (ofNames absolute) := by
  induction names using List.reverseRecOn with
  | nil => exact absurd rfl filled
  | append_singleton names name ih =>
      have named : IsName name := isName name (by simp)
      by_cases alone : names = []
      · subst alone
        exact leadingPaths_ofNames_singleton absolute named
      · have isName' : ∀ other ∈ names, IsName other := fun other member =>
          isName other (List.mem_append_left _ member)
        rw [tail_inits_concat, List.map_append, ← ih alone isName', ofNames_concat alone,
          leadingPaths_append (ofNames_ne_nil alone isName') (getLast?_ofNames alone isName'),
          leadingPaths_of_isName named, List.map_singleton, List.map_singleton,
          ofNames_concat alone]

end

/-! Making directories -/

section

open HdlAlign.Path

variable {disk : Disk} {place root : Place}

/-- Nothing but a directory may be at a place. -/
def Clear (disk : Disk) (place : Place) : Prop :=
  disk.node? place = none ∨ disk.node? place = some .directory

theorem Clear.unlinked (clear : disk.Clear place) (target : Text) :
    disk.node? place ≠ some (.link target) := by
  rcases clear with missing | found
  · simp [missing]
  · simp [found]

def ensure (disk : Disk) (place : Place) : Disk :=
  match disk.node? place with
  | none => disk.set place .directory
  | some _ => disk

theorem node?_ensure (disk : Disk) (place other : Place) :
    (disk.ensure place).node? other =
      if other = place then some ((disk.node? place).getD .directory) else disk.node? other := by
  rw [ensure]
  split
  · next missing =>
      have free : disk.node? place ≠ some .directory := by simp [missing]
      have filled := ne_nil_of_node? free
      split
      · next same => rw [same, node?_set_self disk _ filled, missing, Option.getD_none]
      · next apart => exact node?_set_of_ne disk _ apart
  · next found =>
      split
      · next same => rw [same, found, Option.getD_some]
      · rfl

theorem ensure_of_directory (found : disk.node? place = some .directory) :
    disk.ensure place = disk := by
  rw [ensure, found]

theorem Clear.node?_ensure (clear : disk.Clear place) :
    (disk.ensure place).node? place = some .directory := by
  rw [Disk.node?_ensure, if_pos rfl]
  rcases clear with missing | found
  · rw [missing, Option.getD_none]
  · rw [found, Option.getD_some]

theorem keeps_ensure (disk : Disk) (place : Place) : disk.Keeps (disk.ensure place) := by
  rw [ensure]
  split
  · next missing => exact keeps_set (by simp [missing]) (by simp [missing]) (by simp)
  · exact (Grows.refl disk).toKeeps

theorem IsTree.ensure (tree : disk.IsTree) (parent : disk.node? place.dropLast = some .directory) :
    (disk.ensure place).IsTree := by
  rw [Disk.ensure]
  split
  · next missing => exact tree.set _ parent (by simp [missing])
  · exact tree

theorem find_of_locate {follow : Bool} {path : Text} (located : disk.locate follow path = .ok place) :
    disk.find follow path =
      match disk.node? place with
      | none => .error .noEntry
      | some node => .ok (place, node) := by
  cases found : disk.node? place <;> simp only [find, located, found]

theorem makeEach_cons {path : Text} (located : disk.locate false path = .ok place)
    (clear : disk.Clear place) (rest : List Text) :
    disk.makeEach (path :: rest) = (disk.ensure place).makeEach rest := by
  have found := find_of_locate (locate_followed located clear.unlinked)
  rcases clear with missing | directory
  · rw [missing] at found
    simp only [makeEach, found, makeDirectory, located, missing, ensure]
    rfl
  · rw [directory] at found
    simp only [makeEach, found, ensure_of_directory directory]

theorem makeEach_append {paths : List Text} (directories : ∀ path ∈ paths, disk.isDirectory path)
    (rest : List Text) : disk.makeEach (paths ++ rest) = disk.makeEach rest := by
  induction paths with
  | nil => rfl
  | cons path paths ih =>
      have directory := directories path List.mem_cons_self
      rw [isDirectory] at directory
      split at directory
      · next found =>
          rw [List.cons_append, makeEach, found]
          exact ih fun other member => directories other (List.mem_cons_of_mem _ member)
      · cases directory

theorem isDirectory_iff {path : Text} :
    disk.isDirectory path ↔
      ∃ place, disk.locate true path = .ok place ∧ disk.node? place = some .directory := by
  rw [isDirectory, find]
  cases located : disk.locate true path with
  | error cause => simp
  | ok place =>
      cases found : disk.node? place with
      | none => simp [found]
      | some node => cases node <;> simp [found]

variable {absolute : Bool} {names : List Text}

theorem locate_ofNames_iff {follow : Bool} (filled : names ≠ []) (isName : ∀ name ∈ names, IsName name) :
    disk.locate follow (ofNames absolute names) = .ok place ↔
      Leads disk follow maxLinks (if absolute then [] else disk.cwd) names place := by
  rw [locate_eq_ok_iff, steps_ofNames filled isName, start, isAbsolute_ofNames filled isName]
  exact and_iff_right (ofNames_ne_nil filled isName)

theorem isDirectory_of_isPrefix (tree : disk.IsTree) {follow : Bool} {last : Text}
    (isName : ∀ name ∈ names ++ [last], IsName name)
    (located : disk.locate follow (ofNames absolute (names ++ [last])) = .ok place)
    {part : List Text} (filled : part ≠ []) (passed : part <+: names) :
    disk.isDirectory (ofNames absolute part) := by
  obtain ⟨more, rfl⟩ := passed
  rw [locate_ofNames_iff (by simp) isName, List.append_assoc] at located
  obtain ⟨middle, leads, found⟩ :=
    located.exists_directory (by simp) tree (node?_begin tree.cwd absolute)
  have named : ∀ name ∈ part, IsName name := fun name member =>
    isName name (List.mem_append_left _ (List.mem_append_left _ member))
  exact isDirectory_iff.mpr ⟨middle, (locate_ofNames_iff filled named).mpr leads, found⟩

variable {name : Text}

theorem locate_concat_iff (tree : disk.IsTree) (filled : names ≠ [])
    (isName : ∀ other ∈ names ++ [name], IsName other) (proper : Proper name)
    (located : disk.locate true (ofNames absolute names) = .ok root)
    (unlinked : ∀ target, disk.node? (root ++ [name]) ≠ some (.link target)) {follow : Bool} :
    disk.locate follow (ofNames absolute (names ++ [name])) = .ok place ↔
      disk.node? root = some .directory ∧ place = root ++ [name] := by
  have isName' : ∀ other ∈ names, IsName other := fun other member =>
    isName other (List.mem_append_left _ member)
  rw [locate_ofNames_iff filled isName'] at located
  obtain ⟨left, splits⟩ := located.append_iff tree (node?_begin tree.cwd absolute)
  rw [locate_ofNames_iff (by simp) isName, splits (List.cons_ne_nil _ _)]
  refine and_congr_right fun _ => ⟨fun leads => leads.last_eq proper unlinked, ?_⟩
  rintro rfl
  exact .last _ _ _ proper fun target found => absurd found (unlinked target)

variable (tree : disk.IsTree) (filled : names ≠ [])
  (isName : ∀ other ∈ names ++ [name], IsName other) (proper : Proper name)
  (located : disk.locate false (ofNames absolute names) = .ok root) (outer : disk.Clear root)
  (inner : disk.Clear (root ++ [name]))

include tree filled isName proper located outer inner

theorem makeEach_leadingPaths :
    disk.makeEach (leadingPaths (ofNames absolute (names ++ [name]))) =
      .ok ((disk.ensure root).ensure (root ++ [name])) := by
  -- Of the leading paths only the last two may be missing; the others were passed on the way.
  obtain ⟨front, last, rfl⟩ := (List.eq_nil_or_concat' names).resolve_left filled
  have passed : ∀ path ∈ front.inits.tail.map (ofNames absolute), disk.isDirectory path := by
    intro path listed
    obtain ⟨part, among, rfl⟩ := List.mem_map.mp listed
    obtain ⟨some, begins⟩ := isPrefix_of_mem_tail_inits among
    exact isDirectory_of_isPrefix tree (fun other member =>
      isName other (List.mem_append_left _ member)) located some begins
  have inner' : (disk.ensure root).Clear (root ++ [name]) := by
    rw [Clear, node?_ensure, if_neg (by simp)]
    exact inner
  have below : (disk.ensure root).locate false (ofNames absolute (front ++ [last] ++ [name])) =
      .ok (root ++ [name]) := by
    have parent := (locate_eq_ok_iff.mp located).2.parent tree (tree.start _)
    have located' := (keeps_ensure disk root).locate (locate_followed located outer.unlinked)
    rw [locate_concat_iff (tree.ensure parent) filled isName proper located' inner'.unlinked]
    exact ⟨outer.node?_ensure, rfl⟩
  rw [leadingPaths_ofNames (by simp) isName, tail_inits_concat, tail_inits_concat,
    List.map_append, List.map_append, List.append_assoc, makeEach_append passed,
    List.map_singleton, List.map_singleton, List.singleton_append, makeEach_cons located outer,
    makeEach_cons below inner']
  rfl

theorem makeDirectories_concat :
    disk.makeDirectories (ofNames absolute (names ++ [name])) =
      .ok ((disk.ensure root).ensure (root ++ [name])) := by
  rw [makeDirectories]
  split
  · next there =>
      obtain ⟨place, leads, found⟩ := isDirectory_iff.mp there
      rw [locate_concat_iff tree filled isName proper (locate_followed located outer.unlinked)
        inner.unlinked] at leads
      obtain ⟨directory, rfl⟩ := leads
      rw [ensure_of_directory directory, ensure_of_directory found]
  · exact makeEach_leadingPaths tree filled isName proper located outer inner

end

/-! Removing directories -/

section

variable {base disk : Disk} {root : Place}

theorem isWithin_iff {place : Place} : isWithin place root ↔ root <+: place :=
  List.isPrefixOf_iff_prefix

theorem node?_eraseTree (filled : root ≠ []) (disk : Disk) (place : Place) :
    (disk.eraseTree root).node? place = if root <+: place then none else disk.node? place := by
  have others := lookup_filter (fun other => !isWithin other root) place disk.nodes
  by_cases within : root <+: place
  · have filled' : place ≠ [] := fun none => filled (List.prefix_nil.mp (none ▸ within))
    rw [isWithin_iff.mpr within, if_neg (by decide)] at others
    rw [if_pos within, node?_of_ne_nil _ filled', eraseTree, others]
  · rw [Bool.eq_false_iff.mpr (mt isWithin_iff.mp within), if_pos (by decide)] at others
    rw [if_neg within, node?, node?, eraseTree, others]

theorem IsTree.node?_of_missing (tree : disk.IsTree) (missing : disk.node? root = none)
    {place : Place} (within : root <+: place) : disk.node? place = none := by
  obtain ⟨more, rfl⟩ := within
  induction more using List.reverseRecOn with
  | nil => rwa [List.append_nil]
  | append_singleton more name ih =>
      cases found : disk.node? (root ++ (more ++ [name])) with
      | none => rfl
      | some node =>
          have parent := tree.rooted _ _ found
          rw [← List.append_assoc, List.dropLast_concat, ih] at parent
          cases parent

theorem IsTree.eraseTree (tree : disk.IsTree) (filled : root ≠ [])
    (outside : ¬ root <+: disk.cwd) : (disk.eraseTree root).IsTree where
  rooted place node found := by
    rw [node?_eraseTree filled] at found ⊢
    split at found
    · cases found
    · next apart =>
        rw [if_neg fun within => apart (within.trans (List.dropLast_prefix place))]
        exact tree.rooted place node found
  cwd := by
    rw [node?_eraseTree filled]
    exact (if_neg outside).trans tree.cwd

structure SameOutside (base : Disk) (root : Place) (disk : Disk) : Prop where
  cwd : disk.cwd = base.cwd
  node? : ∀ place, ¬ root <+: place → disk.node? place = base.node? place

namespace SameOutside

theorem refl (disk : Disk) (root : Place) : disk.SameOutside root disk where
  cwd := rfl
  node? _ _ := rfl

variable (same : base.SameOutside root disk)

include same

theorem set {place : Place} (within : root <+: place) (node : Node) :
    base.SameOutside root (disk.set place node) where
  cwd := same.cwd
  node? other outside := by
    have apart : other ≠ place := fun same => outside (same ▸ within)
    rw [node?_set_of_ne disk node apart, same.node? other outside]

theorem ensure {place : Place} (within : root <+: place) :
    base.SameOutside root (disk.ensure place) := by
  rw [Disk.ensure]
  split
  · exact same.set within _
  · exact same

theorem eraseTree (filled : root ≠ []) : base.SameOutside root (disk.eraseTree root) where
  cwd := same.cwd
  node? other outside := by rw [node?_eraseTree filled, if_neg outside, same.node? other outside]

end SameOutside

end

end HdlAlign.Disk
