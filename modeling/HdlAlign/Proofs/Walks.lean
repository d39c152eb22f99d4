import HdlAlign.Disk

/-! Where paths lead on a disk, and what changes to it leave as it was. -/

namespace HdlAlign.Disk

/-! Nodes -/

theorem node?_root (disk : Disk) : disk.node? [] = some .directory := rfl

theorem ne_nil_of_node? {disk : Disk} {place : Place} (other : disk.node? place ≠ some .directory) :
    place ≠ [] := by
  rintro rfl
  exact other rfl

theorem node?_of_ne_nil (disk : Disk) {place : Place} (ne : place ≠ []) :
    disk.node? place = disk.nodes.lookup place := by
  rw [node?, if_neg]
  simpa using ne

theorem lookup_filter (keep : Place → Bool) (place : Place) (nodes : List (Place × Node)) :
    (nodes.filter fun entry => keep entry.1).lookup place =
      if keep place then nodes.lookup place else none := by
  induction nodes with
  | nil => simp
  | cons entry rest ih =>
      obtain ⟨key, node⟩ := entry
      by_cases same : place = key
      · subst same
        cases kept : keep place with
        | true => simp [kept]
        | false => simpa [kept] using ih
      · have apart : (place == key) = false := beq_eq_false_iff_ne.mpr same
        cases kept : keep key with
        | true => simpa [kept, List.lookup_cons, apart] using ih
        | false => simpa [kept, List.lookup_cons, apart] using ih

theorem node?_set_of_ne (disk : Disk) {place other : Place} (node : Node) (ne : other ≠ place) :
    (disk.set place node).node? other = disk.node? other := by
  have apart : (other == place) = false := beq_eq_false_iff_ne.mpr ne
  have others := lookup_filter (· != place) other disk.nodes
  rw [if_pos (bne_iff_ne.mpr ne)] at others
  rw [node?, node?, set, List.lookup_cons, apart, others]

theorem node?_set_self (disk : Disk) {place : Place} (node : Node) (ne : place ≠ []) :
    (disk.set place node).node? place = some node := by
  rw [node?_of_ne_nil _ ne, set, List.lookup_cons, beq_self_eq_true]

theorem node?_set_eq_file_iff {disk : Disk} {place : Place} {old data : Text} {mode mode' : Nat}
    (stored : disk.node? place = some (.file old mode')) (other : Place) (data' : Text)
    (mode'' : Nat) :
    (disk.set place (.file data mode)).node? other = some (.file data' mode'') ↔
      if other = place then data' = data ∧ mode'' = mode
      else disk.node? other = some (.file data' mode'') := by
  have free : disk.node? place ≠ some .directory := by simp [stored]
  split
  · next same =>
      rw [same, node?_set_self disk _ (ne_nil_of_node? free)]
      simp [eq_comm]
  · next apart => rw [node?_set_of_ne disk _ apart]

theorem mem_of_lookup {nodes : List (Place × Node)} {place : Place} {node : Node}
    (found : nodes.lookup place = some node) : (place, node) ∈ nodes := by
  induction nodes with
  | nil => cases found
  | cons entry rest ih =>
      obtain ⟨key, other⟩ := entry
      rw [List.lookup_cons] at found
      by_cases here : place = key
      · rw [here, beq_self_eq_true] at found
        cases found
        exact here ▸ List.mem_cons_self
      · rw [beq_eq_false_iff_ne.mpr here] at found
        exact List.mem_cons_of_mem _ (ih found)

/-! The fuel of a walk never matters -/

theorem length_names_le (path : Text) : (Path.names path).length ≤ path.length := by
  rw [Path.names]
  induction path with
  | nil => exact Nat.le_refl 0
  | cons byte rest ih =>
      rw [Text.splitOn]
      split
      · exact Nat.le_succ_of_le ih
      · split
        · next none => exact absurd none (Text.splitOn_ne_nil _ _)
        · next piece others pieces =>
            rw [pieces] at ih
            have fewer := (List.sublist_cons_self piece others).filter fun name => !name.isEmpty
            exact Nat.succ_le_succ (Nat.le_trans fewer.length_le ih)

theorem length_steps_le (path : Text) : (steps path).length ≤ path.length + 1 := by
  have names := length_names_le path
  rw [steps, List.length_append]
  refine Nat.add_le_add names ?_
  split <;> exact Nat.le_of_ble_eq_true rfl

def Spans (disk : Disk) (length : Nat) : Prop :=
  ∀ place target, disk.node? place = some (.link target) → target.length + 1 ≤ length

theorem le_foldl_of_mem {α : Type} {f : Nat → α → Nat} (grows : ∀ n a, n ≤ f n a) {a : α} {m : Nat}
    (reaches : ∀ n, m ≤ f n a) {l : List α} (member : a ∈ l) (n : Nat) : m ≤ l.foldl f n := by
  have le_foldl (l : List α) (n : Nat) : n ≤ l.foldl f n := by
    induction l generalizing n with
    | nil => exact Nat.le_refl n
    | cons b l ih => exact Nat.le_trans (grows n b) (ih (f n b))
  induction l generalizing n with
  | nil => cases member
  | cons b l ih =>
      rcases List.mem_cons.mp member with rfl | later
      · exact Nat.le_trans (reaches n) (le_foldl l (f n a))
      · exact ih later (f n b)

theorem exists_walkBound (disk : Disk) :
    ∃ longest, disk.Spans longest ∧
      ∀ path, disk.walkBound path = path.length + 2 + (maxLinks + 1) * longest := by
  refine ⟨_, fun place target found => ?_, fun path => rfl⟩
  have filled : place ≠ [] := ne_nil_of_node? (by rw [found]; simp)
  rw [node?_of_ne_nil disk filled] at found
  refine le_foldl_of_mem ?_ ?_ (mem_of_lookup found) 0
  · rintro n ⟨_, _ | _ | _⟩
    · exact Nat.le_refl n
    · exact Nat.le_refl n
    · exact Nat.le_max_left _ _
  · exact fun n => Nat.le_max_right _ _

/-! One step of a walk, for each kind of name and of node -/

def Proper (name : Text) : Prop := name ≠ Path.dot ∧ name ≠ Path.dotDot

variable {disk : Disk} {follow : Bool} {links n : Nat} {place : Place} {name : Text}
  {rest : List Text}

theorem walk_nil : disk.walk follow links n place [] = .ok place := by
  cases n <;> rfl

theorem walk_dot :
    disk.walk follow links (n + 1) place (Path.dot :: rest) = disk.walk follow links n place rest :=
  rfl

theorem walk_dotDot :
    disk.walk follow links (n + 1) place (Path.dotDot :: rest) =
      disk.walk follow links n place.dropLast rest :=
  rfl

theorem walk_proper (proper : Proper name) :
    disk.walk follow links (n + 1) place (name :: rest) =
      match disk.node? (place ++ [name]) with
      | none => if rest.isEmpty then .ok (place ++ [name]) else .error .noEntry
      | some .directory => disk.walk follow links n (place ++ [name]) rest
      | some (.file _ _) =>
        if rest.isEmpty then .ok (place ++ [name]) else .error .notDirectory
      | some (.link target) =>
        if rest.isEmpty && !follow then .ok (place ++ [name])
        else match links with
          | 0 => .error .tooManyLinks
          | links + 1 =>
            disk.walk follow links n (if Path.isAbsolute target then [] else place)
              (steps target ++ rest) :=
  (if_neg proper.1).trans (if_neg proper.2)

theorem walk_missing (proper : Proper name) (found : disk.node? (place ++ [name]) = none) :
    disk.walk follow links (n + 1) place (name :: rest) =
      if rest.isEmpty then .ok (place ++ [name]) else .error .noEntry := by
  simp only [walk_proper proper, found]

theorem walk_directory (proper : Proper name)
    (found : disk.node? (place ++ [name]) = some .directory) :
    disk.walk follow links (n + 1) place (name :: rest) =
      disk.walk follow links n (place ++ [name]) rest := by
  simp only [walk_proper proper, found]

theorem walk_file (proper : Proper name) {data : Text} {mode : Nat}
    (found : disk.node? (place ++ [name]) = some (.file data mode)) :
    disk.walk follow links (n + 1) place (name :: rest) =
      if rest.isEmpty then .ok (place ++ [name]) else .error .notDirectory := by
  simp only [walk_proper proper, found]

theorem walk_link_kept (proper : Proper name) {target : Text}
    (found : disk.node? (place ++ [name]) = some (.link target)) :
    disk.walk false links (n + 1) place [name] = .ok (place ++ [name]) := by
  simp [walk_proper proper, found]

theorem walk_link_spent (proper : Proper name) {target : Text}
    (found : disk.node? (place ++ [name]) = some (.link target))
    (followed : (rest.isEmpty && !follow) = false) :
    disk.walk follow 0 (n + 1) place (name :: rest) = .error .tooManyLinks := by
  simp [walk_proper proper, found, followed]

theorem walk_link (proper : Proper name) {target : Text}
    (found : disk.node? (place ++ [name]) = some (.link target))
    (followed : (rest.isEmpty && !follow) = false) :
    disk.walk follow (links + 1) (n + 1) place (name :: rest) =
      disk.walk follow links n (if Path.isAbsolute target then [] else place)
        (steps target ++ rest) := by
  simp [walk_proper proper, found, followed]

theorem dot_or_dotDot_or_proper (name : Text) :
    name = Path.dot ∨ name = Path.dotDot ∨ Proper name := by
  by_cases isDot : name = Path.dot
  · exact .inl isDot
  · by_cases isDotDot : name = Path.dotDot
    · exact .inr (.inl isDotDot)
    · exact .inr (.inr ⟨isDot, isDotDot⟩)

theorem walk_succ {longest : Nat} (spans : disk.Spans longest) {names : List Text}
    (enough : names.length + links * longest ≤ n) :
    disk.walk follow links (n + 1) place names = disk.walk follow links n place names := by
  induction n generalizing links place names with
  | zero =>
      cases names with
      | nil => rfl
      | cons name rest => simp at enough
  | succ n ih =>
      cases names with
      | nil => rfl
      | cons name rest =>
          rw [List.length_cons] at enough
          have shorter {place : Place} :
              disk.walk follow links (n + 1) place rest = disk.walk follow links n place rest :=
            ih (by omega)
          rcases dot_or_dotDot_or_proper name with rfl | rfl | proper
          · exact shorter
          · exact shorter
          · cases found : disk.node? (place ++ [name]) with
            | none => rw [walk_missing proper found, walk_missing proper found]
            | some node =>
                cases node with
                | file => rw [walk_file proper found, walk_file proper found]
                | directory =>
                    rw [walk_directory proper found, walk_directory proper found, shorter]
                | link target =>
                    cases followed : (rest.isEmpty && !follow) with
                    | true =>
                        rw [Bool.and_eq_true, List.isEmpty_iff, Bool.not_eq_true'] at followed
                        obtain ⟨rfl, rfl⟩ := followed
                        rw [walk_link_kept proper found, walk_link_kept proper found]
                    | false =>
                        cases links with
                        | zero =>
                            rw [walk_link_spent proper found followed,
                              walk_link_spent proper found followed]
                        | succ links =>
                            rw [walk_link proper found followed, walk_link proper found followed]
                            refine ih ?_
                            have short := spans _ _ found
                            have steps := length_steps_le target
                            rw [List.length_append]
                            rw [Nat.add_mul] at enough
                            omega

/-- A walk from a directory over names that comes to an end.  Links on the way are followed, and one
at the end if asked for. -/
inductive Leads (disk : Disk) (follow : Bool) : (links : Nat) → Place → List Text → Place → Prop
  | here (links : Nat) (place : Place) : Leads disk follow links place [] place
  | dot (links : Nat) (place : Place) (rest : List Text) (last : Place)
      (leads : Leads disk follow links place rest last) :
      Leads disk follow links place (Path.dot :: rest) last
  | dotDot (links : Nat) (place : Place) (rest : List Text) (last : Place)
      (leads : Leads disk follow links place.dropLast rest last) :
      Leads disk follow links place (Path.dotDot :: rest) last
  | last (links : Nat) (place : Place) (name : Text) (proper : Proper name)
      (kept : ∀ target, disk.node? (place ++ [name]) = some (.link target) → follow = false) :
      Leads disk follow links place [name] (place ++ [name])
  | directory (links : Nat) (place : Place) (name : Text) (rest : List Text) (last : Place)
      (proper : Proper name) (found : disk.node? (place ++ [name]) = some .directory)
      (leads : Leads disk follow links (place ++ [name]) rest last) :
      Leads disk follow links place (name :: rest) last
  | link (links : Nat) (place : Place) (name : Text) (rest : List Text) (last : Place)
      (target : Text) (proper : Proper name)
      (found : disk.node? (place ++ [name]) = some (.link target))
      (followed : (rest.isEmpty && !follow) = false)
      (leads : Leads disk follow links (if Path.isAbsolute target then [] else place)
        (steps target ++ rest) last) :
      Leads disk follow (links + 1) place (name :: rest) last

theorem leads_of_walk {names : List Text} {last : Place}
    (walked : disk.walk follow links n place names = .ok last) :
    Leads disk follow links place names last := by
  induction n generalizing links place names with
  | zero =>
      cases names with
      | nil =>
          cases walked
          exact .here _ _
      | cons name rest => cases walked
  | succ n ih =>
      cases names with
      | nil =>
          cases walked
          exact .here _ _
      | cons name rest =>
          have ended (kept : ∀ target, disk.node? (place ++ [name]) = some (.link target) →
              follow = false) (proper : Proper name) {cause : Cause}
              (walked : (if rest.isEmpty then .ok (place ++ [name]) else .error cause) =
                Except.ok last) : Leads disk follow links place (name :: rest) last := by
            cases rest with
            | nil =>
                cases walked
                exact .last _ _ _ proper kept
            | cons => cases walked
          rcases dot_or_dotDot_or_proper name with rfl | rfl | proper
          · exact .dot _ _ _ _ (ih walked)
          · exact .dotDot _ _ _ _ (ih walked)
          · cases found : disk.node? (place ++ [name]) with
            | none =>
                rw [walk_missing proper found] at walked
                exact ended (by simp [found]) proper walked
            | some node =>
                cases node with
                | file =>
                    rw [walk_file proper found] at walked
                    exact ended (by simp [found]) proper walked
                | directory =>
                    rw [walk_directory proper found] at walked
                    exact .directory _ _ _ _ _ proper found (ih walked)
                | link target =>
                    cases followed : (rest.isEmpty && !follow) with
                    | true =>
                        rw [Bool.and_eq_true, List.isEmpty_iff, Bool.not_eq_true'] at followed
                        obtain ⟨rfl, rfl⟩ := followed
                        rw [walk_link_kept proper found] at walked
                        cases walked
                        exact .last _ _ _ proper fun _ _ => rfl
                    | false =>
                        cases links with
                        | zero =>
                            rw [walk_link_spent proper found followed] at walked
                            cases walked
                        | succ links =>
                            rw [walk_link proper found followed] at walked
                            exact .link _ _ _ _ _ _ proper found followed (ih walked)

namespace Leads

variable {names : List Text} {last : Place}

theorem exists_walk (leads : Leads disk follow links place names last) :
    ∃ n, ∀ k, disk.walk follow links (n + k) place names = .ok last := by
  induction leads with
  | here links place => exact ⟨0, fun _ => walk_nil⟩
  | dot links place rest last leads ih =>
      obtain ⟨n, walked⟩ := ih
      exact ⟨n + 1, fun k => by rw [Nat.add_right_comm]; exact walked k⟩
  | dotDot links place rest last leads ih =>
      obtain ⟨n, walked⟩ := ih
      exact ⟨n + 1, fun k => by rw [Nat.add_right_comm]; exact walked k⟩
  | last links place name proper kept =>
      refine ⟨1, fun k => ?_⟩
      rw [Nat.add_comm]
      cases found : disk.node? (place ++ [name]) with
      | none => exact walk_missing proper found
      | some node =>
          cases node with
          | file => exact walk_file proper found
          | directory => rw [walk_directory proper found, walk_nil]
          | link target =>
              cases kept target found
              exact walk_link_kept proper found
  | directory links place name rest last proper found leads ih =>
      obtain ⟨n, walked⟩ := ih
      refine ⟨n + 1, fun k => ?_⟩
      rw [Nat.add_right_comm, walk_directory proper found, walked]
  | link links place name rest last target proper found followed leads ih =>
      obtain ⟨n, walked⟩ := ih
      refine ⟨n + 1, fun k => ?_⟩
      rw [Nat.add_right_comm, walk_link proper found followed, walked]

end Leads

def start (disk : Disk) (path : Text) : Place := if Path.isAbsolute path then [] else disk.cwd

/-- Fuel beyond the bound changes nothing. -/
theorem locate_eq_walk {path : Text} (filled : path ≠ []) (k : Nat) :
    disk.locate follow path =
      disk.walk follow maxLinks (disk.walkBound path + k) (disk.start path) (steps path) := by
  obtain ⟨longest, spans, bound⟩ := disk.exists_walkBound
  have enough : (steps path).length + maxLinks * longest ≤ disk.walkBound path := by
    have short := length_steps_le path
    rw [bound, Nat.add_mul]
    omega
  induction k with
  | zero =>
      rw [locate, if_neg (by simpa using filled)]
      rfl
  | succ k ih => exact ih.trans (walk_succ spans (Nat.le_add_right_of_le enough)).symm

theorem locate_eq_ok_iff {path : Text} {last : Place} :
    disk.locate follow path = .ok last ↔
      path ≠ [] ∧ Leads disk follow maxLinks (disk.start path) (steps path) last := by
  by_cases filled : path = []
  · simp [filled, locate]
  · refine ⟨fun walked => ⟨filled, leads_of_walk ((locate_eq_walk filled 0).symm.trans walked)⟩,
      fun ⟨_, leads⟩ => ?_⟩
    obtain ⟨n, walked⟩ := leads.exists_walk
    exact (locate_eq_walk filled n).trans (Nat.add_comm n _ ▸ walked _)

/-! The tree of directories -/

/-- Everything that is stored lies in a directory. -/
structure IsTree (disk : Disk) : Prop where
  rooted : ∀ place node, disk.node? place = some node →
    disk.node? place.dropLast = some .directory
  cwd : disk.node? disk.cwd = some .directory

theorem node?_begin (inside : disk.node? place = some .directory) (absolute : Bool) :
    disk.node? (if absolute then [] else place) = some .directory := by
  cases absolute with
  | true => exact disk.node?_root
  | false => exact inside

theorem IsTree.start (tree : disk.IsTree) (path : Text) :
    disk.node? (disk.start path) = some .directory := node?_begin tree.cwd _

namespace Leads

variable {names : List Text} {last : Place}

theorem parent (leads : Leads disk follow links place names last) (tree : disk.IsTree)
    (inside : disk.node? place = some .directory) :
    disk.node? last.dropLast = some .directory := by
  induction leads with
  | here links place => exact tree.rooted _ _ inside
  | dot links place rest last leads ih => exact ih inside
  | dotDot links place rest last leads ih => exact ih (tree.rooted _ _ inside)
  | last links place name proper kept => rwa [List.dropLast_concat]
  | directory links place name rest last proper found leads ih => exact ih found
  | link links place name rest last target proper found followed leads ih =>
      exact ih (node?_begin inside _)

/-! What the first name tells -/

theorem iff_of_walk {names' : List Text} {links' : Nat} {place' : Place}
    (same : ∀ n, disk.walk follow links (n + 1) place names =
      disk.walk follow links' n place' names')
    (back : Leads disk follow links' place' names' last → Leads disk follow links place names last) :
    Leads disk follow links place names last ↔ Leads disk follow links' place' names' last := by
  refine ⟨fun leads => ?_, back⟩
  obtain ⟨n, walked⟩ := leads.exists_walk
  exact leads_of_walk ((same n).symm.trans (walked 1))

theorem dot_iff :
    Leads disk follow links place (Path.dot :: rest) last ↔
      Leads disk follow links place rest last :=
  iff_of_walk (fun _ => walk_dot) (.dot _ _ _ _)

theorem dotDot_iff :
    Leads disk follow links place (Path.dotDot :: rest) last ↔
      Leads disk follow links place.dropLast rest last :=
  iff_of_walk (fun _ => walk_dotDot) (.dotDot _ _ _ _)

theorem directory_iff (proper : Proper name)
    (found : disk.node? (place ++ [name]) = some .directory) :
    Leads disk follow links place (name :: rest) last ↔
      Leads disk follow links (place ++ [name]) rest last :=
  iff_of_walk (fun _ => walk_directory proper found) (.directory _ _ _ _ _ proper found)

theorem link_iff (proper : Proper name) {target : Text}
    (found : disk.node? (place ++ [name]) = some (.link target))
    (followed : (rest.isEmpty && !follow) = false) :
    Leads disk follow (links + 1) place (name :: rest) last ↔
      Leads disk follow links (if Path.isAbsolute target then [] else place)
        (steps target ++ rest) last :=
  iff_of_walk (fun _ => walk_link proper found followed) (.link _ _ _ _ _ _ proper found followed)

theorem directory_of_unlinked (leads : Leads disk follow links place (name :: rest) last)
    (proper : Proper name) (further : rest ≠ [])
    (unlinked : ∀ target, disk.node? (place ++ [name]) ≠ some (.link target)) :
    disk.node? (place ++ [name]) = some .directory := by
  obtain ⟨n, walked⟩ := leads.exists_walk
  have goes := walked 1
  have notEnd : rest.isEmpty = false := by cases rest <;> simp_all
  cases found : disk.node? (place ++ [name]) with
  | none =>
      rw [walk_missing proper found, notEnd] at goes
      cases goes
  | some node =>
      cases node with
      | file =>
          rw [walk_file proper found, notEnd] at goes
          cases goes
      | directory => rfl
      | link target => exact absurd found (unlinked target)

theorem last_eq (leads : Leads disk follow links place [name] last) (proper : Proper name)
    (unlinked : ∀ target, disk.node? (place ++ [name]) ≠ some (.link target)) :
    last = place ++ [name] := by
  have direct : Leads disk follow links place [name] (place ++ [name]) :=
    .last _ _ _ proper fun target found => absurd found (unlinked target)
  obtain ⟨n, walked⟩ := leads.exists_walk
  obtain ⟨m, walked'⟩ := direct.exists_walk
  have same := (walked m).symm.trans (Nat.add_comm n m ▸ walked' n)
  cases same
  rfl

theorem goesOn {more : List Text} (further : more ≠ []) (rest : List Text) (follow : Bool) :
    ((rest ++ more).isEmpty && !follow) = false := by
  simp [further]

theorem append_iff (leads : Leads disk true links place names last) (tree : disk.IsTree)
    (inside : disk.node? place = some .directory) :
    ∃ left, ∀ {follow : Bool} {more : List Text} {final : Place}, more ≠ [] →
      (Leads disk follow links place (names ++ more) final ↔
        disk.node? last = some .directory ∧ Leads disk follow left last more final) := by
  induction leads with
  | here links place => exact ⟨links, fun _ => (and_iff_right inside).symm⟩
  | dot links place rest last leads ih =>
      obtain ⟨left, splits⟩ := ih inside
      exact ⟨left, fun further => dot_iff.trans (splits further)⟩
  | dotDot links place rest last leads ih =>
      obtain ⟨left, splits⟩ := ih (tree.rooted _ _ inside)
      exact ⟨left, fun further => dotDot_iff.trans (splits further)⟩
  | last links place name proper kept =>
      have unlinked (target : Text) : disk.node? (place ++ [name]) ≠ some (.link target) :=
        fun found => Bool.noConfusion (kept target found)
      refine ⟨links, fun further => ⟨fun goes => ?_, fun ⟨found, goes⟩ => ?_⟩⟩
      · have found := directory_of_unlinked goes proper further unlinked
        exact ⟨found, (directory_iff proper found).mp goes⟩
      · exact (directory_iff proper found).mpr goes
  | directory links place name rest last proper found leads ih =>
      obtain ⟨left, splits⟩ := ih found
      exact ⟨left, fun further => (directory_iff proper found).trans (splits further)⟩
  | link links place name rest last target proper found followed leads ih =>
      obtain ⟨left, splits⟩ := ih (node?_begin inside _)
      refine ⟨left, fun {follow more final} further => ?_⟩
      rw [List.cons_append, link_iff proper found (goesOn further rest follow), ← List.append_assoc]
      exact splits further

end Leads

/-! What is kept -/

/-- Directories and links of a disk are those of a later one, files may have been rewritten, and
no link is new. -/
structure Keeps (disk later : Disk) : Prop where
  cwd : later.cwd = disk.cwd
  directory : ∀ place, disk.node? place = some .directory → later.node? place = some .directory
  link : ∀ place target,
    later.node? place = some (.link target) ↔ disk.node? place = some (.link target)

namespace Keeps

variable {later : Disk} {names : List Text} {last : Place}

theorem leads (keeps : disk.Keeps later) (leads : Leads disk follow links place names last) :
    Leads later follow links place names last := by
  induction leads with
  | here links place => exact .here links place
  | dot links place rest last leads ih => exact .dot links place rest last ih
  | dotDot links place rest last leads ih => exact .dotDot links place rest last ih
  | last links place name proper kept =>
      exact .last links place name proper fun target found =>
        kept target ((keeps.link _ _).mp found)
  | directory links place name rest last proper found leads ih =>
      exact .directory links place name rest last proper (keeps.directory _ found) ih
  | link links place name rest last target proper found followed leads ih =>
      exact .link links place name rest last target proper ((keeps.link _ _).mpr found) followed ih

theorem locate (keeps : disk.Keeps later) {path : Text}
    (located : disk.locate follow path = .ok last) : later.locate follow path = .ok last := by
  rw [locate_eq_ok_iff] at located ⊢
  refine ⟨located.1, ?_⟩
  rw [start, keeps.cwd]
  exact keeps.leads located.2

theorem trans {latest : Disk} (first : disk.Keeps later) (second : later.Keeps latest) :
    disk.Keeps latest where
  cwd := second.cwd.trans first.cwd
  directory place found := second.directory place (first.directory place found)
  link place target := (second.link place target).trans (first.link place target)

end Keeps

/-! Changes of a disk -/

theorem keeps_set {place : Place} {node : Node} (free : disk.node? place ≠ some .directory)
    (unlinked : ∀ target, disk.node? place ≠ some (.link target))
    (plain : ∀ target, node ≠ .link target) : disk.Keeps (disk.set place node) where
  cwd := rfl
  directory other found := by
    have ne : other ≠ place := by
      rintro rfl
      exact free found
    rw [node?_set_of_ne disk node ne, found]
  link other target := by
    by_cases same : other = place
    · subst same
      rw [node?_set_self disk node (ne_nil_of_node? free)]
      exact iff_of_false (fun found => plain target (Option.some.inj found)) (unlinked target)
    · rw [node?_set_of_ne disk node same]

theorem IsTree.set (tree : disk.IsTree) {place : Place} (node : Node)
    (parent : disk.node? place.dropLast = some .directory)
    (free : disk.node? place ≠ some .directory) : (disk.set place node).IsTree where
  rooted other found stored := by
    have parentApart : place.dropLast ≠ place := fun same => free (same ▸ parent)
    by_cases same : other = place
    · subst same
      rw [node?_set_of_ne disk node parentApart, parent]
    · rw [node?_set_of_ne disk node same] at stored
      have rooted := tree.rooted other found stored
      have apart : other.dropLast ≠ place := fun same => free (same ▸ rooted)
      rw [node?_set_of_ne disk node apart, rooted]
  cwd := by
    have apart : disk.cwd ≠ place := by
      rintro rfl
      exact free tree.cwd
    exact (node?_set_of_ne disk node apart).trans tree.cwd

theorem read_eq_ok_iff {path data : Text} :
    disk.read path = .ok data ↔
      ∃ place mode, disk.locate true path = .ok place ∧
        disk.node? place = some (.file data mode) := by
  rw [read, find]
  cases located : disk.locate true path with
  | error cause => simp
  | ok place =>
      cases found : disk.node? place with
      | none => simp [found]
      | some node => cases node <;> simp [found]

theorem write_eq_ok {path : Text} {place : Place} {old : Text} {mode : Nat}
    (located : disk.locate true path = .ok place)
    (stored : disk.node? place = some (.file old mode)) (data : Text) (mode' : Nat) :
    disk.write path data mode' = .ok (disk.set place (.file data mode)) := by
  simp only [write, located, stored]

theorem read_write {path data : Text} {mode : Nat} {later : Disk}
    (written : disk.write path data mode = .ok later) : later.read path = .ok data := by
  rw [write] at written
  cases located : disk.locate true path with
  | error cause => simp [located] at written
  | ok place =>
      have stored (mode : Nat) (free : disk.node? place ≠ some .directory)
          (unlinked : ∀ target, disk.node? place ≠ some (.link target)) :
          (disk.set place (.file data mode)).read path = .ok data := by
        have keeps : disk.Keeps (disk.set place (.file data mode)) :=
          keeps_set free unlinked fun _ => Node.noConfusion
        exact read_eq_ok_iff.mpr
          ⟨place, mode, keeps.locate located, node?_set_self disk _ (ne_nil_of_node? free)⟩
      simp only [located] at written
      split at written
      · next old found =>
          cases written
          exact stored _ (by simp [found]) (by simp [found])
      · cases written
      · next found =>
          split at written
          · cases written
            exact stored _ (by simp [found]) (by simp [found])
          · cases written
          · cases written

/-- Nothing but directories is new. -/
structure Grows (disk later : Disk) : Prop extends disk.Keeps later where
  file : ∀ place data mode, later.node? place = some (.file data mode) ↔
    disk.node? place = some (.file data mode)

namespace Grows

variable {later latest : Disk}

theorem refl (disk : Disk) : disk.Grows disk where
  cwd := rfl
  directory _ found := found
  link _ _ := Iff.rfl
  file _ _ _ := Iff.rfl

theorem trans (first : disk.Grows later) (second : later.Grows latest) : disk.Grows latest where
  toKeeps := first.toKeeps.trans second.toKeeps
  file place data mode := (second.file place data mode).trans (first.file place data mode)

end Grows

theorem grows_makeDirectory (tree : disk.IsTree) {path : Text} {later : Disk}
    (made : disk.makeDirectory path = .ok later) : disk.Grows later ∧ later.IsTree := by
  rw [makeDirectory] at made
  cases located : disk.locate false path with
  | error cause => simp [located] at made
  | ok place =>
      simp only [located] at made
      split at made
      · cases made
      · next absent =>
          have free : disk.node? place = none := by simpa using absent
          cases made
          have notDirectory : disk.node? place ≠ some .directory := by simp [free]
          have parent := (locate_eq_ok_iff.mp located).2.parent tree (tree.start path)
          refine ⟨{ toKeeps := keeps_set notDirectory (by simp [free]) (by simp), file := ?_ },
            tree.set _ parent notDirectory⟩
          intro other data mode
          by_cases same : other = place
          · subst same
            rw [node?_set_self disk _ (ne_nil_of_node? notDirectory), free]
            simp
          · rw [node?_set_of_ne disk _ same]

theorem grows_makeEach (paths : List Text) {disk later : Disk} (tree : disk.IsTree)
    (made : disk.makeEach paths = .ok later) : disk.Grows later ∧ later.IsTree := by
  induction paths generalizing disk with
  | nil =>
      cases made
      exact ⟨.refl _, tree⟩
  | cons path rest ih =>
      rw [makeEach] at made
      split at made
      · exact ih tree made
      · cases made
      · split at made
        · next made' =>
            obtain ⟨grows, tree'⟩ := grows_makeDirectory tree made'
            obtain ⟨grows', tree''⟩ := ih tree' made
            exact ⟨grows.trans grows', tree''⟩
        · cases made

theorem grows_makeDirectories (tree : disk.IsTree) {path : Text} {later : Disk}
    (made : disk.makeDirectories path = .ok later) : disk.Grows later ∧ later.IsTree := by
  rw [makeDirectories] at made
  split at made
  · cases made
    exact ⟨.refl disk, tree⟩
  · exact grows_makeEach _ tree made

theorem replace_eq_ok_iff {path data : Text} {mode : Nat} {later : Disk} :
    disk.replace path data mode = .ok later ↔
      ∃ place, disk.locate false path = .ok place ∧ disk.node? place ≠ some .directory ∧
        later = disk.set place (.file data mode) := by
  rw [replace]
  cases located : disk.locate false path with
  | error cause => simp
  | ok place =>
      cases found : disk.node? place with
      | none => simp [found, eq_comm]
      | some node => cases node <;> simp [found, eq_comm]

end HdlAlign.Disk
