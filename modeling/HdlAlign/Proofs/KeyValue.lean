import HdlAlign.Proofs.Directories
import HdlAlign.Proofs.Transparency
import Mathlib.Logic.Function.Basic

/-! A cache is a store of payloads by key: what is read for a key is what was stored for it last,
unless everything was dropped since. -/

namespace HdlAlign.Cache

/-! Operations, and what they answer -/

inductive Operation where
  | put (key : Digest) (payload : Payload)
  | get (key : Digest)
  | drop

/-- Keys are digests and not empty.  A payload is of the version that is read, its integers have 64
bits, and the lengths in it have 32. -/
def Operation.Fits : Operation → Prop
  | put key payload => key ≠ [] ∧ payload.Fits ∧ payload.schema = schema
  | get key => key ≠ []
  | drop => True

/-- Carries out an operation.  A list of one payload, or of none, is what it reads. -/
def Operation.apply (cache : Cache) (disk : Disk) :
    Operation → Except Failure (Disk × List (Option Payload))
  | put key payload =>
    ((cache.put disk key payload).mapError .disk).map fun later => (later, [])
  | get key => (cache.get disk key).map fun answer => (disk, [answer])
  | drop => .ok (cache.drop disk, [])

def run (cache : Cache) (disk : Disk) :
    List Operation → Except Failure (Disk × List (Option Payload))
  | [] => .ok (disk, [])
  | operation :: rest =>
    match operation.apply cache disk with
    | .error failure => .error failure
    | .ok (later, answer) =>
      match cache.run later rest with
      | .error failure => .error failure
      | .ok (last, answers) => .ok (last, answer ++ answers)

/-- The payload that was stored for a key last, since everything was dropped.  Operations are given
newest first. -/
def latest (key : Digest) : List Operation → Option Payload
  | [] => none
  | .put other payload :: past => if other = key then some payload else latest key past
  | .get _ :: past => latest key past
  | .drop :: _ => none

def Operation.answer (past : List Operation) : Operation → List (Option Payload)
  | get key => [latest key past]
  | put .. => []
  | drop => []

def answers (past : List Operation) : List Operation → List (Option Payload)
  | [] => []
  | operation :: rest => operation.answer past ++ answers (operation :: past) rest

/-! What is stored -/

/-- A cache that nothing was stored in: its directory is there, and in it nothing where the blocks
belong. -/
structure Fresh (cache : Cache) (disk : Disk) (root : Disk.Place) : Prop where
  tree : disk.IsTree
  located : disk.locate false cache.blocks = .ok root
  missing : disk.node? root = none

/-- A disk that holds payloads below a place.  Nothing else but the directories of the keys is
there, and outside of it the disk is as it was. -/
structure Holds (base : Disk) (root : Disk.Place) (disk : Disk) (store : Digest → Option Payload) :
    Prop where
  tree : disk.IsTree
  outside : base.SameOutside root disk
  fits : ∀ key payload, store key = some payload → payload.Fits ∧ payload.schema = schema
  stored : ∀ key payload, store key = some payload →
    disk.node? (root ++ [directoryName key, fileName key]) = some (.file payload.encode 0o600)
  contents : ∀ more node, disk.node? (root ++ more) = some node →
    node = .directory ∧ more.length ≤ 1 ∨
      ∃ key payload, store key = some payload ∧ more = [directoryName key, fileName key] ∧
        node = .file payload.encode 0o600

def withFile (disk : Disk) (root : Disk.Place) (key : Digest) (data : Text) : Disk :=
  ((disk.ensure root).ensure (root ++ [directoryName key])).set
    (root ++ [directoryName key, fileName key]) (.file data 0o600)

section

variable {cache : Cache} {base disk : Disk} {root : Disk.Place} {store : Digest → Option Payload}

theorem Sited.locate_directory (sited : cache.Sited disk root) {key : Digest} (filled : key ≠ [])
    (outer : disk.node? root = some .directory) {follow : Bool} :
    disk.locate follow (Path.directory (cache.file key)) = .ok (root ++ [directoryName key]) := by
  obtain ⟨absolute, names, some, same, files⟩ := cache.exists_names
  obtain ⟨isName, -, directory⟩ := files filled
  rw [List.append_cons] at isName
  have located := sited.located
  rw [same] at located
  rw [directory, Disk.locate_concat_iff sited.tree some
    (fun name member => isName name (List.mem_append_left _ member)) (isName_directoryName filled).2
    located fun target => sited.unlinked _ target (List.prefix_append root _)]
  exact ⟨outer, rfl⟩

namespace Fresh

variable (fresh : cache.Fresh base root)

include fresh

theorem root_ne_nil : root ≠ [] :=
  have free : base.node? root ≠ some .directory := by simp [fresh.missing]
  Disk.ne_nil_of_node? free

theorem node?_within (more : Disk.Place) : base.node? (root ++ more) = none :=
  fresh.tree.node?_of_missing fresh.missing (List.prefix_append root more)

theorem outside_cwd : ¬ root <+: base.cwd := by
  intro within
  have missing := fresh.tree.node?_of_missing fresh.missing within
  rw [fresh.tree.cwd] at missing
  cases missing

theorem holds : Holds base root base fun _ => none where
  tree := fresh.tree
  outside := .refl base root
  fits _ _ none := by cases none
  stored _ _ none := by cases none
  contents more node found := by
    rw [fresh.node?_within] at found
    cases found

end Fresh

namespace Holds

variable (holds : Holds base root disk store)

include holds

theorem clear (more : Disk.Place) (short : more.length ≤ 1) : disk.Clear (root ++ more) := by
  cases found : disk.node? (root ++ more) with
  | none => exact .inl found
  | some node =>
      rcases holds.contents more node found with ⟨rfl, -⟩ | ⟨key, payload, -, rfl, -⟩
      · exact .inr found
      · simp at short

theorem clear_root : disk.Clear root := by
  have clear := holds.clear [] (Nat.zero_le 1)
  rwa [List.append_nil] at clear

theorem node?_file (key : Digest) :
    disk.node? (root ++ [directoryName key, fileName key]) =
      (store key).map fun payload => .file payload.encode 0o600 := by
  cases kept : store key with
  | some payload => exact holds.stored key payload kept
  | none =>
      cases found : disk.node? (root ++ [directoryName key, fileName key]) with
      | none => rfl
      | some node =>
          rcases holds.contents _ node found with ⟨-, short⟩ | ⟨other, payload, kept', same, -⟩
          · simp at short
          · rw [entry_inj (congrArg (root ++ ·) same), kept'] at kept
            cases kept

theorem unlinked {place : Disk.Place} (target : Text) (within : root <+: place) :
    disk.node? place ≠ some (.link target) := by
  obtain ⟨more, rfl⟩ := within
  intro found
  rcases holds.contents more _ found with ⟨same, -⟩ | ⟨key, payload, -, -, same⟩
  · cases same
  · cases same

theorem keeps (fresh : cache.Fresh base root) : base.Keeps disk where
  cwd := holds.outside.cwd
  directory place found := by
    have outside : ¬ root <+: place := by
      rintro ⟨more, rfl⟩
      rw [fresh.node?_within] at found
      cases found
    rw [holds.outside.node? place outside, found]
  link place target := by
    by_cases within : root <+: place
    · refine iff_of_false (holds.unlinked target within) ?_
      obtain ⟨more, rfl⟩ := within
      simp [fresh.node?_within]
    · rw [holds.outside.node? place within]

theorem sited (fresh : cache.Fresh base root) : cache.Sited disk root where
  tree := holds.tree
  located := by
    have unlinked (target : Text) : base.node? root ≠ some (.link target) := by simp [fresh.missing]
    exact (holds.keeps fresh).locate (Disk.locate_followed fresh.located unlinked)
  unlinked place target := holds.unlinked target

/-! One operation -/

theorem find_of_missing (fresh : cache.Fresh base root) {key : Digest} (filled : key ≠ [])
    (none : store key = none) : disk.find true (cache.file key) = .error .noEntry := by
  have sited := holds.sited fresh
  obtain ⟨below, start, filled'⟩ := cache.steps_file filled disk
  -- The first that is missing is the directory of the blocks, that of the key, or the file.
  rcases holds.clear_root with missing | outer
  · rw [Disk.find, Disk.locate_below_missing holds.tree sited.located missing filled' start below
      (List.cons_ne_nil _ _)]
  · rcases holds.clear [directoryName key] (Nat.le_refl 1) with missing | inner
    · obtain ⟨below', start'⟩ := cache.steps_directory filled disk
      rw [Disk.find, Disk.locate_below_missing holds.tree (sited.locate_directory filled outer)
        missing filled' start' below' (List.cons_ne_nil _ _)]
    · rw [Disk.find_of_locate (sited.locate_file filled inner), holds.node?_file, none]
      rfl

theorem get (fresh : cache.Fresh base root) {key : Digest} (filled : key ≠ []) :
    cache.get disk key = .ok (store key) := by
  rw [Cache.get]
  cases kept : store key with
  | none =>
      rw [Disk.read, holds.find_of_missing fresh filled kept]
      rfl
  | some payload =>
      obtain ⟨fits, version⟩ := holds.fits key payload kept
      have read : disk.read (cache.file key) = .ok payload.encode :=
        ((holds.sited fresh).read_eq_ok_iff filled).mpr ⟨0o600, holds.stored key payload kept⟩
      simp only [read, Payload.decode?_encode fits, version, if_true]

theorem node?_ensure (key : Digest) (more : Disk.Place) :
    ((disk.ensure root).ensure (root ++ [directoryName key])).node? (root ++ more) =
      if more = [] ∨ more = [directoryName key] then some .directory
      else disk.node? (root ++ more) := by
  have outer := holds.clear_root.node?_ensure
  have apart : root ++ [directoryName key] ≠ root := by simp
  have inner : (disk.ensure root).Clear (root ++ [directoryName key]) := by
    rw [Disk.Clear, Disk.node?_ensure, if_neg apart]
    exact holds.clear _ (Nat.le_refl 1)
  by_cases child : more = [directoryName key]
  · rw [if_pos (.inr child), child, inner.node?_ensure]
  · rw [Disk.node?_ensure, if_neg (by simpa using child)]
    by_cases top : more = []
    · rw [if_pos (.inl top), top, List.append_nil, outer]
    · rw [if_neg (by simp [top, child]), Disk.node?_ensure, if_neg (by simpa using top)]

theorem node?_withFile (key : Digest) (data : Text) (more : Disk.Place) :
    (withFile disk root key data).node? (root ++ more) =
      if more = [directoryName key, fileName key] then some (.file data 0o600)
      else if more = [] ∨ more = [directoryName key] then some .directory
      else disk.node? (root ++ more) := by
  rw [withFile]
  split
  · next same =>
      rw [same]
      exact Disk.node?_set_self _ _ (by simp)
  · next apart =>
      rw [Disk.node?_set_of_ne _ _ (by simpa using apart)]
      exact holds.node?_ensure key more

theorem put_eq (fresh : cache.Fresh base root) {key : Digest} (filled : key ≠ [])
    (payload : Payload) :
    cache.put disk key payload = .ok (withFile disk root key payload.encode) := by
  obtain ⟨absolute, names, some, same, files⟩ := cache.exists_names
  obtain ⟨isName, -, directory⟩ := files filled
  rw [List.append_cons] at isName
  have located := (holds.keeps fresh).locate fresh.located
  rw [same] at located
  have made := Disk.makeDirectories_concat holds.tree some
    (fun name member => isName name (List.mem_append_left _ member)) (isName_directoryName filled).2
    located holds.clear_root (holds.clear _ (Nat.le_refl 1))
  rw [← directory] at made
  obtain ⟨grew, tree⟩ := Disk.grows_makeDirectories holds.tree made
  have inner := holds.node?_ensure key [directoryName key]
  rw [if_pos (.inr rfl)] at inner
  have located' : ((disk.ensure root).ensure (root ++ [directoryName key])).locate false
      (cache.file key) = .ok (root ++ [directoryName key, fileName key]) :=
    ((holds.sited fresh).grows grew tree).locate_file filled inner
  have free : ((disk.ensure root).ensure (root ++ [directoryName key])).node?
      (root ++ [directoryName key, fileName key]) ≠ .some .directory := by
    rw [holds.node?_ensure, if_neg (by simp), holds.node?_file]
    cases store key <;> simp
  rw [Cache.put, made]
  exact Disk.replace_eq_ok_iff.mpr ⟨_, located', free, rfl⟩

theorem withFile (fresh : cache.Fresh base root) {key : Digest} (filled : key ≠ [])
    {payload : Payload} (fits : payload.Fits) (version : payload.schema = schema) :
    Holds base root (withFile disk root key payload.encode)
      (Function.update store key (some payload)) where
  tree := ((holds.sited fresh).put_file filled (holds.put_eq fresh filled payload)).1.tree
  outside := by
    have outer := holds.outside.ensure (List.prefix_refl root)
    exact (outer.ensure (List.prefix_append root _)).set (List.prefix_append root _) _
  fits other payload' kept := by
    by_cases same : other = key
    · subst same
      rw [Function.update_self] at kept
      cases kept
      exact ⟨fits, version⟩
    · rw [Function.update_of_ne same] at kept
      exact holds.fits other payload' kept
  stored other payload' kept := by
    rw [holds.node?_withFile]
    by_cases same : other = key
    · subst same
      rw [Function.update_self] at kept
      cases kept
      exact if_pos rfl
    · rw [Function.update_of_ne same] at kept
      have apart : [directoryName other, fileName other] ≠ [directoryName key, fileName key] :=
        fun equal => same (entry_inj (congrArg (root ++ ·) equal))
      rw [if_neg apart, if_neg (by simp)]
      exact holds.stored other payload' kept
  contents more node found := by
    rw [holds.node?_withFile] at found
    split at found
    · next same =>
        cases found
        exact .inr ⟨key, payload, Function.update_self .., same, rfl⟩
    · next apart =>
        split at found
        · next near =>
            cases found
            refine .inl ⟨rfl, ?_⟩
            rcases near with rfl | rfl
            · exact Nat.zero_le 1
            · exact Nat.le_refl 1
        · refine (holds.contents more node found).imp_right ?_
          rintro ⟨other, payload', kept, rfl, rfl⟩
          have different : other ≠ key := fun equal => apart (equal ▸ rfl)
          exact ⟨other, payload', by rwa [Function.update_of_ne different], rfl, rfl⟩

/-- Storing a payload changes what is stored for its key and for no other. -/
theorem put (fresh : cache.Fresh base root) {key : Digest} (filled : key ≠ []) {payload : Payload}
    (fits : payload.Fits) (version : payload.schema = schema) :
    ∃ later, cache.put disk key payload = .ok later ∧
      Holds base root later (Function.update store key (some payload)) :=
  ⟨_, holds.put_eq fresh filled payload, holds.withFile fresh filled fits version⟩

theorem eraseTree (fresh : cache.Fresh base root) :
    Holds base root (disk.eraseTree root) fun _ => none where
  tree := holds.tree.eraseTree fresh.root_ne_nil (holds.outside.cwd ▸ fresh.outside_cwd)
  outside := holds.outside.eraseTree fresh.root_ne_nil
  fits _ _ none := by cases none
  stored _ _ none := by cases none
  contents more node found := by
    rw [Disk.node?_eraseTree fresh.root_ne_nil, if_pos (List.prefix_append root more)] at found
    cases found

theorem drop (fresh : cache.Fresh base root) :
    Holds base root (cache.drop disk) fun _ => none := by
  have located : disk.locate false cache.blocks = .ok root := (holds.keeps fresh).locate fresh.located
  rw [Cache.drop, located]
  exact holds.eraseTree fresh

end Holds

end

/-! Many operations -/

theorem latest_put (past : List Operation) (key : Digest) (payload : Payload) :
    (fun other => latest other (.put key payload :: past)) =
      Function.update (fun other => latest other past) key (some payload) := by
  funext other
  rw [latest, Function.update_apply]
  exact if_congr eq_comm rfl rfl

section

variable {cache : Cache} {base disk : Disk} {root : Disk.Place} {past : List Operation}

theorem Holds.apply (holds : Holds base root disk fun key => latest key past)
    (fresh : cache.Fresh base root) {operation : Operation} (fits : operation.Fits) :
    ∃ later, operation.apply cache disk = .ok (later, operation.answer past) ∧
      Holds base root later fun key => latest key (operation :: past) := by
  cases operation with
  | put key payload =>
      obtain ⟨filled, fits, version⟩ := fits
      obtain ⟨later, done, holds'⟩ := holds.put fresh filled fits version
      rw [← latest_put] at holds'
      refine ⟨later, ?_, holds'⟩
      rw [Operation.apply, done]
      rfl
  | get key =>
      refine ⟨disk, ?_, holds⟩
      rw [Operation.apply, holds.get fresh fits]
      rfl
  | drop => exact ⟨_, rfl, holds.drop fresh⟩

theorem Holds.run (holds : Holds base root disk fun key => latest key past)
    (fresh : cache.Fresh base root) (operations : List Operation)
    (fits : ∀ operation ∈ operations, operation.Fits) :
    ∃ later, cache.run disk operations = .ok (later, answers past operations) ∧
      Holds base root later fun key => latest key (operations.reverse ++ past) := by
  induction operations generalizing disk past with
  | nil => exact ⟨disk, rfl, holds⟩
  | cons operation rest ih =>
      obtain ⟨later, done, holds'⟩ := holds.apply fresh (fits operation List.mem_cons_self)
      obtain ⟨last, done', holds''⟩ :=
        ih holds' fun other member => fits other (List.mem_cons_of_mem _ member)
      rw [List.reverse_cons, List.append_assoc]
      refine ⟨last, ?_, holds''⟩
      rw [Cache.run, done]
      dsimp only
      rw [done', answers]

end

/-- Whatever is done with a cache, a key is answered with the payload that was stored for it last
since everything was dropped, and if there is none, with none.  Nothing is lost in the bytes of a
payload. -/
theorem run_eq_answers {cache : Cache} {disk : Disk} {root : Disk.Place}
    (fresh : cache.Fresh disk root) (operations : List Operation)
    (fits : ∀ operation ∈ operations, operation.Fits) :
    (∃ later, cache.run disk operations = .ok (later, answers [] operations)) ∧
      ∀ payload : Payload, payload.Fits → Payload.decode? payload.encode = some payload := by
  have empty : Holds disk root disk fun key => latest key [] := fresh.holds
  obtain ⟨later, done, -⟩ := empty.run fresh operations fits
  exact ⟨⟨later, done⟩, fun _ => Payload.decode?_encode⟩

def firstKey : Digest := List.replicate 32 0x11

def secondKey : Digest := List.replicate 32 0x12

def plainPayload : Payload where
  schema := schema

def emptyPayload : Payload where
  schema := schema
  verbatim := some []

def widePayload : Payload where
  schema := schema
  text := "wire a;"
  verbatim := some [-1, 300]
  count := -70000

theorem openedCache_fresh :
    Run.openedCache.Fresh Run.openedDisk [Text.ofString "cache", Text.ofString "blocks"] where
  tree := by
    obtain ⟨root, sited⟩ := (Run.openedCache_sound ∅).sited
    exact sited.tree
  located := by decide
  missing := by decide

theorem run_eq_answers_dropped :
    ∃ later, Run.openedCache.run Run.openedDisk
        [.get firstKey, .put firstKey widePayload, .put secondKey plainPayload, .get firstKey,
          .put firstKey emptyPayload, .get firstKey, .get secondKey, .drop, .get firstKey] =
      .ok (later, [none, some widePayload, some emptyPayload, some plainPayload, none]) := by
  have first : firstKey ≠ [] := by decide
  have second : secondKey ≠ [] := by decide
  have plain : plainPayload.Fits := by
    refine ⟨by decide, ?_, by decide, by decide⟩
    rintro _ ⟨⟩
  have empty : emptyPayload.Fits := by
    refine ⟨by decide, ?_, by decide, by decide⟩
    rintro _ ⟨⟩
    exact ⟨by decide, by simp⟩
  have wide : widePayload.Fits := by
    refine ⟨by decide, ?_, by decide, by decide⟩
    rintro _ ⟨⟩
    exact ⟨by decide, by simp [Narrow]⟩
  refine (run_eq_answers openedCache_fresh _ ?_).1
  simp only [List.forall_mem_cons, Operation.Fits]
  exact ⟨first, ⟨first, wide, rfl⟩, ⟨second, plain, rfl⟩, first, ⟨first, empty, rfl⟩, first, second,
    trivial, first, by simp⟩

end HdlAlign.Cache
