import HdlAlign.Proofs.Indices
import HdlAlign.Proofs.Keys
import HdlAlign.Run.Format

/-! The cache is transparent: with it a run aligns every block as it does without. -/

namespace HdlAlign

namespace Cache

/-! The place of a cache -/

/-- The files of a cache lie below a place, where nothing is a link. -/
structure Sited (cache : Cache) (disk : Disk) (root : Disk.Place) : Prop where
  tree : disk.IsTree
  located : disk.locate true cache.blocks = .ok root
  unlinked : ∀ place target, root <+: place → disk.node? place ≠ some (.link target)

/-- Entries of different keys lie at different places. -/
theorem entry_inj {root : Disk.Place} {key other : Digest}
    (same : root ++ [directoryName key, fileName key] =
      root ++ [directoryName other, fileName other]) : key = other :=
  fileName_inj (List.cons.inj (List.cons.inj (List.append_cancel_left same)).2).1

namespace Sited

variable {cache : Cache} {disk : Disk} {root : Disk.Place} {key : Digest}

theorem place_of_locate (sited : cache.Sited disk root) (filled : key ≠ []) {follow : Bool}
    {place : Disk.Place} (located : disk.locate follow (cache.file key) = .ok place) :
    place = root ++ [directoryName key, fileName key] ∧
      disk.node? (root ++ [directoryName key]) = some .directory := by
  obtain ⟨steps, start, -⟩ := cache.steps_file filled disk
  obtain ⟨-, leads⟩ := Disk.locate_eq_ok_iff.mp located
  obtain ⟨-, blocks⟩ := Disk.locate_eq_ok_iff.mp sited.located
  obtain ⟨left, splits⟩ := blocks.append_iff sited.tree (sited.tree.start _)
  rw [steps, start, splits (List.cons_ne_nil _ _)] at leads
  have inner := leads.2.directory_of_unlinked (isName_directoryName filled).2
    (List.cons_ne_nil _ _) fun target => sited.unlinked _ target (List.prefix_append root _)
  rw [Disk.Leads.directory_iff (isName_directoryName filled).2 inner] at leads
  have same := leads.2.last_eq (isName_fileName filled).2 fun target =>
    sited.unlinked _ target ((List.prefix_append root _).trans (List.prefix_append _ _))
  rw [same, List.append_assoc]
  exact ⟨rfl, inner⟩

theorem locate_file (sited : cache.Sited disk root) (filled : key ≠ [])
    (inner : disk.node? (root ++ [directoryName key]) = some .directory) {follow : Bool} :
    disk.locate follow (cache.file key) = .ok (root ++ [directoryName key, fileName key]) := by
  have split : root ++ [directoryName key, fileName key] =
      root ++ [directoryName key] ++ [fileName key] := by rw [List.append_assoc]; rfl
  have outer := sited.tree.rooted _ _ inner
  rw [List.dropLast_concat] at outer
  obtain ⟨steps, start, some⟩ := cache.steps_file filled disk
  obtain ⟨-, blocks⟩ := Disk.locate_eq_ok_iff.mp sited.located
  obtain ⟨left, splits⟩ := blocks.append_iff sited.tree (sited.tree.start _)
  refine Disk.locate_eq_ok_iff.mpr ⟨some, ?_⟩
  rw [steps, start, splits (List.cons_ne_nil _ _), split]
  refine ⟨outer, .directory _ _ _ _ _ (isName_directoryName filled).2 inner ?_⟩
  refine .last _ _ _ (isName_fileName filled).2 fun target link => ?_
  exact absurd link (sited.unlinked _ target
    ((List.prefix_append root _).trans (List.prefix_append _ _)))

theorem read_eq_ok_iff (sited : cache.Sited disk root) (filled : key ≠ []) {bytes : Text} :
    disk.read (cache.file key) = .ok bytes ↔
      ∃ mode, disk.node? (root ++ [directoryName key, fileName key]) = some (.file bytes mode) := by
  rw [Disk.read_eq_ok_iff]
  constructor
  · rintro ⟨place, mode, located, found⟩
    exact ⟨mode, (sited.place_of_locate filled located).1 ▸ found⟩
  · rintro ⟨mode, found⟩
    have inner := sited.tree.rooted _ _ found
    rw [List.append_cons, List.dropLast_concat] at inner
    exact ⟨_, mode, sited.locate_file filled inner, found⟩

theorem grows (sited : cache.Sited disk root) {later : Disk} (grows : disk.Grows later)
    (tree : later.IsTree) : cache.Sited later root where
  tree := tree
  located := grows.toKeeps.locate sited.located
  unlinked place target within found :=
    sited.unlinked place target within ((grows.link place target).mp found)

theorem set (sited : cache.Sited disk root) {place : Disk.Place} {old : Text} {mode' : Nat}
    (stored : disk.node? place = some (.file old mode')) (data : Text) (mode : Nat) :
    cache.Sited (disk.set place (.file data mode)) root ∧
      disk.Keeps (disk.set place (.file data mode)) := by
  have free : disk.node? place ≠ some .directory := by simp [stored]
  have keeps : disk.Keeps (disk.set place (.file data mode)) :=
    Disk.keeps_set free (by simp [stored]) (by simp)
  refine ⟨⟨sited.tree.set _ (sited.tree.rooted _ _ stored) free, keeps.locate sited.located, ?_⟩,
    keeps⟩
  exact fun other target within found =>
    sited.unlinked other target within ((keeps.link other target).mp found)

theorem put_file (sited : cache.Sited disk root) (filled : key ≠ []) {payload : Payload}
    {later : Disk} (stored : cache.put disk key payload = .ok later) :
    cache.Sited later root ∧ disk.Keeps later ∧ ∀ place data mode,
      later.node? place = some (.file data mode) ↔
        if place = root ++ [directoryName key, fileName key] then
          data = payload.encode ∧ mode = 0o600
        else disk.node? place = some (.file data mode) := by
  rw [Cache.put] at stored
  cases made : disk.makeDirectories (Path.directory (cache.file key)) with
  | error failure =>
      rw [made] at stored
      cases stored
  | ok grown =>
      rw [made] at stored
      obtain ⟨grew, tree⟩ := Disk.grows_makeDirectories sited.tree made
      have sited' := sited.grows grew tree
      have replaced : grown.replace (cache.file key) payload.encode 0o600 = .ok later := stored
      obtain ⟨place, located, free, rfl⟩ := Disk.replace_eq_ok_iff.mp replaced
      obtain ⟨rfl, inner⟩ := sited'.place_of_locate filled located
      have keeps : grown.Keeps (grown.set (root ++ [directoryName key, fileName key])
          (.file payload.encode 0o600)) :=
        Disk.keeps_set free
          (fun target => sited'.unlinked _ target (List.prefix_append root _)) (by simp)
      have parent : grown.node? (root ++ [directoryName key, fileName key]).dropLast =
          some .directory := by
        rw [show root ++ [directoryName key, fileName key] =
          root ++ [directoryName key] ++ [fileName key] by simp, List.dropLast_concat]
        exact inner
      refine ⟨⟨tree.set _ parent free, keeps.locate sited'.located, ?_⟩, grew.toKeeps.trans keeps, ?_⟩
      · exact fun other target within found =>
          sited'.unlinked other target within ((keeps.link other target).mp found)
      · intro other data mode
        split
        · next same =>
            rw [same, Disk.node?_set_self _ _ (Disk.ne_nil_of_node? free)]
            simp [eq_comm]
        · next apart =>
            rw [Disk.node?_set_of_ne _ _ apart]
            exact grew.file other data mode

theorem put (sited : cache.Sited disk root) (filled : key ≠ []) {payload : Payload} {later : Disk}
    (stored : cache.put disk key payload = .ok later) :
    cache.Sited later root ∧ ∀ {other : Digest}, other ≠ [] → ∀ {bytes : Text},
      (later.read (cache.file other) = .ok bytes ↔
        if other = key then bytes = payload.encode
        else disk.read (cache.file other) = .ok bytes) := by
  obtain ⟨sited', -, files⟩ := sited.put_file filled stored
  refine ⟨sited', fun {other} filled' {bytes} => ?_⟩
  rw [sited'.read_eq_ok_iff filled']
  by_cases same : other = key
  · simp [same, files]
  · have apart : root ++ [directoryName other, fileName other] ≠
        root ++ [directoryName key, fileName key] := fun equal => same (entry_inj equal)
    simp only [files, if_neg apart, if_neg same, sited.read_eq_ok_iff filled']

end Sited

end Cache

/-! Calls -/

structure Call where
  request : Request
  block : Text
  parent : Nat := 0

namespace Call

def key (call : Call) : Digest := Cache.key call.block call.request.options call.request.lines

def aligned (call : Call) : Aligned := Block.align call.request.options call.block

def hashed (calls : Set Call) : Set Text :=
  {text | ∃ call ∈ calls, text ∈ Cache.hashed call.block call.request.options call.request.lines}

/-- Blocks fit into the memory, and what becomes of them into a text of the stored format, whose
length has 32 bits. -/
structure Fits (call : Call) : Prop where
  block : call.block.length < 0x7fffffffffffffff
  text : call.aligned.text.length < 2 ^ 32

theorem key_ne_nil (call : Call) : call.key ≠ [] := by
  intro empty
  have length := congrArg List.length empty
  rw [key, Cache.length_key] at length
  cases length

theorem decode?_encode {call : Call} (fits : call.Fits) :
    Cache.Payload.decode? (Cache.Payload.ofAligned call.aligned).encode =
      some (.ofAligned call.aligned) :=
  Cache.Payload.decode?_encode (Cache.fits_ofAligned fits.block fits.text)

theorem aligned_of_key_eq {calls : Set Call} (distinct : (hashed calls).InjOn Digest.of)
    {call other : Call} (listed : call ∈ calls) (listed' : other ∈ calls)
    (same : call.key = other.key) : call.aligned = other.aligned := by
  obtain ⟨block, options⟩ := Cache.key_inj distinct (fun text hashed => ⟨call, listed, hashed⟩)
    (fun text hashed => ⟨other, listed', hashed⟩) same
  rw [aligned, aligned, block, options]

end Call

namespace Cache

/-- What may be stored for a key: bytes that cannot be read, bytes of another version, or what
one of some calls stored for this key. -/
inductive Entry (calls : Set Call) (key : Digest) : Text → Prop
  | undecodable (bytes : Text) (broken : Payload.decode? bytes = none) : Entry calls key bytes
  | foreign (bytes : Text) (payload : Payload) (read : Payload.decode? bytes = some payload)
      (other : payload.schema ≠ schema) : Entry calls key bytes
  | stored (call : Call) (listed : call ∈ calls) (same : call.key = key) :
      Entry calls key (Payload.ofAligned call.aligned).encode

/-- The cache has its place, and every entry that is there is of one of these kinds. -/
structure Sound (cache : Cache) (calls : Set Call) (disk : Disk) : Prop where
  sited : ∃ root, cache.Sited disk root
  entries : ∀ key : Digest, key ≠ [] → ∀ bytes,
    disk.read (cache.file key) = .ok bytes → Entry calls key bytes

variable {cache : Cache} {calls : Set Call} {disk : Disk}

theorem get_eq_some {key : Digest} {payload : Payload}
    (found : cache.get disk key = .ok (some payload)) :
    ∃ bytes, disk.read (cache.file key) = .ok bytes ∧ Payload.decode? bytes = some payload ∧
      payload.schema = schema := by
  rw [get] at found
  cases read : disk.read (cache.file key) with
  | error failure =>
      simp only [read] at found
      split at found <;> cases found
  | ok bytes =>
      cases decoded : Payload.decode? bytes with
      | none => simp [read, decoded] at found
      | some other =>
          simp only [read, decoded, Except.ok.injEq] at found
          split at found
          · next version =>
              cases found
              exact ⟨bytes, rfl, decoded, version⟩
          · cases found

theorem lookup_eq_some {key : Digest} {aligned : Aligned} {failure : Option Failure}
    (found : cache.lookup disk key = (some aligned, failure)) :
    ∃ payload, cache.get disk key = .ok (some payload) ∧ aligned = payload.toAligned := by
  rw [lookup] at found
  split at found
  · next payload got =>
      cases found
      exact ⟨payload, got, rfl⟩
  · cases found
  · cases found

theorem get_of_lookup {key : Digest} (missed : cache.lookup disk key = (none, none)) :
    cache.get disk key = .ok none := by
  rw [lookup] at missed
  split at missed
  · cases missed
  · next none => exact none
  · cases missed

/-- A hit gives what the engine would make of the block. -/
theorem Sound.hit (sound : cache.Sound calls disk) (distinct : (Call.hashed calls).InjOn Digest.of)
    (fits : ∀ call ∈ calls, call.Fits) {call : Call} (listed : call ∈ calls) {payload : Payload}
    (found : cache.get disk call.key = .ok (some payload)) : payload.toAligned = call.aligned := by
  obtain ⟨bytes, read, decoded, version⟩ := get_eq_some found
  cases sound.entries _ call.key_ne_nil bytes read with
  | undecodable _ broken =>
      rw [broken] at decoded
      cases decoded
  | foreign _ other read other' =>
      rw [read] at decoded
      cases decoded
      exact absurd version other'
  | stored other listed' same =>
      rw [Call.decode?_encode (fits other listed')] at decoded
      cases decoded
      rw [Call.aligned, toAligned_ofAligned]
      exact Call.aligned_of_key_eq distinct listed' listed same

theorem Sound.put (sound : cache.Sound calls disk) {call : Call} (listed : call ∈ calls)
    {later : Disk} (stored : cache.put disk call.key (.ofAligned call.aligned) = .ok later) :
    cache.Sound calls later := by
  obtain ⟨root, sited⟩ := sound.sited
  obtain ⟨sited', reads⟩ := sited.put call.key_ne_nil stored
  refine ⟨⟨root, sited'⟩, fun key filled bytes read => ?_⟩
  rw [reads filled] at read
  split at read
  · next same => exact same ▸ read ▸ .stored call listed rfl
  · exact sound.entries key filled bytes read

theorem align_sound (distinct : (Call.hashed calls).InjOn Digest.of)
    (fits : ∀ call ∈ calls, call.Fits) (sound : cache.Sound calls disk) {call : Call}
    (listed : call ∈ calls) (shared : call.request.cache = some cache) :
    (align call.request.cache disk call.block call.request.options call.request.lines).2.aligned =
        call.aligned ∧
      cache.Sound calls
        (align call.request.cache disk call.block call.request.options call.request.lines).1 := by
  rw [shared, align]
  dsimp only
  split
  · next aligned failure hit =>
      obtain ⟨payload, found, same⟩ := lookup_eq_some hit
      exact ⟨same.trans (sound.hit distinct fits listed found), sound⟩
  · split
    · exact ⟨rfl, sound⟩
    · next later stored => exact ⟨rfl, sound.put listed stored⟩

end Cache

namespace Run

def alignBlocks (run : Run) : List Call → Run × List Cache.Answer
  | [] => (run, [])
  | call :: rest =>
    let (run, answer) := run.alignBlock call.request call.block call.parent
    let (run, answers) := run.alignBlocks rest
    (run, answer :: answers)

/-- Every call answers with what the engine makes of its block, be it read from the cache or not,
and the cache stays sound. -/
theorem alignBlocks_transparent {known : Set Call} {cache : Cache}
    (distinct : (Call.hashed known).InjOn Digest.of) (fits : ∀ call ∈ known, call.Fits)
    (calls : List Call) (listed : ∀ call ∈ calls, call ∈ known)
    (shared : ∀ call ∈ calls, call.request.cache = some cache) (run : Run)
    (sound : cache.Sound known run.disk) :
    (run.alignBlocks calls).2.map Cache.Answer.aligned = calls.map Call.aligned ∧
      cache.Sound known (run.alignBlocks calls).1.disk := by
  induction calls generalizing run with
  | nil => exact ⟨rfl, sound⟩
  | cons call rest ih =>
      obtain ⟨answer, sound'⟩ := Cache.align_sound distinct fits sound
        (listed call List.mem_cons_self) (shared call List.mem_cons_self)
      obtain ⟨answers, final⟩ := ih (fun other member => listed other (List.mem_cons_of_mem _ member))
        (fun other member => shared other (List.mem_cons_of_mem _ member))
        (run.alignBlock call.request call.block call.parent).1 sound'
      exact ⟨congrArg₂ List.cons answer answers, final⟩

def openedDisk : Disk := { nodes := [([Text.ofString "cache"], .directory)] }

def openedCache : Cache := ⟨"cache"⟩

def wireCall : Call where
  request := { cache := some openedCache }
  block := "wire a;"

theorem openedCache_sound (calls : Set Call) : openedCache.Sound calls openedDisk := by
  have node (place : Disk.Place) (node : Disk.Node) (found : openedDisk.node? place = some node) :
      node = .directory ∧ place.length ≤ 1 := by
    by_cases root : place = []
    · subst root
      exact ⟨(Option.some.inj found).symm, Nat.zero_le 1⟩
    · rw [Disk.node?_of_ne_nil _ root] at found
      have listed := List.mem_singleton.mp (Disk.mem_of_lookup found)
      cases listed
      exact ⟨rfl, Nat.le_refl 1⟩
  have sited : openedCache.Sited openedDisk [Text.ofString "cache", Text.ofString "blocks"] := by
    refine ⟨⟨fun place other found => ?_, rfl⟩, by decide, fun place target _ found => ?_⟩
    · have short := (node place other found).2
      have top : place.dropLast = [] :=
        List.eq_nil_of_length_eq_zero (by rw [List.length_dropLast]; omega)
      rw [top]
      rfl
    · cases (node place _ found).1
  refine ⟨⟨_, sited⟩, fun key filled bytes read => ?_⟩
  obtain ⟨mode, found⟩ := (sited.read_eq_ok_iff filled).mp read
  cases (node _ _ found).1

theorem alignBlocks_transparent_twice :
    ((Run.mk openedDisk {} [] {}).alignBlocks [wireCall, wireCall]).2.map Cache.Answer.aligned =
      [wireCall.aligned, wireCall.aligned] := by
  refine (alignBlocks_transparent ?_ ?_ [wireCall, wireCall] ?_ ?_ _
    (openedCache_sound {wireCall})).1
  · have digests : ((Cache.hashed wireCall.block wireCall.request.options
        wireCall.request.lines).map Digest.of).Nodup := by decide +kernel
    rintro text ⟨_, rfl, listed⟩ other ⟨_, rfl, listed'⟩ same
    exact List.inj_on_of_nodup_map digests listed listed' same
  · rintro _ rfl
    exact ⟨by decide, by decide +kernel⟩
  · simp
  · simp [wireCall]

end Run

end HdlAlign
