import HdlAlign.Proofs.Stages

/-! The order in which files are worked on does not matter. -/

namespace HdlAlign

open Cache

/-- Loaded files that share a cache: each has a place of its own on disk, none is an entry of the
cache, and the entries of the cache are those of known calls. -/
structure Shares (request : Request) (cache : Cache) (root : Disk.Place) (known : Set Call)
    (disk : Disk) (loaded : List Run.Loaded) : Prop where
  shared : request.cache = some cache
  sited : cache.Sited disk root
  entries : ∀ key : Digest, key ≠ [] → ∀ bytes,
    disk.read (cache.file key) = .ok bytes → Entry known key bytes
  injective : (Call.hashed known).InjOn Digest.of
  fits : ∀ call ∈ known, call.Fits
  listed : ∀ entry ∈ loaded, ∀ call, entry.call? request = some call → call ∈ known
  distinct : ∀ entry ∈ loaded, ∀ other ∈ loaded, ∀ place,
    disk.locate true entry.1 = .ok place → disk.locate true other.1 = .ok place → entry = other
  apart : ∀ entry ∈ loaded, ∀ key : Digest,
    disk.locate true entry.1 ≠ .ok (root ++ [directoryName key, fileName key])
  present : ∀ path file, (path, Except.ok file) ∈ loaded → ∃ data, disk.read path = .ok data

structure Underway (request : Request) (cache : Cache) (root : Disk.Place) (disk : Disk)
    (loaded : List Run.Loaded) (run : Interleaving) : Prop where
  keeps : disk.Keeps run.disk
  sited : cache.Sited run.disk root
  loaded : run.works.map Work.loaded = loaded
  fair : ∀ work ∈ run.works, work.Fair request cache disk
  files : disk.Left (fun place node => ∃ work ∈ run.works,
    work.Leaves request cache root disk place node) run.disk

section

variable {request : Request} {cache : Cache} {root : Disk.Place} {known : Set Call} {disk : Disk}
  {loaded : List Run.Loaded}

theorem get_congr {key : Digest} {later : Disk} (sited : cache.Sited disk root)
    (sited' : cache.Sited later root) (filled : key ≠ [])
    (same : ∀ data mode,
      later.node? (root ++ [directoryName key, fileName key]) = some (.file data mode) ↔
        disk.node? (root ++ [directoryName key, fileName key]) = some (.file data mode))
    {payload : Payload} (found : cache.get disk key = .ok (some payload)) :
    cache.get later key = .ok (some payload) := by
  obtain ⟨bytes, read, decoded, version⟩ := get_eq_some found
  obtain ⟨mode, node⟩ := (sited.read_eq_ok_iff filled).mp read
  have read' := (sited'.read_eq_ok_iff filled).mpr ⟨mode, (same bytes mode).mpr node⟩
  simp [Cache.get, read', decoded, version]

namespace Shares

variable (env : Shares request cache root known disk loaded)
include env

theorem left_entry {other : Run.Loaded} (member : other ∈ loaded) {key : Digest} {node : Disk.Node}
    (left : other.Stores request cache root disk (root ++ [directoryName key, fileName key]) node ∨
      other.Rewrites request disk (root ++ [directoryName key, fileName key]) node) :
    ∃ call ∈ known, call.key = key ∧ cache.Lacks disk key ∧
      node = .file (Payload.ofAligned call.aligned).encode 0o600 := by
  generalize at_ : root ++ [directoryName key, fileName key] = place at left
  rcases left with ⟨call, called, lacks⟩ | ⟨bytes, changed, place, located, old, mode, stored⟩
  · rw [entry_inj at_]
    exact ⟨call, env.listed _ member _ called, rfl, lacks, rfl⟩
  · exact absurd (at_ ▸ located) (env.apart _ member key)

theorem left_file {other : Run.Loaded} (member : other ∈ loaded) {entry : Run.Loaded}
    (member' : entry ∈ loaded) {place : Disk.Place} (located : disk.locate true entry.1 = .ok place)
    {node : Disk.Node} (left : other.Stores request cache root disk place node ∨
      other.Rewrites request disk place node) : entry.Rewrites request disk place node := by
  rcases left with ⟨call, called, lacks⟩ | rewrites
  · exact absurd located (env.apart _ member' _)
  · have same : other = entry := by
      obtain ⟨bytes, changed, place, located', old, mode, stored⟩ := rewrites
      exact env.distinct _ member _ member' place located' located
    exact same ▸ rewrites

theorem aligned_eq {call other : Call} (listed : call ∈ known) (listed' : other ∈ known)
    (same : call.key = other.key) : call.aligned = other.aligned :=
  Call.aligned_of_key_eq env.injective listed listed' same

end Shares

namespace Underway

variable {run : Interleaving} (way : Underway request cache root disk loaded run)
include way

theorem mem_loaded {work : Work} (member : work ∈ run.works) : work.loaded ∈ loaded :=
  way.loaded ▸ List.mem_map_of_mem member

variable (env : Shares request cache root known disk loaded)
include env

theorem sound : cache.Sound known run.disk := by
  refine ⟨⟨root, way.sited⟩, fun key filled bytes read => ?_⟩
  obtain ⟨mode, found⟩ := (way.sited.read_eq_ok_iff filled).mp read
  rcases (way.files _ _ _).mp found with ⟨work, member, leaves⟩ | ⟨-, stored⟩
  · -- A file with this block stored the entry in the meantime.
    obtain ⟨call, listed, same, -, node⟩ := env.left_entry (way.mem_loaded member) leaves.entry
    cases node
    exact .stored call listed same
  · exact env.entries key filled bytes ((env.sited.read_eq_ok_iff filled).mpr ⟨mode, stored⟩)

theorem lacks_of_get {key : Digest} (filled : key ≠ []) (missed : cache.get run.disk key = .ok none) :
    cache.Lacks disk key := by
  intro payload found
  have kept : cache.get run.disk key = .ok (some payload) := by
    refine get_congr env.sited way.sited filled (way.files.untouched ?_) found
    rintro node ⟨work, member, leaves⟩
    -- An entry is only left for a key that the cache lacked at first, and this one was there.
    obtain ⟨-, -, -, lacks, -⟩ := env.left_entry (way.mem_loaded member) leaves.entry
    exact lacks payload found
  rw [kept] at missed
  cases missed

theorem left_of_get {call : Call} (listed : call ∈ known) (lacks : cache.Lacks disk call.key)
    {payload : Payload} (found : cache.get run.disk call.key = .ok (some payload)) :
    ∃ work ∈ run.works, work.Leaves request cache root disk
      (root ++ [directoryName call.key, fileName call.key])
      (.file (Payload.ofAligned call.aligned).encode 0o600) := by
  by_contra none
  have nothing : ∀ node, ¬ ∃ work ∈ run.works, work.Leaves request cache root disk
      (root ++ [directoryName call.key, fileName call.key]) node := by
    rintro node ⟨work, member, leaves⟩
    obtain ⟨other, listed', same, -, entry⟩ := env.left_entry (way.mem_loaded member) leaves.entry
    rw [entry, env.aligned_eq listed' listed same] at leaves
    exact none ⟨work, member, leaves⟩
  exact lacks payload (get_congr way.sited env.sited call.key_ne_nil
    (fun data mode => (way.files.untouched nothing data mode).symm) found)

theorem file_present {path : Text} {file : SourceFile} (member : (path, Except.ok file) ∈ loaded) :
    ∃ place old mode data, disk.locate true path = .ok place ∧
      disk.node? place = some (.file old mode) ∧
      run.disk.locate true path = .ok place ∧ run.disk.node? place = some (.file data mode) := by
  obtain ⟨old, read⟩ := env.present path file member
  obtain ⟨place, mode, located, stored⟩ := Disk.read_eq_ok_iff.mp read
  by_cases left : ∃ work ∈ run.works, ∃ node, work.Leaves request cache root disk place node
  · obtain ⟨work, member', node, leaves⟩ := left
    have rewrites := env.left_file (way.mem_loaded member') member located leaves.entry
    generalize node_eq : node = node' at rewrites
    obtain ⟨bytes, changed, place', located', old', mode', stored'⟩ := rewrites
    cases located.symm.trans located'
    cases stored.symm.trans stored'
    exact ⟨place, old, mode, bytes, located, stored, way.keeps.locate located,
      (way.files _ _ _).mpr (.inl ⟨work, member', node_eq ▸ leaves⟩)⟩
  · refine ⟨place, old, mode, old, located, stored, way.keeps.locate located,
      (way.files _ _ _).mpr (.inr ⟨fun node leaves => left ?_, stored⟩)⟩
    obtain ⟨work, member', leaves⟩ := leaves
    exact ⟨work, member', node, leaves⟩

end Underway

def Work.Quiet (work : Work) : Prop := match work.stage with
  | .waiting => True
  | .missed _ _ _ failure => failure = none
  | .answered _ _ answer => answer.failure = none
  | .finished outcome => ∀ d ∈ outcome.bag.items, d.code ≠ .cacheError

theorem Work.quiet_of_step {work : Work} (quiet : (work.step request disk).2.Quiet) : work.Quiet := by
  obtain ⟨loaded, stage⟩ := work
  cases stage with
  | waiting => trivial
  | missed cache file selection failure =>
      simp only [step] at quiet
      split at quiet
      · cases quiet
      · exact quiet
  | answered file selection answer =>
      -- The failure is reported before the file is delivered, and the report stays.
      by_contra failed
      obtain ⟨failure, failed⟩ := Option.ne_none_iff_exists'.mp failed
      have reported := file.cacheReport_mem_blockBag request failed selection.block
      refine quiet (file.cacheReport failure) (Run.mem_deliver _ _ _ _ _ _ _ ?_) rfl
      rw [file.answeredOutcome_eq]
      exact reported
  | finished outcome => exact quiet

namespace Underway

variable {before after : List Work} {work next : Work} {now later : Disk}

/-- The work on one file goes on, and what it has left stays. -/
theorem advance (way : Underway request cache root disk loaded ⟨now, before ++ work :: after⟩)
    (same : next.loaded = work.loaded) (fair : next.Fair request cache disk)
    (keeps : now.Keeps later) (sited : cache.Sited later root)
    (grows : ∀ place node, work.Leaves request cache root disk place node →
      next.Leaves request cache root disk place node)
    (files : disk.Left (fun place node =>
      (∃ other ∈ before ++ work :: after, other.Leaves request cache root disk place node) ∨
        next.Leaves request cache root disk place node) later) :
    Underway request cache root disk loaded ⟨later, before ++ next :: after⟩ where
  keeps := way.keeps.trans keeps
  sited := sited
  loaded := by
    have before := way.loaded
    simp only [List.map_append, List.map_cons] at before ⊢
    rwa [same]
  fair other member := by
    rcases List.mem_append.mp member with front | back
    · exact way.fair other (List.mem_append_left _ front)
    · rcases List.mem_cons.mp back with rfl | back
      · exact fair
      · exact way.fair other (List.mem_append_right _ (List.mem_cons_of_mem _ back))
  files := files.congr fun place node => by
    simp only [List.mem_append, List.mem_cons]
    grind

theorem idle (way : Underway request cache root disk loaded ⟨now, before ++ work :: after⟩)
    (same : next.loaded = work.loaded) (fair : next.Fair request cache disk)
    (leaves : ∀ place node, next.Leaves request cache root disk place node ↔
      work.Leaves request cache root disk place node) :
    Underway request cache root disk loaded ⟨now, before ++ next :: after⟩ := by
  have here : work ∈ before ++ work :: after := List.mem_append_right _ List.mem_cons_self
  refine way.advance same fair ⟨rfl, fun _ found => found, fun _ _ => Iff.rfl⟩ way.sited
    (fun place node => (leaves place node).mpr) (way.files.congr fun place node => ?_)
  rw [leaves]
  exact or_iff_left_of_imp fun left => ⟨work, here, left⟩

theorem refuse {entry : Run.Loaded} {outcome : Outcome}
    (way : Underway request cache root disk loaded ⟨now, before ++ ⟨entry, .waiting⟩ :: after⟩)
    (uncalled : entry.call? request = none)
    (same : outcome = (Run.alone request disk entry).2) :
    Underway request cache root disk loaded ⟨now, before ++ ⟨entry, .finished outcome⟩ :: after⟩ := by
  refine way.idle rfl (.finished (congrArg _ same)) fun place node => ?_
  rw [Work.leaves_finished]
  refine iff_of_false (not_or.mpr ⟨?_, ?_⟩) (Work.not_leaves rfl place node)
  · rintro ⟨call, called, -⟩
    cases uncalled.symm.trans called
  · exact Run.Loaded.not_rewrites (Run.Loaded.rewrite?_of_uncalled uncalled) place node

theorem answer (env : Shares request cache root known disk loaded) {path : Text}
    {file : SourceFile} {selection : SourceFile.Selection} {stage : Stage} {call : Call}
    (way : Underway request cache root disk loaded
      ⟨now, before ++ ⟨(path, .ok file), stage⟩ :: after⟩)
    (early : stage.isAligned = false) (selected : file.select request.lines = .ok selection)
    (called : Run.Loaded.call? request (path, .ok file) = some call) {answer : Cache.Answer}
    (right : answer.aligned = Block.align request.options selection.block)
    (well : answer.failure = none) (keeps : now.Keeps later) (sited : cache.Sited later root)
    (stored : cache.Lacks disk call.key → ∀ other data mode,
      later.node? other = some (.file data mode) ↔
        if other = root ++ [directoryName call.key, fileName call.key] then
          data = (Payload.ofAligned call.aligned).encode ∧ mode = 0o600
        else now.node? other = some (.file data mode))
    (held : ¬ cache.Lacks disk call.key → later = now) :
    Underway request cache root disk loaded
      ⟨later, before ++ ⟨(path, .ok file), .answered file selection answer⟩ :: after⟩ := by
  have fair : Work.Fair request cache disk ⟨(path, .ok file), .answered file selection answer⟩ :=
    .answered selected right well
  have entry : (path, Except.ok file) ∈ loaded :=
    way.mem_loaded (List.mem_append_right before List.mem_cons_self)
  have listed := env.listed _ entry _ called
  have none : ∀ place node, ¬ Work.Leaves request cache root disk ⟨(path, .ok file), stage⟩ place node :=
    Work.not_leaves early
  by_cases lacks : cache.Lacks disk call.key
  · refine way.advance rfl fair keeps sited (fun place node left => absurd left (none place node))
      (way.files.add (stored lacks) ?_ fun other node => ?_)
    · -- Another file may have stored an entry for the key: it is the same entry.
      rintro node ⟨work, member, leaves⟩
      obtain ⟨other, listed', same, -, rfl⟩ := env.left_entry (way.mem_loaded member) leaves.entry
      rw [env.aligned_eq listed' listed same]
    · rw [Work.leaves_answered, Run.Loaded.stores_iff called, and_iff_right lacks]
  · have leaves (place : Disk.Place) (node : Disk.Node) :
        Work.Leaves request cache root disk ⟨(path, .ok file), .answered file selection answer⟩
          place node ↔
        Work.Leaves request cache root disk ⟨(path, .ok file), stage⟩ place node := by
      rw [Work.leaves_answered, Run.Loaded.stores_iff called]
      exact iff_of_false (fun stores => lacks stores.1) (none place node)
    rw [held lacks]
    exact way.idle rfl fair leaves

theorem look (env : Shares request cache root known disk loaded) {path : Text}
    {file : SourceFile} {selection : SourceFile.Selection}
    (way : Underway request cache root disk loaded
      ⟨now, before ++ ⟨(path, .ok file), .waiting⟩ :: after⟩)
    (selected : file.select request.lines = .ok selection)
    (quiet : (Work.step request now ⟨(path, .ok file), .waiting⟩).2.Quiet) :
    Underway request cache root disk loaded
      ⟨(Work.step request now ⟨(path, .ok file), .waiting⟩).1,
        before ++ (Work.step request now ⟨(path, .ok file), .waiting⟩).2 :: after⟩ := by
  have entry : (path, Except.ok file) ∈ loaded :=
    way.mem_loaded (List.mem_append_right before List.mem_cons_self)
  let call : Call := { request, block := selection.block }
  have called : Run.Loaded.call? request (path, .ok file) = some call := by
    simp [Run.Loaded.call?, selected, call]
  have listed := env.listed _ entry _ called
  simp only [Work.step, selected, env.shared] at quiet ⊢
  cases found : cache.lookup now (Cache.key selection.block request.options request.lines) with
  | mk aligned failure =>
      cases aligned with
      | some aligned =>
          obtain ⟨payload, got, rfl⟩ := Cache.lookup_eq_some found
          have right := (way.sound env).hit env.injective env.fits listed got
          dsimp only
          refine way.answer env rfl selected called right rfl
            ⟨rfl, fun _ found => found, fun _ _ => Iff.rfl⟩ way.sited (fun lacks => ?_) fun _ => rfl
          -- What was lacking at first and is found now was stored by the work on another file.
          have left := (way.files _ _ _).mpr (.inl (way.left_of_get env listed lacks got))
          intro other data mode
          split
          · next same =>
              rw [same, left]
              simp [eq_comm]
          · rfl
      | none =>
          rw [found] at quiet
          obtain rfl : failure = none := quiet
          have missed : cache.get now call.key = .ok none := Cache.get_of_lookup found
          refine way.idle rfl (.missed selected (way.lacks_of_get env call.key_ne_nil missed)) ?_
          exact fun place node =>
            iff_of_false (Work.not_leaves rfl place node) (Work.not_leaves rfl place node)

theorem store (env : Shares request cache root known disk loaded) {path : Text}
    {file : SourceFile} {selection : SourceFile.Selection}
    (way : Underway request cache root disk loaded
      ⟨now, before ++ ⟨(path, .ok file), .missed cache file selection none⟩ :: after⟩)
    (selected : file.select request.lines = .ok selection)
    (lacks : cache.Lacks disk (Cache.key selection.block request.options request.lines))
    (quiet : (Work.step request now ⟨(path, .ok file), .missed cache file selection none⟩).2.Quiet) :
    Underway request cache root disk loaded
      ⟨(Work.step request now ⟨(path, .ok file), .missed cache file selection none⟩).1,
        before ++
          (Work.step request now ⟨(path, .ok file), .missed cache file selection none⟩).2 ::
            after⟩ := by
  let call : Call := { request, block := selection.block }
  have called : Run.Loaded.call? request (path, .ok file) = some call := by
    simp [Run.Loaded.call?, selected, call]
  simp only [Work.step] at quiet ⊢
  cases stored : cache.put now (Cache.key selection.block request.options request.lines)
      (.ofAligned (Block.align request.options selection.block)) with
  | error failure =>
      rw [stored] at quiet
      cases quiet
  | ok later =>
      obtain ⟨sited, keeps, files⟩ := way.sited.put_file call.key_ne_nil stored
      exact way.answer env rfl selected called rfl rfl keeps sited (fun _ => files)
        fun held => absurd lacks held

theorem deliver (env : Shares request cache root known disk loaded) {path : Text}
    {file : SourceFile} {selection : SourceFile.Selection} {answer : Cache.Answer}
    (way : Underway request cache root disk loaded
      ⟨now, before ++ ⟨(path, .ok file), .answered file selection answer⟩ :: after⟩)
    (selected : file.select request.lines = .ok selection)
    (right : answer.aligned = Block.align request.options selection.block)
    (well : answer.failure = none) {delivered : Run × Outcome}
    (result : Run.deliver { disk := now } request file
      (file.answeredOutcome request path answer selection.block) selection answer.aligned.text none
      request.blockTimer = delivered) :
    Underway request cache root disk loaded
      ⟨delivered.1.disk, before ++ ⟨(path, .ok file), .finished delivered.2⟩ :: after⟩ := by
  have entry : (path, Except.ok file) ∈ loaded :=
    way.mem_loaded (List.mem_append_right before List.mem_cons_self)
  obtain ⟨place, old, mode, data, located, stored, located', stored'⟩ := way.file_present env entry
  obtain ⟨aligned, hit, failure⟩ := answer
  obtain rfl : aligned = _ := right
  obtain rfl : failure = none := well
  -- The file can be written now as it could at first, so the outcome is that of the file alone.
  have fair : Work.Fair request cache disk ⟨(path, .ok file), .finished delivered.2⟩ := by
    obtain ⟨begun, span, begun_disk, alone⟩ := Run.alone_selected selected
    have same : (file.blockOutcome request path
        { aligned := Block.align request.options selection.block, hit } selection.block).withoutHit =
        (file.blockOutcome request path
          { aligned := Block.align request.options selection.block } selection.block).withoutHit :=
      rfl
    refine .finished ?_
    rw [alone, ← result, file.answeredOutcome_eq]
    refine Run.withoutHit_deliver same _ _ _ _ _ fun other member => ?_
    rcases List.mem_pair.mp member with rfl | rfl
    · exact ⟨_, Disk.write_eq_ok located' stored' _ _⟩
    · rw [begun_disk]
      exact ⟨_, Disk.write_eq_ok located stored _ _⟩
  have named : (file.answeredOutcome request path
      { aligned := Block.align request.options selection.block, hit } selection.block).path = path :=
    rfl
  have later := Run.disk_deliver_selected { disk := now } selected named none request.blockTimer
    located' stored'
  rw [result] at later
  rw [later]
  cases changed : Run.Loaded.rewrite? request (path, .ok file) with
  | none =>
      refine way.idle rfl fair fun place node => ?_
      rw [Work.leaves_finished, Work.leaves_answered]
      exact or_iff_left (Run.Loaded.not_rewrites changed place node)
  | some bytes =>
      have kept := way.sited.set stored'
      refine way.advance rfl fair (kept _ _).2 (kept _ _).1 (fun other node left => ?_)
        (way.files.add (Disk.node?_set_eq_file_iff stored') ?_ fun other node => ?_)
      · rw [Work.leaves_answered] at left
        exact Work.leaves_finished.mpr (.inl left)
      · rintro node ⟨work, member, leaves⟩
        have rewrites := env.left_file (way.mem_loaded member) entry located leaves.entry
        exact ((Run.Loaded.rewrites_iff changed located stored).mp rewrites).2
      · rw [Work.leaves_finished, Run.Loaded.rewrites_iff changed located stored, ← or_assoc]
        refine or_congr_left (or_iff_left_of_imp fun stores => ?_)
        exact ⟨_, List.mem_append_right before List.mem_cons_self,
          Work.leaves_answered.mpr stores⟩

theorem step (env : Shares request cache root known disk loaded)
    (way : Underway request cache root disk loaded ⟨now, before ++ work :: after⟩)
    (quiet : (work.step request now).2.Quiet) :
    Underway request cache root disk loaded
      ⟨(work.step request now).1, before ++ (work.step request now).2 :: after⟩ := by
  have here : work ∈ before ++ work :: after := List.mem_append_right _ List.mem_cons_self
  cases way.fair work here with
  | waiting entry =>
      obtain ⟨path, failure | file⟩ := entry
      · exact way.refuse rfl rfl
      · cases selected : file.select request.lines with
        | error error =>
            simp only [Work.step, selected]
            exact way.refuse (by simp [Run.Loaded.call?, selected])
              (Run.alone_badRange selected).symm
        | ok selection =>
            exact way.look env selected quiet
  | missed selected lacks =>
      exact way.store env selected lacks quiet
  | answered selected right well => exact way.deliver env selected right well rfl
  | finished same => exact way

end Underway

/-! Whole runs -/

namespace Underway

theorem start (env : Shares request cache root known disk loaded) :
    Underway request cache root disk loaded ⟨disk, loaded.map fun loaded => { loaded }⟩ where
  keeps := ⟨rfl, fun _ found => found, fun _ _ => Iff.rfl⟩
  sited := env.sited
  loaded := by
    rw [List.map_map]
    exact List.map_id loaded
  fair work member := by
    obtain ⟨entry, -, rfl⟩ := List.mem_map.mp member
    exact .waiting entry
  files := Disk.Left.nothing disk fun place node => by
    rintro ⟨work, member, leaves⟩
    obtain ⟨entry, -, rfl⟩ := List.mem_map.mp member
    exact Work.not_leaves rfl place node leaves

theorem moves (env : Shares request cache root known disk loaded) {limit : Nat}
    {run final : Interleaving} (way : Underway request cache root disk loaded run)
    (moves : Relation.ReflTransGen (Interleaving.Move request limit) run final)
    (quiet : ∀ work ∈ final.works, work.Quiet) :
    Underway request cache root disk loaded final := by
  induction moves with
  | refl => exact way
  | tail _ move ih =>
      obtain ⟨now, before, work, after, begun⟩ := move
      have moved : (work.step request now).2.Quiet :=
        quiet _ (List.mem_append_right before List.mem_cons_self)
      -- A failure is not forgotten, so the run was quiet up to this step as well.
      refine (ih fun other member => ?_).step env moved
      rcases List.mem_append.mp member with front | back
      · exact quiet other (List.mem_append_left _ front)
      · rcases List.mem_cons.mp back with rfl | back
        · exact Work.quiet_of_step moved
        · exact quiet other (List.mem_append_right _ (List.mem_cons_of_mem _ back))

variable {final : Interleaving} (way : Underway request cache root disk loaded final)
  (done : final.isDone)
include way done

theorem outcomes_eq : final.outcomes.map Outcome.withoutHit =
    loaded.map fun entry => (Run.alone request disk entry).2.withoutHit := by
  have finished := List.all_eq_true.mp done
  have fair := way.fair
  rw [← way.loaded, Interleaving.outcomes]
  generalize final.works = works at finished fair
  induction works with
  | nil => rfl
  | cons work works ih =>
      have rest := ih (fun other member => finished other (List.mem_cons_of_mem _ member))
        fun other member => fair other (List.mem_cons_of_mem _ member)
      have last := finished work List.mem_cons_self
      cases fair work List.mem_cons_self with
      | waiting entry => cases last
      | missed selected lacks => cases last
      | answered selected aligned well => cases last
      | finished same =>
          simp only [List.filterMap_cons, Work.outcome?, List.map_cons]
          rw [rest, same]

theorem left : disk.Left (fun place node => ∃ entry ∈ loaded,
    entry.Stores request cache root disk place node ∨ entry.Rewrites request disk place node)
    final.disk := by
  have finished := List.all_eq_true.mp done
  refine way.files.congr fun place node => ?_
  rw [← way.loaded]
  constructor
  · rintro ⟨entry, member, left⟩
    obtain ⟨work, listed, rfl⟩ := List.mem_map.mp member
    refine ⟨work, listed, ?_⟩
    have last := finished work listed
    obtain ⟨entry, stage⟩ := work
    cases stage with
    | finished outcome => exact Work.leaves_finished.mpr left
    | _ => cases last
  · rintro ⟨work, member, leaves⟩
    exact ⟨work.loaded, List.mem_map_of_mem member, leaves.entry⟩

end Underway

end

end HdlAlign
