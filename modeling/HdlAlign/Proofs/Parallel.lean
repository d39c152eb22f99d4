import HdlAlign.Proofs.Interleavings
import HdlAlign.Proofs.Sequential

/-! Files that are worked on at the same time come out as if they were formatted one by one. -/

namespace HdlAlign

/-! The order of paths -/

namespace Text

theorem lt_trans {s t u : Text} (first : lt s t) (second : lt t u) : lt s u := by
  induction s generalizing t u with
  | nil =>
      cases u with
      | nil => cases t <;> cases second
      | cons c u => rfl
  | cons a s ih =>
      cases t with
      | nil => cases first
      | cons b t =>
          cases u with
          | nil => cases second
          | cons c u =>
              simp only [lt, Bool.or_eq_true, decide_eq_true_eq, Bool.and_eq_true, beq_iff_eq,
                UInt8.lt_iff_toNat_lt, ← UInt8.toNat_inj] at first second ⊢
              rcases first with less | ⟨same, rest⟩
              · rcases second with less' | ⟨same', -⟩ <;> omega
              · rcases second with less' | ⟨same', rest'⟩
                · omega
                · exact .inr ⟨same.trans same', ih rest rest'⟩

theorem lt_or_lt_or_eq (s t : Text) : lt s t ∨ lt t s ∨ s = t := by
  induction s generalizing t with
  | nil => cases t <;> simp [lt]
  | cons a s ih =>
      cases t with
      | nil => simp [lt]
      | cons b t =>
          simp only [lt, Bool.or_eq_true, decide_eq_true_eq, Bool.and_eq_true, beq_iff_eq,
            UInt8.lt_iff_toNat_lt, ← UInt8.toNat_inj, List.cons.injEq]
          rcases ih t with less | less | same <;> grind

theorem not_lt_self (s : Text) : lt s s = false := by
  induction s with
  | nil => rfl
  | cons a s ih => simp [lt, ih]

theorem le_trans (s t u : Text) (first : le s t) (second : le t u) : le s u := by
  simp only [le, Bool.not_eq_true'] at *
  rw [← Bool.not_eq_true]
  intro less
  rcases lt_or_lt_or_eq s t with before | before | rfl
  · rw [lt_trans less before] at second
    cases second
  · rw [before] at first
    cases first
  · rw [less] at second
    cases second

theorem le_total (s t : Text) : (le s t || le t s) = true := by
  cases less : lt t s with
  | false => simp [le, less]
  | true =>
      cases greater : lt s t with
      | false => simp [le, greater]
      | true => exact absurd (lt_trans less greater) (by rw [not_lt_self]; exact Bool.false_ne_true)

end Text

namespace Sources

theorem nodup_distinct (paths : List Text) : (distinct paths).Nodup := by
  induction paths with
  | nil => exact List.nodup_nil
  | cons path rest ih =>
      rw [distinct, List.nodup_cons]
      exact ⟨by simp, ih.filter _⟩

theorem pairwise_collect {disk : Disk} {extensions : List Text} {excluded : Text → Bool}
    {paths files : List Text} (collected : collect disk extensions excluded paths = .ok files) :
    (files.Pairwise fun path later => Text.le path later) ∧ files.Nodup := by
  rw [collect] at collected
  cases found : ofPaths disk (searched extensions) paths with
  | error failure =>
      rw [found] at collected
      cases collected
  | ok all =>
      rw [found] at collected
      cases collected
      exact ⟨List.pairwise_mergeSort Text.le_trans Text.le_total _,
        (List.mergeSort_perm _ _).nodup_iff.mpr (nodup_distinct _)⟩

end Sources

theorem FileSet.get?_addStored (set : FileSet) (path raw : Text) (marks : FileMarks)
    (few : set.files.length + 1 < 0x100000000) :
    ∃ file, (set.addStored path raw marks).1.get? (set.addStored path raw marks).2 = some file := by
  have number : set.nextId.toNat = set.files.length + 1 := by
    rw [nextId]
    simp only [Nat.toUInt32_eq, UInt32.toNat_ofNat']
    exact Nat.mod_eq_of_lt few
  have nonzero : set.nextId ≠ 0 := by
    intro zero
    rw [zero] at number
    exact absurd number (by simp)
  simp only [addStored, add, get?, if_neg nonzero, number, Nat.add_sub_cancel]
  rw [List.getElem?_append_right (Nat.le_refl _), Nat.sub_self]
  exact ⟨_, rfl⟩

namespace Run

/-! Loading -/

theorem disk_loadEach (run : Run) (set : FileSet) (paths : List Text) :
    (run.loadEach set paths).1.disk = run.disk := by
  induction paths generalizing run set with
  | nil => rfl
  | cons path rest ih =>
      rw [loadEach]
      split
      · exact ih _ _
      · exact ih _ _

theorem loadEach_congr {run other : Run} (same : run.disk = other.disk) (set : FileSet)
    (paths : List Text) : (run.loadEach set paths).2 = (other.loadEach set paths).2 := by
  induction paths generalizing run other set with
  | nil => rfl
  | cons path rest ih =>
      have emitted : (run.emit path .load .queued).disk = (other.emit path .load .queued).disk :=
        same
      simp only [loadEach, emitted]
      split
      · simp only [ih emitted set]
      · next raw read => simp only [ih emitted (set.addStored path raw 0).1]

theorem read_of_mem_loadEach (run : Run) (set : FileSet) (paths : List Text) {path : Text}
    {file : SourceFile} (member : (path, Except.ok file) ∈ (run.loadEach set paths).2.2) :
    ∃ data, run.disk.read path = .ok data := by
  induction paths generalizing run set with
  | nil => cases member
  | cons first rest ih =>
      simp only [loadEach] at member
      split at member
      · rcases List.mem_cons.mp member with here | later
        · cases here
        · exact ih (run.emit first .load .queued) set later
      · next raw read =>
          rcases List.mem_append.mp member with here | later
          · split at here
            · cases here
            · cases List.mem_singleton.mp here
              exact ⟨raw, read⟩
          · exact ih (run.emit first .load .queued) _ later

theorem paths_loadEach_sublist (run : Run) (set : FileSet) (paths : List Text) :
    ((run.loadEach set paths).2.2.map Prod.fst).Sublist paths := by
  induction paths generalizing run set with
  | nil => exact List.Sublist.slnil
  | cons path rest ih =>
      simp only [loadEach]
      split
      · exact (ih _ _).cons_cons path
      · split
        · exact (ih _ _).cons path
        · exact (ih _ _).cons_cons path

theorem paths_loadEach (run : Run) (set : FileSet) (paths : List Text)
    (few : set.files.length + paths.length < 0x100000000) :
    (run.loadEach set paths).2.2.map Prod.fst = paths := by
  induction paths generalizing run set with
  | nil => rfl
  | cons path rest ih =>
      rw [List.length_cons] at few
      simp only [loadEach]
      split
      · rw [List.map_cons, ih _ _ (by omega)]
      · next raw read =>
          obtain ⟨file, found⟩ := set.get?_addStored path raw 0 (by omega)
          have longer : (set.addStored path raw 0).1.files.length = set.files.length + 1 :=
            List.length_append
          simp only [found, List.map_append, List.map_cons, List.map_nil]
          rw [ih _ _ (by rw [longer]; omega), List.singleton_append]

/-! One file after the other -/

theorem formatLoaded_congr {run other : Run} (same : run.disk = other.disk) (request : Request)
    (parent parent' : Nat) (entry : Loaded) :
    (run.formatLoaded request parent entry).1.disk =
        (other.formatLoaded request parent' entry).1.disk ∧
      (run.formatLoaded request parent entry).2 = (other.formatLoaded request parent' entry).2 := by
  obtain ⟨path, failure | file⟩ := entry
  · exact ⟨same, rfl⟩
  · cases selected : file.select request.lines with
    | error error =>
        simp only [formatLoaded, formatFile, selected]
        exact ⟨same, rfl⟩
    | ok selection =>
        obtain ⟨begun, span, disk, formatted⟩ := run.formatFile_delivered path parent selected
        obtain ⟨begun', span', disk', formatted'⟩ :=
          other.formatFile_delivered path parent' selected
        have answers : other.answer request selection.block = run.answer request selection.block := by
          rw [answer, answer, same]
        rw [answers] at disk' formatted'
        simp only [formatLoaded, formatted, formatted']
        exact deliver_congr (disk.trans disk'.symm) _ _ _ _ _ _ _ _

theorem formatEach_congr {run other : Run} (same : run.disk = other.disk) (request : Request)
    (parent parent' : Nat) (entries : List Loaded) :
    (run.formatEach request parent entries).1.disk =
        (other.formatEach request parent' entries).1.disk ∧
      (run.formatEach request parent entries).2 = (other.formatEach request parent' entries).2 := by
  induction entries generalizing run other with
  | nil => exact ⟨same, rfl⟩
  | cons entry rest ih =>
      obtain ⟨disk, outcome⟩ := formatLoaded_congr same request parent parent' entry
      obtain ⟨disk', outcomes⟩ := ih disk
      exact ⟨disk', congrArg₂ List.cons outcome outcomes⟩

end Run

namespace Interleaving

open Relation

variable {request : Request} {limit : Nat} {before after : List Work}

theorem moves_go (run : Interleaving) (numbers : List Nat) :
    ReflTransGen (Move request limit) run (numbers.foldl (go request limit) run) := by
  induction numbers generalizing run with
  | nil => exact .refl
  | cons number rest ih =>
      refine .trans ?_ (ih (run.go request limit number))
      rw [go]
      split
      · exact .refl
      · next work found =>
          obtain ⟨inside, here⟩ := List.getElem?_eq_some_iff.mp found
          split
          · next begun =>
              have split : run.works = run.works.take number ++ work ::
                  run.works.drop (number + 1) := by
                rw [← here, List.getElem_cons_drop, List.take_append_drop]
              have front : (run.works.take number).length = number :=
                List.length_take_of_le (Nat.le_of_lt inside)
              have moved := @Move.next request limit run.disk (run.works.take number) work
                (run.works.drop (number + 1)) (by rw [← split, front]; exact begun)
              rw [← split] at moved
              dsimp only
              rw [List.set_eq_take_append_cons_drop, if_pos inside]
              exact .single moved
          · exact .refl

/-- Formatting files one after the other is one of the ways to interleave the work on them. -/
theorem moves_formatEach (positive : 0 < limit) (done : before.all Work.isFinished) (run : Run)
    (parent : Nat) (entries : List Run.Loaded) :
    ∃ final, ReflTransGen (Move request limit)
        ⟨run.disk, before ++ entries.map (Work.mk · .waiting)⟩ final ∧
      final.isDone ∧ final.disk = (run.formatEach request parent entries).1.disk ∧
      final.outcomes =
        before.filterMap Work.outcome? ++ (run.formatEach request parent entries).2 := by
  obtain ⟨final, moves, finished, disk, -, outcomes⟩ :=
    Reported.moves_formatEach positive done run parent entries
  exact ⟨final.run, moves.lift Reported.run fun _ _ move => move.run, finished, disk, outcomes⟩

end Interleaving

namespace Run

theorem formatPaths_collected (run : Run) {request : Request} {paths files : List Text}
    (parent : Nat)
    (collected : Sources.collect run.disk request.extensions request.excluded paths = .ok files)
    (some : files ≠ []) :
    (run.formatPaths request paths parent).1.disk = (formatEach { disk := run.disk } request 0
        (loadEach { disk := run.disk } {} files).2.2).1.disk ∧
      ∃ set, (run.formatPaths request paths parent).2 = .ok ((formatEach { disk := run.disk }
        request 0 (loadEach { disk := run.disk } {} files).2.2).2, set) := by
  obtain ⟨path, rest, rfl⟩ := List.exists_cons_of_ne_nil some
  simp only [formatPaths, collected]
  generalize run.recorder.start .run "format_paths" parent = recorded
  have same : (Run.mk run.disk recorded.1 run.events run.timer).disk =
      (Run.mk run.disk {} [] {}).disk := rfl
  rw [← loadEach_congr same {} (path :: rest)]
  have begun := (disk_loadEach ⟨run.disk, recorded.1, run.events, run.timer⟩ {}
    (path :: rest)).trans same
  refine ⟨(formatEach_congr begun request _ 0 _).1, ?_⟩
  simp only [(formatEach_congr begun request _ 0 _).2, Except.ok.injEq, Prod.mk.injEq, true_and]
  exact ⟨_, rfl⟩

theorem path_deliver (run : Run) (request : Request) (file : SourceFile) (outcome : Outcome)
    (selection : SourceFile.Selection) (text : Text) (span : Option Trace.Span) (timer : Timer) :
    (run.deliver request file outcome selection text span timer).2.path = outcome.path := by
  generalize result : run.deliver request file outcome selection text span timer = delivered
  simp only [deliver] at result
  split at result
  · subst result
    rfl
  · split at result
    · subst result
      rfl
    · split at result
      · split at result
        · subst result
          rfl
        · subst result
          rfl
      · subst result
        rfl

theorem path_alone (request : Request) (disk : Disk) (entry : Loaded) :
    (alone request disk entry).2.path = entry.1 := by
  obtain ⟨path, failure | file⟩ := entry
  · rfl
  · cases selected : file.select request.lines with
    | error error => rw [alone_badRange selected]; rfl
    | ok selection =>
        obtain ⟨begun, span, -, formatted⟩ := @alone_selected request disk path file selection selected
        rw [formatted, path_deliver]
        rfl

end Run

/-- The results of files that were worked on at the same time, and the disk then, are those of the
same files one after the other. -/
structure Interleaving.Agrees (final : Interleaving) (request : Request) (disk : Disk)
    (files : List Text) (loaded : List Run.Loaded) (sequential : List Outcome) (later : Disk) :
    Prop where
  paths : files.length < 0x100000000 → final.outcomes.map Outcome.path = files
  outcomes : final.outcomes.map Outcome.withoutHit = sequential.map Outcome.withoutHit
  alone : final.outcomes.map Outcome.withoutHit =
    loaded.map fun entry => (Run.alone request disk entry).2.withoutHit
  files : ∀ place data mode, final.disk.node? place = some (.file data mode) ↔
    later.node? place = some (.file data mode)
  written : ∀ entry ∈ loaded, ∀ place, disk.locate true entry.1 = .ok place → ∀ data mode,
    (final.disk.node? place = some (.file data mode) ↔
      (Run.alone request disk entry).1.disk.node? place = some (.file data mode))
  /-- A file that cannot be loaded, or not selected from, is left as it is. -/
  unchanged : ∀ entry ∈ loaded, entry.call? request = none →
    ∀ place, disk.locate true entry.1 = .ok place → ∀ data mode,
      (final.disk.node? place = some (.file data mode) ↔
        disk.node? place = some (.file data mode))

/-- Files that may be worked on at the same time with a cache between them.  The paths lead to
different files and none of them to an entry of the cache; the entries of the cache are those of
known calls, to which those of the files belong, and whose texts have different digests. -/
structure Shareable (request : Request) (cache : Cache) (root : Disk.Place) (known : Set Call)
    (disk : Disk) (files : List Text) : Prop where
  shared : request.cache = some cache
  sited : cache.Sited disk root
  entries : ∀ key : Digest, key ≠ [] → ∀ bytes,
    disk.read (cache.file key) = .ok bytes → Cache.Entry known key bytes
  injective : (Call.hashed known).InjOn Digest.of
  fits : ∀ call ∈ known, call.Fits
  listed : ∀ entry ∈ (Run.loadEach { disk } {} files).2.2, ∀ call,
    entry.call? request = some call → call ∈ known
  distinct : ∀ path ∈ files, ∀ other ∈ files, ∀ place,
    disk.locate true path = .ok place → disk.locate true other = .ok place → path = other
  apart : ∀ path ∈ files, ∀ key : Digest,
    disk.locate true path ≠ .ok (root ++ [Cache.directoryName key, Cache.fileName key])

section

variable {request : Request} {cache : Cache} {root : Disk.Place} {known : Set Call} {disk : Disk}
  {files : List Text}

theorem Shareable.shares (env : Shareable request cache root known disk files)
    (once : files.Nodup) :
    Shares request cache root known disk (Run.loadEach { disk } {} files).2.2 := by
  have listed := Run.paths_loadEach_sublist { disk } {} files
  have path_mem (entry : Run.Loaded) (member : entry ∈ (Run.loadEach { disk } {} files).2.2) :
      entry.1 ∈ files := listed.subset (List.mem_map_of_mem member)
  exact {
    shared := env.shared
    sited := env.sited
    entries := env.entries
    injective := env.injective
    fits := env.fits
    listed := env.listed
    distinct := fun entry member other member' place located located' =>
      List.inj_on_of_nodup_map (once.sublist listed) member member' (env.distinct _
        (path_mem entry member) _ (path_mem other member') place located located')
    apart := fun entry member => env.apart _ (path_mem entry member)
    present := fun path file member => Run.read_of_mem_loadEach { disk } {} files member }

theorem Interleaving.quiet_of_outcomes {final : Interleaving} (done : final.isDone)
    (quiet : ∀ outcome ∈ final.outcomes, ∀ d ∈ outcome.bag.items, d.code ≠ .cacheError) :
    ∀ work ∈ final.works, work.Quiet := by
  rintro ⟨entry, stage⟩ member
  have last := List.all_eq_true.mp done _ member
  cases stage with
  | finished outcome => exact quiet outcome (List.mem_filterMap.mpr ⟨_, member, rfl⟩)
  | _ => cases last

theorem Underway.agrees {loaded : List Run.Loaded} {final other : Interleaving}
    (env : Shares request cache root known disk loaded)
    (way : Underway request cache root disk loaded final) (done : final.isDone)
    (way' : Underway request cache root disk loaded other) (done' : other.isDone)
    (named : files.length < 0x100000000 → loaded.map Prod.fst = files) :
    final.Agrees request disk files loaded other.outcomes other.disk := by
  have left := way.left done
  have outcomes := way.outcomes_eq done
  -- At the place of a loaded file nothing is left but its own new bytes.
  have rewritten {entry : Run.Loaded} (member : entry ∈ loaded) {place : Disk.Place}
      (located : disk.locate true entry.1 = .ok place) (node : Disk.Node) :
      (∃ entry ∈ loaded, entry.Stores request cache root disk place node ∨
        entry.Rewrites request disk place node) ↔ entry.Rewrites request disk place node :=
    ⟨fun ⟨_, member', left⟩ => env.left_file member' member located left,
      fun rewrites => ⟨entry, member, .inr rewrites⟩⟩
  have kept {entry : Run.Loaded} (member : entry ∈ loaded) (unchanged : entry.rewrite? request = none)
      {place : Disk.Place} (located : disk.locate true entry.1 = .ok place) (data : Text)
      (mode : Nat) : final.disk.node? place = some (.file data mode) ↔
        disk.node? place = some (.file data mode) := by
    refine left.untouched (fun node => ?_) data mode
    rw [rewritten member located]
    exact Run.Loaded.not_rewrites unchanged place node
  refine ⟨fun few => ?_, outcomes.trans (way'.outcomes_eq done').symm, outcomes,
    fun place data mode => (left place data mode).trans (way'.left done' place data mode).symm,
    fun entry member place located data mode => ?_,
    fun entry member uncalled place located data mode =>
      kept member (Run.Loaded.rewrite?_of_uncalled uncalled) located data mode⟩
  · have paths := congrArg (List.map Outcome.path) outcomes
    rw [List.map_map, List.map_map] at paths
    rw [← named few]
    exact paths.trans (List.map_congr_left fun entry _ => Run.path_alone request disk entry)
  · obtain ⟨path, failure | file⟩ := entry
    · exact kept member rfl located data mode
    · obtain ⟨old, read⟩ := env.present path file member
      obtain ⟨place', mode', located', stored⟩ := Disk.read_eq_ok_iff.mp read
      cases located.symm.trans located'
      rw [Run.disk_alone _ located stored]
      cases changed : Run.Loaded.rewrite? request (path, .ok file) with
      | none => exact kept member changed located data mode
      | some bytes =>
          have rewrites := @Run.Loaded.rewrites_iff request disk _ bytes changed place located old
            mode' stored place
          rw [Disk.node?_set_eq_file_iff stored, if_pos rfl, left]
          simp only [rewritten member located, rewrites]
          simp

end

namespace Run

open Relation

/-- Files that are formatted at the same time, whatever the number of jobs and the order of their
steps, come out as if they were formatted one after the other, if the cache does not fail. -/
theorem formatPaths_interleaved (run : Run) {request : Request} {paths files : List Text}
    (parent : Nat)
    (collected : Sources.collect run.disk request.extensions request.excluded paths = .ok files)
    (some : files ≠ [])
    {cache : Cache} {root : Disk.Place} {known : Set Call}
    (env : Shareable request cache root known run.disk files) {jobs : Int} {processors : Nat}
    {final : Interleaving}
    (moves : ReflTransGen
      (Interleaving.Move request (Interleaving.limit jobs processors files.length))
      (Interleaving.start run.disk files) final)
    (done : final.isDone) :
    (files.Pairwise fun path later => Text.le path later) ∧ ∃ outcomes set,
      (run.formatPaths request paths parent).2 = .ok (outcomes, set) ∧
        ((∀ outcome ∈ outcomes ++ final.outcomes, ∀ d ∈ outcome.bag.items, d.code ≠ .cacheError) →
          final.Agrees request run.disk files (loadEach { disk := run.disk } {} files).2.2 outcomes
            (run.formatPaths request paths parent).1.disk) := by
  obtain ⟨sorted, once⟩ := Sources.pairwise_collect collected
  obtain ⟨later, set, result⟩ := run.formatPaths_collected parent collected some
  refine ⟨sorted, _, set, result, fun quiet => ?_⟩
  have shares := env.shares once
  -- Working in order is one way to interleave the work, so the invariant tells how both runs end.
  obtain ⟨other, moves', done', disk', outcomes'⟩ :=
    @Interleaving.moves_formatEach request 1 [] Nat.one_pos rfl { disk := run.disk } 0
      (loadEach { disk := run.disk } {} files).2.2
  rw [List.filterMap_nil, List.nil_append] at outcomes'
  have start := Underway.start shares
  have way := start.moves shares moves
    (Interleaving.quiet_of_outcomes done fun outcome member =>
      quiet outcome (List.mem_append_right _ member))
  have way' := start.moves shares moves'
    (Interleaving.quiet_of_outcomes done' fun outcome member =>
      quiet outcome (List.mem_append_left _ (outcomes' ▸ member)))
  rw [later, ← disk', ← outcomes']
  refine way.agrees shares done way' done' fun few => ?_
  exact paths_loadEach { disk := run.disk } {} files (by simpa using few)

def pairDisk : Disk where
  nodes := [([Text.ofString "cache"], .directory),
    ([Text.ofString "a.v"], .file "wire a;" 0o644), ([Text.ofString "b.v"], .file "wire a;" 0o600)]

def pairFiles : List Text := ["a.v", "b.v"]

theorem pairDisk_nodes {place : Disk.Place} {node : Disk.Node}
    (found : pairDisk.node? place = some node) :
    place.length ≤ 1 ∧ ∀ target, node ≠ .link target := by
  by_cases root : place = []
  · subst root
    cases found
    exact ⟨Nat.zero_le 1, nofun⟩
  · rw [Disk.node?_of_ne_nil _ root] at found
    have listed := Disk.mem_of_lookup found
    simp only [pairDisk, List.mem_cons, List.not_mem_nil, or_false] at listed
    rcases listed with listed | listed | listed <;> cases listed <;> exact ⟨Nat.le_refl 1, nofun⟩

theorem pairDisk_sited :
    openedCache.Sited pairDisk [Text.ofString "cache", Text.ofString "blocks"] where
  tree := by
    refine ⟨fun place other found => ?_, rfl⟩
    have short := (pairDisk_nodes found).1
    have top : place.dropLast = [] :=
      List.eq_nil_of_length_eq_zero (by rw [List.length_dropLast]; omega)
    rw [top]
    rfl
  located := by decide
  unlinked place target _ found := (pairDisk_nodes found).2 target rfl

theorem pairFiles_loaded : (loadEach { disk := pairDisk } {} pairFiles).2.2 =
    [(Text.ofString "a.v", Except.ok ⟨1, "a.v", "wire a;", 0⟩),
      (Text.ofString "b.v", Except.ok ⟨2, "b.v", "wire a;", 0⟩)] := by
  rfl

theorem pairFiles_collected :
    Sources.collect pairDisk wireCall.request.extensions wireCall.request.excluded pairFiles =
      .ok pairFiles := by
  have found : Sources.ofPaths pairDisk Settings.defaultExtensions pairFiles = .ok pairFiles := by rfl
  show Sources.collect pairDisk [] (fun _ => false) pairFiles = _
  rw [Sources.collect, show Sources.searched [] = Settings.defaultExtensions from rfl, found]
  show Except.ok (pairFiles.mergeSort Text.le) = _
  rw [List.mergeSort_of_pairwise (by decide)]

theorem pairFiles_located : ∀ path ∈ pairFiles, pairDisk.locate true path = .ok [path] := by
  decide

theorem pairFiles_shareable : Shareable wireCall.request openedCache
    [Text.ofString "cache", Text.ofString "blocks"] {wireCall} pairDisk pairFiles where
  shared := rfl
  sited := pairDisk_sited
  entries key filled bytes read := by
    obtain ⟨mode, found⟩ := (pairDisk_sited.read_eq_ok_iff filled).mp read
    exact absurd (pairDisk_nodes found).1 (by simp)
  injective := by
    have digests : ((Cache.hashed wireCall.block wireCall.request.options
        wireCall.request.lines).map Digest.of).Nodup := by decide +kernel
    rintro text ⟨_, rfl, listed⟩ other ⟨_, rfl, listed'⟩ same
    exact List.inj_on_of_nodup_map digests listed listed' same
  fits := by
    rintro _ rfl
    exact ⟨by decide, by decide +kernel⟩
  listed := by
    rw [pairFiles_loaded]
    intro entry member call called
    simp only [List.mem_cons, List.not_mem_nil, or_false] at member
    rcases member with rfl | rfl <;> cases called <;> rfl
  distinct := by
    intro path member other member' place located located'
    cases located.symm.trans (pairFiles_located path member)
    cases located'.symm.trans (pairFiles_located other member')
    rfl
  apart := by
    intro path member key located
    have same := Except.ok.inj ((pairFiles_located path member).symm.trans located)
    exact absurd (congrArg List.length same) (by simp)

def pairFinal : Interleaving :=
  [0, 1, 1, 0, 0, 1].foldl (Interleaving.go wireCall.request (Interleaving.limit 2 1 2))
    (Interleaving.start pairDisk pairFiles)

theorem pairFinal_quiet : pairFinal.isDone ∧ ∀ outcome ∈
    (formatEach { disk := pairDisk } wireCall.request 0
      (loadEach { disk := pairDisk } {} pairFiles).2.2).2 ++ pairFinal.outcomes,
    ∀ d ∈ outcome.bag.items, d.code ≠ .cacheError := by
  decide +kernel

theorem formatPaths_interleaved_pair : ∃ outcomes set,
    ((Run.mk pairDisk {} [] {}).formatPaths wireCall.request pairFiles 0).2 = .ok (outcomes, set) ∧
      pairFinal.Agrees wireCall.request pairDisk pairFiles
        (loadEach { disk := pairDisk } {} pairFiles).2.2 outcomes
        ((Run.mk pairDisk {} [] {}).formatPaths wireCall.request pairFiles 0).1.disk := by
  have moves := @Interleaving.moves_go wireCall.request (Interleaving.limit 2 1 2)
    (Interleaving.start pairDisk pairFiles) [0, 1, 1, 0, 0, 1]
  have some : pairFiles ≠ [] := by decide
  obtain ⟨-, outcomes, set, result, agrees⟩ := formatPaths_interleaved (Run.mk pairDisk {} [] {}) 0
    pairFiles_collected some pairFiles_shareable moves pairFinal_quiet.1
  refine ⟨outcomes, set, result, agrees ?_⟩
  obtain ⟨-, set', sequential⟩ :=
    (Run.mk pairDisk {} [] {}).formatPaths_collected 0 pairFiles_collected some
  have same := (Prod.mk.inj (Except.ok.inj (result.symm.trans sequential))).1
  rw [same]
  exact pairFinal_quiet.2

end Run

end HdlAlign
