import HdlAlign.Source.FileSet
import Mathlib.Data.List.Basic
import Mathlib.Data.List.Induction
import Mathlib.Logic.Function.Basic

/-! A set of files keeps every version that was added to it under the number it was given, and the
newest version of a path is found under every spelling of the path. -/

namespace HdlAlign

namespace FileSet

inductive Call where
  | add (path content : Text) (marks : FileMarks)
  | addVirtual (path content : Text)
  | addRaw (path raw : Text)

structure Version where
  path : Text
  content : Text
  marks : FileMarks

namespace Version

def ofRaw (path raw : Text) : Version :=
  let storage := Storage.ofRaw raw
  let text := storage.decode raw
  { path
    content := dropReturns text
    marks := FileMarks.virtual ||| FileMarks.ofStorage storage |||
      if hasReturns text then FileMarks.returns else 0 }

def file (version : Version) (id : FileId) : SourceFile :=
  ⟨id, Path.clean version.path, version.content, version.marks⟩

end Version

section

variable (readable : Text → Bool)

namespace Call

def apply (set : FileSet) : Call → FileSet × Option FileId
  | add path content marks => (set.add path content marks).map id some
  | addVirtual path content => (set.addVirtual path content).map id some
  | addRaw path raw => if readable raw then (set.addRaw path raw).map id some else (set, none)

def version? : Call → Option Version
  | add path content marks => some ⟨path, content, marks⟩
  | addVirtual path content => some ⟨path, content, FileMarks.virtual⟩
  | addRaw path raw => if readable raw then some (.ofRaw path raw) else none

end Call

def run (set : FileSet) (calls : List Call) : FileSet :=
  calls.foldl (fun set call => (call.apply readable set).1) set

def versions (calls : List Call) : List Version := calls.filterMap (Call.version? readable)

end

variable {readable : Text → Bool} {set : FileSet} {call : Call} {version : Version}

theorem apply_of_none (refused : call.version? readable = none) :
    call.apply readable set = (set, none) := by
  cases call with
  | add path content marks => cases refused
  | addVirtual path content => cases refused
  | addRaw path raw =>
      rw [Call.version?] at refused
      split at refused
      · cases refused
      · next unread => rw [Call.apply, if_neg unread]

theorem apply_of_some (given : call.version? readable = some version) :
    call.apply readable set =
      ({ set with files := set.files ++ [version.file set.nextId] }, some set.nextId) := by
  cases call with
  | add path content marks =>
      cases given
      rfl
  | addVirtual path content =>
      cases given
      rfl
  | addRaw path raw =>
      rw [Call.version?] at given
      split at given
      · next read =>
          cases given
          rw [Call.apply, if_pos read]
          rfl
      · cases given

theorem toNat_nextId (few : set.files.length + 1 < 0x100000000) :
    set.nextId.toNat = set.files.length + 1 := by
  rw [nextId, Nat.toUInt32_eq, UInt32.toNat_ofNat']
  exact Nat.mod_eq_of_lt few

theorem run_append (set : FileSet) (past more : List Call) :
    run readable set (past ++ more) = run readable (run readable set past) more :=
  List.foldl_append

theorem run_concat (set : FileSet) (past : List Call) (call : Call) :
    run readable set (past ++ [call]) = (call.apply readable (run readable set past)).1 := by
  rw [run_append]
  rfl

theorem versions_append (past more : List Call) :
    versions readable (past ++ more) = versions readable past ++ versions readable more :=
  List.filterMap_append

theorem files_run (base : Text) (calls : List Call) :
    (run readable { base } calls).files =
      (versions readable calls).mapIdx fun place version => version.file (place + 1).toUInt32 := by
  induction calls using List.reverseRecOn with
  | nil => rfl
  | append_singleton past call ih =>
      rw [run_concat, versions_append]
      cases given : call.version? readable with
      | none =>
          rw [apply_of_none given, ih]
          simp [versions, given]
      | some version =>
          rw [apply_of_some given, ih]
          simp [versions, given, nextId, ih]

theorem length_files_run (base : Text) (calls : List Call) :
    (run readable { base } calls).files.length = (versions readable calls).length := by
  rw [files_run, List.length_mapIdx]

theorem get?_run {id : FileId} (given : id ≠ 0) (base : Text) (calls : List Call) :
    (run readable { base } calls).get? id =
      (versions readable calls)[id.toNat - 1]?.map fun version => version.file id := by
  have positive : 0 < id.toNat := Nat.pos_of_ne_zero fun zero => given (UInt32.toNat_inj.mp zero)
  rw [get?, if_neg given, files_run, List.getElem?_mapIdx, Nat.sub_add_cancel positive,
    Nat.toUInt32_eq, UInt32.ofNat_toNat]

theorem latest?_apply (given : call.version? readable = some version) (path : Text) :
    (call.apply readable set).1.latest? path =
      if Path.clean version.path = Path.clean path then some set.nextId else set.latest? path := by
  rw [apply_of_some given, latest?, latest?, List.reverse_concat, List.find?_cons]
  by_cases same : Path.clean version.path = Path.clean path
  · simp [Version.file, same]
  · simp [Version.file, same]

theorem exists_split_concat {α : Type} {P : List α → α → List α → Prop} {items : List α} {last : α} :
    (∃ past item more, items ++ [last] = past ++ item :: more ∧ P past item more) ↔
      P items last [] ∨
        ∃ past item more, items = past ++ item :: more ∧ P past item (more ++ [last]) := by
  constructor
  · rintro ⟨past, item, more, split, holds⟩
    rcases List.eq_nil_or_concat' more with rfl | ⟨more, other, rfl⟩
    · obtain ⟨rfl, same⟩ := List.append_inj' split rfl
      cases same
      exact .inl holds
    · rw [← List.cons_append, ← List.append_assoc] at split
      obtain ⟨rfl, same⟩ := List.append_inj' split rfl
      cases same
      exact .inr ⟨past, item, more, rfl, holds⟩
  · rintro (holds | ⟨past, item, more, rfl, holds⟩)
    · exact ⟨items, last, [], rfl, holds⟩
    · exact ⟨past, item, more ++ [last], by simp, holds⟩

structure Newest (readable : Text → Bool) (path : Text) (call : Call) (more : List Call) : Prop where
  given : ∃ version, call.version? readable = some version ∧
    Path.clean version.path = Path.clean path
  last : ∀ later ∈ versions readable more, Path.clean later.path ≠ Path.clean path

theorem newest_concat {path : Text} {more : List Call} {later : Call} :
    Newest readable path call (more ++ [later]) ↔
      Newest readable path call more ∧
        ∀ version, later.version? readable = some version →
          Path.clean version.path ≠ Path.clean path := by
  have all : (∀ other ∈ versions readable (more ++ [later]), Path.clean other.path ≠ Path.clean path) ↔
      (∀ other ∈ versions readable more, Path.clean other.path ≠ Path.clean path) ∧
        ∀ version, later.version? readable = some version →
          Path.clean version.path ≠ Path.clean path := by
    rw [versions_append, List.forall_mem_append]
    refine and_congr_right fun _ => ?_
    cases given : later.version? readable <;> simp [versions, given]
  exact ⟨fun newest => ⟨⟨newest.given, (all.mp newest.last).1⟩, (all.mp newest.last).2⟩,
    fun newest => ⟨newest.1.given, all.mpr ⟨newest.1.last, newest.2⟩⟩⟩

theorem latest?_run_eq_some_iff {base path : Text} {calls : List Call} {id : FileId} :
    (run readable { base } calls).latest? path = some id ↔
      ∃ past call more, calls = past ++ call :: more ∧ Newest readable path call more ∧
        (call.apply readable (run readable { base } past)).2 = some id := by
  induction calls using List.reverseRecOn with
  | nil =>
      refine iff_of_false (Option.some_ne_none id).symm ?_
      rintro ⟨past, call, more, split, -⟩
      cases past <;> cases split
  | append_singleton past call ih =>
      rw [exists_split_concat, run_concat]
      simp only [newest_concat]
      cases given : call.version? readable with
      | none =>
          have unread (more : List Call) : ¬ Newest readable path call more := fun newest => by
            obtain ⟨version, read, -⟩ := newest.given
            rw [given] at read
            cases read
          rw [apply_of_none given, ih]
          simp [unread]
      | some version =>
          rw [latest?_apply given]
          split
          · next same =>
            have newest : Newest readable path call [] :=
              ⟨⟨version, given, same⟩, fun _ member => absurd member List.not_mem_nil⟩
            rw [apply_of_some given]
            simp [newest, same]
          · next other =>
            have older (more : List Call) : ¬ Newest readable path call more := fun newest => by
              obtain ⟨_, read, same⟩ := newest.given
              rw [given] at read
              cases read
              exact other same
            rw [ih]
            simp [older, other]

theorem latest?_run_eq_none_iff {base path : Text} {calls : List Call} :
    (run readable { base } calls).latest? path = none ↔
      ∀ version ∈ versions readable calls, Path.clean version.path ≠ Path.clean path := by
  induction calls using List.reverseRecOn with
  | nil => exact iff_of_true rfl fun _ member => absurd member List.not_mem_nil
  | append_singleton past call ih =>
      rw [run_concat, versions_append, List.forall_mem_append, ← ih]
      cases given : call.version? readable with
      | none =>
          rw [apply_of_none given]
          simp [versions, given]
      | some version =>
          rw [latest?_apply given]
          split
          · next same => simp [versions, given, same]
          · next other => simp [versions, given, other]

/-! The files with an index -/

/-- Files, and for every clean path the number of its newest version. -/
structure Catalog where
  files : List SourceFile := []
  index : Text → Option FileId := fun _ => none

namespace Catalog

def add (catalog : Catalog) (version : Version) : Option (Catalog × FileId) :=
  let number := catalog.files.length + 1
  if number < 0x100000000 then
    let id := number.toUInt32
    some ({ files := catalog.files ++ [version.file id],
            index := Function.update catalog.index (Path.clean version.path) (some id) }, id)
  else none

def apply (readable : Text → Bool) (catalog : Catalog) (call : Call) :
    Option (Catalog × Option FileId) :=
  match call.version? readable with
  | none => some (catalog, none)
  | some version => (catalog.add version).map fun (catalog, id) => (catalog, some id)

def run (readable : Text → Bool) (catalog : Catalog) (calls : List Call) : Option Catalog :=
  calls.foldlM (fun catalog call => (catalog.apply readable call).map Prod.fst) catalog

structure Lists (catalog : Catalog) (set : FileSet) : Prop where
  files : catalog.files = set.files
  index : ∀ path, catalog.index (Path.clean path) = set.latest? path

theorem lists_new (base : Text) : ({} : Catalog).Lists { base } := ⟨rfl, fun _ => rfl⟩

variable {catalog : Catalog}

theorem add_of_lt (few : catalog.files.length + 1 < 0x100000000) (version : Version) :
    catalog.add version =
      let id := (catalog.files.length + 1).toUInt32
      some ({ files := catalog.files ++ [version.file id],
              index := Function.update catalog.index (Path.clean version.path) (some id) }, id) :=
  if_pos few

theorem Lists.apply (lists : catalog.Lists set) (call : Call)
    (few : ∀ version, call.version? readable = some version →
      set.files.length + 1 < 0x100000000) :
    ∃ later, catalog.apply readable call = some (later, (call.apply readable set).2) ∧
      later.Lists (call.apply readable set).1 := by
  rw [Catalog.apply]
  cases given : call.version? readable with
  | none =>
      rw [apply_of_none given]
      exact ⟨catalog, rfl, lists⟩
  | some version =>
      have number : (catalog.files.length + 1).toUInt32 = set.nextId := by
        rw [lists.files]
        rfl
      dsimp only
      rw [add_of_lt (by rw [lists.files]; exact few version given), number, apply_of_some given]
      refine ⟨_, rfl, congrArg (· ++ [version.file set.nextId]) lists.files, fun path => ?_⟩
      have newest : (call.apply readable set).1.latest? path =
          if Path.clean version.path = Path.clean path then some set.nextId else set.latest? path :=
        latest?_apply given path
      have indexed := Function.update_apply catalog.index (Path.clean version.path)
        (some set.nextId) (Path.clean path)
      rw [apply_of_some given] at newest
      exact (indexed.trans (if_congr eq_comm rfl (lists.index path))).trans newest.symm

theorem exists_run (base : Text) {calls : List Call}
    (few : (versions readable calls).length < 0x100000000) :
    ∃ catalog, Catalog.run readable {} calls = some catalog ∧
      catalog.Lists (FileSet.run readable { base } calls) := by
  induction calls using List.reverseRecOn with
  | nil => exact ⟨{}, rfl, lists_new base⟩
  | append_singleton past call ih =>
      rw [versions_append, List.length_append] at few
      obtain ⟨before, begun, lists⟩ := ih (by omega)
      have fits : ∀ version, call.version? readable = some version →
          (FileSet.run readable { base } past).files.length + 1 < 0x100000000 := by
        intro version given
        rw [length_files_run]
        simpa [versions, given] using few
      obtain ⟨later, applied, lists'⟩ := lists.apply call fits
      refine ⟨later, ?_, ?_⟩
      · rw [Catalog.run] at begun ⊢
        rw [List.foldlM_append, begun]
        simp [applied]
      · rwa [run_concat]

end Catalog

/-- Whatever is added to a set of files, with fewer versions than 32 bits can count: a call that
succeeds gets the next number, and from then on the version it gave is found under this number.  No
other numbers are found, and the newest version of a path is that of the last call that succeeded for
a spelling of the path. -/
theorem run_kept (readable : Text → Bool) (base : Text) {calls : List Call}
    (few : (versions readable calls).length < 0x100000000) :
    let set := run readable { base } calls
    (∀ past call more, calls = past ++ call :: more →
      let before := run readable { base } past
      (call.version? readable = none → call.apply readable before = (before, none)) ∧
      ∀ version, call.version? readable = some version →
        ∃ id, (call.apply readable before).2 = some id ∧
          id.toNat = (versions readable past).length + 1 ∧
          before.get? id = none ∧ set.get? id = some (version.file id)) ∧
    (∀ id, id = 0 ∨ (versions readable calls).length < id.toNat → set.get? id = none) ∧
    (∀ path id, set.latest? path = some id ↔
      ∃ past call more, calls = past ++ call :: more ∧ Newest readable path call more ∧
        (call.apply readable (run readable { base } past)).2 = some id) ∧
    (∀ path, set.latest? path = none ↔
      ∀ version ∈ versions readable calls, Path.clean version.path ≠ Path.clean path) ∧
    ∃ catalog, Catalog.run readable {} calls = some catalog ∧ catalog.Lists set := by
  intro set
  refine ⟨fun past call more split => ⟨apply_of_none, fun version given => ?_⟩,
    fun id beyond => ?_, fun path id => latest?_run_eq_some_iff, fun path => ?_,
    Catalog.exists_run base few⟩
  · have front : versions readable calls =
        versions readable past ++ version :: versions readable more := by
      rw [split, versions_append, versions, versions, List.filterMap_cons_some given]
      rfl
    have number : (run readable { base } past).nextId.toNat =
        (versions readable past).length + 1 := by
      rw [toNat_nextId, length_files_run]
      rw [front, List.length_append, List.length_cons] at few
      rw [length_files_run]
      omega
    have nonzero : (run readable { base } past).nextId ≠ 0 := by
      intro zero
      rw [zero] at number
      cases number
    refine ⟨_, by rw [apply_of_some given], number, ?_, ?_⟩
    · rw [get?_run nonzero, number, Nat.add_sub_cancel, List.getElem?_eq_none (Nat.le_refl _)]
      rfl
    · rw [get?_run nonzero, number, Nat.add_sub_cancel, front,
        List.getElem?_append_right (Nat.le_refl _), Nat.sub_self]
      rfl
  · by_cases zero : id = 0
    · exact if_pos zero
    · have far := beyond.resolve_left zero
      rw [get?_run zero, List.getElem?_eq_none (by omega)]
      rfl
  · exact latest?_run_eq_none_iff

/-- Three spellings of a path, one of them with the stored form of an empty text. -/
def respelledCalls : List Call :=
  [.add "./t.v" "wire a;" 0, .addRaw "t.v" [0xFF, 0xFE], .addVirtual "s/../t.v" "wire b;"]

theorem run_kept_respelled :
    let readable : Text → Bool := fun _ => true
    let set := run readable {} respelledCalls
    (versions readable respelledCalls).length < 0x100000000 ∧
      set.latest? "x/../t.v" = some 3 ∧
      set.get? 1 = some ⟨1, "t.v", "wire a;", 0⟩ ∧ set.get? 2 = some ⟨2, "t.v", [], 11⟩ ∧
      set.get? 4 = none := by
  intro readable set
  have few : (versions readable respelledCalls).length < 0x100000000 := by decide
  obtain ⟨kept, beyond, newest, -, -⟩ := run_kept readable [] few
  obtain ⟨first, answer, -, -, stored⟩ := (kept [] _ _ rfl).2 _ rfl
  obtain ⟨second, answer', -, -, stored'⟩ := (kept (respelledCalls.take 1) _ _ rfl).2 _ rfl
  cases answer
  cases answer'
  refine ⟨few, (newest _ 3).mpr ⟨respelledCalls.take 2, .addVirtual "s/../t.v" "wire b;", [], rfl,
    ⟨⟨_, rfl, by decide⟩, nofun⟩, by decide⟩, stored, stored', beyond 4 (.inr (by decide))⟩

end FileSet

end HdlAlign
