import HdlAlign.Command.Format
import HdlAlign.Proofs.Pointing

/-! The outcomes that a run hands over, and the files that their diagnostics point into. -/

namespace HdlAlign

/-- No diagnostic begins at the last offset of 32 bits. -/
def Outcome.BeginsInside (outcome : Outcome) : Prop :=
  ∀ d ∈ outcome.bag.items, d.span.start < 0xFFFFFFFF

/-- The files of a set have fewer bytes than the last offset of 32 bits tells. -/
def FileSet.IsSmall (set : FileSet) : Prop :=
  ∀ file ∈ set.files, file.content.length < 0xFFFFFFFF

theorem SourceFile.start_lt_of_contains {file : SourceFile} {span : Span}
    (contained : file.Contains span) (small : file.content.length < 0xFFFFFFFF) :
    span.start < 0xFFFFFFFF := by
  rcases contained with ⟨start, -⟩ | ⟨-, ordered, inside⟩
  · rw [start]
    decide
  · rw [UInt32.le_iff_toNat_le] at ordered
    rw [UInt32.lt_iff_toNat_lt]
    exact Nat.lt_of_le_of_lt (Nat.le_trans ordered inside) small

namespace Run

variable {request : Request}

theorem subset_files_loadEach (run : Run) (set : FileSet) (paths : List Text) :
    set.files ⊆ (run.loadEach set paths).2.1.files := by
  induction paths generalizing run set with
  | nil => exact List.Subset.refl _
  | cons path rest ih =>
      rw [loadEach]
      dsimp only
      split
      · exact ih _ set
      · next raw read =>
          have grown : set.files ⊆ (set.addStored path raw 0).1.files :=
            List.subset_append_left _ _
          exact List.Subset.trans grown (ih _ _)

theorem mem_files_loadEach (run : Run) (set : FileSet) (paths : List Text) {path : Text}
    {file : SourceFile} (loaded : (path, .ok file) ∈ (run.loadEach set paths).2.2) :
    file ∈ (run.loadEach set paths).2.1.files := by
  induction paths generalizing run set with
  | nil => cases loaded
  | cons first rest ih =>
      rw [loadEach] at loaded ⊢
      dsimp only at loaded ⊢
      split at loaded
      · rcases List.mem_cons.mp loaded with same | later
        · cases same
        · exact ih _ set later
      · next raw read =>
          rcases List.mem_append.mp loaded with here | later
          · split at here
            · cases here
            · next stored found =>
                cases List.mem_singleton.mp here
                exact subset_files_loadEach _ _ _ (FileSet.mem_of_get? found)
          · exact ih _ _ later

theorem beginsInside_formatFile (run : Run) {file : SourceFile} (path : Text) (parent : Nat)
    (small : file.content.length < 0xFFFFFFFF) :
    (run.formatFile request file path parent).2.BeginsInside := fun d member =>
  SourceFile.start_lt_of_contains
    (run.contains_of_mem_formatFile request path parent (by omega) d member) small

theorem beginsInside_formatLoaded (run : Run) (parent : Nat) {loaded : Loaded}
    (small : ∀ path file, loaded = (path, .ok file) → file.content.length < 0xFFFFFFFF) :
    (run.formatLoaded request parent loaded).2.BeginsInside := by
  obtain ⟨path, failure | file⟩ := loaded
  · intro d member
    have added : (request.emptyBag.add
        (.error .loadError {} ("failed to load file: " ++ failure.message))).Extends
          request.emptyBag (·.span.start = 0) := Bag.extends_add _ rfl
    rw [(added.mem member).resolve_left List.not_mem_nil]
    decide
  · exact run.beginsInside_formatFile path parent (small path file rfl)

theorem beginsInside_formatEach (run : Run) (parent : Nat) {loaded : List Loaded}
    (small : ∀ path file, (path, .ok file) ∈ loaded → file.content.length < 0xFFFFFFFF) :
    ∀ outcome ∈ (run.formatEach request parent loaded).2, outcome.BeginsInside := by
  induction loaded generalizing run with
  | nil => exact fun outcome member => by cases member
  | cons first rest ih =>
      rw [formatEach]
      refine List.forall_mem_cons.mpr ⟨?_, ih _ fun path file member =>
        small path file (List.mem_cons_of_mem _ member)⟩
      exact run.beginsInside_formatLoaded parent fun path file same =>
        small path file (same ▸ List.mem_cons_self)

theorem beginsInside_formatPaths (run : Run) {paths : List Text} {parent : Nat}
    {outcomes : List Outcome} {set : FileSet}
    (result : (run.formatPaths request paths parent).2 = .ok (outcomes, set))
    (small : set.IsSmall) : ∀ outcome ∈ outcomes, outcome.BeginsInside := by
  rw [formatPaths] at result
  dsimp only at result
  split at result
  · cases result
  · cases result
  · cases result
    exact beginsInside_formatEach _ _ fun path file loaded =>
      small file (mem_files_loadEach _ _ _ loaded)

theorem beginsInside_formatSource (run : Run) (name raw : Text) (parent : Nat)
    (small : (run.formatSource request name raw parent).2.2.IsSmall) :
    (run.formatSource request name raw parent).2.1.BeginsInside :=
  beginsInside_formatFile _ name parent (small _ List.mem_cons_self)

end Run

namespace Command

/-- The outcomes of a run on files whose offsets 32 bits tell, and these files. -/
def HandedOver (outcomes : List Outcome) (set : FileSet) : Prop :=
  set.IsSmall ∧ ∃ (run : Run) (plan : Plan) (stdin : Text) (paths : List Text) (parent : Nat)
    (display : Display), (runPlan run plan stdin paths parent).2 = .ok { display, outcomes, set }

theorem HandedOver.beginsInside {outcomes : List Outcome} {set : FileSet}
    (handed : HandedOver outcomes set) : ∀ outcome ∈ outcomes, outcome.BeginsInside := by
  obtain ⟨small, run, plan, stdin, paths, parent, display, result⟩ := handed
  rw [runPlan] at result
  split at result
  · cases result
    exact List.forall_mem_singleton.mpr
      (run.beginsInside_formatSource "<stdin>" stdin parent small)
  · cases formatted : (run.formatPaths plan.request paths parent).2 with
    | error failure => simp [formatted, Except.map] at result
    | ok done =>
        simp only [formatted, Except.map, Except.ok.injEq, Formatted.mk.injEq] at result
        obtain ⟨-, rfl, rfl⟩ := result
        exact run.beginsInside_formatPaths formatted small

end Command

end HdlAlign
