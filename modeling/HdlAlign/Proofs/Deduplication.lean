import HdlAlign.Proofs.Reporting
import Mathlib.Data.List.Induction
import Mathlib.Logic.Function.Basic

/-! A collector passes on the first diagnostic of each kind that it is sent, whether it comes at once
or from a pending, and the bag behind it takes as many as it has room for. -/

namespace HdlAlign

def Diagnostic.key (d : Diagnostic) : Code × Severity × Span × Text :=
  (d.code, d.severity, d.span, d.message)

theorem Bag.items_foldl_add_room (bag : Bag) (ds : List Diagnostic) :
    (ds.foldl add bag).items = bag.items ++ ds.take (bag.capacity.toNat - bag.size) := by
  induction ds generalizing bag with
  | nil => rw [List.take_nil, List.append_nil]; rfl
  | cons d ds ih =>
      rw [List.foldl_cons, ih, capacity_add, size, size, add]
      split
      · next full =>
          rw [Nat.sub_eq_zero_of_le (isFull_iff.mp full), List.take_zero, List.take_zero]
      · next room =>
          rw [isFull_iff, Nat.not_le] at room
          obtain ⟨left, more⟩ := Nat.exists_eq_add_of_lt room
          rw [List.length_append, List.length_singleton, List.append_assoc, more,
            show bag.items.length + left + 1 - bag.items.length = left + 1 by omega,
            show bag.items.length + left + 1 - (bag.items.length + 1) = left by omega]
          rfl

namespace Collector

def firstOccurrences (ds : List Diagnostic) : List Diagnostic :=
  (ds.zipIdx.filter fun (d, place) => d.key ∉ (ds.take place).map Diagnostic.key).map Prod.fst

theorem firstOccurrences_concat (ds : List Diagnostic) (d : Diagnostic) :
    firstOccurrences (ds ++ [d]) =
      firstOccurrences ds ++ if d.key ∈ ds.map Diagnostic.key then [] else [d] := by
  have front : (ds.zipIdx.filter fun (other, place) =>
      other.key ∉ ((ds ++ [d]).take place).map Diagnostic.key) =
      ds.zipIdx.filter fun (other, place) => other.key ∉ (ds.take place).map Diagnostic.key := by
    refine List.filter_congr fun (other, place) member => ?_
    have inside : place < ds.length := List.snd_lt_of_mem_zipIdx member
    dsimp only
    rw [List.take_append_of_le_length (Nat.le_of_lt inside)]
  rw [firstOccurrences, List.zipIdx_append, List.filter_append, front, List.map_append]
  refine congrArg (firstOccurrences ds ++ ·) ?_
  by_cases known : d.key ∈ ds.map Diagnostic.key <;> simp [known]

theorem sameReport_iff {a b : Diagnostic} : sameReport a b ↔ a.key = b.key := by
  simp only [sameReport, Diagnostic.key, Bool.and_eq_true, decide_eq_true_eq, Prod.mk.injEq,
    and_assoc]

theorem any_sameReport_iff {seen : List Diagnostic} {d : Diagnostic} :
    seen.any (sameReport d) ↔ d.key ∈ seen.map Diagnostic.key := by
  rw [List.any_eq_true, List.mem_map]
  exact exists_congr fun other => and_congr_right fun _ => sameReport_iff.trans eq_comm

theorem fresh_concat (seen ds : List Diagnostic) (d : Diagnostic) :
    fresh seen (ds ++ [d]) =
      fresh seen ds ++ if d.key ∈ (seen ++ ds).map Diagnostic.key then [] else [d] := by
  induction ds generalizing seen with
  | nil =>
      rw [List.append_nil, List.nil_append, fresh, fresh, fresh, List.nil_append]
      exact if_congr any_sameReport_iff rfl rfl
  | cons other ds ih =>
      rw [List.cons_append, fresh, fresh]
      split
      · next known =>
          -- What has the key of a repetition has a key that was seen.
          have same : d.key ∈ (seen ++ other :: ds).map Diagnostic.key ↔
              d.key ∈ (seen ++ ds).map Diagnostic.key := by
            rw [any_sameReport_iff] at known
            simp only [List.map_append, List.map_cons, List.mem_append, List.mem_cons]
            refine ⟨?_, Or.imp_right .inr⟩
            rintro (before | same | after)
            · exact .inl before
            · exact .inl (same ▸ known)
            · exact .inr after
          rw [ih, if_congr same rfl rfl]
      · rw [ih, List.append_assoc, List.singleton_append, List.cons_append]

theorem fresh_eq_firstOccurrences (ds : List Diagnostic) : fresh [] ds = firstOccurrences ds := by
  induction ds using List.reverseRecOn with
  | nil => rfl
  | append_singleton ds d ih => rw [fresh_concat, firstOccurrences_concat, ih, List.nil_append]

theorem seen_foldl_report (c : Collector) (ds : List Diagnostic) :
    (ds.foldl report c).seen = c.seen ++ fresh c.seen ds := by
  induction ds generalizing c with
  | nil => exact (List.append_nil _).symm
  | cons d ds ih =>
      rw [List.foldl_cons, ih, fresh, report]
      split
      · rfl
      · rw [List.append_assoc, List.singleton_append]

theorem mem_keys_fresh {seen ds : List Diagnostic} {d : Diagnostic}
    (member : d.key ∈ ds.map Diagnostic.key) :
    d.key ∈ (seen ++ fresh seen ds).map Diagnostic.key := by
  induction ds generalizing seen with
  | nil => cases member
  | cons other ds ih =>
      rw [fresh]
      rcases List.mem_cons.mp member with same | later
      · split
        · next known =>
            rw [any_sameReport_iff, ← same] at known
            rw [List.map_append]
            exact List.mem_append_left _ known
        · simp [same]
      · split
        · exact ih later
        · have found := @ih (seen ++ [other]) later
          rwa [List.append_assoc, List.singleton_append] at found

theorem foldl_report_of_known {c : Collector} {ds : List Diagnostic}
    (known : ∀ d ∈ ds, d.key ∈ c.seen.map Diagnostic.key) : ds.foldl report c = c := by
  induction ds with
  | nil => rfl
  | cons d ds ih =>
      have same : c.report d = c := by
        rw [report, if_pos (any_sameReport_iff.mpr (known d List.mem_cons_self))]
      rw [List.foldl_cons, same]
      exact ih fun other member => known other (List.mem_cons_of_mem d member)

/-! Pendings -/

inductive Call (ι : Type) where
  | report (d : Diagnostic)
  | note (sender : ι) (span : Span) (message : Text)
  | fix (sender : ι) (title : Text) (edits : List Edit)
  | emit (sender : ι)
  deriving DecidableEq

variable {ι : Type} [DecidableEq ι]

structure Receiver (ι : Type) where
  collector : Collector
  pending : ι → Pending

namespace Receiver

def revise (receiver : Receiver ι) (sender : ι) (change : Diagnostic → Diagnostic) : Receiver ι :=
  { receiver with
    pending := Function.update receiver.pending sender
      { receiver.pending sender with diagnostic := change (receiver.pending sender).diagnostic } }

def step (receiver : Receiver ι) : Call ι → Receiver ι
  | .report d => { receiver with collector := receiver.collector.report d }
  | .note sender span message => receiver.revise sender (·.withNote span message)
  | .fix sender title edits => receiver.revise sender (·.withFix title edits)
  | .emit sender =>
    let (pending, collector) := (receiver.pending sender).emit Collector.report receiver.collector
    { collector, pending := Function.update receiver.pending sender pending }

def start (bag : Bag) (drafts : ι → Diagnostic) : Receiver ι where
  collector := { bag }
  pending sender := { diagnostic := drafts sender }

end Receiver

def Call.revise (sender : ι) (d : Diagnostic) : Call ι → Diagnostic
  | note other span message => if other = sender then d.withNote span message else d
  | fix other title edits => if other = sender then d.withFix title edits else d
  | report _ => d
  | emit _ => d

variable (drafts : ι → Diagnostic)

def revised (past : List (Call ι)) (sender : ι) : Diagnostic :=
  past.foldl (Call.revise sender) (drafts sender)

/-- What a call sends after those of the past: a pending sends its diagnostic the first time. -/
def Call.sends (past : List (Call ι)) : Call ι → List Diagnostic
  | report d => [d]
  | note .. => []
  | fix .. => []
  | emit sender => if .emit sender ∈ past then [] else [revised drafts past sender]

def sent (past : List (Call ι)) : List (Call ι) → List Diagnostic
  | [] => []
  | call :: rest => call.sends drafts past ++ sent (past ++ [call]) rest

def pendings (past : List (Call ι)) (sender : ι) : Pending where
  diagnostic := revised drafts past sender
  sent := .emit sender ∈ past

theorem revised_concat (past : List (Call ι)) (call : Call ι) (sender : ι) :
    revised drafts (past ++ [call]) sender = call.revise sender (revised drafts past sender) := by
  rw [revised, List.foldl_append]
  rfl

theorem emit_pendings (past : List (Call ι)) (sender : ι) (collector : Collector) :
    (pendings drafts past sender).emit report collector =
      (pendings drafts (past ++ [.emit sender]) sender,
        (Call.sends drafts past (.emit sender)).foldl report collector) := by
  by_cases before : .emit sender ∈ past
  · simp [Pending.emit, pendings, Call.sends, revised_concat, Call.revise, before]
  · simp [Pending.emit, pendings, Call.sends, revised_concat, Call.revise, before]

theorem step_pendings (past : List (Call ι)) (collector : Collector) (call : Call ι) :
    Receiver.step ⟨collector, pendings drafts past⟩ call =
      ⟨(call.sends drafts past).foldl report collector, pendings drafts (past ++ [call])⟩ := by
  cases call with
  | report d =>
      refine congrArg (Receiver.mk (collector.report d)) (funext fun sender => ?_)
      simp [pendings, revised_concat, Call.revise]
  | note sender span message =>
      refine congrArg (Receiver.mk collector) (Function.update_eq_iff.mpr ⟨?_, fun other apart => ?_⟩)
      · simp [pendings, revised_concat, Call.revise]
      · simp [pendings, revised_concat, Call.revise, apart.symm]
  | fix sender title edits =>
      refine congrArg (Receiver.mk collector) (Function.update_eq_iff.mpr ⟨?_, fun other apart => ?_⟩)
      · simp [pendings, revised_concat, Call.revise]
      · simp [pendings, revised_concat, Call.revise, apart.symm]
  | emit sender =>
      rw [Receiver.step]
      dsimp only
      rw [emit_pendings]
      refine congrArg (Receiver.mk _) (Function.update_eq_iff.mpr ⟨rfl, fun other apart => ?_⟩)
      simp [pendings, revised_concat, Call.revise, apart]

theorem foldl_step_pendings (past calls : List (Call ι)) (collector : Collector) :
    calls.foldl Receiver.step ⟨collector, pendings drafts past⟩ =
      ⟨(sent drafts past calls).foldl report collector, pendings drafts (past ++ calls)⟩ := by
  induction calls generalizing past collector with
  | nil => rw [List.append_nil]; rfl
  | cons call calls ih =>
      rw [List.foldl_cons, step_pendings, ih, sent, List.foldl_append, List.append_assoc,
        List.singleton_append]

theorem start_eq_pendings (bag : Bag) :
    Receiver.start bag drafts = ⟨{ bag }, pendings drafts []⟩ := by
  refine congrArg (Receiver.mk _) (funext fun sender => ?_)
  simp [pendings, revised]

/-- The bag takes the first occurrences of what is sent, as many as it has room for, and what has
the key of a diagnostic that was sent before changes nothing, whether or not that one was taken. -/
theorem bag_foldl_step (bag : Bag) (calls : List (Call ι)) :
    let last := calls.foldl Receiver.step (Receiver.start bag drafts)
    last.collector.bag.items =
        bag.items ++
          (firstOccurrences (sent drafts [] calls)).take (bag.capacity.toNat - bag.size) ∧
      last.collector.bag.capacity = bag.capacity ∧
      ∀ call : Call ι,
        (∀ d ∈ call.sends drafts calls, d.key ∈ (sent drafts [] calls).map Diagnostic.key) →
          (last.step call).collector = last.collector := by
  intro last
  have run : last = ⟨(sent drafts [] calls).foldl report { bag }, pendings drafts calls⟩ := by
    have whole := foldl_step_pendings drafts [] calls { bag }
    rwa [← start_eq_pendings, List.nil_append] at whole
  have added : last.collector.bag = (firstOccurrences (sent drafts [] calls)).foldl Bag.add bag := by
    rw [run, bag_foldl_report, fresh_eq_firstOccurrences]
  refine ⟨?_, ?_, fun call known => ?_⟩
  · rw [added, Bag.items_foldl_add_room]
  · rw [added, Bag.capacity_foldl_add]
  · rw [run, step_pendings]
    refine foldl_report_of_known fun d member => ?_
    rw [seen_foldl_report]
    exact mem_keys_fresh (known d member)

end Collector

end HdlAlign
