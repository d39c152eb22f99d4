import HdlAlign.Proofs.Excerpts
import HdlAlign.Proofs.Handover

/-! Whether a run succeeds does not depend on how its outcomes are shown.  The displays look at the
outcomes in different ways: one passes over a failed outcome before it asks whether the file has
changed, another asks for both, and the one for contents never asks for changes.  A report with
source lines may break the program off, but not with the outcomes of a run. -/

namespace HdlAlign

theorem Bag.hasErrors_filter (bag : Bag) :
    (bag.filter .warning).hasErrors = bag.hasErrors := by
  have grave (d : Diagnostic) (error : d.severity.atLeast .error) :
      d.severity.atLeast .warning := by
    have below : Severity.warning.level ≤ Severity.error.level := by decide
    exact decide_eq_true (UInt8.le_trans below (of_decide_eq_true error))
  rw [hasErrors, hasErrors, filter, List.any_filter]
  refine congrArg (List.any bag.items) (funext fun d => ?_)
  cases error : d.severity.atLeast .error with
  | false => rw [Bool.and_false]
  | true => rw [grave d error, Bool.and_self]

theorem Bag.mem_sort {bag : Bag} {d : Diagnostic} : d ∈ bag.sort.items ↔ d ∈ bag.items :=
  List.mem_mergeSort

theorem Severity.atLeast_info (severity : Severity) : severity.atLeast .info = true :=
  decide_eq_true (UInt8.zero_le)

namespace Command

namespace Shown

theorem any_concat {shows : Shown → Bool} (nothing : shows {} = false)
    (both : ∀ a b : Shown, shows (a.append b) = (shows a || shows b)) (parts : List Shown) :
    shows (concat parts) = parts.any shows := by
  induction parts with
  | nil => exact nothing
  | cons part parts ih => rw [List.any_cons, ← ih]; exact both part _

@[simp]
theorem failed_concat (parts : List Shown) : (concat parts).failed = parts.any failed :=
  any_concat rfl (fun _ _ => rfl) parts

@[simp]
theorem changed_concat (parts : List Shown) : (concat parts).changed = parts.any changed :=
  any_concat rfl (fun _ _ => rfl) parts

@[simp]
theorem crashed_concat (parts : List Shown) : (concat parts).crashed = parts.any crashed :=
  any_concat rfl (fun _ _ => rfl) parts

end Shown

/-! What each display learns of one outcome -/

section

variable (display : Display) (outcome : Outcome)

@[simp]
theorem changed_quieten : (quieten display outcome).changed = outcome.changed := by
  rw [quieten]
  split <;> rfl

@[simp]
theorem isFailed_quieten : (quieten display outcome).isFailed = outcome.isFailed := by
  rw [quieten]
  split
  · exact congrArg (outcome.error.isSome || ·) outcome.bag.hasErrors_filter
  · rfl

@[simp]
theorem failed_inDocument : (inDocument outcome).failed = outcome.isFailed := rfl

@[simp]
theorem failed_showContent : (showContent outcome).failed = outcome.isFailed := by
  rw [showContent, Outcome.isFailed]
  cases outcome.error <;> rfl

@[simp]
theorem failed_showName : (showName display outcome).failed = outcome.isFailed := by
  rw [showName, Outcome.isFailed]
  cases outcome.error <;> rfl

@[simp]
theorem crashed_inDocument : (inDocument outcome).crashed = false := rfl

@[simp]
theorem crashed_showContent : (showContent outcome).crashed = false := by
  rw [showContent]
  cases outcome.error <;> rfl

@[simp]
theorem crashed_showName : (showName display outcome).crashed = false := by
  rw [showName]
  cases outcome.error <;> rfl

theorem changed_showName :
    (showName display outcome).changed = (outcome.error.isNone && outcome.changed) := by
  rw [showName]
  cases outcome.error <;> rfl

end

/-! What a report adds -/

theorem silent_showReport (display : Display) (set : FileSet) (cwd : Text)
    (outcomes : List Outcome) :
    (showReport display set cwd outcomes).failed = false ∧
      (showReport display set cwd outcomes).changed = false := by
  rw [showReport]
  split
  · exact ⟨rfl, rfl⟩
  · split
    · exact ⟨rfl, rfl⟩
    · cases reportText? display.color set cwd outcomes <;> exact ⟨rfl, rfl⟩

theorem reportText?_eq_none_iff (color : Bool) (set : FileSet) (cwd : Text)
    (outcomes : List Outcome) :
    reportText? color set cwd outcomes = none ↔
      ∃ outcome ∈ outcomes, ∃ d ∈ outcome.bag.items,
        Checked.Wraps (some set) (reportOptions color) d := by
  have one (outcome : Outcome) :
      outcome.bag.sort.pretty? (some set) cwd (reportOptions color) = none ↔
        ∃ d ∈ outcome.bag.items, Checked.Wraps (some set) (reportOptions color) d := by
    rw [Checked.exists_wraps_iff]
    simp only [Bag.mem_sort, reportOptions, Severity.atLeast_info, true_and]
  rw [reportText?, Option.map_eq_none_iff, Checked.mapM_eq_none_iff]
  simp only [one]

theorem crashed_showReport {display : Display} {set : FileSet} {cwd : Text}
    {outcomes : List Outcome} :
    (showReport display set cwd outcomes).crashed ↔
      display.report ∧ display.format ≠ .short ∧ ∃ outcome ∈ outcomes, ∃ d ∈ outcome.bag.items,
        Checked.Wraps (some set) (reportOptions display.color) d := by
  rw [showReport, ← reportText?_eq_none_iff display.color set cwd outcomes]
  split
  · next unreported => simp_all
  · next reported =>
      split
      · next short => simp [short]
      · next long =>
          cases shown : reportText? display.color set cwd outcomes <;> simp_all

/-! What a display learns of all of them -/

theorem failed_showOutcomes (display : Display) (set : FileSet) (cwd : Text)
    (outcomes : List Outcome) :
    (showOutcomes display set cwd outcomes).failed = outcomes.any Outcome.isFailed := by
  have each (shows : Outcome → Shown) (learns : ∀ outcome, (shows outcome).failed = outcome.isFailed) :
      (Shown.concat ((outcomes.map (quieten display)).map shows)).failed =
        outcomes.any Outcome.isFailed := by
    simp [learns, Function.comp_def]
  rw [showOutcomes]
  dsimp only
  split
  · exact each inDocument failed_inDocument
  · rw [Shown.append, (silent_showReport ..).1, Bool.or_false]
    split
    · exact each showContent failed_showContent
    · exact each (showName display) (failed_showName display)

/-- Displays that are not for contents learn of every change, if no file failed. -/
theorem changed_showOutcomes {display : Display} (set : FileSet) (cwd : Text)
    {outcomes : List Outcome} (named : display.content = false)
    (fine : ∀ outcome ∈ outcomes, outcome.isFailed = false) :
    (showOutcomes display set cwd outcomes).changed = outcomes.any Outcome.changed := by
  rw [showOutcomes]
  dsimp only
  split
  · simp [Function.comp_def, inDocument]
  · rw [Shown.append, (silent_showReport ..).2, Bool.or_false, named, if_neg Bool.false_ne_true,
      Shown.changed_concat, List.any_map, List.any_map]
    refine Bool.eq_iff_iff.mpr ?_
    simp only [List.any_eq_true, Function.comp_apply]
    refine exists_congr fun outcome => and_congr_right fun member => ?_
    have unfailed : (quieten display outcome).isFailed = false := by
      rw [isFailed_quieten, fine outcome member]
    have whole : (quieten display outcome).error = none := by
      simpa [Outcome.isFailed] using (Bool.or_eq_false_iff.mp unfailed).1
    simp [changed_showName, whole]

theorem verdict_showOutcomes {display : Display} (set : FileSet) (cwd : Text)
    (outcomes : List Outcome) (named : display.check → display.content = false) :
    verdict display (showOutcomes display set cwd outcomes) =
      if outcomes.any Outcome.isFailed then .failed
      else if display.check && outcomes.any Outcome.changed then .changesRequired
      else .success := by
  rw [verdict, failed_showOutcomes]
  split
  · rfl
  · next fine =>
      cases check : display.check with
      | false => rfl
      | true =>
          have unfailed : ∀ outcome ∈ outcomes, outcome.isFailed = false := by
            simpa using fine
          rw [changed_showOutcomes set cwd (named check) unfailed]

theorem content_of_readDisplay {parsed : Parsed} {color : Bool} {display : Display}
    (read : readDisplay parsed color = .ok display) (check : display.check) :
    display.content = false := by
  unfold readDisplay at read
  split at read
  · cases read
  · dsimp only at read
    split at read
    · split at read
      · cases read
      · next compatible =>
          split at read
          · cases read
          · cases read
            rw [Bool.and_eq_true, not_and] at compatible
            exact Bool.eq_false_iff.mpr fun content => compatible content check
    · cases read

/-- A report with source lines comes to a diagnostic that cannot be shown. -/
def Breaks (display : Display) (outcomes : List Outcome) (set : FileSet) : Prop :=
  display.report ∧ display.format = .text ∧
    ∃ outcome ∈ outcomes.map (quieten display), ∃ d ∈ outcome.bag.items,
      Checked.Wraps (some set) (reportOptions display.color) d

theorem crashed_showOutcomes_iff {display : Display} {set : FileSet} {cwd : Text}
    {outcomes : List Outcome} :
    (showOutcomes display set cwd outcomes).crashed ↔ Breaks display outcomes set := by
  rw [showOutcomes, Breaks]
  dsimp only
  split
  · next json => simp [json, Function.comp_def]
  · next other =>
      have names : (Shown.concat ((outcomes.map (quieten display)).map
          (if display.content then showContent else showName display))).crashed = false := by
        split <;> simp [Function.comp_def]
      have text : display.format = .text ↔ display.format ≠ .short := by
        cases format : display.format <;> simp_all
      rw [Shown.append, names, Bool.false_or, crashed_showReport, text]

theorem crashed_showRun (run : Run) (timings : Bool) (formatted : Formatted) :
    (showRun run timings (.ok formatted)).crashed = (showOutcomes formatted.display formatted.set
      run.disk.cwdPath formatted.outcomes).crashed := by
  rw [showRun]
  split
  · next crashed => exact crashed.symm
  · next fine => exact (Bool.eq_false_iff.mpr fine).symm

theorem error_of_not_crashed {run : Run} {timings : Bool} {formatted : Formatted}
    (fine : (showRun run timings (.ok formatted)).crashed = false) :
    (showRun run timings (.ok formatted)).error = (verdict formatted.display (showOutcomes
      formatted.display formatted.set run.disk.cwdPath formatted.outcomes)).message? := by
  rw [crashed_showRun] at fine
  rw [showRun, fine, if_neg Bool.false_ne_true]

theorem Breaks.not_beginsInside {display : Display} {outcomes : List Outcome} {set : FileSet}
    (breaks : Breaks display outcomes set) :
    ∃ outcome ∈ outcomes, ¬outcome.BeginsInside := by
  obtain ⟨-, -, _, listed, d, member, wraps⟩ := breaks
  obtain ⟨outcome, origin, rfl⟩ := List.mem_map.mp listed
  refine ⟨outcome, origin, fun inside => ?_⟩
  have kept : d ∈ outcome.bag.items := by
    rw [quieten] at member
    split at member
    · exact (List.mem_filter.mp member).1
    · exact member
  have early := inside d kept
  rw [wraps.start] at early
  exact absurd early (by decide)

/-- A run fails if a file failed, and else if changes are required and a file has changed, in every
way to show its outcomes that the options admit.  The block from standard input is shown as content,
unless it is checked.  Only a report that cannot be shown keeps it from this verdict, and there is
none of the kind on the outcomes of a run. -/
theorem error_showRun {parsed : Parsed} {color : Bool} {display : Display}
    (read : readDisplay parsed color = .ok display) {content : Bool}
    (origin : content = display.content ∨ content = !display.check) (run : Run) (timings : Bool)
    (outcomes : List Outcome) (set : FileSet) :
    let ending := showRun run timings (.ok { display := { display with content }, outcomes, set })
    (ending.crashed ↔ Breaks display outcomes set) ∧
      (ending.crashed = false → ending.error =
        if outcomes.any Outcome.isFailed then some "fmt: failed to format some files"
        else if display.check && outcomes.any Outcome.changed then
          some "fmt: formatting changes required"
        else none) ∧
      (HandedOver outcomes set → ending.crashed = false) := by
  intro ending
  have named (check : display.check) : content = false := by
    rcases origin with rfl | rfl
    · exact content_of_readDisplay read check
    · rw [check, Bool.not_true]
  have crashed : ending.crashed ↔ Breaks display outcomes set := by
    rw [crashed_showRun]
    exact crashed_showOutcomes_iff
  refine ⟨crashed, fun fine => ?_, fun handed => Bool.eq_false_iff.mpr fun broken => ?_⟩
  · rw [error_of_not_crashed fine, verdict_showOutcomes set run.disk.cwdPath outcomes named]
    split
    · rfl
    · split <;> rfl
  · obtain ⟨outcome, member, outside⟩ := (crashed.mp broken).not_beginsInside
    exact outside (handed.beginsInside outcome member)

/-- A change that a quiet check requires is not named, and counts all the same. -/
theorem error_showRun_quiet :
    let parsed : Parsed := ⟨[("quiet", .toggle true), ("check", .toggle true)], []⟩
    let outcome : Outcome := { path := "a.v", changed := true, bag := .ofLimit 1 }
    let ending := showRun ⟨{}, {}, [], {}⟩ false
      (.ok ⟨{ check := true, quiet := true }, [outcome], {}⟩)
    readDisplay parsed false = .ok { check := true, quiet := true } ∧
      ending.crashed = false ∧ ending.error = some "fmt: formatting changes required" := by
  have read : readDisplay ⟨[("quiet", .toggle true), ("check", .toggle true)], []⟩ false =
      .ok { check := true, quiet := true } := by rfl
  obtain ⟨-, told, -⟩ := error_showRun read (.inl rfl) ⟨{}, {}, [], {}⟩ false
    [{ path := "a.v", changed := true, bag := .ofLimit 1 }] {}
  exact ⟨read, rfl, told rfl⟩

/-- A diagnostic at the last offset of 32 bits breaks a report off. -/
example :
    let error : Diagnostic := .error .wouldChange ⟨1, 0xFFFFFFFF, 0xFFFFFFFF⟩ "m"
    let outcome : Outcome := { path := "t.v", bag := (Bag.ofLimit 10).add error }
    showRun ⟨{}, {}, [], {}⟩ false
      (.ok ⟨{ report := true }, [outcome], { files := [⟨1, "t.v", "a", 0⟩] }⟩) =
        { crashed := true } := by
  cbv

end Command

end HdlAlign
