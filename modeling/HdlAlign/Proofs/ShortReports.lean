import HdlAlign.Diagnostic.Short
import HdlAlign.Proofs.SingleLines
import Mathlib.Data.Prod.Lex

/-! Short reports.  A report has one line for every diagnostic and note whose file is known, and the
order of the lines tells unlike ones apart, so that it does not matter in which order the diagnostics
and their notes come. -/

namespace HdlAlign

namespace Text

/-! The order of texts -/

theorem then_compare_byte (a b : UInt8) (rest : Ordering) :
    (Ord.compare a b).then rest = if a < b then .lt else if b < a then .gt else rest := by
  rw [show Ord.compare a b = compareOfLessAndEq a b from rfl, compareOfLessAndEq]
  by_cases less : a < b
  · rw [if_pos less, if_pos less]
    rfl
  · by_cases same : a = b
    · have irreflexive : ¬ b < a := same ▸ less
      rw [if_neg less, if_pos same, if_neg less, if_neg irreflexive]
      rfl
    · have greater : b < a := by grind
      rw [if_neg less, if_neg same, if_neg less, if_pos greater]
      rfl

theorem compare_eq (s t : Text) : compare s t = Ord.compare s t := by
  induction s generalizing t with
  | nil => cases t <;> rfl
  | cons a s ih =>
      cases t with
      | nil => rfl
      | cons b t => rw [compare, List.compare_cons_cons, ← ih, then_compare_byte]

theorem compare_eq_lt_iff {s t : Text} : compare s t = .lt ↔ s < t := by
  induction s generalizing t with
  | nil => cases t <;> simp [compare]
  | cons a s ih =>
      cases t with
      | nil => simp [compare]
      | cons b t =>
          rw [compare, List.cons_lt_cons_iff, ← ih]
          rcases Nat.lt_trichotomy a.toNat b.toNat with less | same | greater
          · simp [UInt8.lt_iff_toNat_lt.mpr less]
          · simp [UInt8.toNat_inj.mp same]
          · have behind : b < a := UInt8.lt_iff_toNat_lt.mpr greater
            simp [behind, UInt8.lt_asymm behind, (UInt8.ne_of_lt behind).symm]

theorem isLE_compare_iff {s t : Text} : (compare s t).isLE ↔ s ≤ t := by
  have swapped : compare s t = (compare t s).swap := by
    rw [compare_eq, compare_eq]
    exact Std.OrientedOrd.eq_swap
  rw [← List.not_lt, ← compare_eq_lt_iff, swapped]
  cases compare t s <;> simp

end Text

namespace Diagnostic

open Text (newline)

namespace ShortLine

def key (l : ShortLine) : Text ×ₗ Nat ×ₗ Nat ×ₗ Text ×ₗ Text ×ₗ Text :=
  toLex (l.path, toLex (l.position.line.toNat, toLex (l.position.column.toNat,
    toLex (l.label, toLex (l.code, l.message)))))

theorem isLE_compare_iff {a b : ShortLine} : (a.compare b).isLE ↔ a.key ≤ b.key := by
  simp only [compare, key, Ordering.isLE_then_iff_or, Prod.Lex.toLex_le_toLex,
    Text.compare_eq_lt_iff, Text.isLE_compare_iff, Nat.compare_eq_lt, Nat.compare_eq_eq]
  simp only [Text.compare_eq, Std.LawfulEqCmp.compare_eq_iff_eq]

theorem compare_eq_lex :
    compare = compareLex (compareOn path) (compareLex (compareOn (·.position.line.toNat))
      (compareLex (compareOn (·.position.column.toNat)) (compareLex (compareOn label)
        (compareLex (compareOn code) (compareOn message))))) := by
  funext a b
  simp only [compare, compareLex, compareOn, Text.compare_eq]

instance transCmp_compare : Std.TransCmp compare := by
  rw [compare_eq_lex]
  infer_instance

theorem eq_of_compare {a b : ShortLine} (same : a.compare b = .eq) : a = b := by
  obtain ⟨path, ⟨line, column⟩, label, code, message⟩ := a
  obtain ⟨path', ⟨line', column'⟩, label', code', message'⟩ := b
  simp only [compare, Ordering.then_eq_eq, Text.compare_eq, Std.LawfulEqCmp.compare_eq_iff_eq,
    UInt32.toNat_inj] at same
  simp only [mk.injEq, Position.mk.injEq]
  tauto

def sorted (lines : List ShortLine) : List ShortLine :=
  lines.mergeSort fun a b => (a.compare b).isLE

theorem pairwise_sorted (lines : List ShortLine) :
    (sorted lines).Pairwise fun a b => (a.compare b).isLE :=
  List.pairwise_mergeSort (fun _ _ _ => Std.TransCmp.isLE_trans)
    (fun a b => by
      have swapped : b.compare a = (a.compare b).swap := Std.OrientedCmp.eq_swap
      rw [swapped]
      cases a.compare b <;> rfl) lines

theorem sorted_eq_of_perm {lines others : List ShortLine} (same : lines.Perm others) :
    sorted lines = sorted others := by
  refine List.Perm.eq_of_pairwise (fun a b _ _ first second => ?_) (pairwise_sorted lines)
    (pairwise_sorted others) ?_
  · exact eq_of_compare (Std.OrientedCmp.isLE_antisymm first second)
  · exact (List.mergeSort_perm _ _).trans (same.trans (List.mergeSort_perm _ _).symm)

end ShortLine

/-! What is reported -/

structure Remark where
  span : Span
  label : Text
  code : Text
  message : Text

def remarks (notes : Bool) (d : Diagnostic) : List Remark :=
  ⟨d.span, d.severity.name.map Text.lowerAscii, d.code.id, d.message⟩ ::
    if notes then d.notes.map fun note => ⟨note.span, "note", d.code.id, note.message⟩ else []

def Remark.line? (set : FileSet) (cwd : Text) (remark : Remark) : Option ShortLine :=
  shortLine? set cwd remark.span remark.label remark.code remark.message

variable {set : FileSet} {cwd : Text} {notes : Bool}

theorem shortLines_eq (d : Diagnostic) :
    shortLines set cwd notes d = (remarks notes d).filterMap (Remark.line? set cwd) := by
  have own : (Remark.line? set cwd
      ⟨d.span, d.severity.name.map Text.lowerAscii, d.code.id, d.message⟩).toList =
        (shortLine? set cwd d.span (d.severity.name.map Text.lowerAscii) d.code.id
          d.message).toList := rfl
  rw [shortLines, remarks, ← List.singleton_append, List.filterMap_append]
  refine congrArg₂ (· ++ ·) ?_ ?_
  · rw [List.filterMap_cons, ← own]
    cases Remark.line? set cwd _ <;> rfl
  · cases notes with
    | false => rfl
    | true =>
        rw [if_pos rfl, if_pos rfl, List.filterMap_map]
        rfl

theorem short_eq (ds : List Diagnostic) :
    short (some set) cwd notes ds =
      Text.unlines ((ShortLine.sorted ((ds.flatMap (remarks notes)).filterMap
        (Remark.line? set cwd))).map ShortLine.toText) := by
  rw [List.filterMap_flatMap]
  simp only [← shortLines_eq]
  rfl

def Reshuffled (d other : Diagnostic) : Prop :=
  ∃ notes, d.notes.Perm notes ∧ other = { d with notes }

def Reordered (ds others : List Diagnostic) : Prop :=
  ∃ between, ds.Perm between ∧ List.Forall₂ Reshuffled between others

theorem Reshuffled.remarks {d other : Diagnostic} (same : Reshuffled d other) :
    (Diagnostic.remarks notes d).Perm (Diagnostic.remarks notes other) := by
  obtain ⟨shuffled, moved, rfl⟩ := same
  rw [Diagnostic.remarks, Diagnostic.remarks]
  cases notes with
  | false => exact List.Perm.refl _
  | true => exact (moved.map _).cons _

theorem Reordered.remarks {ds others : List Diagnostic} (same : Reordered ds others) :
    (ds.flatMap (Diagnostic.remarks notes)).Perm (others.flatMap (Diagnostic.remarks notes)) := by
  obtain ⟨between, moved, reshuffled⟩ := same
  refine (moved.flatMap_right _).trans ?_
  clear moved
  induction reshuffled with
  | nil => exact List.Perm.refl _
  | cons first rest ih =>
      rw [List.flatMap_cons, List.flatMap_cons]
      exact first.remarks.append ih

theorem short_eq_of_reordered {ds others : List Diagnostic} (same : Reordered ds others) :
    short (some set) cwd notes ds = short (some set) cwd notes others := by
  rw [short_eq, short_eq, ShortLine.sorted_eq_of_perm (same.remarks.filterMap _)]

/-! The lines of a report -/

theorem length_filterMap_line? (remarks : List Remark) :
    (remarks.filterMap (Remark.line? set cwd)).length =
      remarks.countP fun remark => (set.get? remark.span.file).isSome := by
  rw [List.length_filterMap_eq_countP]
  refine List.countP_congr fun remark _ => ?_
  rw [Remark.line?, shortLine?, Option.isSome_map]

theorem newline_not_mem_id (code : Code) : newline ∉ code.id := by
  have zero : newline ≠ 0x30 := by decide
  have padded : newline ∉ Text.fillLeft 0x30 4 (Text.decimal code.number.toNat) := by
    rw [Text.fillLeft, List.mem_append]
    rintro (fill | digit)
    · exact zero (List.eq_of_mem_replicate fill)
    · exact Text.newline_not_mem_decimal _ digit
  rw [Code.id]
  split
  · next family found =>
      have letters : newline ∉ family := by
        rw [Code.family?] at found
        split at found <;> cases found <;> decide
      rw [List.mem_append]
      exact fun inside => inside.elim letters padded
  · decide

theorem newline_not_mem_name (severity : Severity) :
    newline ∉ severity.name.map Text.lowerAscii := by
  rw [Severity.name]
  split_ifs <;> decide

theorem newline_not_mem_remark {d : Diagnostic} {remark : Remark}
    (among : remark ∈ remarks notes d) : newline ∉ remark.label ∧ newline ∉ remark.code := by
  rw [remarks, List.mem_cons] at among
  rcases among with rfl | note
  · exact ⟨newline_not_mem_name d.severity, newline_not_mem_id d.code⟩
  · cases notes with
    | false => cases note
    | true =>
        obtain ⟨note, -, rfl⟩ := List.mem_map.mp note
        have label : newline ∉ Text.ofString "note" := by decide
        exact ⟨label, newline_not_mem_id d.code⟩

theorem newline_not_mem_message {remark : Remark} {row : ShortLine}
    (line : Remark.line? set cwd remark = some row) : newline ∉ row.message := by
  obtain ⟨file, -, rfl⟩ := Option.map_eq_some_iff.mp line
  exact Text.not_mem_join (by decide) fun _ among => Text.newline_not_mem_fields among

theorem newline_not_mem_path {remark : Remark} {row : ShortLine} (clear : newline ∉ cwd)
    (named : ∀ file ∈ set.files, newline ∉ file.path)
    (line : Remark.line? set cwd remark = some row) : newline ∉ row.path := by
  obtain ⟨file, found, rfl⟩ := Option.map_eq_some_iff.mp line
  have shown := Path.newline_not_mem_seenFrom
    (if (set.baseDirectory cwd).isEmpty then cwd else set.baseDirectory cwd) clear
    (named file (FileSet.mem_of_get? found))
  exact fun inside => shown (Text.trimHead_subset _ _ inside)

theorem ShortLine.newline_not_mem_toText {row : ShortLine} (label : newline ∉ row.label)
    (code : newline ∉ row.code) (path : newline ∉ row.path) (message : newline ∉ row.message) :
    newline ∉ row.toText := by
  have line := Text.newline_not_mem_decimal row.position.line.toNat
  have column := Text.newline_not_mem_decimal row.position.column.toNat
  have blank : newline ∉ Text.ofString " " := by decide
  have colon : newline ∉ Text.ofString ":" := by decide
  simp only [toText, List.mem_append]
  tauto

/-- The rows of a report: one for every remark whose file is known, in order. -/
structure IsReport (set : FileSet) (cwd : Text) (notes : Bool) (ds : List Diagnostic)
    (rows : List ShortLine) : Prop where
  remarks : rows.Perm ((ds.flatMap (remarks notes)).filterMap (Remark.line? set cwd))
  count : rows.length =
    (ds.flatMap (Diagnostic.remarks notes)).countP fun remark => (set.get? remark.span.file).isSome
  ordered : rows.Pairwise fun a b => a.key ≤ b.key

variable {ds : List Diagnostic} {rows : List ShortLine}

theorem isReport_sorted (ds : List Diagnostic) :
    IsReport set cwd notes ds
      (ShortLine.sorted ((ds.flatMap (remarks notes)).filterMap (Remark.line? set cwd))) where
  remarks := List.mergeSort_perm _ _
  count := by rw [ShortLine.sorted, List.length_mergeSort, length_filterMap_line?]
  ordered := (ShortLine.pairwise_sorted _).imp ShortLine.isLE_compare_iff.mp

theorem IsReport.exists_remark (report : IsReport set cwd notes ds rows) {row : ShortLine}
    (among : row ∈ rows) :
    ∃ d ∈ ds, ∃ remark ∈ Diagnostic.remarks notes d, remark.line? set cwd = some row := by
  obtain ⟨remark, member, line⟩ := List.mem_filterMap.mp (report.remarks.subset among)
  obtain ⟨d, given, made⟩ := List.mem_flatMap.mp member
  exact ⟨d, given, remark, made, line⟩

theorem IsReport.newline_not_mem_toText (report : IsReport set cwd notes ds rows)
    (clear : ∀ row ∈ rows, newline ∉ row.path) : ∀ row ∈ rows, newline ∉ row.toText := by
  intro row among
  obtain ⟨d, -, remark, made, line⟩ := report.exists_remark among
  obtain ⟨label, code⟩ := newline_not_mem_remark made
  have message := newline_not_mem_message line
  obtain ⟨file, -, rfl⟩ := Option.map_eq_some_iff.mp line
  exact ShortLine.newline_not_mem_toText label code (clear _ among) message

theorem IsReport.newline_not_mem_path (report : IsReport set cwd notes ds rows)
    (clear : newline ∉ cwd) (named : ∀ file ∈ set.files, newline ∉ file.path) :
    ∀ row ∈ rows, newline ∉ row.path := by
  intro row among
  obtain ⟨d, -, remark, -, line⟩ := report.exists_remark among
  exact Diagnostic.newline_not_mem_path clear named line

/-- A report does not depend on the order in which diagnostics and notes come.  Its lines are the
rows, provided that the paths have no newlines, as those do that are made of such. -/
theorem short_stable (set : FileSet) (cwd : Text) (notes : Bool) (ds : List Diagnostic) :
    (∀ others, Reordered ds others →
      short (some set) cwd notes others = short (some set) cwd notes ds) ∧
    ∃ rows, IsReport set cwd notes ds rows ∧
      short (some set) cwd notes ds = Text.unlines (rows.map ShortLine.toText) ∧
      (rows ≠ [] → (∀ row ∈ rows, newline ∉ row.path) →
        Text.lines (short (some set) cwd notes ds) = rows.map ShortLine.toText) ∧
      (newline ∉ cwd → (∀ file ∈ set.files, newline ∉ file.path) →
        ∀ row ∈ rows, newline ∉ row.path) := by
  have report : IsReport set cwd notes ds _ := isReport_sorted ds
  refine ⟨fun others same => (short_eq_of_reordered same).symm, _, report, short_eq ds, ?_,
    report.newline_not_mem_path⟩
  intro nonempty clear
  rw [short_eq]
  refine Text.lines_unlines (mt List.map_eq_nil_iff.mp nonempty) fun line among => ?_
  obtain ⟨row, member, rfl⟩ := List.mem_map.mp among
  exact report.newline_not_mem_toText clear row member

def reportedSet : FileSet := { files := [⟨1, "/w/rtl/top.sv", "reg a;\nfoo(bar);\n", 0⟩] }

def leftUntouched : Diagnostic :=
  { severity := .info, code := .verbatimLine, message := "line left\nuntouched", span := ⟨1, 7, 16⟩ }

def unlikeDimensions (notes : List Note) : Diagnostic :=
  { severity := .warning, code := .rangeDimensions, message := "dims differ", span := ⟨1, 0, 6⟩,
    notes }

theorem short_stable_swapped :
    let first : Note := ⟨⟨1, 7, 8⟩, "other line"⟩
    let second : Note := ⟨⟨2, 0, 1⟩, "no such file"⟩
    let given := [leftUntouched, unlikeDimensions [first, second]]
    short (some reportedSet) "/w" true [unlikeDimensions [second, first], leftUntouched] =
      short (some reportedSet) "/w" true given ∧
    ∃ rows, IsReport reportedSet "/w" true given rows ∧ rows.length = 3 ∧
      Text.lines (short (some reportedSet) "/w" true given) = rows.map ShortLine.toText := by
  intro first second given
  obtain ⟨stable, rows, report, -, lines, clear⟩ := short_stable reportedSet "/w" true given
  have three : rows.length = 3 := report.count
  refine ⟨stable _ ⟨[unlikeDimensions [first, second], leftUntouched], List.Perm.swap .., ?_⟩,
    rows, report, three, ?_⟩
  · exact .cons ⟨[second, first], List.Perm.swap .., rfl⟩
      (.cons ⟨_, List.Perm.refl _, rfl⟩ .nil)
  · exact lines (List.ne_nil_of_length_pos (by omega)) (clear (by decide) (by decide))

end Diagnostic

end HdlAlign
