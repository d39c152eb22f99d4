import HdlAlign.Proofs.Dimensions
import HdlAlign.Proofs.Placement
import HdlAlign.Proofs.Reordering
import Mathlib.Order.Bounds.Defs

/-! What is reported on the numbers of groups in a column: the largest one, and whether two of them
differ.  A block is reported exactly if two of its lines disagree. -/

namespace HdlAlign.Range

open Text

def groupCounts (column : Nat) (lines : List Line) : Set Nat :=
  {count | ∃ line ∈ lines, ∃ groups, parse (line.field column) = .ok groups ∧
    groups.length = count}

theorem groupCounts_perm {column : Nat} {new old : List Line} (perm : new.Perm old) :
    groupCounts column new = groupCounts column old := by
  simp only [groupCounts, perm.mem_iff]

section

variable {column : Nat} {lines : List Line}

theorem mem_groupCounts {count : Nat} :
    count ∈ groupCounts column lines ↔ ∃ groups ∈ lists column lines, groups.length = count := by
  simp only [mem_lists]
  constructor
  · rintro ⟨line, member, groups, read, same⟩
    exact ⟨groups, ⟨line, member, read⟩, same⟩
  · rintro ⟨groups, ⟨line, member, read⟩, same⟩
    exact ⟨line, member, groups, read, same⟩

/-- One pass with a running maximum finds any two numbers that differ. -/
theorem mismatch_iff :
    (stats column lines).mismatch = true ↔ (groupCounts column lines).Nontrivial := by
  rw [stats, ← Bool.not_eq_false, mismatch_none_iff]
  constructor
  · intro differ
    by_contra uniform
    refine differ fun first listed second listed' => ?_
    have agree := Set.not_nontrivial_iff.mp uniform
    exact agree (mem_groupCounts.mpr ⟨first, listed, rfl⟩)
      (mem_groupCounts.mpr ⟨second, listed', rfl⟩)
  · rintro ⟨_, first, _, second, differ⟩ same
    obtain ⟨groups, listed, rfl⟩ := mem_groupCounts.mp first
    obtain ⟨groups', listed', rfl⟩ := mem_groupCounts.mp second
    exact differ (same groups listed groups' listed')

theorem mismatch_alignColumn {other : Nat} (differ : column ≠ other) :
    (stats other (alignColumn column lines)).mismatch = (stats other lines).mismatch := by
  rw [stats, stats, lists_alignColumn differ]

theorem foldl_max_eq {α : Type} (f : α → Nat) (values : List α) (start : Nat) :
    values.foldl (fun most value => max most (f value)) start = start ∨
      ∃ value ∈ values, f value = values.foldl (fun most value => max most (f value)) start := by
  induction values generalizing start with
  | nil => exact .inl rfl
  | cons first values ih =>
      rw [List.foldl_cons]
      rcases ih (max start (f first)) with same | ⟨value, member, same⟩
      · rw [same]
        rcases max_choice start (f first) with larger | larger
        · exact .inl larger
        · exact .inr ⟨first, List.mem_cons_self, larger.symm⟩
      · exact .inr ⟨value, List.mem_cons_of_mem _ member, same⟩

theorem isGreatest_dims :
    IsGreatest (insert 0 (groupCounts column lines)) (stats column lines).dims := by
  constructor
  · rcases foldl_max_eq List.length (lists column lines) 0 with none | ⟨groups, listed, same⟩
    · exact .inl none
    · exact .inr (mem_groupCounts.mpr ⟨groups, listed, same⟩)
  · rintro count (rfl | counted)
    · exact Nat.zero_le _
    · obtain ⟨groups, listed, rfl⟩ := mem_groupCounts.mp counted
      exact Assignment.le_foldl_max List.length listed 0

end

/-! Counting brackets. -/

def openings (text : Text) : Nat := text.count ('[' : UInt8)

theorem Unmarked.openings {text : Text} (unmarked : Unmarked text) : openings text = 0 :=
  List.count_eq_zero.mpr fun member => by cases unmarked _ member

theorem Pairs.openings {pairs : List Group} {text : Text} (written : Pairs pairs text) :
    openings text = pairs.length := by
  induction written with
  | nil => rfl
  | cons left right spaces _ ih =>
      have left := left.openings
      have right := right.openings
      have gap := (unmarked_of_spaces spaces).openings
      rw [Range.openings] at left right gap ih ⊢
      have colon : ((':' : UInt8) == ('[' : UInt8)) = false := rfl
      have closing : ((']' : UInt8) == ('[' : UInt8)) = false := rfl
      simp [List.count_cons, left, right, gap, ih, colon, closing]

theorem length_of_parse {field : Text} {groups : List Group} (read : parse field = .ok groups) :
    groups.length = openings field := by
  obtain ⟨pairs, ⟨-, lead, rest, spaces, written, rfl⟩, rfl⟩ := parse_eq_ok_iff.mp read
  have front := (unmarked_of_spaces spaces).openings
  have behind := written.openings
  rw [openings] at front behind ⊢
  rw [List.length_map, List.count_append, front, behind, Nat.zero_add]

/-- Two aligned lines have dimension lists in a column, with different numbers of bracket pairs. -/
structure Disagree (column : Nat) (first second : Line) : Prop where
  aligned : first.isAligned ∧ second.isAligned
  nonempty : first.field column ≠ [] ∧ second.field column ≠ []
  openings : openings (first.field column) ≠ openings (second.field column)

theorem isAligned_of_parse {column : Nat} {line : Line} {groups : List Group}
    (read : parse (line.field column) = .ok groups) : line.isAligned := by
  cases line with
  | aligned fields source => rfl
  | verbatim text source => cases read

theorem nontrivial_groupCounts {column : Nat} {lines : List Line}
    (readable : ∀ line ∈ lines, Readable (line.field column)) :
    (groupCounts column lines).Nontrivial ↔
      ∃ first ∈ lines, ∃ second ∈ lines, Disagree column first second := by
  constructor
  · rintro ⟨_, ⟨first, member, _, read, rfl⟩, _, ⟨second, member', _, read', rfl⟩, differ⟩
    rw [length_of_parse read, length_of_parse read'] at differ
    exact ⟨first, member, second, member', ⟨isAligned_of_parse read, isAligned_of_parse read'⟩,
      ⟨ne_nil_of_parse read, ne_nil_of_parse read'⟩, differ⟩
  · rintro ⟨first, member, second, member', disagree⟩
    obtain ⟨groups, read⟩ := readable first member disagree.nonempty.1
    obtain ⟨groups', read'⟩ := readable second member' disagree.nonempty.2
    refine ⟨_, ⟨first, member, groups, read, rfl⟩, _, ⟨second, member', groups', read', rfl⟩, ?_⟩
    rw [length_of_parse read, length_of_parse read']
    exact disagree.openings

theorem mismatch_iff_disagree {column : Nat} {lines : List Line}
    (readable : ∀ line ∈ lines, Readable (line.field column)) :
    (stats column lines).mismatch = true ↔
      ∃ first ∈ lines, ∃ second ∈ lines, Disagree column first second :=
  mismatch_iff.trans (nontrivial_groupCounts readable)

end HdlAlign.Range

namespace HdlAlign

open Statement

def Mode.rangeColumns : Mode → List Nat
  | declarations => [Declaration.vectorColumn, Declaration.arrayColumn]
  | ports => [Port.vectorColumn]
  | empty | unknown _ => []

namespace Block

open Text Range

def blockLines (options : Options) (text : Text) : List Line :=
  let body := (splitFinalNewline text).1
  if isBlank body then []
  else match frame? body with
    | some frame => portLines options frame
    | none => declarationLines options body

theorem alignDeclarations_mismatch (options : Options) (text : Text) :
    (alignDeclarations options text).rangeMismatch = true ↔
      ∃ column ∈ Mode.declarations.rangeColumns, ∃ first ∈ declarationLines options text,
        ∃ second ∈ declarationLines options text, Disagree column first second := by
  have vectors := mismatch_iff_disagree fun line (member : line ∈ declarationLines options text) =>
    (readable_declarationLines member).1
  have arrays := mismatch_iff_disagree fun line (member : line ∈ declarationLines options text) =>
    (readable_declarationLines member).2
  -- The arrays are counted when the vectors have been lined up already.
  have differ : Declaration.vectorColumn ≠ Declaration.arrayColumn := by decide
  rw [← mismatch_alignColumn differ] at arrays
  simp only [alignDeclarations, Bool.or_eq_true, vectors, arrays, Mode.rangeColumns,
    List.mem_cons, List.not_mem_nil, or_false, exists_eq_or_imp, exists_eq_left]

theorem alignPorts_mismatch (options : Options) (frame : Frame) :
    (alignPorts options frame).rangeMismatch = true ↔
      ∃ column ∈ Mode.ports.rangeColumns, ∃ first ∈ portLines options frame,
        ∃ second ∈ portLines options frame, Disagree column first second := by
  have vectors := mismatch_iff_disagree fun line (member : line ∈ portLines options frame) =>
    readable_portLines member
  simp only [alignPorts, vectors, Mode.rangeColumns, List.mem_singleton, exists_eq_left]

theorem align_mismatch (options : Options) (text : Text) :
    (align options text).rangeMismatch = true ↔
      ∃ column ∈ (align options text).mode.rangeColumns, ∃ first ∈ blockLines options text,
        ∃ second ∈ blockLines options text, Disagree column first second := by
  unfold align blockLines
  dsimp only
  cases isBlank (splitFinalNewline text).1 with
  | true => simp [Mode.rangeColumns]
  | false =>
      simp only [Bool.false_eq_true, if_false, alignBody]
      cases frame? (splitFinalNewline text).1 with
      | some frame => exact alignPorts_mismatch options frame
      | none => exact alignDeclarations_mismatch options _

/-- A block is reported exactly if two of its lines have dimension lists in one column with
different numbers of bracket pairs.  In any column the largest number of groups is reported, zero if
there is no dimension list, and the order of the lines decides nothing. -/
theorem rangeMismatch_exact :
    (∀ (options : Options) (text : Text), (align options text).rangeMismatch = true ↔
      ∃ column ∈ (align options text).mode.rangeColumns, ∃ first ∈ blockLines options text,
        ∃ second ∈ blockLines options text, Disagree column first second) ∧
    ∀ (column : Nat) (lines : List Line),
      IsGreatest (insert 0 (groupCounts column lines)) (stats column lines).dims ∧
      ((stats column lines).mismatch = true ↔ (groupCounts column lines).Nontrivial) ∧
      ∀ others : List Line, others.Perm lines →
        (stats column others).mismatch = (stats column lines).mismatch := by
  refine ⟨align_mismatch, fun column lines =>
    ⟨isGreatest_dims, mismatch_iff, fun others perm => ?_⟩⟩
  rw [Bool.eq_iff_iff, mismatch_iff, mismatch_iff, groupCounts_perm perm]

theorem rangeMismatch_exact_memories :
    let block : Text := "reg [7:0] a [0:3];\nwire b;\nreg [7:0] c [0:3][0:1];"
    let first : Line := .aligned (Text.literals ["reg", "[7:0]", "a", "[0:3]", ";", ""]) 0
    let second : Line := .aligned (Text.literals ["wire", "", "b", "", ";", ""]) 1
    let third : Line := .aligned (Text.literals ["reg", "[7:0]", "c", "[0:3][0:1]", ";", ""]) 2
    blockLines {} block = [first, second, third] ∧ (align {} block).rangeMismatch = true ∧
      [third, first, second].Perm [first, second, third] ∧
      (stats 3 [third, first, second]).mismatch = (stats 3 [first, second, third]).mismatch := by
  intro block first second third
  have read : blockLines {} block = [first, second, third] := by decide +kernel
  have mode : (align {} block).mode = .declarations := by decide +kernel
  have perm : [third, first, second].Perm [first, second, third] := by decide +kernel
  have disagree : Disagree 3 first third := ⟨by decide, by decide, by decide +kernel⟩
  refine ⟨read, (rangeMismatch_exact.1 {} block).mpr ⟨3, ?_, first, ?_, third, ?_, disagree⟩, perm,
    (rangeMismatch_exact.2 3 _).2.2 _ perm⟩
  · rw [mode]
    decide
  · simp [read]
  · simp [read]

end Block

end HdlAlign
