import HdlAlign.Proofs.Measures
import HdlAlign.Proofs.Placement

/-! More lines make no column of a block narrower: every width that the layout measures grows with
the lines, and every field that is laid out grows with the widths. -/

namespace HdlAlign.Columns

variable {α : Type} [SemilatticeSup α]

/-- There are no more columns than others, and none is wider. -/
inductive Narrower : List α → List α → Prop
  | nil (others : List α) : Narrower [] others
  | cons {width other : α} {widths others : List α} (le : width ≤ other)
      (rest : Narrower widths others) : Narrower (width :: widths) (other :: others)

theorem Narrower.refl (widths : List α) : Narrower widths widths := by
  induction widths with
  | nil => exact .nil _
  | cons width widths ih => exact .cons (le_refl width) ih

theorem Narrower.trans {first second third : List α} (h : Narrower first second)
    (h' : Narrower second third) : Narrower first third := by
  induction h generalizing third with
  | nil => exact .nil _
  | cons le _ ih =>
      cases h' with
      | cons le' rest' => exact .cons (le.trans le') (ih rest')

theorem narrower_merge_left (widths others : List α) : Narrower widths (merge widths others) := by
  fun_induction merge widths others with
  | case1 => exact .refl _
  | case2 => exact .nil _
  | case3 width widths other others ih => exact .cons le_sup_left ih

theorem narrower_merge_right (widths others : List α) : Narrower others (merge widths others) := by
  fun_induction merge widths others with
  | case1 => exact .nil _
  | case2 => exact .refl _
  | case3 width widths other others ih => exact .cons le_sup_right ih

theorem Narrower.merge {widths others first second : List α} (h : Narrower widths others)
    (h' : Narrower first second) : Narrower (merge widths first) (merge others second) := by
  induction h generalizing first second with
  | nil others =>
      rw [merge_nil_left]
      induction h' generalizing others with
      | nil => exact .nil _
      | cons le rest ih =>
          cases others with
          | nil => exact .cons le rest
          | cons width others => exact .cons (le.trans le_sup_right) (ih others)
  | cons le rest ih =>
      cases h' with
      | nil => exact (Narrower.cons le rest).trans (narrower_merge_left _ _)
      | cons le' rest' => exact .cons (sup_le_sup le le') (ih rest')

theorem narrower_foldl (widths : List α) (more : List (List α)) :
    Narrower widths (more.foldl Columns.merge widths) := by
  induction more generalizing widths with
  | nil => exact .refl widths
  | cons first more ih => exact (narrower_merge_left widths first).trans (ih _)

theorem narrower_foldl_of_mem {first : List α} {more : List (List α)} (member : first ∈ more)
    (widths : List α) : Narrower first (more.foldl Columns.merge widths) := by
  obtain ⟨before, after, rfl⟩ := List.append_of_mem member
  rw [List.foldl_append, List.foldl_cons]
  exact (narrower_merge_right _ _).trans (narrower_foldl _ _)

theorem Narrower.foldl {widths others : List α} (h : Narrower widths others)
    {first second : List (List α)} (each : List.Forall₂ Narrower first second) :
    Narrower (first.foldl Columns.merge widths) (second.foldl Columns.merge others) := by
  induction each generalizing widths others with
  | nil => exact h
  | cons head _ ih => exact ih (h.merge head)

theorem Narrower.set {widths others : List α} (h : Narrower widths others) (column : Nat)
    {width other : α} (le : width ≤ other) :
    Narrower (widths.set column width) (others.set column other) := by
  induction h generalizing column with
  | nil => exact .nil _
  | cons first rest ih =>
      cases column with
      | zero => exact .cons le rest
      | succ column => exact .cons first (ih column)

theorem Narrower.length_le {widths others : List α} (h : Narrower widths others) :
    widths.length ≤ others.length := by
  induction h with
  | nil => exact Nat.zero_le _
  | cons _ _ ih => exact Nat.succ_le_succ ih

theorem Narrower.getD_le {widths others : List Nat} (h : Narrower widths others) (column : Nat) :
    widths.getD column 0 ≤ others.getD column 0 := by
  induction h generalizing column with
  | nil => exact Nat.zero_le _
  | cons le _ ih =>
      cases column with
      | zero => exact le
      | succ column => exact ih column

end HdlAlign.Columns

namespace HdlAlign.Text

theorem length_padLeft_le (text : Text) {columns more : Nat} (le : columns ≤ more) :
    (text.padLeft columns).length ≤ (text.padLeft more).length := by
  rw [padLeft, padLeft, List.length_append, List.length_append, blanks, blanks,
    List.length_replicate, List.length_replicate]
  omega

theorem length_padRight_le (text : Text) {columns more : Nat} (le : columns ≤ more) :
    (text.padRight columns).length ≤ (text.padRight more).length := by
  rw [padRight, padRight, List.length_append, List.length_append, blanks, blanks,
    List.length_replicate, List.length_replicate]
  omega

end HdlAlign.Text

namespace HdlAlign.Batch

open Text Columns

def demands : Line → List Nat
  | .aligned fields _ => fields.map demand
  | .verbatim _ _ => []

theorem anchors_demands (lines : List Line) :
    anchors lines = (lines.map demands).foldl merge [] := by
  rw [anchors, List.foldl_map]
  refine congrArg (List.foldl · [] lines) (funext fun widths => funext fun line => ?_)
  cases line with
  | aligned fields source => exact widen_eq widths fields
  | verbatim text source => rw [demands, merge]

theorem demands_withField (line : Line) (column : Nat) (value : Text) :
    demands (line.withField column value) = (demands line).set column (demand value) := by
  cases line with
  | aligned fields source => rw [Line.withField, demands, demands, List.map_set]
  | verbatim text source => rfl

theorem demand_le {first second : Text} (plain : Plain first) (plain' : Plain second)
    (le : first.length ≤ second.length) : demand first ≤ demand second := by
  rw [demand, demand, plain.width, plain'.width]
  split <;> split <;> omega

end HdlAlign.Batch

namespace HdlAlign.Range

open Text Columns Batch

theorem length_renderGroup_le (group : Group) {width other : GroupWidth} (le : width ≤ other) :
    (renderGroup group width).length ≤ (renderGroup group other).length := by
  have left := length_padLeft_le group.left le.1
  have right := length_padLeft_le group.right le.2
  simp only [renderGroup, List.length_append]
  omega

theorem length_render_le {groups : List Group} {widths others : List GroupWidth}
    (wider : Narrower widths others) :
    (render groups widths).length ≤ (render groups others).length := by
  induction wider generalizing groups with
  | nil => cases groups <;> exact Nat.zero_le _
  | cons le _ ih =>
      cases groups with
      | nil => exact Nat.le_refl 0
      | cons group groups =>
          have first := length_renderGroup_le group le
          have rest := @ih groups
          rw [render_cons, render_cons, List.length_append, List.length_append]
          omega

theorem plain_render {field : Text} (plain : Plain field) {groups : List Group}
    (read : parse field = .ok groups) (widths : List GroupWidth) : Plain (render groups widths) :=
  plain.within ((render_within groups widths).mono (moved_groups read).2.1)

theorem foldl_widen (lists : List (List Group)) (widths : List GroupWidth) :
    lists.foldl widen widths = (lists.map (List.map Group.widths)).foldl merge widths := by
  rw [List.foldl_map]
  exact congrArg (List.foldl · widths lists) (funext₂ widen_eq)

theorem narrower_columnWidths (column : Nat) (block extra : List Line) :
    Narrower (columnWidths column block) (columnWidths column (block ++ extra)) := by
  rw [columnWidths, columnWidths, lists, lists, List.filterMap_append, List.foldl_append,
    foldl_widen (List.filterMap _ extra)]
  exact narrower_foldl _ _

theorem narrower_of_mem_lists {column : Nat} {lines : List Line} {groups : List Group}
    (listed : groups ∈ lists column lines) :
    Narrower (groups.map Group.widths) (columnWidths column lines) := by
  rw [columnWidths, foldl_widen]
  exact narrower_foldl_of_mem (List.mem_map_of_mem listed) _

theorem narrower_layoutLine {column : Nat} {widths others : List GroupWidth}
    (wider : Narrower widths others) {first second : Line}
    (same : first.field column = second.field column) (plain : Plain (first.field column))
    (fields : Narrower (demands first) (demands second)) :
    Narrower (demands (layoutLine column widths first))
      (demands (layoutLine column others second)) := by
  have sameCell : cell column second = cell column first := by rw [cell, cell, same]
  rw [layoutLine, layoutLine, sameCell]
  cases found : cell column first with
  | absent => exact fields
  | unparsed => exact fields
  | list groups =>
      dsimp only
      rw [demands_withField, demands_withField]
      have read := cell_eq_list_iff.mp found
      exact fields.set column (demand_le (plain_render plain read widths)
        (plain_render plain read others) (length_render_le wider))

end HdlAlign.Range

namespace HdlAlign.Assignment

open Text Columns Batch

structure Widths.Le (widths others : Widths) : Prop where
  operator : widths.operator ≤ others.operator
  value : widths.value ≤ others.value

theorem widths_append_le (block extra : List Assignment) :
    (widths block).Le (widths (block ++ extra)) := by
  have grows (f : Assignment → Nat) (start : Nat) :
      start ≤ extra.foldl (fun most a => max most (f a)) start := by
    induction extra generalizing start with
    | nil => exact Nat.le_refl start
    | cons first extra ih => exact (Nat.le_max_left _ _).trans (ih _)
  constructor
  · simp only [widths, List.foldl_append]
    exact grows _ _
  · simp only [widths, List.foldl_append]
    exact grows _ _

theorem length_render_le (value : Assignment) {widths others : Widths} (wider : widths.Le others) :
    (render value widths).length ≤ (render value others).length := by
  have operator := length_padLeft_le value.operator wider.operator
  have right := length_padRight_le value.value (Nat.add_le_add_right wider.value 1)
  rw [render, render]
  split <;> simp only [List.length_append] <;> omega

theorem length_renderTerminator_le {any anyMore : Bool} (more : any → anyMore)
    {widths others : Widths} (wider : widths.Le others) :
    (renderTerminator any widths).length ≤ (renderTerminator anyMore others).length := by
  have operator := wider.operator
  have value := wider.value
  simp only [renderTerminator_eq, List.length_append, blanks, List.length_replicate,
    terminatorColumn]
  refine Nat.add_le_add_right ?_ _
  cases any with
  | false => exact Nat.zero_le _
  | true =>
      rw [if_pos rfl, if_pos (more rfl)]
      omega

theorem length_layoutField_le {any anyMore : Bool} (more : any → anyMore) {widths others : Widths}
    (wider : widths.Le others) (field : Text) :
    (layoutField any widths field).length ≤ (layoutField anyMore others field).length := by
  rw [layoutField, layoutField]
  cases cell field with
  | assignment value => exact length_render_le value wider
  | terminator => exact length_renderTerminator_le more wider
  | foreign => exact Nat.le_refl _
  | nothing => exact Nat.le_refl _

theorem narrower_layoutLine {column : Nat} {any anyMore : Bool} (more : any → anyMore)
    {widths others : Widths} (wider : widths.Le others) {first second : Line}
    (same : first.field column = second.field column) (plain : Plain (first.field column))
    (fields : Narrower (demands first) (demands second)) :
    Narrower (demands (layoutLine column any widths first))
      (demands (layoutLine column anyMore others second)) := by
  rw [layoutLine, layoutLine, demands_withField, demands_withField, ← same]
  exact fields.set column (demand_le (plain.within (layoutField_within _ _ _))
    (plain.within (layoutField_within _ _ _)) (length_layoutField_le more wider _))

end HdlAlign.Assignment

namespace HdlAlign.Block

open Text Columns Batch Statement

/-- Measures that have room for those of fewer lines. -/
structure Measures.Le (m others : Measures) : Prop where
  vectors : Narrower m.vectors others.vectors
  arrays : Narrower m.arrays others.arrays
  anyAssignment : m.anyAssignment → others.anyAssignment
  assignments : m.assignments.Le others.assignments

theorem measures_append_le (block extra : List Line) :
    (measures block).Le (measures (block ++ extra)) := by
  have found : Assignment.assignments Declaration.assignmentColumn (block ++ extra) =
      Assignment.assignments Declaration.assignmentColumn block ++
        Assignment.assignments Declaration.assignmentColumn extra := List.filterMap_append
  refine ⟨Range.narrower_columnWidths _ block extra, Range.narrower_columnWidths _ block extra,
    ?_, ?_⟩
  · simp only [measures, found]
    intro any
    rw [Bool.not_eq_true', List.isEmpty_eq_false_iff] at any ⊢
    exact List.append_ne_nil_of_left_ne_nil any _
  · simp only [measures, found]
    exact Assignment.widths_append_le _ _

theorem plain_field_classify {line : Text} (plain : Plain line) (source : Int) (column : Nat) :
    Plain ((Grammar.declaration.classify line source).field column) := by
  rcases classify_cases line source with ⟨-, -, read⟩ | ⟨-, -, read⟩ | ⟨-, -, -, read⟩
  · rw [read]
    exact .nil
  · rw [read]
    exact .nil
  · rw [read, Line.field, List.getD_eq_getElem?_getD]
    cases found : (Declaration.extract line).columns[column]? with
    | none => exact .nil
    | some field => exact (wellCut_extract plain).plain field (List.mem_of_getElem? found)

/-- A line asks for no less where more lines are laid out with it. -/
theorem Measures.Le.narrower_lay {m others : Measures} (le : m.Le others) {line : Line}
    (plain : ∀ column, Plain (line.field column)) :
    Narrower (demands (m.lay line)) (demands (others.lay line)) := by
  have arrayField (widths : List Range.GroupWidth) :
      (Range.layoutLine Declaration.vectorColumn widths line).field Declaration.arrayColumn =
        line.field Declaration.arrayColumn := Range.field_layoutLine (by decide) widths line
  have assignmentField (vectors arrays : List Range.GroupWidth) :
      (Range.layoutLine Declaration.arrayColumn arrays
        (Range.layoutLine Declaration.vectorColumn vectors line)).field
          Declaration.assignmentColumn = line.field Declaration.assignmentColumn := by
    rw [Range.field_layoutLine (by decide), Range.field_layoutLine (by decide)]
  refine Assignment.narrower_layoutLine le.anyAssignment le.assignments ?_ ?_
    (Range.narrower_layoutLine le.arrays ?_ ?_
      (Range.narrower_layoutLine le.vectors rfl (plain _) (.refl _)))
  · rw [assignmentField, assignmentField]
  · rw [assignmentField]
    exact plain _
  · rw [arrayField, arrayField]
  · rw [arrayField]
    exact plain _

/-- Adding lines to a block takes no column away and makes none narrower. -/
theorem blockAnchors_append_le {block extra : List Text}
    (plain : ∀ line ∈ block ++ extra, Plain line) :
    (blockAnchors block).length ≤ (blockAnchors (block ++ extra)).length ∧
      ∀ column, (blockAnchors block).getD column 0 ≤
        (blockAnchors (block ++ extra)).getD column 0 := by
  have narrower : Narrower (blockAnchors block) (blockAnchors (block ++ extra)) := by
    have le := measures_append_le (readLines block) (readLines extra)
    have whole : readLines (block ++ extra) = readLines block ++ readLines extra :=
      List.map_append
    rw [blockAnchors_eq, blockAnchors_eq, whole, alignDeclarationColumns_measures,
      alignDeclarationColumns_measures, anchors_demands, anchors_demands, List.map_append,
      List.map_append, List.foldl_append]
    refine ((Narrower.refl []).foldl ?_).trans (narrower_foldl _ _)
    rw [List.forall₂_map_left_iff, List.forall₂_map_right_iff, List.forall₂_map_left_iff,
      List.forall₂_map_right_iff, List.forall₂_same]
    intro line member
    obtain ⟨text, listed, rfl⟩ := List.mem_map.mp member
    exact le.narrower_lay
      (plain_field_classify (plain text (List.mem_append_left _ listed)) 0)
  exact ⟨narrower.length_le, narrower.getD_le⟩

theorem blockAnchors_append_le_assignment :
    let block : List Text := Text.literals ["reg [7:0] a [0:3];", "wire b;"]
    let extra : List Text := Text.literals ["c <= d + 1;", "logic [WIDTH-1:0] e;"]
    (∀ line ∈ block ++ extra, Plain line) ∧
      (blockAnchors block).length ≤ (blockAnchors (block ++ extra)).length ∧
      ∀ column, (blockAnchors block).getD column 0 ≤
        (blockAnchors (block ++ extra)).getD column 0 := by
  have plain : ∀ line ∈ Text.literals ["reg [7:0] a [0:3];", "wire b;"] ++
      Text.literals ["c <= d + 1;", "logic [WIDTH-1:0] e;"], Plain line := by
    decide +kernel
  exact ⟨plain, blockAnchors_append_le plain⟩

end HdlAlign.Block
