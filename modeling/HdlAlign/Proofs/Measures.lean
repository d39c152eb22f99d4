import HdlAlign.Proofs.LineStructure

/-! What a block of declarations is laid out by: the widths of its dimension lists, of its operators
and of its right-hand sides.  They are taken from the fields of the classified lines, before any
pass has changed them, and the indexes of the lines do not matter. -/

namespace HdlAlign.Columns

variable {α : Type} [SemilatticeSup α]

/-- Columns that are as wide as two lists of columns ask for. -/
def merge : List α → List α → List α
  | widths, [] => widths
  | [], others => others
  | width :: widths, other :: others => (width ⊔ other) :: merge widths others

theorem merge_nil_left (widths : List α) : merge [] widths = widths := by
  cases widths <;> rfl

theorem merge_right_comm (widths first second : List α) :
    merge (merge widths first) second = merge (merge widths second) first := by
  induction widths generalizing first second with
  | nil =>
      rw [merge_nil_left, merge_nil_left]
      induction first generalizing second with
      | nil => rw [merge_nil_left, merge]
      | cons width first ih =>
          cases second with
          | nil => rfl
          | cons other second => rw [merge, merge, sup_comm, ih]
  | cons width widths ih =>
      cases first with
      | nil => cases second <;> rfl
      | cons first others =>
          cases second with
          | nil => rfl
          | cons second rest => rw [merge, merge, merge, merge, sup_right_comm, ih]

end HdlAlign.Columns

namespace HdlAlign.Line

def unnumbered : Line → Line
  | aligned fields _ => aligned fields 0
  | verbatim text _ => verbatim text 0

@[simp] theorem field_unnumbered (line : Line) (column : Nat) :
    line.unnumbered.field column = line.field column := by
  cases line <;> rfl

@[simp] theorem isAligned_unnumbered (line : Line) :
    line.unnumbered.isAligned = line.isAligned := by
  cases line <;> rfl

@[simp] theorem unnumbered_withField (line : Line) (column : Nat) (value : Text) :
    (line.withField column value).unnumbered = line.unnumbered.withField column value := by
  cases line <;> rfl

@[simp] theorem render_unnumbered (line : Line) (anchors : List Nat) (indent : Text) :
    line.unnumbered.render anchors indent = line.render anchors indent := by
  cases line <;> rfl

theorem unnumbered_classify (grammar : Grammar) (line : Text) (source : Int) :
    (grammar.classify line source).unnumbered = grammar.classify line 0 := by
  unfold Grammar.classify
  split
  · rfl
  · split <;> rfl

end HdlAlign.Line

namespace HdlAlign.Range

variable {column other : Nat}

def Group.widths (group : Group) : GroupWidth := (group.left.width, group.right.width)

theorem widen_eq (widths : List GroupWidth) (groups : List Group) :
    widen widths groups = Columns.merge widths (groups.map Group.widths) := by
  fun_induction widen widths groups with
  | case1 => rw [List.map_nil, Columns.merge]
  | case2 group groups ih =>
      rw [ih, Columns.merge_nil_left, List.map_cons, Columns.merge_nil_left, Group.widths]
  | case3 left right widths group groups ih =>
      rw [ih, List.map_cons, Columns.merge]
      rfl

@[simp] theorem cell_unnumbered (line : Line) : cell column line.unnumbered = cell column line := by
  rw [cell, cell, Line.field_unnumbered]

theorem unnumbered_layoutLine (widths : List GroupWidth) (line : Line) :
    (layoutLine column widths line).unnumbered = layoutLine column widths line.unnumbered := by
  rw [layoutLine, layoutLine, cell_unnumbered]
  split
  · exact line.unnumbered_withField _ _
  · rfl

@[simp] theorem lists_unnumbered (lines : List Line) :
    lists column (lines.map Line.unnumbered) = lists column lines := by
  rw [lists, lists, List.filterMap_map]
  exact congrArg (List.filterMap · lines) (funext fun line => by
    rw [Function.comp_apply, cell_unnumbered])

theorem lists_alignColumn (differ : column ≠ other) (lines : List Line) :
    lists other (alignColumn column lines) = lists other lines := by
  rw [lists, lists, alignColumn, List.filterMap_map]
  refine congrArg (List.filterMap · lines) (funext fun line => ?_)
  rw [Function.comp_apply, cell, cell, field_layoutLine differ]

end HdlAlign.Range

namespace HdlAlign.Assignment

variable {column other : Nat}

@[simp] theorem assignments_unnumbered (lines : List Line) :
    assignments column (lines.map Line.unnumbered) = assignments column lines := by
  rw [assignments, assignments, List.filterMap_map]
  refine congrArg (List.filterMap · lines) (funext fun line => ?_)
  rw [Function.comp_apply, Line.isAligned_unnumbered, Line.field_unnumbered]

theorem unnumbered_layoutLine (anyAssignment : Bool) (widths : Widths) (line : Line) :
    (layoutLine column anyAssignment widths line).unnumbered =
      layoutLine column anyAssignment widths line.unnumbered := by
  rw [layoutLine, layoutLine, Line.unnumbered_withField, Line.field_unnumbered]

theorem assignments_alignColumn (differ : other ≠ column) (lines : List Line) :
    assignments column (Range.alignColumn other lines) = assignments column lines := by
  rw [assignments, assignments, Range.alignColumn, List.filterMap_map]
  refine congrArg (List.filterMap · lines) (funext fun line => ?_)
  rw [Function.comp_apply, Range.isAligned_layoutLine, Range.field_layoutLine differ]

end HdlAlign.Assignment

namespace HdlAlign.Batch

theorem widen_eq (anchors : List Nat) (fields : List Text) :
    widen anchors fields = Columns.merge anchors (fields.map demand) := by
  fun_induction widen anchors fields with
  | case1 => rw [List.map_nil, Columns.merge]
  | case2 field fields ih =>
      rw [ih, Columns.merge_nil_left, List.map_cons, Columns.merge_nil_left]
  | case3 anchor anchors field fields ih => rw [ih, List.map_cons, Columns.merge]

end HdlAlign.Batch

namespace HdlAlign.Block

open Text Statement

structure Measures where
  vectors : List Range.GroupWidth
  arrays : List Range.GroupWidth
  anyAssignment : Bool
  assignments : Assignment.Widths

def measures (lines : List Line) : Measures where
  vectors := Range.columnWidths Declaration.vectorColumn lines
  arrays := Range.columnWidths Declaration.arrayColumn lines
  anyAssignment := !(Assignment.assignments Declaration.assignmentColumn lines).isEmpty
  assignments := Assignment.widths (Assignment.assignments Declaration.assignmentColumn lines)

def Measures.lay (m : Measures) (line : Line) : Line :=
  Assignment.layoutLine Declaration.assignmentColumn m.anyAssignment m.assignments
    (Range.layoutLine Declaration.arrayColumn m.arrays
      (Range.layoutLine Declaration.vectorColumn m.vectors line))

/-- No pass changes what the next one measures. -/
theorem laidOut_eq (lines : List Line) : laidOut lines = (measures lines).lay := by
  funext line
  rw [laidOut, Measures.lay, measures, Assignment.assignments_alignColumn (by decide),
    Assignment.assignments_alignColumn (by decide)]
  simp only [Range.columnWidths]
  rw [Range.lists_alignColumn (by decide)]

theorem alignDeclarationColumns_measures (lines : List Line) :
    alignDeclarationColumns lines = lines.map (measures lines).lay := by
  rw [alignDeclarationColumns_eq, laidOut_eq]

theorem Measures.unnumbered_lay (m : Measures) (line : Line) :
    (m.lay line).unnumbered = m.lay line.unnumbered := by
  rw [lay, lay, Assignment.unnumbered_layoutLine, Range.unnumbered_layoutLine,
    Range.unnumbered_layoutLine]

theorem measures_unnumbered (lines : List Line) :
    measures (lines.map Line.unnumbered) = measures lines := by
  simp only [measures, Range.columnWidths, Range.lists_unnumbered,
    Assignment.assignments_unnumbered]

theorem anchors_unnumbered (lines : List Line) :
    Batch.anchors (lines.map Line.unnumbered) = Batch.anchors lines := by
  rw [Batch.anchors, Batch.anchors, List.foldl_map]
  refine congrArg (List.foldl · [] lines) (funext fun widths => funext fun line => ?_)
  cases line <;> rfl

def readLines (lines : List Text) : List Line :=
  lines.map fun line => Grammar.declaration.classify line 0

def blockAnchors (lines : List Text) : List Nat :=
  Batch.anchors (alignDeclarationColumns (lines.zipIdx.map fun (line, index) =>
    Grammar.declaration.classify line index))

theorem anchors_alignDeclarationColumns_unnumbered (lines : List Line) :
    Batch.anchors (alignDeclarationColumns (lines.map Line.unnumbered)) =
      Batch.anchors (alignDeclarationColumns lines) := by
  have lay : (measures lines).lay ∘ Line.unnumbered =
      Line.unnumbered ∘ (measures lines).lay :=
    funext fun line => ((measures lines).unnumbered_lay line).symm
  rw [alignDeclarationColumns_measures, alignDeclarationColumns_measures, measures_unnumbered,
    List.map_map, lay, ← List.map_map, anchors_unnumbered]

theorem blockAnchors_eq (lines : List Text) :
    blockAnchors lines = Batch.anchors (alignDeclarationColumns (readLines lines)) := by
  rw [blockAnchors, ← anchors_alignDeclarationColumns_unnumbered, List.map_map, readLines]
  conv => rhs; arg 1; arg 1; rw [← List.zipIdx_map_fst 0 lines, List.map_map]
  refine congrArg (fun read => Batch.anchors (alignDeclarationColumns (List.map read _))) ?_
  exact funext fun entry => Line.unnumbered_classify _ _ _

theorem unnumbered_declarationLines (options : Options) (text : Text) :
    (declarationLines options text).map Line.unnumbered =
      readLines (keptLines options.condense text) := by
  rw [declarationLines, readLines, ← numbered_lines options.condense 0, List.map_map, List.map_map]
  exact List.map_congr_left fun entry _ => Line.unnumbered_classify _ _ _

theorem anchors_declarationLines (options : Options) (text : Text) :
    Batch.anchors (alignDeclarationColumns (declarationLines options text)) =
      blockAnchors (keptLines options.condense text) := by
  rw [blockAnchors_eq, ← unnumbered_declarationLines, anchors_alignDeclarationColumns_unnumbered]

end HdlAlign.Block
