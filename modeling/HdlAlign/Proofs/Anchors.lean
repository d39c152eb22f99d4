import HdlAlign.Proofs.Boundaries
import HdlAlign.Proofs.Widening

/-! Where the fields of a batch are printed.  The anchor of a column is one more than the width of
its widest field, every field is filled up to the anchor of its column, and so a column begins at
one byte of all lines that have it, however many fields they have. -/

namespace HdlAlign.Columns

theorem getD_merge (widths others : List Nat) (column : Nat) :
    (merge widths others).getD column 0 = max (widths.getD column 0) (others.getD column 0) := by
  fun_induction merge widths others generalizing column with
  | case1 => simp
  | case2 => simp
  | case3 width widths other others ih =>
      cases column with
      | zero => rfl
      | succ column => exact ih column

theorem length_merge {α : Type} [SemilatticeSup α] (widths others : List α) :
    (merge widths others).length = max widths.length others.length := by
  fun_induction merge widths others with
  | case1 => simp
  | case2 => simp
  | case3 width widths other others ih => simp [ih]

end HdlAlign.Columns

namespace HdlAlign.Text

/-- A field begins at a byte of a line, and a blank or the end of the line follows it.  A line that
ends with a field ends without the blanks of the field. -/
def BeginsAt (field : Text) (start : Nat) (line : Text) : Prop :=
  ∃ front, front.length = start ∧
    ((∃ rest, line = front ++ (field ++ blank :: rest)) ∨
      line = front ++ dropTailWhile isIndent field)

theorem beginsAt_dropTailWhile {field : Text} (visible : ∃ byte ∈ field, isIndent byte = false)
    (front rest : Text) :
    BeginsAt field front.length (dropTailWhile isIndent (front ++ (field ++ blank :: rest))) := by
  refine ⟨front, rfl, ?_⟩
  -- Blanks alone behind the field are dropped with its own; anything else keeps the blank there.
  by_cases ends : ∀ byte ∈ rest, isIndent byte
  · obtain ⟨byte, inside, stays⟩ := visible
    obtain ⟨left, right, rfl⟩ := List.append_of_mem inside
    have blanks : ∀ byte ∈ blank :: rest, isIndent byte :=
      List.forall_mem_cons.mpr ⟨rfl, ends⟩
    right
    rw [← List.append_assoc, dropTailWhile_append_of_forall blanks, ← List.append_assoc,
      dropTailWhile_append_cons stays, dropTailWhile_append_cons stays, List.append_assoc]
  · obtain ⟨byte, inside, stays⟩ : ∃ byte ∈ rest, isIndent byte = false := by
      simpa using ends
    obtain ⟨left, right, rfl⟩ := List.append_of_mem inside
    have whole : front ++ (field ++ blank :: (left ++ byte :: right)) =
        (front ++ (field ++ blank :: left)) ++ byte :: right := by
      simp
    left
    rw [whole, dropTailWhile_append_cons stays]
    exact ⟨left ++ byte :: dropTailWhile isIndent right, by simp⟩

end HdlAlign.Text

namespace HdlAlign.Writer

open Text

theorem text_line (w : Writer) (begun : 0 < w.lines) (s : Text) :
    (w.line s).text = unlines [w.text, s] := by
  rw [line, if_pos begun]
  simp [write, byte, unlines, join]

theorem text_foldl_line_of_begun (w : Writer) (begun : 0 < w.lines) (pieces : List Text) :
    (pieces.foldl line w).text = unlines (w.text :: pieces) := by
  induction pieces generalizing w with
  | nil => simp [unlines, join]
  | cons piece pieces ih =>
      rw [List.foldl_cons, ih (w.line piece) (Nat.succ_pos _), text_line w begun,
        unlines_unlines (by simp)]
      rfl

theorem text_foldl_line (pieces : List Text) :
    (pieces.foldl line {}).text = unlines pieces := by
  cases pieces with
  | nil => rfl
  | cons piece pieces => exact text_foldl_line_of_begun _ Nat.one_pos pieces

end HdlAlign.Writer

namespace HdlAlign.Line

open Text

theorem padded_eq (fields : List Text) (anchors : List Nat) :
    padded fields anchors =
      (fields.mapIdx fun column field => field.padRight (anchors.getD column 0)).flatten := by
  fun_induction padded fields anchors with
  | case1 => rfl
  | case2 field fields ih => simp [ih, padRight, blanks]
  | case3 field fields anchor anchors ih => simp [ih]

end HdlAlign.Line

namespace HdlAlign.Batch

open Text Columns

def columnCount : List Line → Nat
  | [] => 0
  | .aligned fields _ :: lines => max fields.length (columnCount lines)
  | .verbatim _ _ :: lines => columnCount lines

def widest (column : Nat) : List Line → Nat
  | [] => 0
  | .aligned fields _ :: lines => max (fields.getD column []).width (widest column lines)
  | .verbatim _ _ :: lines => widest column lines

/-- The room of a column: a blank behind the widest field, or nothing if no field shows. -/
def anchor (lines : List Line) (column : Nat) : Nat :=
  if widest column lines = 0 then 0 else widest column lines + 1

def cells (lines : List Line) (fields : List Text) : Text :=
  (fields.mapIdx fun column field => field ++ blanks (anchor lines column - field.width)).flatten

def laid (batch : Batch) : Line → Text
  | .aligned fields _ => dropTailWhile isIndent (batch.indent ++ cells batch.lines fields)
  | .verbatim text _ => text

def columnStart (batch : Batch) (column : Nat) : Nat :=
  batch.indent.length + ((anchors batch.lines).take column).sum

/-! One line widens every column to its own field, so a run over the lines finds the widest. -/

theorem anchor_cons_aligned (fields : List Text) (source : Int) (lines : List Line) (column : Nat) :
    anchor (.aligned fields source :: lines) column =
      max (demand (fields.getD column [])) (anchor lines column) := by
  rw [anchor, anchor, demand, widest]
  split_ifs <;> omega

theorem getD_foldl_merge (lines : List Line) (start : List Nat) (column : Nat) :
    ((lines.map demands).foldl merge start).getD column 0 =
      max (start.getD column 0) (anchor lines column) := by
  induction lines generalizing start with
  | nil => exact (Nat.max_zero _).symm
  | cons line lines ih =>
      rw [List.map_cons, List.foldl_cons, ih, getD_merge, Nat.max_assoc]
      cases line with
      | aligned fields source =>
          have asked : (fields.map demand).getD column 0 = demand (fields.getD column []) :=
            List.getD_map fields [] demand
          rw [demands, asked, anchor_cons_aligned]
      | verbatim text source => exact congrArg _ (Nat.zero_max _)

theorem length_foldl_merge (lines : List Line) (start : List Nat) :
    ((lines.map demands).foldl merge start).length = max start.length (columnCount lines) := by
  induction lines generalizing start with
  | nil => exact (Nat.max_zero _).symm
  | cons line lines ih =>
      rw [List.map_cons, List.foldl_cons, ih, length_merge, Nat.max_assoc]
      cases line with
      | aligned fields source => rw [demands, List.length_map, columnCount]
      | verbatim text source => exact congrArg _ (Nat.zero_max _)

theorem getD_anchors (lines : List Line) (column : Nat) :
    (anchors lines).getD column 0 = anchor lines column := by
  rw [anchors_demands, getD_foldl_merge]
  exact Nat.zero_max _

theorem anchors_eq_map_anchor (lines : List Line) :
    anchors lines = (List.range (columnCount lines)).map (anchor lines) := by
  have count : (anchors lines).length = columnCount lines := by
    rw [anchors_demands, length_foldl_merge]
    exact Nat.zero_max _
  refine List.ext_getElem (by simpa using count) fun column inside _ => ?_
  rw [List.getElem_eq_getD 0, getD_anchors, List.getElem_map, List.getElem_range]

/-! Printing the fields in these columns -/

theorem padded_anchors (lines : List Line) (fields : List Text) :
    Line.padded fields (anchors lines) = cells lines fields := by
  rw [Line.padded_eq, cells]
  simp only [getD_anchors, padRight]

theorem render_eq_laid (batch : Batch) (line : Line) :
    line.render (anchors batch.lines) batch.indent = batch.laid line := by
  cases line with
  | aligned fields source => rw [Line.render_aligned, padded_anchors, laid]
  | verbatim text source => rfl

theorem length_front {batch : Batch} {fields : List Text} {source : Int}
    (member : Line.aligned fields source ∈ batch.lines)
    (plain : ∀ field ∈ fields, Plain field) {column : Nat} (inside : column ≤ fields.length) :
    (batch.indent ++ cells batch.lines (fields.take column)).length = batch.columnStart column := by
  have roomy := roomy_anchors member
  rw [← List.take_append_drop column fields] at roomy
  have length := roomy.append.1.length_padded fun field listed =>
    plain field (List.mem_of_mem_take listed)
  rw [List.length_take_of_le inside] at length
  rw [List.length_append, ← padded_anchors, length, columnStart]

theorem exists_cells {lines : List Line} {front back : List Text} {field : Text} {source : Int}
    (member : Line.aligned (front ++ field :: back) source ∈ lines) (shown : field.width ≠ 0) :
    ∃ rest, cells lines (front ++ field :: back) =
      cells lines front ++ (field ++ blank :: rest) := by
  have roomy := roomy_anchors member
  have room := roomy.append.2
  rw [← padded_anchors, roomy.padded_append, padded_anchors]
  generalize (anchors lines).drop front.length = behind at room
  cases behind with
  | nil => exact room.elim
  | cons anchor others =>
      obtain ⟨gap, same⟩ := Nat.exists_eq_add_of_lt (room.1 shown)
      refine ⟨blanks gap ++ Line.padded back others, ?_⟩
      rw [Line.padded, padRight, same, Nat.add_assoc, Nat.add_sub_cancel_left, blanks,
        List.replicate_succ, ← blanks]
      simp

theorem beginsAt_laid {batch : Batch} {fields : List Text} {source : Int}
    (member : Line.aligned fields source ∈ batch.lines) (plain : ∀ field ∈ fields, Plain field)
    {column : Nat} {field : Text} (found : fields[column]? = some field)
    (visible : ∃ byte ∈ field, byte ≠ blank) :
    BeginsAt field (batch.columnStart column) (batch.laid (.aligned fields source)) := by
  obtain ⟨inside, rfl⟩ := List.getElem?_eq_some_iff.mp found
  obtain ⟨byte, listed, dark⟩ := visible
  have plainField : Plain fields[column] := plain _ (List.getElem_mem inside)
  have stays : isIndent byte = false := by
    rw [(blank_of_isPlain (plainField byte listed)).2.1]
    simpa using dark
  have shown : fields[column].width ≠ 0 := by
    rw [plainField.width]
    exact (List.length_pos_of_mem listed).ne'
  have split : fields = fields.take column ++ fields[column] :: fields.drop (column + 1) := by
    rw [← List.drop_eq_getElem_cons inside, List.take_append_drop]
  obtain ⟨rest, whole⟩ := exists_cells (split ▸ member) shown
  rw [← split] at whole
  rw [laid, whole, ← List.append_assoc, ← length_front member plain inside.le]
  exact beginsAt_dropTailWhile ⟨byte, listed, stays⟩ _ _

/-- Rendering a batch places every field behind the anchors of the columns before it.  A column
begins at the same byte of all lines that have it. -/
theorem render_anchored (batch : Batch) :
    anchors batch.lines = (List.range (columnCount batch.lines)).map (anchor batch.lines) ∧
    (∀ line, line.render (anchors batch.lines) batch.indent = batch.laid line) ∧
    batch.render = unlines (batch.lines.map batch.laid) ∧
    batch.render = ((batch.lines.map batch.laid).foldl Writer.line {}).text ∧
    ∀ fields source, Line.aligned fields source ∈ batch.lines → (∀ field ∈ fields, Plain field) →
      (∀ column ≤ fields.length, (batch.indent ++ cells batch.lines (fields.take column)).length =
        batch.columnStart column) ∧
      ∀ column field, fields[column]? = some field → (∃ byte ∈ field, byte ≠ blank) →
        BeginsAt field (batch.columnStart column) (batch.laid (.aligned fields source)) := by
  have printed : batch.render = unlines (batch.lines.map batch.laid) :=
    congrArg unlines (List.map_congr_left fun line _ => render_eq_laid batch line)
  have written := printed.trans (Writer.text_foldl_line _).symm
  refine ⟨anchors_eq_map_anchor _, render_eq_laid batch, printed, written, ?_⟩
  intro fields source member plain
  exact ⟨fun column => length_front member plain, fun column field => beginsAt_laid member plain⟩

theorem render_anchored_comment :
    let fields : List Text := literals ["wire", "", "b", "// c"]
    let batch : Batch :=
      ⟨[.aligned (literals ["reg", "", "a"]) 0, .verbatim (ofString "\t// kept") 1,
        .aligned fields 2], ofString "  "⟩
    Line.aligned fields 2 ∈ batch.lines ∧ (∀ field ∈ fields, Plain field) ∧
      (∃ byte ∈ ofString "// c", byte ≠ blank) ∧ anchors batch.lines = [5, 0, 2, 5] ∧
      batch.render = ofString "  reg  a\n\t// kept\n  wire b // c" ∧
      BeginsAt (ofString "// c") 9 (ofString "  wire b // c") := by
  intro fields batch
  have member : Line.aligned fields 2 ∈ batch.lines := by simp [batch]
  have plain : ∀ field ∈ fields, Plain field := by decide +kernel
  have visible : ∃ byte ∈ ofString "// c", byte ≠ blank := by decide
  obtain ⟨widths, -, printed, -, placed⟩ := render_anchored batch
  have start : batch.columnStart 3 = 9 := by decide +kernel
  have line : batch.laid (.aligned fields 2) = ofString "  wire b // c" := by decide +kernel
  refine ⟨member, plain, visible, widths.trans ?_, printed.trans ?_, ?_⟩
  · decide +kernel
  · decide +kernel
  · rw [← start, ← line]
    exact (placed fields 2 member plain).2 3 _ rfl visible

end HdlAlign.Batch
