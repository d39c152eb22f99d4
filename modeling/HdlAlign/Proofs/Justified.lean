import HdlAlign.Proofs.Brackets
import HdlAlign.Proofs.Indices
import HdlAlign.Proofs.Widening

/-! Lining up a column of dimension lists pads their index expressions and changes nothing else.
What was lined up is read as before, so lining it up again has no effect. -/

namespace HdlAlign.Line

theorem withField_withField (line : Line) (column : Nat) (first second : Text) :
    (line.withField column first).withField column second = line.withField column second := by
  cases line with
  | verbatim text source => rfl
  | aligned fields source => rw [withField, withField, withField, List.set_set]

end HdlAlign.Line

namespace HdlAlign.Range

open Text Columns

/-! What is written in a column is read again. -/

structure IsBound (text : Text) : Prop where
  unmarked : Unmarked text
  trimmed : trimSpaces text = text

theorem Pairs.unmarked {pairs : List Group} {text : Text} (written : Pairs pairs text) :
    ∀ pair ∈ pairs, Unmarked pair.left ∧ Unmarked pair.right := by
  induction written with
  | nil => exact fun pair member => by cases member
  | cons leftUnmarked rightUnmarked _ _ ih =>
      exact List.forall_mem_cons.mpr ⟨⟨leftUnmarked, rightUnmarked⟩, ih⟩

theorem isBound_trimSpaces {text : Text} (unmarked : Unmarked text) : IsBound (trimSpaces text) :=
  ⟨fun byte member => unmarked byte (trimSpaces_subset text member), trimSpaces_trimSpaces text⟩

theorem bounds_of_parse {field : Text} {groups : List Group} (read : parse field = .ok groups) :
    ∀ group ∈ groups, IsBound group.left ∧ IsBound group.right := by
  obtain ⟨pairs, ⟨-, _, _, -, written, -⟩, rfl⟩ := parse_eq_ok_iff.mp read
  intro group member
  obtain ⟨pair, listed, rfl⟩ := List.mem_map.mp member
  obtain ⟨left, right⟩ := written.unmarked pair listed
  exact ⟨isBound_trimSpaces left, isBound_trimSpaces right⟩

theorem renderGroup_eq (group : Group) (width : GroupWidth) :
    renderGroup group width = ('[' : UInt8) :: (group.left.padLeft width.1 ++
      (':' : UInt8) :: (group.right.padLeft width.2 ++ [(']' : UInt8)])) := by
  have opening : ofString "[" = [('[' : UInt8)] := by decide
  have colon : ofString ":" = [(':' : UInt8)] := by decide
  have closing : ofString "]" = [(']' : UInt8)] := by decide
  rw [renderGroup, opening, colon, closing]
  simp

theorem IsBound.unmarked_padLeft {text : Text} (bound : IsBound text) (columns : Nat) :
    Unmarked (text.padLeft columns) :=
  (unmarked_of_spaces (.blanks _)).append bound.unmarked

theorem IsBound.trimSpaces_padLeft {text : Text} (bound : IsBound text) (columns : Nat) :
    trimSpaces (text.padLeft columns) = text := by
  have between := trimSpaces_between (.blanks (columns - text.width)) .nil text
  rw [List.append_nil, bound.trimmed] at between
  exact between

section

variable {groups : List Group} {widths : List GroupWidth}
  (bounds : ∀ group ∈ groups, IsBound group.left ∧ IsBound group.right)
  (wide : groups.length ≤ widths.length)

include bounds wide

theorem pairs_render : Pairs (groups.zipWith Group.padded widths) (render groups widths) := by
  induction groups generalizing widths with
  | nil => exact .nil
  | cons group groups ih =>
      cases widths with
      | nil => cases wide
      | cons width widths =>
          obtain ⟨⟨left, right⟩, others⟩ := List.forall_mem_cons.mp bounds
          have behind := ih others (Nat.le_of_succ_le_succ wide)
          have written := Pairs.cons (left.unmarked_padLeft width.1)
            (right.unmarked_padLeft width.2) .nil behind
          rw [render_cons, renderGroup_eq, List.zipWith_cons_cons, Group.padded]
          simpa using written

theorem trimmed_padded : (groups.zipWith Group.padded widths).map Group.trimmed = groups := by
  induction groups generalizing widths with
  | nil => rfl
  | cons group groups ih =>
      cases widths with
      | nil => cases wide
      | cons width widths =>
          obtain ⟨⟨left, right⟩, others⟩ := List.forall_mem_cons.mp bounds
          rw [List.zipWith_cons_cons, List.map_cons, ih others (Nat.le_of_succ_le_succ wide),
            Group.padded, Group.trimmed, left.trimSpaces_padLeft, right.trimSpaces_padLeft]

end

theorem parse_render {field : Text} {groups : List Group} (read : parse field = .ok groups)
    {widths : List GroupWidth} (wide : groups.length ≤ widths.length) :
    parse (render groups widths) = .ok groups := by
  have bounds := bounds_of_parse read
  have same := trimmed_padded bounds wide
  refine parse_eq_ok_iff.mpr ⟨_, ⟨fun none => ?_, [], _, .nil, pairs_render bounds wide, rfl⟩, same⟩
  rw [none] at same
  exact (parse_eq_ok read).1 same.symm

/-! The lines of a column. -/

/-- A line whose field of the column is a dimension list has this field replaced by one that is read
as the same groups; every other line is kept. -/
inductive Repadded (column : Nat) : Line → Line → Prop
  | kept {line : Line} (unread : ∀ groups, parse (line.field column) ≠ .ok groups) :
      Repadded column line line
  | padded {fields : List Text} {source : Int} {value : Text} {groups : List Group}
      (inside : column < fields.length) (read : parse fields[column] = .ok groups)
      (again : parse value = .ok groups) :
      Repadded column (.aligned fields source) (.aligned (fields.set column value) source)

theorem repadded_layoutLine {column : Nat} {lines : List Line} {line : Line}
    (member : line ∈ lines) :
    Repadded column line (layoutLine column (columnWidths column lines) line) := by
  have kept (unlisted : ∀ groups, cell column line ≠ .list groups) : Repadded column line line :=
    .kept fun groups read => unlisted groups (cell_eq_list_iff.mpr read)
  cases found : cell column line with
  | absent =>
      rw [layoutLine, found]
      exact kept fun groups listed => by simp [found] at listed
  | unparsed =>
      rw [layoutLine, found]
      exact kept fun groups listed => by simp [found] at listed
  | list groups =>
      have read := cell_eq_list_iff.mp found
      have listed : groups ∈ lists column lines := mem_lists.mpr ⟨line, member, read⟩
      have again := parse_render read (length_le_columnWidths listed)
      rw [layoutLine, found]
      cases line with
      | verbatim text source => cases read
      | aligned fields source =>
          have inside := lt_length_of_parse read
          rw [Line.field, List.getD_eq_getElem _ _ inside] at read
          exact .padded inside read again

namespace Repadded

variable {column : Nat} {old new : Line}

theorem source (repadded : Repadded column old new) : new.source = old.source := by
  cases repadded <;> rfl

theorem cell (repadded : Repadded column old new) : cell column new = cell column old := by
  cases repadded with
  | kept => rfl
  | @padded fields source value groups inside read again =>
      have new : parse ((Line.aligned (fields.set column value) source).field column) =
          .ok groups := by
        simpa [Line.field, inside] using again
      have old : parse ((Line.aligned fields source).field column) = .ok groups := by
        simpa [Line.field, inside] using read
      rw [cell_eq_list_iff.mpr new, cell_eq_list_iff.mpr old]

theorem unparsedSource (repadded : Repadded column old new) :
    unparsedSource column new = unparsedSource column old := by
  rw [Range.unparsedSource, Range.unparsedSource, repadded.cell, repadded.source]

end Repadded

/-! Lining up a second time. -/

section

variable (column : Nat) (lines : List Line)

theorem lists_alignColumn_self : lists column (alignColumn column lines) = lists column lines := by
  rw [lists, lists, alignColumn, List.filterMap_map]
  exact List.filterMap_congr fun line member =>
    congrArg Cell.list? (repadded_layoutLine member).cell

theorem columnWidths_alignColumn :
    columnWidths column (alignColumn column lines) = columnWidths column lines := by
  rw [columnWidths, columnWidths, lists_alignColumn_self]

theorem stats_alignColumn : stats column (alignColumn column lines) = stats column lines := by
  have unparsed : (alignColumn column lines).filterMap (unparsedSource column) =
      lines.filterMap (unparsedSource column) := by
    rw [alignColumn, List.filterMap_map]
    exact List.filterMap_congr fun line member => (repadded_layoutLine member).unparsedSource
  rw [stats, stats, lists_alignColumn_self, unparsed]

theorem layoutLine_layoutLine {widths : List GroupWidth} {line : Line}
    (same : cell column (layoutLine column widths line) = cell column line) :
    layoutLine column widths (layoutLine column widths line) = layoutLine column widths line := by
  conv_lhs => rw [layoutLine, same]
  rw [layoutLine]
  cases cell column line with
  | list groups => exact line.withField_withField column _ _
  | absent | unparsed => rfl

theorem alignColumn_alignColumn :
    alignColumn column (alignColumn column lines) = alignColumn column lines := by
  conv_lhs => rw [alignColumn, columnWidths_alignColumn, alignColumn, List.map_map]
  exact List.map_congr_left fun line member =>
    layoutLine_layoutLine column (repadded_layoutLine member).cell

end

/-! Where index expressions end. -/

def endsIndex (byte : UInt8) : Bool := byte == (':' : UInt8) || byte == (']' : UInt8)

/-- The index expression of a number ends in front of a byte of a field.  This byte is the colon or
closing bracket that as many of them precede. -/
def EndsAt (field : Text) (number : Nat) (index : Text) (stop : Nat) : Prop :=
  ∃ front mark behind, field = front ++ (index ++ mark :: behind) ∧ endsIndex mark ∧
    (front ++ index).countP endsIndex = number ∧ (front ++ index).length = stop

theorem EndsAt.behind {field index : Text} {number stop : Nat}
    (ends : EndsAt field number index stop) (text : Text) :
    EndsAt (text ++ field) (text.countP endsIndex + number) index (text.length + stop) := by
  obtain ⟨front, mark, behind, rfl, isMark, rfl, rfl⟩ := ends
  exact ⟨text ++ front, mark, behind, by simp, isMark, by simp, by simp⟩

theorem Unmarked.countP {text : Text} (unmarked : Unmarked text) : text.countP endsIndex = 0 := by
  have unlike : ∀ byte, Token.ofByte? byte = none → ¬endsIndex byte :=
    forall_byte (by decide +kernel)
  exact List.countP_eq_zero.mpr fun byte member => unlike byte (unmarked byte member)

theorem IsBound.endsAt {index : Text} (bound : IsBound index) {columns : Nat}
    (filled : (index.padLeft columns).length = columns) {mark : UInt8} (isMark : endsIndex mark)
    (behind : Text) : EndsAt (index.padLeft columns ++ mark :: behind) 0 index columns :=
  ⟨blanks (columns - index.width), mark, behind, by rw [padLeft, List.append_assoc], isMark,
    (bound.unmarked_padLeft columns).countP, filled⟩

def stops : List GroupWidth → List Nat
  | [] => []
  | (left, right) :: widths =>
    (left + 1) :: (left + right + 2) :: (stops widths).map (left + right + 3 + ·)

@[simp] theorem endsIndex_opening : endsIndex ('[' : UInt8) = false := rfl

@[simp] theorem endsIndex_colon : endsIndex (':' : UInt8) = true := rfl

@[simp] theorem endsIndex_closing : endsIndex (']' : UInt8) = true := rfl

structure Fills (group : Group) (width : GroupWidth) : Prop where
  bounds : IsBound group.left ∧ IsBound group.right
  left : (group.left.padLeft width.1).length = width.1
  right : (group.right.padLeft width.2).length = width.2

namespace Fills

variable {group : Group} {width : GroupWidth}

theorem of_plain (bounds : IsBound group.left ∧ IsBound group.right)
    (plain : Plain group.left ∧ Plain group.right) (le : group.widths ≤ width) :
    Fills group width where
  bounds := bounds
  left := plain.1.length_padLeft (plain.1.width ▸ le.1)
  right := plain.2.length_padLeft (plain.2.width ▸ le.2)

variable (fills : Fills group width)

include fills

theorem length_renderGroup : (renderGroup group width).length = width.1 + width.2 + 3 := by
  simp only [renderGroup_eq, List.length_cons, List.length_append, fills.left, fills.right,
    List.length_nil]
  omega

theorem countP_renderGroup : (renderGroup group width).countP endsIndex = 2 := by
  have left := (fills.bounds.1.unmarked_padLeft width.1).countP
  have right := (fills.bounds.2.unmarked_padLeft width.2).countP
  simp [renderGroup_eq, List.countP_cons, left, right]

theorem endsAt_left (behind : Text) :
    EndsAt (renderGroup group width ++ behind) 0 group.left (width.1 + 1) := by
  have ends := (fills.bounds.1.endsAt fills.left endsIndex_colon
    (group.right.padLeft width.2 ++ (']' : UInt8) :: behind)).behind [('[' : UInt8)]
  simpa [renderGroup_eq, Nat.add_comm] using ends

theorem endsAt_right (behind : Text) :
    EndsAt (renderGroup group width ++ behind) 1 group.right (width.1 + width.2 + 2) := by
  have ends := (fills.bounds.2.endsAt fills.right endsIndex_closing behind).behind
    (('[' : UInt8) :: (group.left.padLeft width.1 ++ [(':' : UInt8)]))
  have none := (fills.bounds.1.unmarked_padLeft width.1).countP
  have stop : width.1 + 1 + 1 + width.2 = width.1 + width.2 + 2 := by omega
  simpa [renderGroup_eq, fills.left, none, stop] using ends

end Fills

theorem endsAt_render {groups : List Group} {widths : List GroupWidth}
    (bounds : ∀ group ∈ groups, IsBound group.left ∧ IsBound group.right)
    (plain : ∀ group ∈ groups, Plain group.left ∧ Plain group.right)
    (wide : Narrower (groups.map Group.widths) widths) {number : Nat} {index : Text}
    (listed : (indexes groups)[number]? = some index) :
    ∃ stop, (stops widths)[number]? = some stop ∧
      EndsAt (render groups widths) number index stop := by
  induction groups generalizing widths number with
  | nil => cases listed
  | cons group groups ih =>
      cases wide with
      | @cons _ width _ widths le wide =>
          obtain ⟨headBounds, bounds⟩ := List.forall_mem_cons.mp bounds
          obtain ⟨headPlain, plain⟩ := List.forall_mem_cons.mp plain
          have fills := Fills.of_plain headBounds headPlain le
          rw [render_cons]
          match number with
          | 0 =>
              cases listed
              exact ⟨_, rfl, fills.endsAt_left _⟩
          | 1 =>
              cases listed
              exact ⟨_, rfl, fills.endsAt_right _⟩
          | number + 2 =>
              have inner : (indexes groups)[number]? = some index := listed
              obtain ⟨stop, found, ends⟩ := ih bounds plain wide inner
              have behind := ends.behind (renderGroup group width)
              rw [fills.countP_renderGroup, fills.length_renderGroup, Nat.add_comm 2] at behind
              exact ⟨_, by simp [stops, found], behind⟩

theorem plain_of_parse {field : Text} (plain : Plain field) {groups : List Group}
    (read : parse field = .ok groups) : ∀ group ∈ groups, Plain group.left ∧ Plain group.right := by
  intro group member
  have inside : Plain group.text := plain.subset fun byte written =>
    (moved_groups read).2.1 (List.mem_flatMap.mpr ⟨group, member, written⟩)
  exact ⟨inside.subset group.left_subset_text, inside.subset group.right_subset_text⟩

theorem endsAt_layoutLine {column : Nat} {lines : List Line} {line : Line} (member : line ∈ lines)
    (plain : Plain (line.field column)) {groups : List Group}
    (read : parse (line.field column) = .ok groups) {number : Nat} {index : Text}
    (listed : (indexes groups)[number]? = some index) :
    EndsAt ((layoutLine column (columnWidths column lines) line).field column) number index
      ((stops (columnWidths column lines)).getD number 0) := by
  have wide := narrower_of_mem_lists (mem_lists.mpr ⟨line, member, read⟩)
  obtain ⟨stop, found, ends⟩ :=
    endsAt_render (bounds_of_parse read) (plain_of_parse plain read) wide listed
  rw [layoutLine, cell_eq_list_iff.mpr read]
  dsimp only
  rw [Line.field_withField (ne_nil_of_parse read), List.getD_eq_getElem?_getD, found]
  exact ends

/-- Lining up a column changes nothing but the padding of the index expressions in its dimension
lists: every other field, every other line and what the lists are read as stay.  On plain fields the
index expressions of a number end at the same byte of every line that has one.  Lining up once more
changes nothing, and finds what was found before. -/
theorem alignColumn_justified (column : Nat) (lines : List Line) :
    List.Forall₂ (Repadded column) lines (alignColumn column lines) ∧
      (∃ stop : Nat → Nat, List.Forall₂ (fun old new => Plain (old.field column) →
        ∀ groups, parse (old.field column) = .ok groups →
          ∀ number index, (indexes groups)[number]? = some index →
            EndsAt (new.field column) number index (stop number))
        lines (alignColumn column lines)) ∧
      alignColumn column (alignColumn column lines) = alignColumn column lines ∧
      stats column (alignColumn column lines) = stats column lines := by
  refine ⟨?_, ⟨fun number => (stops (columnWidths column lines)).getD number 0, ?_⟩,
    alignColumn_alignColumn column lines, stats_alignColumn column lines⟩
  · exact List.forall₂_map_right_iff.mpr (List.forall₂_same.mpr fun line member =>
      repadded_layoutLine member)
  · exact List.forall₂_map_right_iff.mpr (List.forall₂_same.mpr fun line member plain groups read
      number index listed => endsAt_layoutLine member plain read listed)

theorem alignColumn_justified_mixed :
    let lines : List Line :=
      [.aligned (Text.literals ["reg", "[7:0]"]) 0, .verbatim "// state" 1,
        .aligned (Text.literals ["wire", "[ W - 1 : 0][:3]"]) 2,
        .aligned (Text.literals ["bit", "[5]"]) 3]
    let aligned : List Line :=
      [.aligned (Text.literals ["reg", "[    7:0]"]) 0, .verbatim "// state" 1,
        .aligned (Text.literals ["wire", "[W - 1:0][:3]"]) 2,
        .aligned (Text.literals ["bit", "[5]"]) 3]
    alignColumn 1 lines = aligned ∧ alignColumn 1 aligned = aligned ∧
      ∃ stop, EndsAt "[    7:0]" 0 "7" stop ∧ EndsAt "[W - 1:0][:3]" 0 "W - 1" stop := by
  intro lines aligned
  have same : alignColumn 1 lines = aligned := by decide +kernel
  obtain ⟨-, ⟨stop, each⟩, again, -⟩ := alignColumn_justified 1 lines
  rw [same] at each again
  obtain ⟨first, rest⟩ := List.forall₂_cons.mp each
  obtain ⟨-, rest⟩ := List.forall₂_cons.mp rest
  obtain ⟨second, -⟩ := List.forall₂_cons.mp rest
  exact ⟨same, again, stop 0,
    first (by decide +kernel) [⟨"7", "0"⟩] (by decide +kernel) 0 "7" rfl,
    second (by decide +kernel) [⟨"W - 1", "0"⟩, ⟨"", "3"⟩] (by decide +kernel) 0 "W - 1" rfl⟩

end HdlAlign.Range
