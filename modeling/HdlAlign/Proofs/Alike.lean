import HdlAlign.Proofs.Assignments
import HdlAlign.Proofs.Reprinting
import HdlAlign.Proofs.Widening

/-! Lines of a block of declarations that are laid out alike: they hold the same dimension lists and
the same assignments, so that they ask for the same columns and are printed as the same lines. -/

namespace HdlAlign.Text

theorem Starts.collapseRuns {text : Text} (starts : Starts text) (inRun : Bool) :
    Text.collapseRuns inRun text = Text.collapseRuns false text := by
  cases text with
  | nil => rfl
  | cons byte rest =>
      have visible := starts byte rfl
      rw [Text.collapseRuns, Text.collapseRuns, if_neg (by simp [visible]),
        if_neg (by simp [visible])]

theorem normalize_trimSpaces {text : Text} (plain : Plain text) :
    normalize (trimSpaces text) = normalize text := by
  rw [normalize, (plain.subset (trimSpaces_subset text)).trim, trimSpaces_trimSpaces, ← plain.trim,
    ← normalize]

end HdlAlign.Text

namespace HdlAlign.Assignment

open Text

/-! Collapsing the longer runs of blanks in a field changes nothing of the assignment that is read
from it. -/

theorem Operator.collapseRuns {op rest : Text} (operator : Operator op rest) :
    Operator op (Text.collapseRuns false rest) := by
  cases rest with
  | nil => exact operator
  | cons byte rest =>
      cases space : isSpace byte with
      | true =>
          have follows := spaceFollows_collapseRuns false (byte :: rest)
          refine operator.goesOn fun first member => ?_
          obtain ⟨others, same⟩ := List.head?_eq_some_iff.mp member
          rw [same, spaceFollows, spaceFollows, space] at follows
          exact (isSpace_facts follows).1
      | false =>
          rw [Text.collapseRuns, if_neg (by simp [space])]
          cases operator with
          | slash => exact .slash _
          | single arith alone => exact .single arith alone
          | double first second => exact .double first second _

theorem write_widen {text : Text} (follows : spaceFollows text) (gap : Gap) :
    write gap.widen text = write gap text := by
  cases text with
  | nil => cases follows
  | cons byte rest =>
      rw [write_space follows, write_space follows]
      cases gap <;> rfl

theorem write_collapseRuns (gap : Gap) (inRun : Bool) (text : Text) :
    write gap (collapseRuns inRun text) = write gap text := by
  induction text using piece_induction generalizing gap inRun with
  | nil => rfl
  | space a rest space ih =>
      rw [collapseRuns, if_pos space, write_space space]
      cases follows : spaceFollows rest with
      | true => rw [if_pos rfl, ih, write_widen follows]
      | false =>
          have written : isSpace (if inRun then blank else a) := by
            cases inRun
            · exact space
            · exact isSpace_blank
          rw [if_neg Bool.false_ne_true, write_space written, ih]
  | comma rest ih => rw [collapseRuns, if_neg (by decide), write_comma, write_comma, ih]
  | operator op rest operator ih =>
      have visible : ∀ byte ∈ op, isSpace byte = false := fun byte member =>
        (operator.visible byte member).1
      have starts : Starts (op ++ rest) := by
        obtain ⟨byte, others, rfl⟩ := List.exists_cons_of_ne_nil operator.ne_nil
        exact fun byte first => visible byte (by cases first; simp)
      rw [starts.collapseRuns, collapseRuns_append visible, write_operator operator,
        write_operator operator.collapseRuns, ih]
  | inert a rest inert ih =>
      rw [collapseRuns, if_neg (by simp [(isInert_facts inert).1]), write_inert inert,
        write_inert inert, ih]

theorem spaceOperators_collapseRuns (text : Text) :
    spaceOperators (collapseRuns false text) = spaceOperators text := by
  rw [spaceOperators_eq, spaceOperators_eq, respace_eq, respace_eq, write_collapseRuns]

theorem exists_terminator {text body : Text} (plain : Plain text)
    (ends : normalize text = body ++ terminator) : ∃ front, trim text = front ++ terminator := by
  have last : (squeeze (trim text)).getLast? = some (';' : UInt8) := by
    have trimmed : squeeze (trim text) = squeeze text := by rw [plain.trim, squeeze_trimSpaces]
    rw [trimmed, ← squeeze_normalize plain, ends, squeeze_append]
    exact List.getLast?_concat
  obtain ⟨front, tail, split, spaces⟩ := exists_of_getLast?_squeeze last
  have closed : Ends (trim text) := plain.trim ▸ ends_trimSpaces text
  have none : tail = [] := by
    rw [split] at closed
    rcases List.eq_nil_or_concat tail with empty | ⟨init, byte, rfl⟩
    · exact empty
    · have visible := closed byte (by simp [List.getLast?_cons])
      rw [spaces byte (by simp)] at visible
      cases visible
  exact ⟨front, by rw [split, none]; rfl⟩

theorem splitTerminator_normalize {field : Text} (plain : Plain field) :
    splitTerminator (normalize field) =
      ((splitTerminator field).1, collapseRuns false (splitTerminator field).2) := by
  have trimmed : trim (normalize field) = normalize field := by
    have tidy := tidy_normalize plain
    exact trim_alone tidy.plain tidy.starts tidy.ends
  by_cases terminated : ∃ body, trim field = body ++ terminator
  · obtain ⟨body, ends⟩ := terminated
    have plainBody : Plain body := plain.subset fun byte inside =>
      trim_subset field (by rw [ends]; exact List.mem_append_left _ inside)
    have plainCollapsed : Plain (collapseRuns false body) :=
      plainBody.within (collapseRuns_within _ _)
    have whole : trim (normalize field) = collapseRuns false body ++ terminator := by
      rw [trimmed, Text.normalize, ends,
        collapseRuns_append_of_starts (fun byte first => by cases first; rfl)]
      rfl
    rw [splitTerminator_terminated whole, splitTerminator_terminated ends, plainCollapsed.trim,
      trimSpaces_collapseRuns, ← plainBody.trim]
  · have open_ : splitTerminator field = (false, trim field) :=
      splitTerminator_eq_false_iff.mpr ⟨rfl, not_exists.mp terminated⟩
    rw [open_]
    refine splitTerminator_eq_false_iff.mpr ⟨trimmed.symm, fun body ends => terminated ?_⟩
    exact exists_terminator plain (trimmed ▸ ends)

theorem parse?_normalize {field : Text} (plain : Plain field) {value : Assignment}
    (read : parse? field = some value) : parse? (normalize field) = some value := by
  obtain ⟨op, rest, found, rfl⟩ := parse?_eq_some_iff.mp read
  obtain ⟨member, split⟩ := operator?_eq_some_iff.mp found
  have black : ∀ byte ∈ op, isSpace byte = false := fun byte inside =>
    isSpace_of_isBlack (black_of_mem_operators op member byte inside).1
  have again := splitTerminator_normalize plain
  rw [split, collapseRuns_append black] at again
  rw [parse?_of_split member again, spaceOperators_collapseRuns]

end HdlAlign.Assignment

namespace HdlAlign.Range

open Text Statement

def layoutField (widths : List GroupWidth) (field : Text) : Text :=
  match parse field with
  | .ok groups => render groups widths
  | .error _ => field

theorem layoutLine_eq (column : Nat) (widths : List GroupWidth) (line : Line) :
    layoutLine column widths line =
      line.withField column (layoutField widths (line.field column)) := by
  rw [layoutLine, layoutField]
  cases found : cell column line with
  | list groups => rw [cell_eq_list_iff.mp found]
  | absent =>
      cases read : parse (line.field column) with
      | ok groups => rw [cell_eq_list_iff.mpr read] at found; cases found
      | error => exact (Line.withField_field line column).symm
  | unparsed =>
      cases read : parse (line.field column) with
      | ok groups => rw [cell_eq_list_iff.mpr read] at found; cases found
      | error => exact (Line.withField_field line column).symm

def Alike (new old : Text) : Prop :=
  new = old ∨ ∃ groups, parse new = .ok groups ∧ parse old = .ok groups

theorem Alike.layoutField_eq {new old : Text} (alike : Alike new old) (widths : List GroupWidth) :
    layoutField widths new = layoutField widths old := by
  rcases alike with rfl | ⟨groups, read, readOld⟩
  · rfl
  · rw [layoutField, layoutField, read, readOld]

theorem Alike.parse_eq_ok_iff {new old : Text} (alike : Alike new old) {groups : List Group} :
    parse new = .ok groups ↔ parse old = .ok groups := by
  rcases alike with rfl | ⟨others, read, readOld⟩
  · rfl
  · rw [read, readOld]

theorem list?_cell_eq_some_iff {column : Nat} {line : Line} {groups : List Group} :
    (cell column line).list? = some groups ↔ parse (line.field column) = .ok groups := by
  rw [← cell_eq_list_iff]
  cases cell column line <;> simp [Cell.list?]

theorem alike_layoutField {new old : Text} (alike : Alike new old) (tidy : Tidy new)
    {widths : List GroupWidth}
    (wide : ∀ groups, parse old = .ok groups → groups.length ≤ widths.length) :
    Loosened (layoutField widths old) new ∧ Alike (normalize (layoutField widths old)) old ∧
      (Calm new → Calm (layoutField widths old)) := by
  rw [← alike.layoutField_eq, layoutField]
  cases read : parse new with
  | ok groups =>
      have readOld := alike.parse_eq_ok_iff.mp read
      exact ⟨loosened_render read (wide groups readOld) tidy.plain,
        .inr ⟨groups, parse_normalize_render read (wide groups readOld) tidy, readOld⟩,
        fun calm => render_calm ((moved_groups read).2.2 calm) _⟩
  | error reason =>
      have same : new = old := by
        rcases alike with same | ⟨groups, other, -⟩
        · exact same
        · rw [read] at other
          cases other
      rw [(Laid.alone new).normalize_single tidy]
      exact ⟨.of_tidy tidy, .inl same, id⟩

end HdlAlign.Range

namespace HdlAlign.Assignment

open Text Statement

def Alike (new old : Text) : Prop :=
  new = old ∨ ∃ value, cell new = .assignment value ∧ cell old = .assignment value

theorem Alike.cell_eq {new old : Text} (alike : Alike new old) : cell new = cell old := by
  rcases alike with rfl | ⟨value, read, readOld⟩
  · rfl
  · rw [read, readOld]

theorem Alike.trans {first second third : Text} (h : Alike first second) (h' : Alike second third) :
    Alike first third := by
  rcases h with rfl | ⟨value, read, readSecond⟩
  · exact h'
  · exact .inr ⟨value, read, h'.cell_eq ▸ readSecond⟩

theorem Alike.layoutField_eq {new old : Text} (alike : Alike new old) (anyAssignment : Bool)
    (widths : Widths) :
    layoutField anyAssignment widths new = layoutField anyAssignment widths old := by
  rcases alike with rfl | ⟨value, read, readOld⟩
  · rfl
  · rw [layoutField, layoutField, read, readOld]

theorem layoutField_of_parse? {field : Text} {value : Assignment} (read : parse? field = some value)
    (anyAssignment : Bool) (widths : Widths) :
    layoutField anyAssignment widths field = render value widths := by
  rw [layoutField, cell_of_parse? read]

theorem isPrefix_trimSpaces_layoutField {op field : Text} (member : op ∈ operators)
    (begins : op <+: field) (plain : Plain field) (anyAssignment : Bool) (widths : Widths) :
    op <+: trimSpaces (layoutField anyAssignment widths field) := by
  have black : ∀ byte ∈ op, isBlack byte := fun byte inside =>
    (black_of_mem_operators op member byte inside).1
  obtain ⟨rest, split⟩ := isPrefix_splitTerminator member begins
  have read : parse? field = some ⟨op, spaceOperators rest, (splitTerminator field).1⟩ :=
    parse?_eq_some_iff.mpr ⟨op, rest, operator?_eq_some_iff.mpr ⟨member, split.symm⟩, rfl⟩
  have laid := plain.within (layoutField_within anyAssignment widths field)
  rw [← laid.trim, layoutField_of_parse? read]
  obtain ⟨tail, whole⟩ := render_value ⟨op, spaceOperators rest, (splitTerminator field).1⟩ widths
  rw [whole, opening, padLeft, List.append_assoc, List.append_assoc,
    (White.blanks _).trim_append_left]
  exact isPrefix_trim (List.prefix_append _ _) black

theorem alike_layoutField_self {field : Text} (tidy : Tidy field) (cut : IsCut field)
    (anyAssignment : Bool) (widths : Widths) :
    LoosenedAssignment (trimSpaces (layoutField anyAssignment widths field)) field ∧
      Alike (normalize (layoutField anyAssignment widths field)) field := by
  have plain := tidy.plain.within (layoutField_within anyAssignment widths field)
  have loosened : Loosened (trimSpaces (layoutField anyAssignment widths field)) field := by
    refine ⟨plain.subset (trimSpaces_subset _), starts_trimSpaces _, ends_trimSpaces _, ?_⟩
    rw [squeeze_trimSpaces]
    exact squeeze_of_solid_eq plain tidy.plain (layoutField_solid _ _ cut.isField)
  refine ⟨⟨loosened, fun op member begins =>
    isPrefix_trimSpaces_layoutField member begins tidy.plain _ _⟩, ?_⟩
  rcases cut with ⟨op, member, begins⟩ | rfl | rfl
  · obtain ⟨value, -, read⟩ := cell_of_operator member begins
    have again := (cell_layoutField anyAssignment widths field).trans read
    exact .inr ⟨value, cell_of_parse? (parse?_normalize plain (cell_eq_assignment again)), read⟩
  · refine .inl ?_
    have lone : layoutField anyAssignment widths terminator =
      renderTerminator anyAssignment widths := rfl
    rw [lone, renderTerminator_eq]
    exact tidy.normalize (.blanks _) .nil
  · exact .inl rfl

end HdlAlign.Assignment

namespace HdlAlign.Line

open Text Statement

/-- The columns of a declaration in front of its comment, up to what is printed alike. -/
inductive ColumnsAlike : (new old : List Text) → Prop
  | intro {vector oldVector array oldArray assignment oldAssignment : Text} (type name : Text)
      (vectors : Range.Alike vector oldVector) (arrays : Range.Alike array oldArray)
      (assignments : Assignment.Alike assignment oldAssignment) :
      ColumnsAlike [type, vector, name, array, assignment]
        [type, oldVector, name, oldArray, oldAssignment]

/-- Lines of a block of declarations that are printed alike, in whatever columns. -/
inductive BlockAlike : (new old : Line) → Prop
  | aligned {new old : List Text} {comment : Text} (columns : ColumnsAlike new old)
      (begins : comment = [] ∨ comment.startsWith (ofString "//")) (source other : Int) :
      BlockAlike (.aligned (new ++ [dropTailWhile isIndent comment]) source)
        (.aligned (old ++ [comment]) other)
  | verbatim (text : Text) (source other : Int) :
      BlockAlike (.verbatim text source) (.verbatim text other)

theorem BlockAlike.isAligned_eq {new old : Line} (alike : BlockAlike new old) :
    new.isAligned = old.isAligned := by
  cases alike <;> rfl

theorem BlockAlike.list?_cell_eq {new old : Line} (alike : BlockAlike new old) {column : Nat}
    (dimensions : column = Declaration.vectorColumn ∨ column = Declaration.arrayColumn) :
    (Range.cell column new).list? = (Range.cell column old).list? := by
  refine Option.ext fun groups => ?_
  rw [Range.list?_cell_eq_some_iff, Range.list?_cell_eq_some_iff]
  cases alike with
  | verbatim => rfl
  | aligned columns =>
      cases columns with
      | intro _ _ vectors arrays =>
          rcases dimensions with rfl | rfl
          · exact vectors.parse_eq_ok_iff
          · exact arrays.parse_eq_ok_iff

theorem BlockAlike.cell_assignment_eq {new old : Line} (alike : BlockAlike new old) :
    Assignment.cell (new.field Declaration.assignmentColumn) =
      Assignment.cell (old.field Declaration.assignmentColumn) := by
  cases alike with
  | verbatim => rfl
  | aligned columns =>
      cases columns with
      | intro _ _ _ _ assignments => exact assignments.cell_eq

end HdlAlign.Line

namespace HdlAlign.Block

open Text Statement Line

theorem measures_eq_of_alike {new old : List Line} (alike : List.Forall₂ BlockAlike new old) :
    measures new = measures old := by
  have lists {column : Nat} (dimensions : column = Declaration.vectorColumn ∨
      column = Declaration.arrayColumn) : Range.lists column new = Range.lists column old :=
    Line.filterMap_eq_of_forall₂ (fun _ _ like => like.list?_cell_eq dimensions) alike
  have assignments : Assignment.assignments Declaration.assignmentColumn new =
      Assignment.assignments Declaration.assignmentColumn old :=
    Line.filterMap_eq_of_forall₂ (fun _ _ like => by
      rw [like.isAligned_eq, like.cell_assignment_eq]) alike
  rw [measures, measures, Range.columnWidths, Range.columnWidths, Range.columnWidths,
    Range.columnWidths, lists (.inl rfl), lists (.inr rfl), assignments]

theorem Measures.lay_aligned (m : Measures) (type vector name array assignment comment : Text)
    (source : Int) :
    m.lay (.aligned [type, vector, name, array, assignment, comment] source) =
      .aligned [type, Range.layoutField m.vectors vector, name, Range.layoutField m.arrays array,
        Assignment.layoutField m.anyAssignment m.assignments assignment, comment] source := by
  rw [lay, Range.layoutLine_eq, Range.layoutLine_eq]
  rfl

theorem Measures.lay_verbatim (m : Measures) (text : Text) (source : Int) :
    m.lay (.verbatim text source) = .verbatim text source := by
  rw [lay, Range.layoutLine_eq, Range.layoutLine_eq]
  rfl

theorem Measures.printedLike_lay (m : Measures) {new old : Line} (alike : BlockAlike new old) :
    PrintedLike (m.lay new) (m.lay old) := by
  cases alike with
  | verbatim text source other =>
      rw [m.lay_verbatim, m.lay_verbatim]
      exact .verbatim text source other
  | aligned columns begins source other =>
      cases columns with
      | intro type name vectors arrays assignments =>
          simp only [List.cons_append, List.nil_append, lay_aligned, vectors.layoutField_eq,
            arrays.layoutField_eq, assignments.layoutField_eq]
          exact @PrintedLike.aligned [_, _, _, _, _] _ rfl begins source other

theorem map_render_eq_of_alike {new old : List Line} (alike : List.Forall₂ BlockAlike new old)
    (indent : Text) :
    (new.map fun line => ((measures new).lay line).render
        (Batch.anchors (new.map (measures new).lay)) indent) =
      old.map fun line => ((measures old).lay line).render
        (Batch.anchors (old.map (measures old).lay)) indent := by
  have laid : List.Forall₂ PrintedLike (new.map (measures new).lay)
      (old.map (measures old).lay) := by
    rw [measures_eq_of_alike alike, List.forall₂_map_left_iff, List.forall₂_map_right_iff]
    exact alike.imp fun _ _ like => (measures old).printedLike_lay like
  simpa [List.map_map, Function.comp_def] using map_render_eq laid indent

end HdlAlign.Block
