import HdlAlign.Proofs.Anchors
import HdlAlign.Proofs.DeclarationLines

/-! Where the lines of a block of declarations begin.  A line begins at the margin exactly if no line
of the block asks for room in front of the first column in which it shows something. -/

namespace HdlAlign.Text

theorem takeWhile_dropTailWhile {p : UInt8 → Bool} {text : Text}
    (visible : ∃ byte ∈ text, p byte = false) :
    (dropTailWhile p text).takeWhile p = text.takeWhile p := by
  obtain ⟨byte, member, stays⟩ := visible
  obtain ⟨front, back, rfl⟩ := List.append_of_mem member
  rw [dropTailWhile_append_cons stays, List.takeWhile_append, List.takeWhile_append]
  simp [stays]

end HdlAlign.Text

namespace HdlAlign.Line

open Text Batch Statement

def firstColumn : Line → Nat
  | aligned fields _ => fields.findIdx fun field => !field.isEmpty
  | verbatim _ _ => 0

theorem field_of_lt_firstColumn {line : Line} {column : Nat} (before : column < line.firstColumn) :
    line.field column = [] := by
  cases line with
  | verbatim text source => rfl
  | aligned fields source =>
      by_cases inside : column < fields.length
      · have empty := List.not_of_lt_findIdx before
        rw [field, List.getD_eq_getElem _ _ inside]
        simpa using empty
      · exact List.getD_eq_default _ _ (Nat.le_of_not_lt inside)

theorem le_firstColumn {fields : List Text} {source : Int} {column : Nat}
    (inside : column < fields.length)
    (empty : ∀ earlier < column, (aligned fields source).field earlier = []) :
    column ≤ (aligned fields source).firstColumn := by
  refine List.le_findIdx_of_not inside fun earlier before => ?_
  have none := empty earlier before
  rw [field, List.getD_eq_getElem _ _ (before.trans inside)] at none
  simp [none]

theorem firstColumn_le {line : Line} {column : Nat} (shown : line.field column ≠ []) :
    line.firstColumn ≤ column :=
  Nat.le_of_not_lt fun before => shown (field_of_lt_firstColumn before)

def gap (line : Line) (anchors : List Nat) : Text :=
  match line with
  | aligned fields _ => (padded fields anchors).takeWhile isIndent
  | verbatim _ _ => []

theorem indentation_render {fields : List Text} {source : Int} {anchors : List Nat} {indent : Text}
    (margin : ∀ byte ∈ indent, isIndent byte)
    (visible : ∃ field ∈ fields, ∃ byte ∈ field, isIndent byte = false) :
    indentation ((aligned fields source).render anchors indent) =
      indent ++ (aligned fields source).gap anchors := by
  obtain ⟨field, listed, byte, member, stays⟩ := visible
  rw [render_aligned, indentation, takeWhile_dropTailWhile, List.takeWhile_append_of_pos margin,
    gap]
  exact ⟨byte, List.mem_append_right _ (mem_padded anchors listed member), stays⟩

theorem padded_of_empty {front back : List Text} {anchors : List Nat}
    (empty : ∀ field ∈ front, field = []) (roomy : Roomy (front ++ back) anchors) :
    padded (front ++ back) anchors =
      blanks (anchors.take front.length).sum ++ padded back (anchors.drop front.length) := by
  induction front generalizing anchors with
  | nil => rfl
  | cons field front ih =>
      obtain ⟨rfl, others⟩ := List.forall_mem_cons.mp empty
      cases anchors with
      | nil => exact roomy.elim
      | cons anchor anchors =>
          rw [List.cons_append, padded, ih others roomy.2, padRight, Plain.nil.width,
            List.length_nil, Nat.sub_zero, List.nil_append, ← List.append_assoc, blanks, blanks,
            List.replicate_append_replicate]
          rfl

theorem gap_eq_nil_iff {front back : List Text} {field : Text} {source : Int} {anchors : List Nat}
    (empty : ∀ field ∈ front, field = []) (some : field ≠ [])
    (roomy : Roomy (front ++ field :: back) anchors) :
    (aligned (front ++ field :: back) source).gap anchors = [] ↔
      (anchors.take front.length).sum = 0 ∧ ∀ byte ∈ field.head?, isIndent byte = false := by
  obtain ⟨byte, rest, rfl⟩ := List.exists_cons_of_ne_nil some
  obtain ⟨behind, shown⟩ : ∃ behind,
      padded ((byte :: rest) :: back) (anchors.drop front.length) = byte :: behind := by
    cases anchors.drop front.length <;> exact ⟨_, rfl⟩
  rw [gap, padded_of_empty empty roomy, shown]
  generalize (anchors.take front.length).sum = count
  cases count with
  | zero => simp [blanks, List.takeWhile_cons]
  | succ count => simp [blanks, List.replicate_succ, show isIndent blank from rfl]

end HdlAlign.Line

namespace HdlAlign.Batch

open Text Line

theorem widest_eq_zero_iff {column : Nat} {lines : List Line} :
    widest column lines = 0 ↔ ∀ line ∈ lines, (line.field column).width = 0 := by
  have none : Text.width [] = 0 := rfl
  induction lines with
  | nil => simp [widest]
  | cons line lines ih =>
      cases line with
      | aligned fields source => simp [widest, ih, Line.field]
      | verbatim text source => simp [widest, ih, Line.field, none]

theorem sum_take_anchors_eq_zero_iff {lines : List Line} {column : Nat} :
    ((anchors lines).take column).sum = 0 ↔
      ∀ earlier < column, ∀ line ∈ lines, (line.field earlier).width = 0 := by
  have zero (earlier : Nat) : (anchors lines).getD earlier 0 = 0 ↔
      ∀ line ∈ lines, (line.field earlier).width = 0 := by
    rw [getD_anchors, anchor, ← widest_eq_zero_iff]
    split <;> omega
  rw [List.sum_eq_zero_iff]
  constructor
  · intro none earlier before
    rw [← zero]
    by_cases inside : earlier < (anchors lines).length
    · rw [List.getD_eq_getElem _ _ inside]
      exact none _ (List.mem_take_iff_getElem.mpr ⟨earlier, by omega, rfl⟩)
    · exact List.getD_eq_default _ _ (Nat.le_of_not_lt inside)
  · intro none width member
    obtain ⟨earlier, inside, rfl⟩ := List.mem_take_iff_getElem.mp member
    have empty := (zero earlier).mpr (none earlier (by omega))
    rwa [List.getD_eq_getElem _ _ (by omega)] at empty

end HdlAlign.Batch

namespace HdlAlign.Assignment

open Text

theorem foldl_max_le_iff {α : Type} (f : α → Nat) {values : List α} {start bound : Nat} :
    values.foldl (fun most value => max most (f value)) start ≤ bound ↔
      start ≤ bound ∧ ∀ value ∈ values, f value ≤ bound := by
  induction values generalizing start with
  | nil => simp
  | cons first values ih =>
      rw [List.foldl_cons, ih, List.forall_mem_cons, Nat.max_le, and_assoc]

theorem head_render_iff {value : Assignment} (member : value.operator ∈ operators)
    (widths : Widths) :
    (∀ byte ∈ (render value widths).head?, isIndent byte = false) ↔
      widths.operator ≤ value.operator.width := by
  obtain ⟨tail, split⟩ := render_value value widths
  have marks : ∀ op ∈ operators, op ≠ [] ∧ ∀ byte ∈ op, isIndent byte = false := by decide +kernel
  obtain ⟨some, shown⟩ := marks _ member
  obtain ⟨byte, rest, same⟩ := List.exists_cons_of_ne_nil some
  rw [split, opening, padLeft]
  cases excess : widths.operator - value.operator.width with
  | zero =>
      refine iff_of_true ?_ (Nat.sub_eq_zero_iff_le.mp excess)
      simpa [blanks, same] using shown byte (by simp [same])
  | succ count =>
      refine iff_of_false (fun none => ?_) (by omega)
      exact absurd (none blank (by simp [blanks, List.replicate_succ])) (by decide)

end HdlAlign.Assignment

namespace HdlAlign.Range

theorem Alike.eq_nil_iff {new old : Text} (alike : Alike new old) : new = [] ↔ old = [] := by
  rcases alike with rfl | ⟨groups, read, readOld⟩
  · rfl
  · constructor
    · rintro rfl
      cases read
    · rintro rfl
      cases readOld

end HdlAlign.Range

namespace HdlAlign.Assignment

theorem Alike.eq_nil_iff {new old : Text} (alike : Alike new old) : new = [] ↔ old = [] := by
  rcases alike with rfl | ⟨value, read, readOld⟩
  · rfl
  · constructor
    · rintro rfl
      cases read
    · rintro rfl
      cases readOld

end HdlAlign.Assignment

namespace HdlAlign.Line

open Text

theorem ColumnsAlike.length_eq {new old : List Text} (alike : ColumnsAlike new old) :
    new.length = Grammar.commentColumn ∧ old.length = Grammar.commentColumn := by
  cases alike
  exact ⟨rfl, rfl⟩

theorem ColumnsAlike.getD_eq_nil_iff {new old : List Text} (alike : ColumnsAlike new old)
    (column : Nat) : new.getD column [] = [] ↔ old.getD column [] = [] := by
  cases alike with
  | intro type name vectors arrays assignments =>
      match column with
      | 0 | 2 => rfl
      | 1 => exact vectors.eq_nil_iff
      | 3 => exact arrays.eq_nil_iff
      | 4 => exact assignments.eq_nil_iff
      | _ + 5 => rfl

end HdlAlign.Line

namespace HdlAlign.Statement.Declaration

open Text Pattern

theorem isStatement_shows {code : Text} (statement : isStatement (trim code)) :
    ∃ byte ∈ squeeze code, byte ≠ (';' : UInt8) := by
  have shown {byte : UInt8} (visible : isSpace byte = false) (member : byte ∈ trim code) :
      byte ∈ squeeze code := (mem_squeeze visible).mpr (trim_subset code member)
  simp only [isStatement, Bool.and_eq_true, Bool.or_eq_true, matchesFront_iff] at statement
  rcases statement.2 with ⟨part, rest, read⟩ | equals
  · obtain ⟨listed, -, -⟩ := keyword_eq_some_iff.mp read
    have words : ∀ word ∈ typeWords ++ [assignWord],
        ∃ byte ∈ word, isSpace byte = false ∧ byte ≠ (';' : UInt8) := by decide +kernel
    obtain ⟨byte, member, visible, other⟩ := words _ listed
    exact ⟨byte, shown visible (List.takeWhile_subset _ member), other⟩
  · exact ⟨'=', shown rfl (List.contains_iff_mem.mp equals), by decide⟩

end HdlAlign.Statement.Declaration

namespace HdlAlign.Block

open Text Statement Line Declaration

variable {code : Text} {printed old : List Text} (rereads : Rereads code printed old)

include rereads

theorem Rereads.plain_getD (column : Nat) : Plain (printed.getD column []) := by
  by_cases inside : column < printed.length
  · rw [List.getD_eq_getElem _ _ inside]
    exact rereads.plain _ (List.getElem_mem inside)
  · rw [List.getD_eq_default _ _ (Nat.le_of_not_lt inside)]
    exact .nil

theorem Rereads.getD_eq_nil_iff (column : Nat) :
    printed.getD column [] = [] ↔ old.getD column [] = [] := by
  have again : ((printed.map trimSpaces).map normalize).getD column [] =
      normalize (trimSpaces (printed.getD column [])) := by
    rw [List.map_map]
    exact List.getD_map printed [] (normalize ∘ trimSpaces)
  rw [← rereads.alike.getD_eq_nil_iff, again, normalize_trimSpaces (rereads.plain_getD column)]
  refine ⟨fun none => by rw [none]; rfl, fun none => ?_⟩
  have hidden : squeeze (printed.getD column []) = [] := by
    rw [← squeeze_normalize (rereads.plain_getD column), none]
    rfl
  by_cases inside : column < printed.length
  · rw [List.getD_eq_getElem _ _ inside] at hidden ⊢
    exact rereads.shown _ (List.getElem_mem inside) hidden
  · exact List.getD_eq_default _ _ (Nat.le_of_not_lt inside)

theorem Rereads.length_eq :
    printed.length = Grammar.commentColumn ∧ old.length = Grammar.commentColumn := by
  simpa using rereads.alike.length_eq

theorem Rereads.exists_shown (readable : IsReadable code) :
    ∃ column < Grammar.commentColumn, ∃ byte ∈ printed.getD column [],
      isSpace byte = false ∧ byte ≠ (';' : UInt8) := by
  obtain ⟨byte, member, other⟩ := isStatement_shows readable.statement
  rw [← squeeze_loosened readable.plain readable.bare rereads.loosened, List.mem_flatten] at member
  obtain ⟨part, listed, inside⟩ := member
  obtain ⟨_, trimmed, rfl⟩ := List.mem_map.mp listed
  obtain ⟨field, printedHere, rfl⟩ := List.mem_map.mp trimmed
  obtain ⟨column, bound, rfl⟩ := List.mem_iff_getElem.mp printedHere
  rw [squeeze_trimSpaces] at inside
  obtain ⟨inField, visible⟩ := List.mem_filter.mp inside
  refine ⟨column, rereads.length_eq.1 ▸ bound, byte, ?_, by simpa using visible, other⟩
  rwa [List.getD_eq_getElem _ _ bound]

end HdlAlign.Block

namespace HdlAlign.Line

open Statement

def operatorWidth (line : Line) : Nat :=
  match Assignment.cell (line.field Declaration.assignmentColumn) with
  | .assignment value => value.operator.width
  | _ => 0

/-- A line begins in front of another, or in the same column.  Operators are right-justified, so
where both begin with one, the wider leads. -/
def Leads (first line : Line) : Prop :=
  first.firstColumn < line.firstColumn ∨
    first.firstColumn = line.firstColumn ∧
      (first.firstColumn = Declaration.assignmentColumn → line.operatorWidth ≤ first.operatorWidth)

instance (first line : Line) : Decidable (Leads first line) := inferInstanceAs (Decidable (_ ∨ _))

theorem operatorWidth_of_field_eq_nil {line : Line}
    (none : line.field Declaration.assignmentColumn = []) : line.operatorWidth = 0 := by
  rw [operatorWidth, none]
  rfl

theorem field_append_of_lt {front : List Text} {last : Text} {source : Int} {column : Nat}
    (inside : column < front.length) :
    (aligned (front ++ [last]) source).field column = front.getD column [] :=
  List.getD_append _ _ _ _ inside

end HdlAlign.Line

namespace HdlAlign.Block

open Text Statement Line Declaration

/-- Every line of a block is read like a declaration of printable ASCII, as far as it is one. -/
structure OrderlyLines (lines : List Text) : Prop where
  single : ∀ line ∈ lines, newline ∉ line
  orderly : ∀ line ∈ lines, (Grammar.declaration.classify line 0).isAligned → IsOrderly line

theorem width_field_lay_eq_zero_iff {line : Text} (single : newline ∉ line)
    (orderly : (Grammar.declaration.classify line 0).isAligned → IsOrderly line) {m : Measures}
    (wide : m.Wide (Grammar.declaration.classify line 0)) {column : Nat}
    (inside : column < Grammar.commentColumn) :
    ((m.lay (Grammar.declaration.classify line 0)).field column).width = 0 ↔
      (Grammar.declaration.classify line 0).field column = [] := by
  cases aligned : (Grammar.declaration.classify line 0).isAligned with
  | true =>
      obtain ⟨code, printed, readable, rereads, read, laid⟩ :=
        (orderly aligned).exists_rereads single aligned wide
      obtain ⟨length, lengthOld⟩ := rereads.length_eq
      rw [laid, read, field_append_of_lt (length ▸ inside), field_append_of_lt (lengthOld ▸ inside),
        (rereads.plain_getD column).width, List.length_eq_zero_iff, rereads.getD_eq_nil_iff]
  | false =>
      cases read : Grammar.declaration.classify line 0 with
      | aligned fields source => rw [read] at aligned; cases aligned
      | verbatim text source =>
          rw [m.lay_verbatim]
          exact iff_of_true rfl rfl

section

variable {lines : List Text} (block : OrderlyLines lines)

def laidLines (lines : List Text) : List Line :=
  (readLines lines).map (measures (readLines lines)).lay

theorem blockAnchors_laidLines (lines : List Text) :
    blockAnchors lines = Batch.anchors (laidLines lines) := by
  rw [blockAnchors_eq, alignDeclarationColumns_measures, laidLines]

theorem wide_classify {line : Text} (member : line ∈ lines) :
    (measures (readLines lines)).Wide (Grammar.declaration.classify line 0) :=
  wide_measures (List.mem_map_of_mem member)

include block

theorem sum_take_blockAnchors_eq_zero_iff {column : Nat} (bound : column ≤ Grammar.commentColumn) :
    ((blockAnchors lines).take column).sum = 0 ↔
      ∀ line ∈ lines, ∀ earlier < column,
        (Grammar.declaration.classify line 0).field earlier = [] := by
  rw [blockAnchors_laidLines, Batch.sum_take_anchors_eq_zero_iff]
  constructor
  · intro none line member earlier before
    refine (width_field_lay_eq_zero_iff (block.single line member) (block.orderly line member)
      (wide_classify member) (Nat.lt_of_lt_of_le before bound)).mp (none earlier before _ ?_)
    exact List.mem_map_of_mem (List.mem_map_of_mem member)
  · intro none earlier before laid listed
    obtain ⟨_, read, rfl⟩ := List.mem_map.mp listed
    obtain ⟨line, member, rfl⟩ := List.mem_map.mp read
    exact (width_field_lay_eq_zero_iff (block.single line member) (block.orderly line member)
      (wide_classify member) (Nat.lt_of_lt_of_le before bound)).mpr (none line member earlier before)

omit block

theorem assignments_readLines {value : Assignment} :
    value ∈ Assignment.assignments assignmentColumn (readLines lines) ↔
      ∃ line ∈ lines, (Grammar.declaration.classify line 0).isAligned ∧
        Assignment.cell ((Grammar.declaration.classify line 0).field assignmentColumn) =
          .assignment value := by
  rw [Assignment.assignments, readLines, List.filterMap_map, List.mem_filterMap]
  refine exists_congr fun line => and_congr_right fun _ => ?_
  rw [Function.comp_apply]
  cases (Grammar.declaration.classify line 0).isAligned with
  | false => simp
  | true =>
      cases Assignment.cell ((Grammar.declaration.classify line 0).field assignmentColumn) <;>
        simp [Assignment.Cell.assignment?]

theorem operator_measures_le_iff {bound : Nat} :
    (measures (readLines lines)).assignments.operator ≤ bound ↔
      ∀ line ∈ lines, (Grammar.declaration.classify line 0).isAligned →
        (Grammar.declaration.classify line 0).operatorWidth ≤ bound := by
  have most := @Assignment.foldl_max_le_iff _ (fun a : Assignment => a.operator.width)
    (Assignment.assignments assignmentColumn (readLines lines)) 0 bound
  refine most.trans
    ⟨fun le line member aligned => ?_, fun le => ⟨Nat.zero_le _, fun value listed => ?_⟩⟩
  · rw [operatorWidth]
    split
    · next value read => exact le.2 value (assignments_readLines.mpr ⟨line, member, aligned, read⟩)
    · exact Nat.zero_le _
  · obtain ⟨line, member, aligned, read⟩ := assignments_readLines.mp listed
    have width := le line member aligned
    rwa [operatorWidth, read] at width

theorem exists_assignment {line : Text} {printed : List Text}
    (length : printed.length = Grammar.commentColumn)
    (read : Grammar.declaration.classify line 0 =
      .aligned (codeColumns (splitComment line).1 ++ [(splitComment line).2]) 0) {m : Measures}
    (laid : m.lay (Grammar.declaration.classify line 0) =
      .aligned (printed ++ [(splitComment line).2]) 0) :
    ∃ assignment, Assignment.IsCut assignment ∧
      (Grammar.declaration.classify line 0).field assignmentColumn = assignment ∧
      printed.getD assignmentColumn [] =
        Assignment.layoutField m.anyAssignment m.assignments assignment := by
  obtain ⟨vector, name, array, -, whole⟩ := exists_codeColumns (splitComment line).1
  refine ⟨_, isCut_of_eq whole, by rw [read, whole]; rfl, ?_⟩
  rw [read, whole] at laid
  have fields := (Line.aligned.inj ((m.lay_aligned _ _ _ _ _ _ 0).symm.trans laid)).1
  rw [← List.getD_append printed [(splitComment line).2] [] assignmentColumn (by rw [length]; decide),
    ← fields]
  rfl

theorem head_printed_iff {line code : Text} {printed : List Text} (readable : IsReadable code)
    (rereads : Rereads code printed (codeColumns (splitComment line).1))
    (read : Grammar.declaration.classify line 0 =
      .aligned (codeColumns (splitComment line).1 ++ [(splitComment line).2]) 0) {m : Measures}
    (laid : m.lay (Grammar.declaration.classify line 0) =
      .aligned (printed ++ [(splitComment line).2]) 0) {column : Nat}
    (bound : column < Grammar.commentColumn)
    (empty : ∀ earlier < column, printed.getD earlier [] = [])
    (some : printed.getD column [] ≠ []) :
    (∀ byte ∈ (printed.getD column []).head?, isIndent byte = false) ↔
      (column = assignmentColumn →
        m.assignments.operator ≤ (Grammar.declaration.classify line 0).operatorWidth) := by
  have length := rereads.length_eq.1
  have last : column ≤ assignmentColumn := Nat.le_of_lt_succ bound
  rcases Nat.lt_or_eq_of_le last with before | rfl
  · have inFront : printed.getD column [] ∈ printed.take assignmentColumn := by
      rw [List.getD_eq_getElem _ _ (length ▸ bound)]
      exact List.mem_take_iff_getElem.mpr ⟨column, by rw [length]; exact lt_min before bound, rfl⟩
    refine iff_of_true (fun byte first => ?_) fun same => absurd same before.ne
    have visible := rereads.starts _ inFront byte first
    by_contra indent
    rw [isSpace_of_isIndent (by simpa using indent)] at visible
    cases visible
  · obtain ⟨assignment, cut, held, printedHere⟩ := exists_assignment length read laid
    rw [printedHere] at some ⊢
    rcases cut with ⟨op, member, begins⟩ | rfl | rfl
    · obtain ⟨value, parsed, cell⟩ := Assignment.cell_of_operator member begins
      obtain ⟨other, rest, found, same⟩ := Assignment.parse?_eq_some_iff.mp parsed
      have isOperator : value.operator ∈ Assignment.operators := by
        rw [same]
        exact (Assignment.operator?_eq_some_iff.mp found).1
      rw [Assignment.layoutField_of_parse? parsed, Assignment.head_render_iff isOperator,
        operatorWidth, held, cell]
      exact ⟨fun le _ => le, fun le => le rfl⟩
    · -- A terminator alone is no declaration.
      obtain ⟨other, inside, byte, here, visible, notTerminator⟩ := rereads.exists_shown readable
      have column : other = assignmentColumn := by
        by_contra elsewhere
        have earlier : other < assignmentColumn :=
          Nat.lt_of_le_of_ne (Nat.le_of_lt_succ inside) elsewhere
        rw [empty other earlier] at here
        cases here
      have laidOut : Assignment.layoutField m.anyAssignment m.assignments Assignment.terminator =
        Assignment.renderTerminator m.anyAssignment m.assignments := rfl
      rw [column, printedHere, laidOut, Assignment.renderTerminator_eq, List.append_nil] at here
      rcases List.mem_append.mp here with inside | inside
      · rw [List.eq_of_mem_replicate inside] at visible
        cases visible
      · exact absurd (List.mem_singleton.mp inside) notTerminator
    · exact absurd rfl some

theorem printed_firstColumn {line code : Text} {printed : List Text} (readable : IsReadable code)
    (rereads : Rereads code printed (codeColumns (splitComment line).1))
    (read : Grammar.declaration.classify line 0 =
      .aligned (codeColumns (splitComment line).1 ++ [(splitComment line).2]) 0) {column : Nat}
    (start : (Grammar.declaration.classify line 0).firstColumn = column) :
    column < Grammar.commentColumn ∧ (∀ earlier < column, printed.getD earlier [] = []) ∧
      printed.getD column [] ≠ [] := by
  obtain ⟨-, length⟩ := rereads.length_eq
  have shown (column : Nat) (inside : column < Grammar.commentColumn) :
      (Grammar.declaration.classify line 0).field column = [] ↔ printed.getD column [] = [] := by
    rw [read, field_append_of_lt (length ▸ inside), rereads.getD_eq_nil_iff]
  have bound : column < Grammar.commentColumn := by
    obtain ⟨other, inside, byte, here, -⟩ := rereads.exists_shown readable
    rw [← start]
    refine Nat.lt_of_le_of_lt (firstColumn_le fun none => ?_) inside
    rw [(shown other inside).mp none] at here
    cases here
  refine ⟨bound, fun earlier before => ?_, fun none => ?_⟩
  · exact (shown earlier (before.trans bound)).mp (field_of_lt_firstColumn (start ▸ before))
  · have later : column + 1 ≤ (Grammar.declaration.classify line 0).firstColumn := by
      rw [read]
      refine le_firstColumn (by rw [List.length_append, length]; simpa using bound)
        fun earlier before => ?_
      rw [← read]
      rcases Nat.lt_succ_iff_lt_or_eq.mp before with less | rfl
      · exact field_of_lt_firstColumn (start ▸ less)
      · exact (shown earlier bound).mpr none
    omega

/-- A line begins at the margin exactly if the columns in front of its first one take no room, and
no operator of the block is wider than one that it begins with. -/
theorem gap_lay_eq_nil_iff (block : OrderlyLines lines) {line : Text} (member : line ∈ lines)
    (aligned : (Grammar.declaration.classify line 0).isAligned) {column : Nat}
    (start : (Grammar.declaration.classify line 0).firstColumn = column) :
    ((measures (readLines lines)).lay (Grammar.declaration.classify line 0)).gap
        (blockAnchors lines) = [] ↔
      ((blockAnchors lines).take column).sum = 0 ∧ (column = assignmentColumn →
        (measures (readLines lines)).assignments.operator ≤
          (Grammar.declaration.classify line 0).operatorWidth) := by
  obtain ⟨code, printed, readable, rereads, read, laid⟩ :=
    (block.orderly line member aligned).exists_rereads (block.single line member) aligned
      (wide_classify member)
  obtain ⟨bound, empty, some⟩ := printed_firstColumn readable rereads read start
  obtain ⟨length, -⟩ := rereads.length_eq
  have roomy : Batch.Roomy (printed ++ [(splitComment line).2]) (blockAnchors lines) := by
    have inBlock : .aligned (printed ++ [(splitComment line).2]) 0 ∈ laidLines lines := by
      rw [← laid]
      exact List.mem_map_of_mem (List.mem_map_of_mem member)
    rw [blockAnchors_laidLines]
    exact Batch.roomy_anchors inBlock
  have emptyFront : ∀ field ∈ printed.take column, field = [] := by
    intro field listed
    obtain ⟨earlier, inside, rfl⟩ := List.mem_take_iff_getElem.mp listed
    rw [← List.getD_eq_getElem _ [] (by omega)]
    exact empty earlier (by omega)
  have split : printed ++ [(splitComment line).2] = printed.take column ++
      printed.getD column [] :: (printed.drop (column + 1) ++ [(splitComment line).2]) := by
    rw [List.getD_eq_getElem _ _ (length ▸ bound), ← List.cons_append, ← List.drop_eq_getElem_cons,
      ← List.append_assoc, List.take_append_drop]
  have lengthFront : (printed.take column).length = column := by
    rw [List.length_take, length]
    omega
  rw [laid, split, gap_eq_nil_iff emptyFront some (split ▸ roomy), lengthFront,
    head_printed_iff readable rereads read laid bound empty some]

theorem gap_eq_nil_iff_leads (block : OrderlyLines lines) {first : Text} (member : first ∈ lines)
    (aligned : (Grammar.declaration.classify first 0).isAligned) :
    ((measures (readLines lines)).lay (Grammar.declaration.classify first 0)).gap
        (blockAnchors lines) = [] ↔
      ∀ line ∈ lines, (Grammar.declaration.classify line 0).isAligned →
        (Grammar.declaration.classify first 0).Leads (Grammar.declaration.classify line 0) := by
  obtain ⟨code, printed, readable, rereads, read, -⟩ :=
    (block.orderly first member aligned).exists_rereads (block.single first member) aligned
      (wide_classify member)
  rw [gap_lay_eq_nil_iff block member aligned rfl]
  simp only [Leads]
  generalize start : (Grammar.declaration.classify first 0).firstColumn = column
  obtain ⟨bound, -, -⟩ := printed_firstColumn readable rereads read start
  rw [sum_take_blockAnchors_eq_zero_iff block bound.le, operator_measures_le_iff]
  constructor
  · rintro ⟨none, widest⟩ line listed alignedLine
    have le : column ≤ (Grammar.declaration.classify line 0).firstColumn := by
      obtain ⟨_, _, -, others, readLine, -⟩ := (block.orderly line listed alignedLine).exists_rereads
        (block.single line listed) alignedLine (wide_classify listed)
      rw [readLine]
      refine le_firstColumn (by rw [List.length_append, others.length_eq.2]; simp; omega)
        fun earlier before => ?_
      rw [← readLine]
      exact none line listed earlier before
    rcases Nat.lt_or_eq_of_le le with less | same
    · exact .inl less
    · exact .inr ⟨same, fun isAssignment => widest isAssignment line listed alignedLine⟩
  · intro leads
    refine ⟨fun line listed earlier before => ?_, fun isAssignment line listed alignedLine => ?_⟩
    · cases alignedLine : (Grammar.declaration.classify line 0).isAligned with
      | false => exact field_verbatim alignedLine _
      | true =>
          refine field_of_lt_firstColumn (Nat.lt_of_lt_of_le before ?_)
          exact (leads line listed alignedLine).elim Nat.le_of_lt fun same => same.1.le
    · rcases leads line listed alignedLine with less | same
      · rw [operatorWidth_of_field_eq_nil (field_of_lt_firstColumn (isAssignment ▸ less))]
        exact Nat.zero_le _
      · exact same.2 isAssignment

end

end HdlAlign.Block
