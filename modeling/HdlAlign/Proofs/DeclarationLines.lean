import HdlAlign.Proofs.Alike
import HdlAlign.Proofs.DeclarationRereading
import HdlAlign.Proofs.RoundTrip

/-! A printed declaration is read as the one that it was printed from. -/

namespace HdlAlign.Statement.Declaration

open Text Pattern Assignment

/-- The columns of a code are those of what stands between its type and its assignment, with the
type in front and the assignment behind. -/
theorem exists_codeColumns (code : Text) :
    ∃ vector name array, bodyColumns (isStorage (normalize (cutFront declarationType code).1))
        (splitAssignment (cutFront declarationType code).2).1 = [vector, name, array] ∧
      codeColumns code = [normalize (cutFront declarationType code).1, vector, name, array,
        normalize (splitAssignment (cutFront declarationType code).2).2] :=
  ⟨_, _, _, rfl, rfl⟩

theorem columnsAlike_codeColumns (code : Text) :
    Line.ColumnsAlike (codeColumns code) (codeColumns code) := by
  obtain ⟨vector, name, array, -, whole⟩ := exists_codeColumns code
  rw [whole]
  exact .intro _ _ (.inl rfl) (.inl rfl) (.inl rfl)

theorem isCut_of_eq {code type vector name array assignment : Text}
    (same : codeColumns code = [type, vector, name, array, assignment]) : IsCut assignment := by
  obtain ⟨_, _, _, -, whole⟩ := exists_codeColumns code
  rw [whole] at same
  simp only [List.cons.injEq, and_true] at same
  rw [← same.2.2.2.2]
  exact splitAssignment_isCut _

theorem loosenedColumns_of_eq {code type vector name array assignment : Text} (plain : Plain code)
    (same : codeColumns code = [type, vector, name, array, assignment])
    {movedVector movedArray movedAssignment : Text} (vectors : Loosened movedVector vector)
    (arrays : Loosened movedArray array)
    (assignments : LoosenedAssignment movedAssignment assignment) :
    LoosenedColumns code [type, movedVector, name, movedArray, movedAssignment] := by
  obtain ⟨-, plainRest⟩ := plain_cutFront declarationType_sound plain
  obtain ⟨-, plainAssignment⟩ := plain_splitAssignment plainRest
  obtain ⟨_, _, _, body, whole⟩ := exists_codeColumns code
  rw [whole] at same
  simp only [List.cons.injEq, and_true] at same
  obtain ⟨rfl, rfl, rfl, rfl, rfl⟩ := same
  refine @LoosenedColumns.intro code [movedVector, _, movedArray] _ ?_
    (assignments.of_normalize plainAssignment)
  rw [body]
  exact .intro vectors arrays

/-- A code that is read again wherever its columns are printed: printable ASCII without a comment, a
statement, and nothing but blanks behind its array. -/
structure IsReadable (code : Text) : Prop where
  plain : Plain code
  calm : Calm code
  bare : CodeBare code
  statement : isStatement (trim code)

/-! Blanks in front of a code have no part in its columns. -/

theorem cutFront_spaces_append {lead : Text} (spaces : Spaces lead) (code : Text) :
    (∃ part rest, cutFront declarationType (lead ++ code) = (lead ++ part, rest) ∧
      cutFront declarationType code = (part, rest)) ∨
    (cutFront declarationType (lead ++ code) = ([], lead ++ code) ∧
      cutFront declarationType code = ([], code)) := by
  have read : declarationType (lead ++ code) =
      (declarationType code).map fun found => (lead ++ found.1, found.2) := by
    rw [declarationType_eq, andThen_def, andThen, andThen, Pattern.spaces, run, run]
    dsimp only
    rw [List.takeWhile_append_of_pos spaces, spaces.dropWhile_append]
    split <;> simp
  rw [cutFront, cutFront, read]
  cases declarationType code with
  | none => exact .inr ⟨rfl, rfl⟩
  | some found => exact .inl ⟨found.1, found.2, rfl, rfl⟩

theorem splitAssignment_spaces_append {lead : Text} (spaces : Spaces lead) (code : Text) :
    splitAssignment (lead ++ code) =
      (lead ++ (splitAssignment code).1, (splitAssignment code).2) := by
  induction lead with
  | nil => rfl
  | cons byte lead ih =>
      obtain ⟨space, others⟩ := List.forall_mem_cons.mp spaces
      have closed : opensAssignment (byte :: (lead ++ code)) = false := by
        by_contra opens
        have visible := (starts_of_opensAssignment (by simpa using opens)).2 byte rfl
        rw [space] at visible
        cases visible
      have behind := ih others
      rw [splitAssignment] at behind
      rw [List.cons_append, splitAssignment, breakBefore?, closed, if_neg Bool.false_ne_true]
      cases found : breakBefore? opensAssignment (lead ++ code) with
      | none =>
          rw [found, Option.getD_none] at behind
          obtain ⟨front, rest⟩ := Prod.mk.inj behind
          rw [Option.map_none, Option.getD_none, List.cons_append, ← front, ← rest]
      | some parts =>
          rw [found, Option.getD_some] at behind
          rw [Option.map_some, Option.getD_some, behind]
          rfl

theorem normalize_spaces_append {lead : Text} (spaces : Spaces lead) (text : Text) :
    normalize (lead ++ text) = normalize text := by
  rw [Text.normalize, trim, spaces.white.trimStart_append, ← trim, ← Text.normalize]

theorem isStorage_nil : isStorage (normalize []) = false := rfl

theorem codeColumns_spaces_append {lead : Text} (spaces : Spaces lead) (code : Text) :
    codeColumns (lead ++ code) = codeColumns code := by
  rw [codeColumns, codeColumns, restColumns, restColumns]
  rcases cutFront_spaces_append spaces code with ⟨part, rest, cut, cutCode⟩ | ⟨cut, cutCode⟩
  · rw [cut, cutCode, normalize_spaces_append spaces]
  · rw [cut, cutCode, isStorage_nil, bodyColumns_other, bodyColumns_other,
      splitAssignment_spaces_append spaces, normalize_spaces_append spaces]

theorem codeBare_of_spaces_append {lead : Text} (spaces : Spaces lead) {code : Text}
    (bare : CodeBare (lead ++ code)) : CodeBare code := by
  rw [CodeBare] at bare ⊢
  rcases cutFront_spaces_append spaces code with ⟨part, rest, cut, cutCode⟩ | ⟨cut, cutCode⟩
  · rw [cutCode]
    rwa [cut, normalize_spaces_append spaces] at bare
  · rw [cutCode, isStorage_nil]
    exact nofun

end HdlAlign.Statement.Declaration

namespace HdlAlign.Block

open Text Statement Line Declaration

structure Rereads (code : Text) (printed old : List Text) : Prop where
  plain : ∀ field ∈ printed, Plain field
  calm : ∀ field ∈ printed, Calm field
  loosened : LoosenedColumns code (printed.map trimSpaces)
  alike : ColumnsAlike ((printed.map trimSpaces).map normalize) old
  starts : ∀ field ∈ printed.take assignmentColumn, Starts field
  shown : ∀ field ∈ printed, squeeze field = [] → field = []

structure Measures.Wide (m : Measures) (line : Line) : Prop where
  vectors : ∀ groups, Range.parse (line.field vectorColumn) = .ok groups →
    groups.length ≤ m.vectors.length
  arrays : ∀ groups, Range.parse (line.field arrayColumn) = .ok groups →
    groups.length ≤ m.arrays.length

theorem wide_measures {lines : List Line} {line : Line} (member : line ∈ lines) :
    (measures lines).Wide line :=
  ⟨fun _ read => Range.length_le_columnWidths (Range.mem_lists.mpr ⟨line, member, read⟩),
    fun _ read => Range.length_le_columnWidths (Range.mem_lists.mpr ⟨line, member, read⟩)⟩

def IsOrderly (line : Text) : Prop :=
  ∃ code, IsReadable code ∧ ColumnsAlike (codeColumns code) (codeColumns (splitComment line).1)

/-- A declaration is orderly if it is printable ASCII behind its indentation, and nothing but blanks
stands behind its array. -/
theorem isOrderly_of_plain {line : Text} (aligned : (Grammar.declaration.classify line 0).isAligned)
    (plain : Plain ((splitComment line).1.dropWhile isSpace)) (blank : Spaces (cut line).behind) :
    IsOrderly line := by
  have statement : isStatement (trim (splitComment line).1) := (classify_of_isAligned aligned).2.1
  have bare := codeBare_of_cut blank
  have calm := calm_splitComment line
  have lead : Spaces ((splitComment line).1.takeWhile isSpace) := fun byte => List.mem_takeWhile_imp
  refine ⟨(splitComment line).1.dropWhile isSpace, ?_, ?_⟩
  · rw [← List.takeWhile_append_dropWhile (p := isSpace) (l := (splitComment line).1)]
      at statement bare calm
    refine ⟨plain, calm.right, codeBare_of_spaces_append lead bare, ?_⟩
    rwa [trim, lead.white.trimStart_append, ← trim] at statement
  · have same := codeColumns_spaces_append lead ((splitComment line).1.dropWhile isSpace)
    rw [List.takeWhile_append_dropWhile] at same
    rw [same]
    exact columnsAlike_codeColumns _

theorem exists_rereads {code : Text} (readable : IsReadable code) {old : List Text}
    (columns : ColumnsAlike (codeColumns code) old) {m : Measures} {comment : Text} {source : Int}
    (wide : m.Wide (.aligned (old ++ [comment]) source)) :
    ∃ printed, m.lay (.aligned (old ++ [comment]) source) = .aligned (printed ++ [comment]) source ∧
      Rereads code printed old := by
  have tidy := tidy_codeColumns readable.plain
  have calm := calm_codeColumns readable.calm readable.bare
  generalize same : codeColumns code = new at columns tidy calm
  cases columns with
  | @intro vector oldVector array oldArray assignment oldAssignment type name vectors arrays
      assignments =>
      simp only [List.forall_mem_cons, List.not_mem_nil, false_implies, implies_true, and_true]
        at tidy calm
      obtain ⟨tidyType, tidyVector, tidyName, tidyArray, tidyAssignment⟩ := tidy
      obtain ⟨calmType, calmVector, calmName, calmArray, calmAssignment⟩ := calm
      obtain ⟨movedVector, vectorAgain, vectorCalm⟩ :=
        Range.alike_layoutField vectors tidyVector wide.vectors
      obtain ⟨movedArray, arrayAgain, arrayCalm⟩ :=
        Range.alike_layoutField arrays tidyArray wide.arrays
      obtain ⟨movedAssignment, assignmentAgain⟩ :=
        Assignment.alike_layoutField_self tidyAssignment (isCut_of_eq same)
          m.anyAssignment m.assignments
      have assignmentCalm := Assignment.layoutField_calm m.anyAssignment m.assignments calmAssignment
      have assignmentPlain := tidyAssignment.plain.within
        (Assignment.layoutField_within m.anyAssignment m.assignments assignment)
      rw [assignments.layoutField_eq]
        at movedAssignment assignmentAgain assignmentCalm assignmentPlain
      generalize laidVector : Range.layoutField m.vectors oldVector = printedVector at *
      generalize laidArray : Range.layoutField m.arrays oldArray = printedArray at *
      generalize laidAssignment :
        Assignment.layoutField m.anyAssignment m.assignments oldAssignment = printedAssignment at *
      have trimmed : [type, printedVector, name, printedArray, printedAssignment].map trimSpaces =
          [type, printedVector, name, printedArray, trimSpaces printedAssignment] := by
        have bounds {field : Text} (starts : Starts field) (ends : Ends field) :
            trimSpaces field = field := by simpa using trimSpaces_append starts ends .nil
        simp [bounds tidyType.starts tidyType.ends, bounds movedVector.starts movedVector.ends,
          bounds tidyName.starts tidyName.ends, bounds movedArray.starts movedArray.ends]
      have normal {field : Text} (tidy : Tidy field) : normalize field = field :=
        (Laid.alone field).normalize_single tidy
      have shown {field : Text} (starts : Starts field) (none : squeeze field = []) : field = [] :=
        starts.eq_nil (squeeze_eq_nil_iff.mp none)
      refine ⟨[type, printedVector, name, printedArray, printedAssignment], ?_, ?_, ?_, ?_, ?_, ?_,
        ?_⟩
      · rw [← laidVector, ← laidArray, ← laidAssignment]
        exact m.lay_aligned type oldVector name oldArray oldAssignment comment source
      · simpa using ⟨tidyType.plain, movedVector.plain, tidyName.plain, movedArray.plain,
          assignmentPlain⟩
      · simpa using ⟨calmType, vectorCalm calmVector, calmName, arrayCalm calmArray, assignmentCalm⟩
      · rw [trimmed]
        exact loosenedColumns_of_eq readable.plain same movedVector movedArray movedAssignment
      · rw [trimmed]
        simp only [List.map_cons, List.map_nil, normal tidyType, normal tidyName]
        refine .intro _ _ vectorAgain arrayAgain ?_
        rw [normalize_trimSpaces assignmentPlain]
        exact assignmentAgain.trans assignments
      · simpa only [assignmentColumn, List.take_succ_cons, List.take_zero, List.forall_mem_cons,
          List.not_mem_nil, false_implies, implies_true, and_true] using
          ⟨tidyType.starts, movedVector.starts, tidyName.starts, movedArray.starts⟩
      · simp only [List.forall_mem_cons, List.not_mem_nil, false_implies, implies_true, and_true]
        refine ⟨shown tidyType.starts, shown movedVector.starts, shown tidyName.starts,
          shown movedArray.starts, fun none => ?_⟩
        rw [← squeeze_trimSpaces, movedAssignment.squeeze] at none
        rw [← laidAssignment, ← assignments.layoutField_eq, shown tidyAssignment.starts none]
        rfl

theorem Rereads.classify_render {code : Text} (readable : IsReadable code) {printed old : List Text}
    (rereads : Rereads code printed old) {comment : Text}
    (begins : comment = [] ∨ comment.startsWith (ofString "//")) (single : newline ∉ comment)
    {anchors : List Nat} (roomy : Batch.Roomy (printed ++ [comment]) anchors) {indent : Text}
    (margin : ∀ byte ∈ indent, isIndent byte) (source other : Int) :
    Grammar.declaration.classify
        ((Line.aligned (printed ++ [comment]) source).render anchors indent) other =
      .aligned ((printed.map trimSpaces).map normalize ++ [dropTailWhile isIndent comment])
        other := by
  have split := splitComment_render roomy rereads.calm begins margin source
  have laid := laid_renderedCode roomy.append.1 rereads.plain comment margin
  have plain := @plain_renderedCode printed anchors indent rereads.plain margin comment
  have statement := isStatement_reread readable.plain readable.bare rereads.loosened laid plain
    readable.statement
  obtain ⟨-, columns⟩ := code_reread readable.plain readable.bare rereads.loosened laid
  have whole : newline ∉ (Line.aligned (printed ++ [comment]) source).render anchors indent := by
    refine single_render_aligned source anchors
      (fun member => absurd (margin newline member) (by decide)) fun field member => ?_
    rcases List.mem_append.mp member with inside | inside
    · exact fun member => absurd (rereads.plain field inside newline member) (by decide)
    · exact List.mem_singleton.mp inside ▸ single
  refine Grammar.classify_eq_aligned_iff.mpr ⟨?_, ?_⟩
  · rw [split]
    exact statement
  · rw [Grammar.layout_eq whole, split]
    exact congrArg (· ++ [dropTailWhile isIndent comment]) columns

theorem IsOrderly.exists_rereads {line : Text} (orderly : IsOrderly line) (single : newline ∉ line)
    (aligned : (Grammar.declaration.classify line 0).isAligned) {m : Measures}
    (wide : m.Wide (Grammar.declaration.classify line 0)) :
    ∃ code printed, IsReadable code ∧ Rereads code printed (codeColumns (splitComment line).1) ∧
      Grammar.declaration.classify line 0 =
        .aligned (codeColumns (splitComment line).1 ++ [(splitComment line).2]) 0 ∧
      m.lay (Grammar.declaration.classify line 0) =
        .aligned (printed ++ [(splitComment line).2]) 0 := by
  obtain ⟨code, readable, columns⟩ := orderly
  have read : Grammar.declaration.classify line 0 =
      .aligned (codeColumns (splitComment line).1 ++ [(splitComment line).2]) 0 := by
    rw [(classify_of_isAligned aligned).2.2, columns_eq single]
  rw [read] at wide ⊢
  obtain ⟨printed, laid, rereads⟩ := Block.exists_rereads readable columns wide
  exact ⟨code, printed, readable, rereads, rfl, laid⟩

theorem blockAlike_render {line : Text} (orderly : IsOrderly line) (single : newline ∉ line)
    (aligned : (Grammar.declaration.classify line 0).isAligned) {m : Measures}
    (wide : m.Wide (Grammar.declaration.classify line 0)) {anchors : List Nat}
    (roomy : ∀ fields source, m.lay (Grammar.declaration.classify line 0) =
      .aligned fields source → Batch.Roomy fields anchors)
    {indent : Text} (margin : ∀ byte ∈ indent, isIndent byte) :
    BlockAlike (Grammar.declaration.classify
        ((m.lay (Grammar.declaration.classify line 0)).render anchors indent) 0)
      (Grammar.declaration.classify line 0) := by
  obtain ⟨code, printed, readable, rereads, read, laid⟩ := orderly.exists_rereads single aligned wide
  have begins := splitComment_comment line
  have singleComment : newline ∉ (splitComment line).2 := fun member => single (by
    rw [← splitComment_append line]
    exact List.mem_append_right _ member)
  rw [laid, rereads.classify_render readable begins singleComment (roomy _ _ laid) margin, read]
  exact .aligned rereads.alike begins 0 0

end HdlAlign.Block
