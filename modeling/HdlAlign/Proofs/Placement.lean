import HdlAlign.Proofs.LineStructure
import HdlAlign.Proofs.Normal
import HdlAlign.Proofs.Rendering

/-! The columns of a block of declarations line up: on every line the name, the right-hand side, the
terminator and the comment each begin at one column of the block. -/

namespace HdlAlign.Text

open Utf8

/-- A part stands at a column of a line, behind nothing but the given parts and white space. -/
def StandsAt (part : Text) (column : Nat) (before : List Text) (line : Text) : Prop :=
  ∃ front back, line = front ++ (part ++ back) ∧ front.length = column ∧
    solid front = (before.map solid).flatten

theorem StandsAt.congr {part line : Text} {column : Nat} {before others : List Text}
    (h : StandsAt part column before line)
    (same : (before.map solid).flatten = (others.map solid).flatten) :
    StandsAt part column others line := by
  obtain ⟨front, back, split, length, shown⟩ := h
  exact ⟨front, back, split, length, shown.trans same⟩

theorem last_of_trim {text : Text} (trimmed : trim text = text) (nonempty : text ≠ []) :
    ∃ byte ∈ text.getLast?, isIndent byte = false := by
  have white : ∀ byte : UInt8, isIndent byte → isWhite1 byte := forall_byte (by decide +kernel)
  obtain ⟨init, byte, rfl⟩ := (List.eq_nil_or_concat text).resolve_left nonempty
  refine ⟨byte, by simp, Bool.eq_false_iff.mpr fun blank => ?_⟩
  have fixed : trimEnd (init ++ [byte]) = init ++ [byte] := by
    rw [List.concat_eq_append] at trimmed
    rw [← trimmed, trimEnd_trim]
  rw [trimEnd_of_isWhite1 (white byte blank)] at fixed
  obtain ⟨tail, -, split⟩ := trimEnd_split init
  have longer := congrArg List.length fixed
  have shorter := congrArg List.length split
  simp only [List.length_append, List.length_singleton] at longer shorter
  omega

theorem last_dropTailWhile {p : UInt8 → Bool} {text : Text} (nonempty : dropTailWhile p text ≠ []) :
    ∃ byte ∈ (dropTailWhile p text).getLast?, p byte = false := by
  have stopped := List.head?_dropWhile_not p text.reverse
  rw [dropTailWhile, List.getLast?_reverse]
  cases rest : text.reverse.dropWhile p with
  | nil => exact absurd (by rw [dropTailWhile, rest]; rfl) nonempty
  | cons byte others => exact ⟨byte, rfl, by simpa [rest] using stopped⟩

theorem subset_of_mem_lines {text line : Text} (member : line ∈ lines text) : line ⊆ text := by
  intro byte inside
  rw [← unlines_lines text, unlines, join]
  generalize lines text = all at member
  induction all with
  | nil => cases member
  | cons first others ih =>
      cases others with
      | nil => simpa [List.mem_singleton.mp member] using inside
      | cons next others =>
          rw [List.intercalate_cons_of_ne_nil (by simp)]
          rcases List.mem_cons.mp member with rfl | later
          · simp [inside]
          · exact List.mem_append_right _ (ih later)

end HdlAlign.Text

namespace HdlAlign.Line

open Text Batch

theorem standsAt_render {front back : List Text} {lead part tail : Text} {anchors : List Nat}
    {indent : Text} (roomy : Roomy (front ++ (lead ++ (part ++ tail)) :: back) anchors)
    (plain : ∀ field ∈ front, Plain field) (margin : White indent)
    (ends : ∃ byte ∈ part.getLast?, isIndent byte = false) (source : Int) :
    StandsAt part (indent.length + (anchors.take front.length).sum + lead.length) (front ++ [lead])
      ((aligned (front ++ (lead ++ (part ++ tail)) :: back) source).render anchors indent) := by
  obtain ⟨byte, last, stays⟩ := ends
  obtain ⟨init, rfl⟩ := List.getLast?_eq_some_iff.mp last
  have behind : ∃ rest, padded ((lead ++ (init ++ [byte] ++ tail)) :: back)
      (anchors.drop front.length) = lead ++ (init ++ byte :: rest) := by
    have room := roomy.append.2
    generalize anchors.drop front.length = behindFront at room
    cases behindFront with
    | nil => exact room.elim
    | cons anchor others =>
        rw [padded, padRight]
        generalize anchor - _ = gap
        exact ⟨tail ++ (blanks gap ++ padded back others), by simp⟩
  obtain ⟨rest, behind⟩ := behind
  have whole : indent ++ padded (front ++ (lead ++ (init ++ [byte] ++ tail)) :: back) anchors =
      (indent ++ (padded front anchors ++ lead) ++ init) ++ byte :: rest := by
    rw [roomy.padded_append, behind]
    simp
  have frontPlain : Plain (padded front anchors) := by
    intro other member
    rcases padded_subset front anchors member with rfl | ⟨field, listed, inside⟩
    · rfl
    · exact plain field listed other inside
  refine ⟨indent ++ (padded front anchors ++ lead), dropTailWhile isIndent rest, ?_, ?_, ?_⟩
  · rw [render_aligned, whole, dropTailWhile_append_cons stays]
    simp
  · rw [List.length_append, List.length_append, roomy.append.1.length_padded plain, Nat.add_assoc]
  · rw [margin.solid_append_left, solid_append_of_isValid frontPlain.isValid,
      solid_padded anchors fun field member => (plain field member).isValid]
    simp

end HdlAlign.Line

namespace HdlAlign.Assignment

open Text

theorem le_foldl_max {α : Type} (f : α → Nat) {values : List α} {value : α}
    (member : value ∈ values) (start : Nat) :
    f value ≤ values.foldl (fun most other => max most (f other)) start := by
  have grows (values : List α) (start : Nat) :
      start ≤ values.foldl (fun most other => max most (f other)) start := by
    induction values generalizing start with
    | nil => exact Nat.le_refl start
    | cons first values ih => exact (Nat.le_max_left _ _).trans (ih _)
  induction values generalizing start with
  | nil => cases member
  | cons first values ih =>
      rcases List.mem_cons.mp member with rfl | later
      · exact (Nat.le_max_right _ _).trans (grows values _)
      · exact ih later _

structure Fits (value : Assignment) (widths : Widths) : Prop where
  operator : value.operator.width ≤ widths.operator
  value : value.value.width ≤ widths.value

theorem fits_widths {found : List Assignment} {value : Assignment} (member : value ∈ found) :
    value.Fits (widths found) :=
  ⟨le_foldl_max (fun a : Assignment => a.operator.width) member 0,
    le_foldl_max (fun a : Assignment => a.value.width) member 0⟩

def opening (value : Assignment) (widths : Widths) : Text :=
  value.operator.padLeft widths.operator ++ [blank]

theorem render_value (value : Assignment) (widths : Widths) :
    ∃ tail, render value widths = value.opening widths ++ (value.value ++ tail) := by
  rw [render, opening]
  cases value.terminated with
  | false => exact ⟨[], by simp⟩
  | true =>
      refine ⟨blanks (widths.value + 1 - value.value.width) ++ terminator, ?_⟩
      simp [padRight, List.append_assoc]

theorem render_terminated {value : Assignment} (terminated : value.terminated) (widths : Widths) :
    render value widths =
      (value.opening widths ++ value.value.padRight (widths.value + 1)) ++ (terminator ++ []) := by
  rw [render, opening, if_pos terminated]
  simp

theorem length_opening {value : Assignment} (plain : Plain value.operator) {widths : Widths}
    (fits : value.Fits widths) : (value.opening widths).length = widths.operator + 1 := by
  have room := fits.operator
  rw [plain.width] at room
  rw [opening, List.length_append, plain.length_padLeft room]
  rfl

theorem cell_of_parse? {field : Text} {value : Assignment} (read : parse? field = some value) :
    cell field = .assignment value := by
  obtain ⟨op, rest, found, -⟩ := parse?_eq_some_iff.mp read
  obtain ⟨member, split⟩ := operator?_eq_some_iff.mp found
  have equals : ∀ op ∈ operators, ('=' : UInt8) ∈ op := by decide
  have inside := splitTerminator_subset field
  rw [split, List.append_subset] at inside
  rw [cell, if_pos (List.contains_iff_mem.mpr (inside.1 (equals op member))), read]

theorem plain_parse? {field : Text} (plain : Plain field) {value : Assignment}
    (read : parse? field = some value) : Plain value.operator ∧ Plain value.value := by
  obtain ⟨op, rest, found, rfl⟩ := parse?_eq_some_iff.mp read
  obtain ⟨-, split⟩ := operator?_eq_some_iff.mp found
  have inside := splitTerminator_subset field
  rw [split, List.append_subset] at inside
  exact ⟨plain.subset inside.1, (plain.subset inside.2).within (spaceOperators_within rest)⟩

def terminatorColumn (anyAssignment : Bool) (widths : Widths) : Nat :=
  if anyAssignment then widths.operator + 1 + (widths.value + 1) else 0

theorem renderTerminator_eq (anyAssignment : Bool) (widths : Widths) :
    renderTerminator anyAssignment widths =
      blanks (terminatorColumn anyAssignment widths) ++ (terminator ++ []) := by
  have one : terminator.width = 1 := by decide +kernel
  cases anyAssignment with
  | false => rfl
  | true => simp [renderTerminator, terminatorColumn, padLeft, one]

end HdlAlign.Assignment

namespace HdlAlign.Block

open Text Utf8 Statement

def blockAssignments (lines : List Line) : List Assignment :=
  Assignment.assignments Declaration.assignmentColumn (Range.alignColumn Declaration.arrayColumn
    (Range.alignColumn Declaration.vectorColumn lines))

def laidOutAssignment (lines : List Line) (field : Text) : Text :=
  Assignment.layoutField (!(blockAssignments lines).isEmpty)
    (Assignment.widths (blockAssignments lines)) field

theorem laidOut_statement {lines : List Line} {d : Declaration} {source : Int}
    (member : Line.aligned d.columns source ∈ lines) :
    ∃ vector array, Moved vector d.vector ∧ Moved array d.array ∧
      laidOut lines (.aligned d.columns source) =
        .aligned [d.type, vector, d.name, array, laidOutAssignment lines d.assignment, d.comment]
          source := by
  obtain ⟨vector, movedVector, vectorLine⟩ :=
    Range.exists_layoutLine Declaration.vectorColumn member
  have inVectors := List.mem_map_of_mem (f := Range.layoutLine Declaration.vectorColumn
    (Range.columnWidths Declaration.vectorColumn lines)) member
  rw [vectorLine] at inVectors
  obtain ⟨array, movedArray, arrayLine⟩ :=
    Range.exists_layoutLine Declaration.arrayColumn inVectors
  refine ⟨vector, array, movedVector, movedArray, ?_⟩
  rw [laidOut, vectorLine]
  exact congrArg (Assignment.layoutLine _ _ _) arrayLine

theorem mem_blockAssignments {lines : List Line} {d : Declaration} {source : Int}
    (member : Line.aligned d.columns source ∈ lines) {value : Assignment}
    (holds : Assignment.cell d.assignment = .assignment value) : value ∈ blockAssignments lines := by
  have inVectors := List.mem_map_of_mem (f := Range.layoutLine Declaration.vectorColumn
    (Range.columnWidths Declaration.vectorColumn lines)) member
  have inArrays := List.mem_map_of_mem (f := Range.layoutLine Declaration.arrayColumn
    (Range.columnWidths Declaration.arrayColumn
      (Range.alignColumn Declaration.vectorColumn lines))) inVectors
  refine List.mem_filterMap.mpr ⟨_, inArrays, ?_⟩
  rw [Range.isAligned_layoutLine, Range.isAligned_layoutLine, Range.field_layoutLine (by decide),
    Range.field_layoutLine (by decide)]
  exact congrArg Assignment.Cell.assignment? holds

/-- Where the parts of a statement stand on the line it is printed on, behind the parts that the
layout puts in front of them. -/
structure InColumns (name value terminator comment : Nat) (d : Declaration) (output : Text) :
    Prop where
  name : d.name ≠ [] → StandsAt d.name name [d.type, d.vector] output
  value : ∀ a, Assignment.parse? d.assignment = some a → a.value ≠ [] →
    StandsAt a.value value [d.type, d.vector, d.name, d.array, a.operator] output
  terminator : (Assignment.splitTerminator d.assignment).1 →
    StandsAt Assignment.terminator terminator
      [d.type, d.vector, d.name, d.array, (Assignment.splitTerminator d.assignment).2] output
  comment : d.comment ≠ [] →
    StandsAt (dropTailWhile isIndent d.comment) comment
      [d.type, d.vector, d.name, d.array, d.assignment] output

/-- What the parts of a declaration look like on a line of printable characters. -/
structure WellCut (d : Declaration) : Prop where
  plain : ∀ field ∈ d.columns, Plain field
  name : trim d.name = d.name
  assignment : (∃ op ∈ Assignment.operators, op <+: d.assignment) ∨
    d.assignment = Assignment.terminator ∨ d.assignment = []
  comment : d.comment = [] ∨ d.comment.startsWith (ofString "//")

theorem WellCut.isField {d : Declaration} (cut : WellCut d) : Assignment.IsField d.assignment :=
  Assignment.IsCut.isField cut.assignment

theorem plain_laidOutAssignment {d : Declaration} (cut : WellCut d) (lines : List Line) :
    Plain (laidOutAssignment lines d.assignment) :=
  (cut.plain d.assignment (by simp [Declaration.columns])).within
    (Assignment.layoutField_within _ _ _)

theorem laidOutAssignment_of_parse? {lines : List Line} {field : Text} {value : Assignment}
    (read : Assignment.parse? field = some value) :
    laidOutAssignment lines field =
      Assignment.render value (Assignment.widths (blockAssignments lines)) := by
  rw [laidOutAssignment, Assignment.layoutField, Assignment.cell_of_parse? read]

theorem laidOutAssignment_value {lines : List Line} {d : Declaration} {source : Int}
    (member : Line.aligned d.columns source ∈ lines) (plain : Plain d.assignment)
    {value : Assignment} (read : Assignment.parse? d.assignment = some value) :
    ∃ lead tail, laidOutAssignment lines d.assignment = lead ++ (value.value ++ tail) ∧
      lead.length = (Assignment.widths (blockAssignments lines)).operator + 1 ∧
      solid lead = solid value.operator := by
  have listed := mem_blockAssignments member (Assignment.cell_of_parse? read)
  have plainOperator := (Assignment.plain_parse? plain read).1
  obtain ⟨tail, split⟩ := Assignment.render_value value (Assignment.widths (blockAssignments lines))
  refine ⟨_, tail, (laidOutAssignment_of_parse? read).trans split,
    Assignment.length_opening plainOperator (Assignment.fits_widths listed), ?_⟩
  rw [Assignment.opening, White.solid_append_right (.of_isWhite1 rfl), solid_padLeft]

theorem laidOutAssignment_terminator {lines : List Line} {d : Declaration} {source : Int}
    (member : Line.aligned d.columns source ∈ lines) (cut : WellCut d)
    (terminated : (Assignment.splitTerminator d.assignment).1) :
    ∃ lead, laidOutAssignment lines d.assignment = lead ++ (Assignment.terminator ++ []) ∧
      lead.length = Assignment.terminatorColumn (!(blockAssignments lines).isEmpty)
        (Assignment.widths (blockAssignments lines)) ∧
      solid lead = solid (Assignment.splitTerminator d.assignment).2 := by
  have plain : Plain d.assignment := cut.plain _ (by simp [Declaration.columns])
  rcases cut.assignment with ⟨op, isOperator, begins⟩ | alone | none
  · obtain ⟨value, read, holds⟩ := Assignment.cell_of_operator isOperator begins
    have listed := mem_blockAssignments member holds
    have fits := Assignment.fits_widths listed
    obtain ⟨plainOperator, plainValue⟩ := Assignment.plain_parse? plain read
    have some : (!(blockAssignments lines).isEmpty) = true := by
      rw [Bool.not_eq_true', List.isEmpty_eq_false_iff]
      exact List.ne_nil_of_mem listed
    have room := fits.value
    rw [plainValue.width] at room
    obtain ⟨other, rest, found, rfl⟩ := Assignment.parse?_eq_some_iff.mp read
    obtain ⟨isOther, split⟩ := Assignment.operator?_eq_some_iff.mp found
    refine ⟨_, (laidOutAssignment_of_parse? read).trans
      (Assignment.render_terminated terminated _), ?_, ?_⟩
    · rw [List.length_append, Assignment.length_opening plainOperator fits,
        plainValue.length_padRight (by omega), some]
      rfl
    · have opening : Utf8.Seam (Assignment.opening ⟨other, Assignment.spaceOperators rest,
          (Assignment.splitTerminator d.assignment).1⟩
            (Assignment.widths (blockAssignments lines))) (padRight (Assignment.spaceOperators rest)
              ((Assignment.widths (blockAssignments lines)).value + 1)) :=
        .inl fun byte last => by
          rw [Assignment.opening, List.getLast?_concat] at last
          cases last
          rfl
      rw [solid_append opening, Assignment.opening, White.solid_append_right (.of_isWhite1 rfl),
        solid_padLeft, solid_padRight, Assignment.solid_spaceOperators, split,
        solid_append (Assignment.operator_seam isOther rest)]
  · refine ⟨blanks (Assignment.terminatorColumn (!(blockAssignments lines).isEmpty)
      (Assignment.widths (blockAssignments lines))), ?_, List.length_replicate, ?_⟩
    · rw [alone, ← Assignment.renderTerminator_eq]
      rfl
    · rw [alone]
      exact White.blanks _
  · rw [none] at terminated
    cases terminated

/-- The columns of a block, from the margin and the widths of its fields. -/
theorem inColumns_laidOut {lines : List Line} {d : Declaration} {source : Int}
    (member : Line.aligned d.columns source ∈ lines) (cut : WellCut d) {indent : Text}
    (margin : White indent) (anchors : List Nat)
    (same : anchors = Batch.anchors (alignDeclarationColumns lines)) :
    InColumns (indent.length + (anchors.take 2).sum)
      (indent.length + (anchors.take 4).sum +
        ((Assignment.widths (blockAssignments lines)).operator + 1))
      (indent.length + (anchors.take 4).sum +
        Assignment.terminatorColumn (!(blockAssignments lines).isEmpty)
          (Assignment.widths (blockAssignments lines)))
      (indent.length + (anchors.take 5).sum) d
      ((laidOut lines (.aligned d.columns source)).render anchors indent) := by
  have plainOf {part : Text} (listed : part ∈ d.columns) : Plain part := cut.plain part listed
  have inBatch : laidOut lines (.aligned d.columns source) ∈ alignDeclarationColumns lines := by
    rw [alignDeclarationColumns_eq]
    exact List.mem_map_of_mem member
  obtain ⟨vector, array, movedVector, movedArray, laid⟩ := laidOut_statement member
  rw [laid] at inBatch ⊢
  have roomy := Batch.roomy_anchors inBatch
  rw [← same] at roomy
  have plainVector : Plain vector :=
    (plainOf (by simp [Declaration.columns] : d.vector ∈ d.columns)).within movedVector.within
  have plainArray : Plain array :=
    (plainOf (by simp [Declaration.columns] : d.array ∈ d.columns)).within movedArray.within
  have plainAssignment := plain_laidOutAssignment cut lines
  have plainType : Plain d.type := plainOf (by simp [Declaration.columns])
  have plainName : Plain d.name := plainOf (by simp [Declaration.columns])
  have plainFront : ∀ field ∈ [d.type, vector, d.name, array], Plain field := by
    simp [plainType, plainVector, plainName, plainArray]
  have inField {lead part tail body : Text}
      (split : laidOutAssignment lines d.assignment = lead ++ (part ++ tail))
      (ends : ∃ byte ∈ part.getLast?, isIndent byte = false) (equal : solid lead = solid body) :
      StandsAt part (indent.length + (anchors.take 4).sum + lead.length)
        [d.type, d.vector, d.name, d.array, body]
        ((Line.aligned [d.type, vector, d.name, array, laidOutAssignment lines d.assignment,
          d.comment] source).render anchors indent) := by
    rw [split] at roomy ⊢
    refine (@Line.standsAt_render [d.type, vector, d.name, array] _ _ _ _ _ _ roomy plainFront
      margin ends source).congr ?_
    simp [movedVector.solid, movedArray.solid, equal]
  constructor
  case name =>
    intro nonempty
    have standing := @Line.standsAt_render [d.type, vector] _ [] d.name [] _ _
      (by simpa using roomy)
      (by simp [plainType, plainVector]) margin
      (last_of_trim cut.name nonempty) source
    refine StandsAt.congr (by simpa using standing) ?_
    simp [movedVector.solid]
  case value =>
    intro value read nonempty
    obtain ⟨lead, tail, split, length, shown⟩ :=
      laidOutAssignment_value member (plainOf (by simp [Declaration.columns])) read
    obtain ⟨op, rest, -, rfl⟩ := Assignment.parse?_eq_some_iff.mp read
    rw [← length]
    exact inField split (last_of_trim (trim_trim _) nonempty) shown
  case terminator =>
    intro terminated
    obtain ⟨lead, split, length, shown⟩ := laidOutAssignment_terminator member cut terminated
    rw [← length]
    exact inField split ⟨';', by decide, rfl⟩ shown
  case comment =>
    intro nonempty
    obtain ⟨tail, -, split⟩ := dropTailWhile_split isIndent d.comment
    obtain ⟨rest, begins⟩ := startsWith_slashes.mp (cut.comment.resolve_left nonempty)
    have visible : dropTailWhile isIndent d.comment ≠ [] := by
      rw [begins]
      exact fun none => absurd ((dropTailWhile_append_cons rfl [] _).symm.trans none) (by simp)
    have ends := last_dropTailWhile visible
    have standing := @Line.standsAt_render
      [d.type, vector, d.name, array, laidOutAssignment lines d.assignment] [] []
      (dropTailWhile isIndent d.comment) tail _ _ (by simpa [← split] using roomy)
      (by simp [plainType, plainVector, plainName, plainArray, plainAssignment]) margin ends source
    rw [List.nil_append, ← split] at standing
    refine StandsAt.congr (by simpa using standing) ?_
    simp [movedVector.solid, movedArray.solid,
      Assignment.layoutField_solid _ _ cut.isField, laidOutAssignment]

theorem wellCut_extract {line : Text} (plain : Plain line) : WellCut (Declaration.extract line) := by
  have single : newline ∉ line := fun member => absurd (plain _ member) (by decide)
  refine ⟨fun field member => ?_, ?_, Declaration.assignment_cases single, ?_⟩
  · exact plain.within (Declaration.columns_within single field member)
  · rw [Declaration.extract_eq_cut single]
    simp only [Declaration.Cut.declaration, normalizeList, trim_trim]
  · rw [Declaration.extract_eq_cut single]
    simp only [Declaration.Cut.declaration, Declaration.cut_comment]
    exact Declaration.splitComment_comment line

theorem plain_of_mem_lines {text line : Text} (plain : ∀ byte ∈ text, byte = newline ∨ isPlain byte)
    (member : line ∈ text.lines) : Plain line := by
  intro byte inside
  refine (plain byte (subset_of_mem_lines member inside)).resolve_left fun same => ?_
  exact single_of_mem_lines member (same ▸ inside)

theorem alignDeclarations_aligned (options : Options) {text : Text} (visible : isBlank text = false)
    {motive : Text → Text → Prop}
    (printed : ∀ line ∈ text.lines, ∀ source,
      Line.aligned (Declaration.extract line).columns source ∈ declarationLines options text →
      motive ((laidOut (declarationLines options text)
        (.aligned (Declaration.extract line).columns source)).render
          (Batch.anchors (alignDeclarationColumns (declarationLines options text)))
          (declarationIndent text)) line) :
    List.Forall₂ (fun output line =>
        (Grammar.declaration.classify line 0).isAligned → motive output line)
      (alignDeclarations options text).text.lines (keptLines options.condense text) := by
  rw [alignDeclarations_lines options visible, ← numbered_lines _ 0, List.forall₂_map_left_iff,
    List.forall₂_map_right_iff, List.forall₂_same]
  intro entry member aligned
  have read : Grammar.declaration.classify entry.2 entry.1 =
      .aligned (Declaration.extract entry.2).columns entry.1 := by
    rcases classify_cases entry.2 entry.1 with ⟨-, -, read⟩ | ⟨-, -, read⟩ | ⟨-, -, -, read⟩
    · rw [isAligned_classify _ _ 0 entry.1, read] at aligned
      cases aligned
    · rw [isAligned_classify _ _ 0 entry.1, read] at aligned
      cases aligned
    · exact read
  have listed : Line.aligned (Declaration.extract entry.2).columns entry.1 ∈
      declarationLines options text := List.mem_map.mpr ⟨entry, member, read⟩
  rw [printedLine, read]
  exact printed entry.2 (mem_lines_of_numbered member) entry.1 listed

theorem alignDeclarations_inColumns (options : Options) {text : Text}
    (visible : isBlank text = false) (plain : ∀ byte ∈ text, byte = newline ∨ isPlain byte) :
    ∃ name value terminator comment, List.Forall₂ (fun output line =>
        (Grammar.declaration.classify line 0).isAligned →
          InColumns name value terminator comment (Declaration.extract line) output)
      (alignDeclarations options text).text.lines (keptLines options.condense text) := by
  obtain ⟨name, value, terminator, comment, placed⟩ : ∃ name value terminator comment,
      ∀ d source, Line.aligned d.columns source ∈ declarationLines options text → WellCut d →
        InColumns name value terminator comment d
          ((laidOut (declarationLines options text) (.aligned d.columns source)).render
            (Batch.anchors (alignDeclarationColumns (declarationLines options text)))
            (declarationIndent text)) :=
    ⟨_, _, _, _, fun d source member cut =>
      inColumns_laidOut member cut (declarationIndent_blank text).1 _ rfl⟩
  refine ⟨name, value, terminator, comment, alignDeclarations_aligned options visible ?_⟩
  exact fun line member source listed =>
    placed _ source listed (wellCut_extract (plain_of_mem_lines plain member))

/-- The columns of a block of declarations line up from end to end. -/
theorem declarations_inColumns (options : Options) {text : Text}
    (plain : ∀ byte ∈ text, byte = newline ∨ isPlain byte)
    (mode : (align options text).mode = .declarations) :
    ∃ name value terminator comment, List.Forall₂ (fun output line =>
        (Grammar.declaration.classify line 0).isAligned →
          InColumns name value terminator comment (Declaration.extract line) output)
      (format options text).lines (sourceLines options text) := by
  obtain ⟨visible, same⟩ := align_declarations mode
  have body : ∀ byte ∈ (splitFinalNewline text).1, byte = newline ∨ isPlain byte := by
    intro byte member
    refine plain byte ?_
    rw [← splitFinalNewline_append text]
    exact List.mem_append_left _ member
  obtain ⟨name, value, terminator, comment, placed⟩ :=
    alignDeclarations_inColumns options visible body
  refine ⟨name, value, terminator, comment, ?_⟩
  rw [same, sourceLines]
  rcases splitFinalNewline_final text with final | final
  · rw [final, List.append_nil]
    simpa using placed
  · rw [final, lines_append_newline]
    exact List.rel_append placed (.cons (fun aligned => absurd aligned (by decide)) .nil)

theorem declarations_inColumns_mixture :
    let text := ofString "reg [7:0] a = 1; // first\x0Ab <= a+2;\x0Awire c;"
    (∀ byte ∈ text, byte = newline ∨ isPlain byte) ∧
      (align {} text).mode = .declarations ∧
      ∃ name value terminator comment, List.Forall₂ (fun output line =>
          (Grammar.declaration.classify line 0).isAligned →
            InColumns name value terminator comment (Declaration.extract line) output)
        (format {} text).lines (sourceLines {} text) := by
  have plain : ∀ byte ∈ ofString "reg [7:0] a = 1; // first\x0Ab <= a+2;\x0Awire c;",
      byte = newline ∨ isPlain byte := by
    decide +kernel
  have mode : (align {} (ofString "reg [7:0] a = 1; // first\x0Ab <= a+2;\x0Awire c;")).mode =
      .declarations := by
    decide +kernel
  exact ⟨plain, mode, declarations_inColumns {} plain mode⟩

end HdlAlign.Block
