import HdlAlign.Proofs.Conservation
import HdlAlign.Proofs.Widths

/-! The lines of a block of declarations.  Each line of the output stems from one line of the input:
blank lines are emptied or dropped, lines that are no statement stay as they are, and statements are
printed on one line each. -/

namespace HdlAlign.Text

open Utf8

theorem black_of_isPrinted : ∀ {byte : UInt8}, isPrinted byte →
    isAscii byte ∧ isWhite1 byte = false ∧ isIndent byte = false :=
  @(forall_byte (by decide +kernel))

theorem isBlank_eq_false_of_mem {text : Text} {byte : UInt8} (member : byte ∈ text)
    (printed : isPrinted byte) : isBlank text = false := by
  obtain ⟨ascii, black, -⟩ := black_of_isPrinted printed
  rw [← Bool.not_eq_true, isBlank_iff_white]
  intro white
  have shown := (mem_iff_mem_solid ascii black text).mp member
  rw [white] at shown
  cases shown

theorem mem_dropTailWhile {p : UInt8 → Bool} {text : Text} {byte : UInt8} (member : byte ∈ text)
    (stays : p byte = false) : byte ∈ dropTailWhile p text := by
  obtain ⟨tail, dropped, split⟩ := dropTailWhile_split p text
  rw [split] at member
  refine (List.mem_append.mp member).resolve_right fun inside => ?_
  rw [dropped byte inside] at stays
  cases stays

end HdlAlign.Text

namespace HdlAlign.Statement.Declaration

open Pattern Text

theorem mem_columns {line : Text} (single : newline ∉ line) {byte : UInt8} (member : byte ∈ line)
    (printed : isPrinted byte) : ∃ field ∈ (extract line).columns, byte ∈ field := by
  obtain ⟨ascii, black, -⟩ := black_of_isPrinted printed
  have normal (part : Text) : byte ∈ normalize part ↔ byte ∈ part :=
    mem_iff_of_solid_eq ascii black (solid_normalize part)
  have list (part : Text) : byte ∈ normalizeList part ↔ byte ∈ part :=
    mem_iff_of_solid_eq ascii black (solid_normalizeList part)
  rw [← cut_text line, Cut.text] at member
  rw [extract_eq_cut single]
  generalize cut line = c at member
  have column {field : Text} (listed : field ∈ c.declaration.columns) (inside : byte ∈ field) :
      ∃ field ∈ c.declaration.columns, byte ∈ field := ⟨field, listed, inside⟩
  simp only [List.mem_append] at member
  rcases member with type | vector | front | array | behind | assignment | comment
  · exact column (by simp [columns, Cut.declaration]) ((normal c.type).mpr type)
  · exact column (by simp [columns, Cut.declaration]) ((normal c.vector).mpr vector)
  · exact column (by simp [columns, Cut.declaration])
      ((list _).mpr ((normal (c.front ++ c.behind)).mpr (List.mem_append_left _ front)))
  · exact column (by simp [columns, Cut.declaration]) ((normal c.array).mpr array)
  · exact column (by simp [columns, Cut.declaration])
      ((list _).mpr ((normal (c.front ++ c.behind)).mpr (List.mem_append_right _ behind)))
  · exact column (by simp [columns, Cut.declaration]) ((normal c.assignment).mpr assignment)
  · exact column (by simp [columns, Cut.declaration]) comment

theorem isStatement_printed {code : Text} (statement : isStatement code) :
    ∃ byte ∈ code, isPrinted byte := by
  simp only [isStatement, Bool.and_eq_true, Bool.or_eq_true, matchesFront_iff] at statement
  rcases statement.2 with ⟨part, rest, read⟩ | equals
  · obtain ⟨listed, -, -⟩ := keyword_eq_some_iff.mp read
    have words : ∀ word ∈ typeWords ++ [assignWord], ∃ byte ∈ word, isPrinted byte := by
      decide +kernel
    obtain ⟨byte, member, printed⟩ := words _ listed
    exact ⟨byte, List.takeWhile_subset _ member, printed⟩
  · exact ⟨'=', List.contains_iff_mem.mp equals, rfl⟩

end HdlAlign.Statement.Declaration

namespace HdlAlign.Line

open Text

theorem mem_padded {fields : List Text} (anchors : List Nat) {field : Text}
    (listed : field ∈ fields) {byte : UInt8} (member : byte ∈ field) :
    byte ∈ padded fields anchors := by
  fun_induction padded fields anchors with
  | case1 => cases listed
  | case2 first fields ih =>
      rcases List.mem_cons.mp listed with rfl | later
      · exact List.mem_append_left _ member
      · exact List.mem_append_right _ (ih later)
  | case3 first fields anchor anchors ih =>
      rcases List.mem_cons.mp listed with rfl | later
      · exact List.mem_append_left _ (List.mem_append_left _ member)
      · exact List.mem_append_right _ (ih later)

theorem mem_render_aligned {fields : List Text} {field : Text} (listed : field ∈ fields)
    {byte : UInt8} (member : byte ∈ field) (printed : isPrinted byte) (source : Int)
    (anchors : List Nat) (indent : Text) :
    byte ∈ (aligned fields source).render anchors indent := by
  rw [render_aligned]
  exact mem_dropTailWhile (List.mem_append_right _ (mem_padded anchors listed member))
    (black_of_isPrinted printed).2.2

end HdlAlign.Line

namespace HdlAlign.Block

open Text Utf8 Statement

def isVerbatim (line : Text) : Bool :=
  !isBlank line && !(Grammar.declaration.classify line 0).isAligned

/-- The output shows nothing for a blank line, the line itself for one that is no statement, and
otherwise the fields of the statement, in which white space may have moved, on one line. -/
inductive Printed (anchors : List Nat) (indent : Text) : (line output : Text) → Prop
  | blank {line : Text} (blank : isBlank line) : Printed anchors indent line []
  | verbatim {line : Text} (verbatim : isVerbatim line) : Printed anchors indent line line
  | aligned {line : Text} {fields : List Text}
      (aligned : (Grammar.declaration.classify line 0).isAligned)
      (moved : List.Forall₂ Moved fields (Declaration.extract line).columns)
      (visible : isBlank ((Line.aligned fields 0).render anchors indent) = false) :
      Printed anchors indent line ((Line.aligned fields 0).render anchors indent)

theorem classify_cases (line : Text) (source : Int) :
    (isBlank line ∧ isVerbatim line = false ∧
      Grammar.declaration.classify line source = .verbatim [] source) ∨
    (isBlank line = false ∧ isVerbatim line ∧
      Grammar.declaration.classify line source = .verbatim line source) ∨
    (isBlank line = false ∧ isVerbatim line = false ∧
      Grammar.declaration.isStatement (splitComment line).1 ∧
      Grammar.declaration.classify line source =
        .aligned (Declaration.extract line).columns source) := by
  cases blank : isBlank line with
  | true => simp [isVerbatim, Grammar.classify, blank]
  | false =>
      cases statement : Grammar.declaration.isStatement (splitComment line).1 with
      | false => simp [isVerbatim, Grammar.classify, blank, statement, Line.isAligned]
      | true =>
          simp [isVerbatim, Grammar.classify, blank, statement, Line.isAligned, Grammar.layout]

theorem classify_of_isAligned {line : Text}
    (aligned : (Grammar.declaration.classify line 0).isAligned) :
    isBlank line = false ∧ Grammar.declaration.isStatement (splitComment line).1 ∧
      Grammar.declaration.classify line 0 = .aligned (Declaration.extract line).columns 0 := by
  rcases classify_cases line 0 with ⟨-, -, read⟩ | ⟨-, -, read⟩ | ⟨visible, -, statement, read⟩
  · rw [read] at aligned
    cases aligned
  · rw [read] at aligned
    cases aligned
  · exact ⟨visible, statement, read⟩

theorem visible_render {line : Text} (single : newline ∉ line)
    (statement : Grammar.declaration.isStatement (splitComment line).1) {fields : List Text}
    (moved : List.Forall₂ Moved fields (Declaration.extract line).columns) (source : Int)
    (anchors : List Nat) (indent : Text) :
    isBlank ((Line.aligned fields source).render anchors indent) = false := by
  obtain ⟨byte, inCode, printed⟩ := Declaration.isStatement_printed statement
  have inLine : byte ∈ line := by
    rw [← Declaration.splitComment_append line]
    exact List.mem_append_left _ (trim_subset _ inCode)
  obtain ⟨old, listed, inside⟩ := Declaration.mem_columns single inLine printed
  obtain ⟨ascii, black, -⟩ := black_of_isPrinted printed
  have kept : ∃ field ∈ fields, byte ∈ field := by
    clear inLine
    generalize (Declaration.extract line).columns = columns at moved listed
    induction moved with
    | nil => cases listed
    | cons first _ ih =>
        rcases List.mem_cons.mp listed with rfl | later
        · exact ⟨_, by simp, (mem_iff_of_solid_eq ascii black first.solid).mpr inside⟩
        · obtain ⟨field, member, shown⟩ := ih later
          exact ⟨field, by simp [member], shown⟩
  obtain ⟨field, member, shown⟩ := kept
  exact isBlank_eq_false_of_mem (Line.mem_render_aligned member shown printed source anchors indent)
    printed

theorem printed_printedLine {options : Options} {text : Text} {entry : Nat × Text}
    (member : entry ∈ numbered options.condense 0 text) :
    Printed (Batch.anchors (alignDeclarationColumns (declarationLines options text)))
      (declarationIndent text) entry.2 (printedLine options text entry) := by
  have single := single_of_mem_lines (mem_lines_of_numbered member)
  have alike := laidOut_classify_alike member
  rw [printedLine]
  rcases classify_cases entry.2 entry.1 with ⟨blank, -, read⟩ | ⟨-, verbatim, read⟩ |
    ⟨visible, -, statement, read⟩
  · rw [read] at alike ⊢
    cases same : laidOut (declarationLines options text) (.verbatim [] entry.1) with
    | aligned fields source => rw [same] at alike; cases alike
    | verbatim text source =>
        rw [same] at alike
        cases alike
        exact .blank blank
  · rw [read] at alike ⊢
    cases same : laidOut (declarationLines options text) (.verbatim entry.2 entry.1) with
    | aligned fields source => rw [same] at alike; cases alike
    | verbatim text source =>
        rw [same] at alike
        cases alike
        exact .verbatim verbatim
  · have aligned : (Grammar.declaration.classify entry.2 0).isAligned := by
      rw [isAligned_classify _ _ 0 entry.1, read]
      rfl
    rw [read] at alike ⊢
    cases same : laidOut (declarationLines options text)
        (.aligned (Declaration.extract entry.2).columns entry.1) with
    | verbatim text source => rw [same] at alike; cases alike
    | aligned fields source =>
        rw [same] at alike
        cases alike with
        | aligned _ moved => exact .aligned aligned moved (visible_render single statement moved 0 _ _)

/-! What is reported about the lines. -/

def verbatimSources (text : Text) : List Int :=
  (text.lines.zipIdx.filter fun (line, _) => isVerbatim line).map fun (_, index) => index

theorem pairwise_verbatimSources (text : Text) : (verbatimSources text).Pairwise (· < ·) := by
  have indexes : (text.lines.zipIdx.map fun (_, index) => (index : Int)).Pairwise (· < ·) := by
    have whole : text.lines.zipIdx.map (fun (_, index) => (index : Int)) =
        (List.range' 0 text.lines.length).map Int.ofNat := by
      rw [← List.zipIdx_map_snd, List.map_map]
      rfl
    rw [whole, List.pairwise_map]
    exact (List.pairwise_lt_range' 1).imp fun less => Int.ofNat_lt.mpr less
  exact indexes.sublist (List.filter_sublist.map _)

theorem length_verbatimSources (text : Text) :
    (verbatimSources text).length = text.lines.countP isVerbatim := by
  conv => rhs; rw [← List.zipIdx_map_fst 0 text.lines]
  rw [verbatimSources, List.length_map, ← List.countP_eq_length_filter, List.countP_map]
  rfl

/-- Every line is blank, passed through or aligned. -/
theorem countP_lines (lines : List Text) :
    lines.countP (fun line => (Grammar.declaration.classify line 0).isAligned) +
      lines.countP isVerbatim + lines.countP isBlank = lines.length := by
  induction lines with
  | nil => rfl
  | cons line lines ih =>
      have one : (if (Grammar.declaration.classify line 0).isAligned then 1 else 0) +
          (if isVerbatim line then 1 else 0) + (if isBlank line then 1 else 0) = 1 := by
        rcases classify_cases line 0 with ⟨blank, other, read⟩ | ⟨visible, verbatim, read⟩ |
          ⟨visible, other, -, read⟩
        · simp [blank, other, read, Line.isAligned]
        · simp [visible, verbatim, read, Line.isAligned]
        · simp [visible, other, read, Line.isAligned]
      rw [List.countP_cons, List.countP_cons, List.countP_cons, List.length_cons]
      omega

theorem alike_untouched {new old : List Line} (alike : List.Forall₂ Line.Alike new old) :
    untouched new = untouched old := by
  induction alike with
  | nil => rfl
  | cons first _ ih =>
      rw [untouched, untouched] at ih ⊢
      cases first <;> simp only [List.filterMap_cons, ih]

theorem alike_countP {new old : List Line} (alike : List.Forall₂ Line.Alike new old) :
    new.countP Line.isAligned = old.countP Line.isAligned := by
  induction alike with
  | nil => rfl
  | cons first _ ih => cases first <;> simp only [List.countP_cons, ih, Line.isAligned]

theorem columns_alike (options : Options) (text : Text) :
    List.Forall₂ Line.Alike (alignDeclarationColumns (declarationLines options text))
      (declarationLines options text) := by
  rw [alignDeclarationColumns_eq, List.forall₂_map_left_iff, List.forall₂_same]
  intro line member
  obtain ⟨entry, listed, rfl⟩ := List.mem_map.mp member
  exact laidOut_classify_alike listed

theorem untouched_declarationLines (options : Options) (text : Text) :
    untouched (declarationLines options text) = verbatimSources text := by
  have kept (entry : Nat × Text) :
      (if !(options.condense && isBlank entry.2) then
        if isVerbatim entry.2 then some (entry.1 : Int) else none
      else none) = if isVerbatim entry.2 then some (entry.1 : Int) else none := by
    cases blank : isBlank entry.2 <;> simp [isVerbatim, blank]
  have entries : untouched (declarationLines options text) =
      (numbered options.condense 0 text).filterMap fun entry =>
        if isVerbatim entry.2 then some (entry.1 : Int) else none := by
    rw [untouched, declarationLines, List.filterMap_map]
    refine congrArg (List.filterMap · _) (funext fun entry => ?_)
    rcases classify_cases entry.2 entry.1 with ⟨blank, other, read⟩ | ⟨visible, verbatim, read⟩ |
      ⟨visible, other, -, read⟩
    · simp [read, other]
    · have some : entry.2 ≠ [] := fun none => by rw [none] at visible; cases visible
      simp [read, verbatim, some]
    · simp [read, other]
  rw [entries, numbered, List.filterMap_filter, funext kept, List.filterMap_map, verbatimSources,
    ← List.filterMap_eq_map, List.filterMap_filter]
  rfl

/-! Blank lines have no part in the layout, so dropping them changes no other line. -/

theorem field_verbatim {line : Line} (verbatim : line.isAligned = false) (column : Nat) :
    line.field column = [] := by
  cases line with
  | aligned fields source => cases verbatim
  | verbatim text source => rfl

theorem lists_aligned (column : Nat) (lines : List Line) :
    Range.lists column (lines.filter Line.isAligned) = Range.lists column lines := by
  rw [Range.lists, Range.lists, List.filterMap_filter]
  refine congrArg (List.filterMap · lines) (funext fun line => ?_)
  cases aligned : line.isAligned with
  | true => rfl
  | false => simp [Range.cell, field_verbatim aligned, Range.Cell.list?]

theorem alignColumn_aligned (column : Nat) (lines : List Line) :
    Range.alignColumn column (lines.filter Line.isAligned) =
      (Range.alignColumn column lines).filter Line.isAligned := by
  rw [Range.alignColumn, Range.alignColumn, List.filter_map, Range.columnWidths, lists_aligned]
  refine congrArg (List.map _ <| List.filter · lines) (funext fun line => ?_)
  exact (Range.isAligned_layoutLine column _ line).symm

theorem assignments_aligned (column : Nat) (lines : List Line) :
    Assignment.assignments column (lines.filter Line.isAligned) =
      Assignment.assignments column lines := by
  rw [Assignment.assignments, Assignment.assignments, List.filterMap_filter]
  refine congrArg (List.filterMap · lines) (funext fun line => ?_)
  cases line.isAligned <;> rfl

theorem laidOut_aligned (lines : List Line) (line : Line) :
    laidOut (lines.filter Line.isAligned) line = laidOut lines line := by
  rw [laidOut, laidOut, alignColumn_aligned, alignColumn_aligned, assignments_aligned]
  simp only [Range.columnWidths, lists_aligned]

theorem anchors_aligned (lines : List Line) :
    Batch.anchors (lines.filter Line.isAligned) = Batch.anchors lines := by
  rw [Batch.anchors, Batch.anchors, List.foldl_filter]
  refine congrArg (List.foldl · [] lines) (funext fun widths => funext fun line => ?_)
  cases line <;> rfl

theorem isAligned_laidOut (lines : List Line) (line : Line) :
    (laidOut lines line).isAligned = line.isAligned := by
  have setField (line : Line) (column : Nat) (value : Text) :
      (line.withField column value).isAligned = line.isAligned := by cases line <;> rfl
  rw [laidOut, Assignment.layoutLine, setField, Range.isAligned_layoutLine, Range.isAligned_layoutLine]

theorem anchors_alignDeclarationColumns (lines : List Line) :
    Batch.anchors (alignDeclarationColumns (lines.filter Line.isAligned)) =
      Batch.anchors (alignDeclarationColumns lines) := by
  have same : laidOut (lines.filter Line.isAligned) = laidOut lines :=
    funext fun line => laidOut_aligned lines line
  have aligned : Line.isAligned ∘ laidOut lines = Line.isAligned :=
    funext fun line => isAligned_laidOut lines line
  rw [← anchors_aligned (alignDeclarationColumns lines), alignDeclarationColumns_eq,
    alignDeclarationColumns_eq, List.filter_map, same, aligned]

theorem numbered_condense (first : Nat) (text : Text) :
    numbered true first text =
      (numbered false first text).filter fun entry => !isBlank entry.2 := by
  simp [numbered]

theorem isAligned_declarationLines (condense : Bool) (options : Options) (text : Text) :
    (declarationLines { options with condense } text).filter Line.isAligned =
      (declarationLines { options with condense := false } text).filter Line.isAligned := by
  cases condense with
  | false => rfl
  | true =>
      rw [declarationLines, declarationLines, List.filter_map, List.filter_map,
        numbered_condense, List.filter_filter]
      refine congrArg (List.map _ <| List.filter · _) (funext fun entry => ?_)
      rcases classify_cases entry.2 entry.1 with ⟨blank, -, read⟩ | ⟨visible, -, read⟩ |
        ⟨visible, -, -, read⟩
      · simp [read, Line.isAligned]
      · simp [read, Line.isAligned]
      · simp [read, visible]

theorem printedLine_condense (options : Options) (text : Text) (entry : Nat × Text) :
    printedLine options text entry =
      printedLine { options with condense := false } text entry := by
  have same := isAligned_declarationLines options.condense options text
  rw [printedLine, printedLine, ← laidOut_aligned, ← anchors_alignDeclarationColumns, same,
    laidOut_aligned, anchors_alignDeclarationColumns]

theorem isBlank_printed {anchors : List Nat} {indent line output : Text}
    (printed : Printed anchors indent line output) : isBlank output = isBlank line := by
  cases printed with
  | blank blank => rw [blank]; rfl
  | verbatim => rfl
  | aligned aligned moved visible =>
      rw [visible, (classify_of_isAligned aligned).1]

theorem alignDeclarations_condensed {options : Options} (drops : options.condense) {text : Text}
    (visible : isBlank text = false) :
    (alignDeclarations options text).text.lines =
      (alignDeclarations { options with condense := false } text).text.lines.filter
        fun line => !isBlank line := by
  rw [alignDeclarations_lines _ visible, alignDeclarations_lines _ visible, List.filter_map, drops,
    numbered_condense]
  have same : printedLine options text = printedLine { options with condense := false } text :=
    funext fun entry => printedLine_condense options text entry
  rw [same]
  refine congrArg (List.map _) (List.filter_congr fun entry member => ?_)
  have printed : Printed _ _ entry.2 (printedLine { options with condense := false } text entry) :=
    printed_printedLine member
  rw [Function.comp_apply, isBlank_printed printed]

theorem keptLines_eq (condense : Bool) (text : Text) :
    keptLines condense text =
      if condense then text.lines.filter fun line => !isBlank line else text.lines := by
  cases condense <;> simp [keptLines]

theorem alignDeclarations_printed (options : Options) {text : Text}
    (visible : isBlank text = false) :
    List.Forall₂ (Printed (Batch.anchors (alignDeclarationColumns (declarationLines options text)))
      (declarationIndent text)) (keptLines options.condense text)
      (alignDeclarations options text).text.lines := by
  rw [alignDeclarations_lines options visible, ← numbered_lines _ 0, List.forall₂_map_left_iff,
    List.forall₂_map_right_iff, List.forall₂_same]
  exact fun entry member => printed_printedLine member

theorem alignDeclarations_verbatim (options : Options) (text : Text) :
    (alignDeclarations options text).verbatim = verbatimSources text :=
  (alike_untouched (columns_alike options text)).trans (untouched_declarationLines options text)

theorem alignDeclarations_count (options : Options) (text : Text) :
    (alignDeclarations options text).count =
      text.lines.countP fun line => (Grammar.declaration.classify line 0).isAligned := by
  have aligned : Line.isAligned ∘ (fun entry : Nat × Text =>
      Grammar.declaration.classify entry.2 entry.1) =
      (fun line => (Grammar.declaration.classify line 0).isAligned) ∘ Prod.snd :=
    funext fun entry => isAligned_classify _ _ _ _
  have kept (line : Text) :
      ((Grammar.declaration.classify line 0).isAligned && !(options.condense && isBlank line)) =
        (Grammar.declaration.classify line 0).isAligned := by
    rcases classify_cases line 0 with ⟨-, -, read⟩ | ⟨-, -, read⟩ | ⟨visible, -, -, read⟩
    · simp [read, Line.isAligned]
    · simp [read, Line.isAligned]
    · simp [read, visible]
  have count : (alignDeclarationColumns (declarationLines options text)).countP Line.isAligned =
      text.lines.countP fun line => (Grammar.declaration.classify line 0).isAligned := by
    rw [alike_countP (columns_alike options text), declarationLines, List.countP_map, aligned,
      ← List.countP_map, numbered_lines, keptLines, List.countP_filter]
    exact congrArg (List.countP · text.lines) (funext kept)
  exact congrArg Int.ofNat count

/-- What becomes of the lines of a text, counted without the newline that ends it, and what is
reported about them. -/
structure LinesKept (options : Options) (text output : Text) (anchors : List Nat) (indent : Text) :
    Prop where
  final : format options text = output ++ (splitFinalNewline text).2
  whole : options.condense = false →
    List.Forall₂ (Printed anchors indent) (splitFinalNewline text).1.lines output.lines
  condensed : options.condense →
    List.Forall₂ (Printed anchors indent)
        ((splitFinalNewline text).1.lines.filter fun line => !isBlank line) output.lines ∧
      (∀ line ∈ output.lines, isBlank line = false) ∧
      ∃ whole, format { options with condense := false } text =
          whole ++ (splitFinalNewline text).2 ∧
        output.lines = whole.lines.filter fun line => !isBlank line
  sources : (align options text).verbatim = verbatimSources (splitFinalNewline text).1
  increasing : (align options text).verbatim.Pairwise (· < ·)
  count : (align options text).count + (align options text).verbatim.length +
    (splitFinalNewline text).1.lines.countP isBlank = (splitFinalNewline text).1.lines.length

theorem align_of_declarations {options : Options} {text : Text}
    (mode : (align options text).mode = .declarations) :
    isBlank (splitFinalNewline text).1 = false ∧ ∀ other, align other text =
      { alignDeclarations other (splitFinalNewline text).1 with
        text := (alignDeclarations other (splitFinalNewline text).1).text ++
          (splitFinalNewline text).2 } := by
  rcases align_cases options text with ⟨-, same⟩ | ⟨frame, -, -, ports, -⟩ | ⟨visible, none, -, -⟩
  · rw [same] at mode
    cases mode
  · rw [ports] at mode
    cases mode
  · refine ⟨visible, fun other => ?_⟩
    unfold align
    dsimp only
    rw [if_neg (by simp [visible]), alignBody, none]

/-- A block of declarations keeps its lines. -/
theorem declarations_linesKept {options : Options} {text : Text}
    (mode : (align options text).mode = .declarations) :
    ∃ output anchors indent, LinesKept options text output anchors indent := by
  obtain ⟨visible, same⟩ := align_of_declarations mode
  have printed := alignDeclarations_printed options visible
  generalize Batch.anchors _ = anchors at printed
  generalize declarationIndent _ = indent at printed
  rw [keptLines_eq] at printed
  have sources : (align options text).verbatim = verbatimSources (splitFinalNewline text).1 := by
    rw [same]
    exact alignDeclarations_verbatim options _
  refine ⟨_, anchors, indent, ⟨by rw [format, same], fun keeps => ?_, fun drops => ⟨?_, ?_, ?_⟩,
    sources, sources ▸ pairwise_verbatimSources _, ?_⟩⟩
  · rw [keeps, if_neg Bool.false_ne_true] at printed
    exact printed
  · rw [drops, if_pos rfl] at printed
    exact printed
  · intro line member
    rw [alignDeclarations_condensed drops visible] at member
    simpa using (List.mem_filter.mp member).2
  · exact ⟨_, by rw [format, same], alignDeclarations_condensed drops visible⟩
  · have count := countP_lines (splitFinalNewline text).1.lines
    have length := length_verbatimSources (splitFinalNewline text).1
    have aligned := alignDeclarations_count options (splitFinalNewline text).1
    rw [sources, same, aligned]
    omega

theorem declarations_linesKept_blank :
    (align { condense := true } (ofString "reg a;\x0A\x0A// note\x0Awire [7:0] b;\x0A")).mode =
        .declarations ∧
      ∃ output anchors indent, LinesKept { condense := true }
        (ofString "reg a;\x0A\x0A// note\x0Awire [7:0] b;\x0A") output anchors indent :=
  have mode : (align { condense := true }
      (ofString "reg a;\x0A\x0A// note\x0Awire [7:0] b;\x0A")).mode = .declarations := by
    decide +kernel
  ⟨mode, declarations_linesKept mode⟩

end HdlAlign.Block
