import HdlAlign.Proofs.Punctuation

/-! Which boundaries between the lines of a port list keep their comma. -/

namespace HdlAlign.Text

theorem unlines_unlines {pieces : List Text} (nonempty : pieces ≠ []) (others : List Text) :
    unlines (unlines pieces :: others) = unlines (pieces ++ others) := by
  induction pieces with
  | nil => exact absurd rfl nonempty
  | cons piece pieces ih =>
      by_cases last : pieces = []
      · simp [last, unlines, join]
      · have more : pieces ++ others ≠ [] := by simp [last]
        rw [List.cons_append, unlines_cons more, ← ih last, unlines_cons last]
        by_cases none : others = []
        · simp [none, unlines, join]
        · rw [unlines_cons none, unlines_cons none]
          simp

end HdlAlign.Text

namespace HdlAlign.Block

open Text Utf8 Statement Ports

theorem trimEmptyLines_split (lines : List Line) :
    ∃ front back, lines = front ++ (trimEmptyLines lines ++ back) ∧
      (∀ line ∈ front, line.isEmptyLine) ∧ ∀ line ∈ back, line.isEmptyLine := by
  have front := List.takeWhile_append_dropWhile (p := Line.isEmptyLine) (l := lines)
  have back := List.takeWhile_append_dropWhile (p := Line.isEmptyLine)
    (l := (lines.dropWhile Line.isEmptyLine).reverse)
  refine ⟨lines.takeWhile Line.isEmptyLine,
    ((lines.dropWhile Line.isEmptyLine).reverse.takeWhile Line.isEmptyLine).reverse, ?_, ?_, ?_⟩
  · rw [trimEmptyLines, ← List.reverse_append, back, List.reverse_reverse, front]
  · exact fun line member => List.mem_takeWhile_imp member
  · exact fun line member => List.mem_takeWhile_imp (List.mem_reverse.mp member)

structure Row where
  input : Text
  output : Text

def Row.isPort (row : Row) : Bool := Block.isPort row.input

/-- Every row has the commas that the layout places, given whether ports stand before the first. -/
def Separated (endOfLine : Bool) : (earlier : Bool) → List Row → Prop
  | _, [] => True
  | earlier, row :: rest =>
    (commasInFront row.output = placedInFront endOfLine earlier row.input ∧
      commasAtEnd row.output = placedAtEnd endOfLine (rest.any Row.isPort) row.input) ∧
    Separated endOfLine (earlier || row.isPort) rest

theorem Separated.row {endOfLine earlier : Bool} {before after : List Row} {row : Row}
    (separated : Separated endOfLine earlier (before ++ row :: after)) :
    commasInFront row.output =
        placedInFront endOfLine (earlier || before.any Row.isPort) row.input ∧
      commasAtEnd row.output = placedAtEnd endOfLine (after.any Row.isPort) row.input := by
  induction before generalizing earlier with
  | nil => simpa using separated.1
  | cons first before ih => simpa [Bool.or_assoc] using ih separated.2

def rows (anchors : List Nat) : List (Nat × Text) → List Line → List Row :=
  List.zipWith fun entry line => ⟨entry.2, line.render anchors portIndent⟩

theorem rows_cons (anchors : List Nat) (entry : Nat × Text) (entries : List (Nat × Text))
    (line : Line) (lines : List Line) :
    rows anchors (entry :: entries) (line :: lines) =
      ⟨entry.2, line.render anchors portIndent⟩ :: rows anchors entries lines := rfl

theorem any_rows (anchors : List Nat) {entries : List (Nat × Text)} {lines : List Line}
    (same : entries.length = lines.length) :
    (rows anchors entries lines).any Row.isPort = entries.any fun entry => isPort entry.2 := by
  induction entries generalizing lines with
  | nil => rfl
  | cons entry entries ih =>
      cases lines with
      | nil => cases same
      | cons line lines =>
          rw [rows_cons, List.any_cons, List.any_cons, ← ih (Nat.succ.inj same)]
          rfl

theorem length_punctuate (endOfLine earlier : Bool) (lines : List Line) :
    (punctuate endOfLine earlier lines).length = lines.length := by
  induction lines generalizing earlier with
  | nil => rfl
  | cons line lines ih => rw [punctuate, List.length_cons, List.length_cons, ih]

def lined (lines : List Line) (entry : Nat × Text) : Line :=
  Range.layoutLine Port.vectorColumn (Range.columnWidths Port.vectorColumn lines)
    (classifyPort entry.1 entry.2)

theorem isAligned_lined (lines : List Line) (entry : Nat × Text) :
    (lined lines entry).isAligned = isPort entry.2 := by
  rw [lined, Range.isAligned_layoutLine, isAligned_classifyPort]

/-- Going from line to line, the layout gives every row its commas. -/
theorem separated_rows {entries : List (Nat × Text)} {lines : List Line} {anchors : List Nat}
    (endOfLine earlier : Bool) (single : ∀ entry ∈ entries, newline ∉ entry.2)
    (listed : ∀ entry ∈ entries, classifyPort entry.1 entry.2 ∈ lines)
    (roomy : ∀ fields source, .aligned fields source ∈
      punctuate endOfLine earlier (entries.map (lined lines)) → Batch.Roomy fields anchors) :
    Separated endOfLine earlier
      (rows anchors entries (punctuate endOfLine earlier (entries.map (lined lines)))) := by
  induction entries generalizing earlier with
  | nil => trivial
  | cons entry entries ih =>
      have ports : (entries.map (lined lines)).any Line.isAligned =
          entries.any fun entry => isPort entry.2 := by
        rw [List.any_map]
        exact congrArg (List.any entries) (funext fun entry => isAligned_lined lines entry)
      rw [List.map_cons, punctuate, ports, isAligned_lined] at roomy ⊢
      rw [rows_cons]
      refine ⟨?_, ?_⟩
      · rw [any_rows _ (by rw [length_punctuate, List.length_map])]
        refine separated_line (single entry (by simp)) (listed entry (by simp)) rfl ?_
        exact fun fields source same => roomy fields source (by rw [← same]; simp)
      · exact ih _ (fun other member => single other (by simp [member]))
          (fun other member => listed other (by simp [member]))
          fun fields source member => roomy fields source (List.mem_cons_of_mem _ member)

/-- The lines of a port list with their commas, before the empty ones at the ends are dropped. -/
def placedLines (options : Options) (frame : Frame) : List Line :=
  let entries := numbered options.condense frame.firstLine frame.list
  punctuate options.endOfLine false
    (entries.map (lined (entries.map fun entry => classifyPort entry.1 entry.2)))

def portRows (options : Options) (frame : Frame) : List Row :=
  rows (Batch.anchors (placedLines options frame))
    (numbered options.condense frame.firstLine frame.list) (placedLines options frame)

theorem portRows_separated (options : Options) (frame : Frame) :
    Separated options.endOfLine false (portRows options frame) := by
  refine separated_rows _ _ ?_ (fun entry member => List.mem_map_of_mem member) ?_
  · exact fun entry member => single_of_mem_lines (mem_lines_of_numbered member)
  · exact fun fields source member => Batch.roomy_anchors member

/-! The rows hold the output. -/

theorem rows_inputs (anchors : List Nat) {entries : List (Nat × Text)} {lines : List Line}
    (same : entries.length = lines.length) :
    (rows anchors entries lines).map Row.input = entries.map Prod.snd := by
  induction entries generalizing lines with
  | nil => rfl
  | cons entry entries ih =>
      cases lines with
      | nil => cases same
      | cons line lines =>
          rw [rows_cons, List.map_cons, List.map_cons, ih (Nat.succ.inj same)]

theorem rows_outputs (anchors : List Nat) {entries : List (Nat × Text)} {lines : List Line}
    (same : entries.length = lines.length) :
    (rows anchors entries lines).map Row.output =
      lines.map fun line => line.render anchors portIndent := by
  induction entries generalizing lines with
  | nil => rw [List.eq_nil_of_length_eq_zero same.symm]; rfl
  | cons entry entries ih =>
      cases lines with
      | nil => cases same
      | cons line lines =>
          rw [rows_cons, List.map_cons, List.map_cons, ih (Nat.succ.inj same)]

theorem rows_append (anchors : List Nat) {front back : List (Nat × Text)}
    {before after : List Line} (same : front.length = before.length) :
    rows anchors (front ++ back) (before ++ after) =
      rows anchors front before ++ rows anchors back after :=
  List.zipWith_append same

theorem isEmptyLine_iff {line : Line} :
    line.isEmptyLine ↔ ∃ source, line = .verbatim [] source := by
  cases line with
  | aligned fields source => simp [Line.isEmptyLine]
  | verbatim text source => cases text <;> simp [Line.isEmptyLine]

theorem lists_of_empty {lines : List Line} (empty : ∀ line ∈ lines, line.isEmptyLine)
    (column : Nat) : Range.lists column lines = [] := by
  rw [Range.lists, List.filterMap_eq_nil_iff]
  intro line member
  obtain ⟨source, rfl⟩ := isEmptyLine_iff.mp (empty line member)
  rfl

theorem map_layoutLine_of_empty {lines : List Line} (empty : ∀ line ∈ lines, line.isEmptyLine)
    (column : Nat) (widths : List Range.GroupWidth) :
    lines.map (Range.layoutLine column widths) = lines := by
  refine (List.map_congr_left fun line member => ?_).trans (List.map_id lines)
  obtain ⟨source, rfl⟩ := isEmptyLine_iff.mp (empty line member)
  rfl

theorem isAligned_of_empty {lines : List Line} (empty : ∀ line ∈ lines, line.isEmptyLine) :
    ∀ line ∈ lines, line.isAligned = false := by
  intro line member
  obtain ⟨source, rfl⟩ := isEmptyLine_iff.mp (empty line member)
  rfl

theorem foldl_of_empty {step : List Nat → Line → List Nat}
    (ignores : ∀ widths source, step widths (.verbatim [] source) = widths) {empties : List Line}
    (empty : ∀ line ∈ empties, line.isEmptyLine) (start : List Nat) :
    empties.foldl step start = start := by
  induction empties with
  | nil => rfl
  | cons line empties ih =>
      obtain ⟨source, rfl⟩ := isEmptyLine_iff.mp (empty line (by simp))
      rw [List.foldl_cons, ignores]
      exact ih fun other member => empty other (by simp [member])

theorem anchors_of_empty {front back : List Line} (lines : List Line)
    (frontEmpty : ∀ line ∈ front, line.isEmptyLine) (backEmpty : ∀ line ∈ back, line.isEmptyLine) :
    Batch.anchors (front ++ (lines ++ back)) = Batch.anchors lines := by
  rw [Batch.anchors, List.foldl_append, List.foldl_append]
  refine (foldl_of_empty (fun _ _ => rfl) backEmpty _).trans ?_
  exact congrArg (List.foldl _ · lines) (foldl_of_empty (fun _ _ => rfl) frontEmpty [])

theorem placedLines_split (options : Options) (frame : Frame) :
    ∃ front back, placedLines options frame = front ++ (laidOutPorts options frame ++ back) ∧
      (∀ line ∈ front, line.isEmptyLine) ∧ ∀ line ∈ back, line.isEmptyLine := by
  have laid : laidOutPorts options frame = punctuate options.endOfLine false
      (Range.alignColumn Port.vectorColumn (portLines options frame)) :=
    placeCommas_eq _ (portLines_separator options frame)
  have placed : placedLines options frame = punctuate options.endOfLine false
      (Range.alignColumn Port.vectorColumn ((numbered options.condense frame.firstLine
        frame.list).map fun entry => classifyPort entry.1 entry.2)) := by
    rw [placedLines, Range.alignColumn, List.map_map]
    rfl
  rw [placed, laid]
  obtain ⟨front, back, split, frontEmpty, backEmpty⟩ := trimEmptyLines_split
    ((numbered options.condense frame.firstLine frame.list).map fun entry =>
      classifyPort entry.1 entry.2)
  have widths : Range.columnWidths Port.vectorColumn
      ((numbered options.condense frame.firstLine frame.list).map fun entry =>
        classifyPort entry.1 entry.2) =
      Range.columnWidths Port.vectorColumn (portLines options frame) := by
    rw [split, Range.columnWidths, Range.columnWidths, Range.lists, List.filterMap_append,
      List.filterMap_append]
    have frontNone := lists_of_empty frontEmpty Port.vectorColumn
    have backNone := lists_of_empty backEmpty Port.vectorColumn
    rw [Range.lists] at frontNone backNone
    rw [frontNone, backNone, List.nil_append, List.append_nil]
    rfl
  refine ⟨front, back, ?_, frontEmpty, backEmpty⟩
  rw [Range.alignColumn, widths, split, List.map_append, List.map_append,
    map_layoutLine_of_empty frontEmpty, map_layoutLine_of_empty backEmpty,
    punctuate_append_right _ _ _ (isAligned_of_empty frontEmpty),
    punctuate_append_left _ _ _ (isAligned_of_empty backEmpty)]
  rfl

/-- The rows hold the lines of the port list of a text.  The output consists of the header, the rows
but for empty ones at both ends, and the footer. -/
structure PortTable (options : Options) (text : Text) (frame : Frame) (rows : List Row) : Prop where
  found : frame? (splitFinalNewline text).1 = some frame
  inputs : rows.map Row.input = keptLines options.condense frame.list
  output : ∃ front list back, rows = front ++ (list ++ back) ∧
    (∀ row ∈ front, row.output = []) ∧ (∀ row ∈ back, row.output = []) ∧
    format options text = unlines ([frame.header] ++ list.map Row.output ++
      if frame.footer.isEmpty then [] else [frame.footer]) ++ (splitFinalNewline text).2

theorem portParts_unlines (options : Options) (frame : Frame) :
    unlines (portParts options frame) = unlines ([frame.header] ++
      (laidOutPorts options frame).map (fun line =>
        line.render (Batch.anchors (laidOutPorts options frame)) portIndent) ++
      if frame.footer.isEmpty then [] else [frame.footer]) := by
  rw [portParts]
  generalize laidOutPorts options frame = lines
  by_cases none : lines = []
  · simp [none]
  · have nonempty : lines.map (fun line => line.render (Batch.anchors lines) portIndent) ≠ [] := by
      simpa using none
    have some : lines.isEmpty = false := by simpa using none
    rw [some, if_neg Bool.false_ne_true, List.append_assoc, List.append_assoc,
      List.singleton_append, List.singleton_append, unlines_cons (by simp), List.singleton_append,
      unlines_unlines nonempty, ← unlines_cons (by simp [none])]

theorem output_of_empty (anchors : List Nat) {entries : List (Nat × Text)} {lines : List Line}
    (empty : ∀ line ∈ lines, line.isEmptyLine) : ∀ row ∈ rows anchors entries lines, row.output = [] := by
  induction entries generalizing lines with
  | nil => exact fun row member => by cases member
  | cons entry entries ih =>
      cases lines with
      | nil => exact fun row member => by cases member
      | cons line lines =>
          obtain ⟨source, rfl⟩ := isEmptyLine_iff.mp (empty line (by simp))
          rw [rows_cons]
          intro row member
          rcases List.mem_cons.mp member with rfl | later
          · rfl
          · exact ih (fun other member => empty other (by simp [member])) row later

theorem portTable {options : Options} {text : Text} {frame : Frame}
    (found : frame? (splitFinalNewline text).1 = some frame)
    (same : format options text =
      (alignPorts options frame).text ++ (splitFinalNewline text).2) :
    PortTable options text frame (portRows options frame) := by
  have whole : (numbered options.condense frame.firstLine frame.list).length =
      (placedLines options frame).length := by
    rw [placedLines, length_punctuate, List.length_map]
  refine ⟨found, ?_, ?_⟩
  · rw [portRows, rows_inputs _ whole, numbered_lines]
  · obtain ⟨front, back, split, frontEmpty, backEmpty⟩ := placedLines_split options frame
    rw [portRows, split, anchors_of_empty _ frontEmpty backEmpty]
    rw [split] at whole
    generalize numbered options.condense frame.firstLine frame.list = entries at whole
    obtain ⟨first, rest, rfl, firstSame⟩ : ∃ first rest, entries = first ++ rest ∧
        first.length = front.length :=
      ⟨entries.take front.length, entries.drop front.length, by simp, by simp [whole]⟩
    obtain ⟨middle, last, rfl, middleSame⟩ : ∃ middle last, rest = middle ++ last ∧
        middle.length = (laidOutPorts options frame).length := by
      refine ⟨rest.take (laidOutPorts options frame).length,
        rest.drop (laidOutPorts options frame).length, by simp, ?_⟩
      simp only [List.length_append] at whole
      rw [List.length_take]
      omega
    refine ⟨_, _, _, by rw [rows_append _ firstSame, rows_append _ middleSame],
      output_of_empty _ frontEmpty, output_of_empty _ backEmpty, ?_⟩
    rw [same, alignPorts_text, portParts_unlines, rows_outputs _ middleSame]

/-- Whether the only comma at the boundary of two lines stays, given whether ports stand before the
second and behind the first.  Ports lose their commas and get new ones by counting ports, verbatim
lines keep their own. -/
def SeparatorKept (endOfLine earlier later : Bool) (first second : Text) : Prop :=
  match reading first, reading second with
  | .port, .port | .verbatim, .verbatim => True
  | .port, .verbatim =>
    if endOfLine then commasInFront second = 1 ↔ later = false else commasInFront second = 1
  | .verbatim, .port =>
    if endOfLine then commasAtEnd first = 1 else commasAtEnd first = 1 ↔ earlier = false
  | .port, .erased => endOfLine ∧ later
  | .erased, .port => endOfLine = false ∧ earlier
  | .verbatim, .erased => commasAtEnd first = 1
  | .erased, .verbatim => commasInFront second = 1
  | .erased, .erased => False

theorem separatorKept_iff {endOfLine earlier later : Bool} {first second : Text}
    (one : commasBetween first second = 1)
    (before : isPort first → earlier) (behind : isPort second → later) :
    placedAtEnd endOfLine later first + placedInFront endOfLine earlier second = 1 ↔
      SeparatorKept endOfLine earlier later first second := by
  rw [commasBetween] at one
  rw [isPort, decide_eq_true_iff] at before behind
  rw [placedAtEnd, placedInFront, SeparatorKept]
  generalize reading first = firstReading at before ⊢
  generalize reading second = secondReading at behind ⊢
  cases firstReading <;> cases secondReading <;> cases endOfLine <;> cases earlier <;> cases later
  all_goals simp at before behind ⊢
  all_goals omega

/-- Of any two lines with one comma at their boundary, the lines of the output have one comma there
exactly if both are ports, both are verbatim, or the comma belongs to the line that keeps or gets
one. -/
theorem separator_kept_iff {options : Options} {text : Text}
    (mode : (align options text).mode = .ports) :
    ∃ frame rows, PortTable options text frame rows ∧
      ∀ before first between second after,
        rows = before ++ first :: (between ++ second :: after) →
        commasBetween first.input second.input = 1 →
        (commasBetween first.output second.output = 1 ↔
          SeparatorKept options.endOfLine ((before ++ first :: between).any Row.isPort)
            ((between ++ second :: after).any Row.isPort) first.input second.input) := by
  obtain ⟨frame, found, same⟩ := align_ports mode
  refine ⟨frame, portRows options frame, portTable found same, ?_⟩
  intro before first between second after split one
  have separated := portRows_separated options frame
  rw [split] at separated
  have atEnd := separated.row.2
  rw [← List.cons_append, ← List.append_assoc] at separated
  have inFront := separated.row.1
  rw [Bool.false_or] at inFront
  rw [commasBetween, atEnd, inFront]
  refine separatorKept_iff one ?_ ?_
  · exact fun port => by simp [Row.isPort, port]
  · exact fun port => by simp [Row.isPort, port]

theorem separator_kept_iff_ports :
    (align {} (ofString "module m (\x0Ainput a,\x0Aaxi.s b,\x0Ainput c\x0A);")).mode = .ports ∧
      ∃ frame rows,
        PortTable {} (ofString "module m (\x0Ainput a,\x0Aaxi.s b,\x0Ainput c\x0A);") frame rows ∧
        ∀ before first between second after,
          rows = before ++ first :: (between ++ second :: after) →
          commasBetween first.input second.input = 1 →
          (commasBetween first.output second.output = 1 ↔
            SeparatorKept true ((before ++ first :: between).any Row.isPort)
              ((between ++ second :: after).any Row.isPort) first.input second.input) :=
  have mode : (align {} (ofString "module m (\x0Ainput a,\x0Aaxi.s b,\x0Ainput c\x0A);")).mode =
      .ports := by decide +kernel
  ⟨mode, separator_kept_iff mode⟩

/-- A port that only verbatim lines follow loses the comma to the first of them. -/
theorem separator_lost :
    format {} (ofString "module m (\x0Ainput a,\x0Aaxi.s b\x0A);") =
        ofString "module m (\x0A  input a\x0Aaxi.s b\x0A);" ∧
      (align {} (ofString "module m (\x0Ainput a,\x0Aaxi.s b\x0A);")).mode = .ports ∧
      commasBetween (ofString "input a,") (ofString "axi.s b") = 1 ∧
      commasBetween (ofString "  input a") (ofString "axi.s b") = 0 := by
  decide +kernel

end HdlAlign.Block
