import HdlAlign.Proofs.Reframing
import HdlAlign.Proofs.Reprinting

/-! The comma style of a port list does not matter to the layout: laying out what was laid out with
other commas gives the layout of the list itself. -/

namespace HdlAlign.Text

theorem unlines_append_last (pieces : List Text) (last : Text) :
    unlines (pieces ++ [last]) = unlines (pieces ++ [[]]) ++ last := by
  induction pieces with
  | nil => simp [unlines, join]
  | cons piece pieces ih =>
      rw [List.cons_append, List.cons_append, unlines_cons (by simp), unlines_cons (by simp), ih]
      simp

theorem getLast?_unlines (pieces : List Text) :
    (newline :: unlines (pieces ++ [[]])).getLast? = some newline := by
  induction pieces with
  | nil => rfl
  | cons piece pieces ih =>
      rw [List.cons_append, unlines_cons (by simp), ← List.cons_append, List.getLast?_append, ih]
      rfl

end HdlAlign.Text

namespace HdlAlign.Block

open Text Utf8 Statement Ports

/-! Dropping the empty lines at the ends. -/

theorem trimEmptyLines_append {front back : List Line} (lines : List Line)
    (frontEmpty : ∀ line ∈ front, line.isEmptyLine) (backEmpty : ∀ line ∈ back, line.isEmptyLine) :
    trimEmptyLines (front ++ (lines ++ back)) = trimEmptyLines lines := by
  have none : back.dropWhile Line.isEmptyLine = [] := List.dropWhile_eq_nil_iff.mpr backEmpty
  rw [trimEmptyLines, trimEmptyLines, List.dropWhile_append_of_pos frontEmpty, List.dropWhile_append]
  split
  · next all => rw [none, List.isEmpty_iff.mp all]
  · rw [List.reverse_append, List.dropWhile_append_of_pos fun line member =>
      backEmpty line (List.mem_reverse.mp member)]

theorem trimEmptyLines_trimEmptyLines (lines : List Line) :
    trimEmptyLines (trimEmptyLines lines) = trimEmptyLines lines := by
  obtain ⟨front, back, split, frontEmpty, backEmpty⟩ := trimEmptyLines_split lines
  conv => rhs; rw [split]
  exact (trimEmptyLines_append _ frontEmpty backEmpty).symm

theorem forall₂_dropWhile {α : Type} {R : α → α → Prop} {p : α → Bool}
    (agree : ∀ a b, R a b → p a = p b) {left right : List α} (related : List.Forall₂ R left right) :
    List.Forall₂ R (left.dropWhile p) (right.dropWhile p) := by
  induction related with
  | nil => exact .nil
  | cons first rest ih =>
      rw [List.dropWhile_cons, List.dropWhile_cons, agree _ _ first]
      split
      · exact ih
      · exact .cons first rest

theorem forall₂_trimEmptyLines {R : Line → Line → Prop}
    (agree : ∀ new old, R new old → new.isEmptyLine = old.isEmptyLine) {new old : List Line}
    (related : List.Forall₂ R new old) : List.Forall₂ R (trimEmptyLines new) (trimEmptyLines old) := by
  rw [trimEmptyLines, trimEmptyLines, List.forall₂_reverse_iff]
  exact forall₂_dropWhile agree (List.forall₂_reverse_iff.mpr (forall₂_dropWhile agree related))

/-! The lines of a list. -/

/-- A line of a port list that the layout reads again: printable ASCII, whose commas stand between
ports, and no port whose type word is cut out of the front of its name. -/
structure IsRegular (line : Text) : Prop where
  plain : Plain line
  separated : IsSeparated line
  intact : reading line = .port → ¬ Port.Severed (Port.extract (stripSeparator line)).columns

instance (line : Text) : Decidable (IsRegular line) :=
  decidable_of_iff (Plain line ∧ (¬ Doubled (splitComment line).1 ∧
      trim (splitComment line).1 ≠ comma) ∧
      (reading line = .port → ¬ Port.Severed (Port.extract (stripSeparator line)).columns))
    ⟨fun h => ⟨h.1, ⟨h.2.1.1, h.2.1.2⟩, h.2.2⟩, fun h => ⟨h.1, ⟨h.2.1, h.2.2⟩, h.3⟩⟩

theorem isBlank_stripSeparator {line : Text} (blank : isBlank line) :
    isBlank (stripSeparator line) := by
  refine isBlank_iff_white.mpr (List.eq_nil_iff_forall_not_mem.mpr fun scalar member => ?_)
  have white := isBlank_iff_white.mp blank
  have none : bare (stripSeparator line) = [] := by
    rw [bare_stripSeparator, bare, white]
    rfl
  have isComma : isCommaScalar scalar := by
    simpa using List.filter_eq_nil_iff.mp none scalar member
  rw [comma_of_isCommaScalar member isComma] at member
  have inside : (',' : UInt8) ∈ stripSeparator line :=
    (mem_iff_mem_solid isAscii_comma rfl _).mpr member
  exact (stripSeparator_within line).not_mem (by decide) (white.not_mem_of_isBlack rfl) inside

theorem classifyPort_of_isBlank {line : Text} (blank : isBlank line) (index : Nat) :
    classifyPort index line = .verbatim [] index := by
  have read := classifyPort_reading index line
  rw [reading, if_pos (isBlank_stripSeparator blank)] at read
  exact read

theorem laidLike_render {line : Text} (regular : IsRegular line) {lines : List Line} {index : Nat}
    (member : classifyPort index line ∈ lines) {endOfLine earlier later : Bool} {anchors : List Nat}
    {new : Line}
    (passed : new = punctuated endOfLine earlier later (Range.layoutLine Port.vectorColumn
      (Range.columnWidths Port.vectorColumn lines) (classifyPort index line)))
    (roomy : ∀ fields source, new = .aligned fields source → Batch.Roomy fields anchors)
    (other : Nat) :
    (classifyPort other (new.render anchors portIndent)).LaidLike (classifyPort index line) := by
  have read := classifyPort_reading index line
  cases kind : reading line with
  | port =>
      exact laidLike_render_port regular.plain kind regular.separated.once (regular.intact kind)
        member passed roomy other
  | verbatim =>
      have again := classifyPort_reading other line
      rw [kind] at read again
      dsimp only at read again
      rw [read] at passed ⊢
      have printed : new.render anchors portIndent = line := by
        rw [passed]
        rfl
      rw [printed, again]
      exact .verbatim line other index
  | erased =>
      rw [kind] at read
      dsimp only at read
      rw [read] at passed ⊢
      have printed : new.render anchors portIndent = [] := by
        rw [passed]
        rfl
      rw [printed, classifyPort_of_isBlank rfl]
      exact .verbatim [] other index

theorem laidLike_punctuate {lines rest : List Line} {anchors : List Nat} (endOfLine earlier : Bool)
    (listed : rest ⊆ lines)
    (regular : ∀ line ∈ rest, ∃ index text, IsRegular text ∧ line = classifyPort index text)
    (roomy : ∀ fields source, .aligned fields source ∈ punctuate endOfLine earlier
      (rest.map (Range.layoutLine Port.vectorColumn (Range.columnWidths Port.vectorColumn lines))) →
        Batch.Roomy fields anchors) :
    List.Forall₂ (fun new old =>
        ∀ other, (classifyPort other (new.render anchors portIndent)).LaidLike old)
      (punctuate endOfLine earlier (rest.map
        (Range.layoutLine Port.vectorColumn (Range.columnWidths Port.vectorColumn lines)))) rest := by
  -- The widths are those of all lines, so the induction is on the lines that are left.
  induction rest generalizing earlier with
  | nil => exact .nil
  | cons line rest ih =>
      obtain ⟨index, text, isRegular, rfl⟩ := regular line (by simp)
      have member : classifyPort index text ∈ lines := listed (by simp)
      rw [List.map_cons, punctuate] at roomy ⊢
      refine .cons ?_ (ih _ ?_ ?_ ?_)
      · refine laidLike_render isRegular member rfl fun fields source same => ?_
        exact roomy fields source (by rw [← same]; simp)
      · exact fun other later => listed (List.mem_cons_of_mem _ later)
      · exact fun other later => regular other (List.mem_cons_of_mem _ later)
      · exact fun fields source later => roomy fields source (List.mem_cons_of_mem _ later)

section

variable {options : Options} {frame : Frame}

theorem mem_keptLines_of_portLines {line : Line} (member : line ∈ portLines options frame) :
    ∃ index text, text ∈ keptLines options.condense frame.list ∧ line = classifyPort index text := by
  obtain ⟨entry, listed, rfl⟩ := List.mem_map.mp (trimEmptyLines_subset _ member)
  exact ⟨entry.1, entry.2, numbered_lines _ _ _ ▸ List.mem_map_of_mem listed, rfl⟩

theorem laidLike_printedPorts (regular : ∀ line ∈ frame.list.lines, IsRegular line) :
    List.Forall₂ (fun new old => ∀ other, (classifyPort other new).LaidLike old)
      (printedPorts options frame) (portLines options frame) := by
  rw [printedPorts, List.forall₂_map_left_iff]
  have roomy (fields : List Text) (source : Int)
      (member : .aligned fields source ∈ laidOutPorts options frame) :
      Batch.Roomy fields (Batch.anchors (laidOutPorts options frame)) := Batch.roomy_anchors member
  generalize Batch.anchors (laidOutPorts options frame) = anchors at roomy
  rw [laidOutPorts_eq] at roomy ⊢
  refine laidLike_punctuate _ _ (List.Subset.refl _) (fun line member => ?_) roomy
  obtain ⟨index, text, inList, same⟩ := mem_portLines member
  exact ⟨index, text, regular text inList, same⟩

theorem single_printedPorts : ∀ line ∈ printedPorts options frame, newline ∉ line := by
  intro line member
  obtain ⟨new, listed, rfl⟩ := List.mem_map.mp member
  obtain ⟨old, inLines, kept⟩ :=
    Line.exists_of_forall₂_left (laidOutPorts_kept options frame) listed
  obtain ⟨index, text, inList, rfl⟩ := mem_portLines inLines
  exact Line.single_render _ (by decide +kernel)
    (kept.single (classifyPort_single index (single_of_mem_lines inList)))

theorem isBlank_of_isEmptyLine {line : Text} (regular : IsRegular line) {index : Nat}
    (empty : (classifyPort index line).isEmptyLine) : isBlank line := by
  rcases classifyPort_cases index line with ⟨erased, -⟩ | ⟨-, -, read⟩ | ⟨-, -, read⟩
  · exact isBlank_of_erased regular.plain regular.separated erased
  · rw [read] at empty
    cases empty
  · rw [read] at empty
    rw [List.isEmpty_iff.mp empty]
    rfl

theorem visible_printedPorts (regular : ∀ line ∈ frame.list.lines, IsRegular line)
    (condense : options.condense) : ∀ line ∈ printedPorts options frame, isBlank line = false := by
  intro line member
  by_contra shown
  have blank : isBlank line := by simpa using shown
  obtain ⟨old, listed, laid⟩ :=
    Line.exists_of_forall₂_left (laidLike_printedPorts regular) member
  obtain ⟨index, text, kept, rfl⟩ := mem_keptLines_of_portLines listed
  obtain ⟨inList, visible⟩ := List.mem_filter.mp kept
  -- It is read as an empty line, so the line that it was printed for shows nothing either.
  have empty := (laid 0).isEmptyLine_eq
  rw [classifyPort_of_isBlank blank] at empty
  rw [condense, isBlank_of_isEmptyLine (regular text inList) empty.symm] at visible
  cases visible

theorem keptLines_printedPorts (regular : ∀ line ∈ frame.list.lines, IsRegular line) :
    ∃ back, (∀ line ∈ back, isBlank line) ∧
      keptLines options.condense (unlines (printedPorts options frame ++ [[]])) =
        printedPorts options frame ++ back := by
  have single : ∀ line ∈ printedPorts options frame ++ [[]], newline ∉ line :=
    List.forall_mem_append.mpr ⟨single_printedPorts, by simp⟩
  rw [keptLines, lines_unlines (by simp) single, List.filter_append]
  refine ⟨_, ?_, congrArg (· ++ _) (List.filter_eq_self.mpr fun line member => ?_)⟩
  · intro line member
    rw [List.mem_singleton.mp (List.mem_filter.mp member).1]
    rfl
  · cases condense : options.condense with
    | false => rfl
    | true => simp [visible_printedPorts regular condense line member]

theorem portLines_reread (regular : ∀ line ∈ frame.list.lines, IsRegular line)
    {new : Frame} (printed : new.list = unlines (printedPorts options frame ++ [[]]))
    {other : Options} (same : other.condense = options.condense) :
    List.Forall₂ Line.LaidLike (portLines other new) (portLines other frame) := by
  have old : portLines other frame = portLines options frame := by
    rw [portLines, portLines, same]
  obtain ⟨back, blank, kept⟩ := @keptLines_printedPorts options frame regular
  have numbers := numbered_lines other.condense new.firstLine new.list
  rw [same, printed, kept, ← same] at numbers
  obtain ⟨front, tail, split, frontText, tailText⟩ := List.map_eq_append_iff.mp numbers
  have laid : List.Forall₂ Line.LaidLike (front.map fun entry => classifyPort entry.1 entry.2)
      (portLines options frame) := by
    have printedLaid := @laidLike_printedPorts options frame regular
    rw [← frontText, List.forall₂_map_left_iff] at printedLaid
    rw [List.forall₂_map_left_iff]
    exact printedLaid.imp fun entry _ laid => laid entry.1
  -- The newline in front of the footer begins an empty line more, which is trimmed off.
  have none : ∀ line ∈ tail.map fun entry => classifyPort entry.1 entry.2, line.isEmptyLine := by
    intro line member
    obtain ⟨entry, listed, rfl⟩ := List.mem_map.mp member
    rw [classifyPort_of_isBlank (blank _ (tailText ▸ List.mem_map_of_mem listed))]
    rfl
  have whole : portLines other new =
      trimEmptyLines (front.map fun entry => classifyPort entry.1 entry.2) := by
    rw [portLines, printed, split, List.map_append]
    exact @trimEmptyLines_append [] _ _ (by simp) none
  have trimmed : trimEmptyLines (portLines options frame) = portLines options frame :=
    trimEmptyLines_trimEmptyLines _
  rw [whole, old, ← trimmed]
  exact forall₂_trimEmptyLines (fun _ _ laid => laid.isEmptyLine_eq) laid

end

/-! The whole block. -/

theorem format_ports (options : Options) {text : Text} {frame : Frame}
    (found : frame? (splitFinalNewline text).1 = some frame) :
    format options text =
      unlines ([frame.header] ++ printedPorts options frame ++
        if frame.footer.isEmpty then [] else [frame.footer]) ++ (splitFinalNewline text).2 := by
  rcases align_cases options text with ⟨blank, -⟩ | ⟨other, -, foundOther, -, same⟩ | ⟨-, none, -⟩
  · obtain ⟨whole, last, -⟩ := frame?_split found
    have opening : ('(' : UInt8) ∈ (splitFinalNewline text).1 := by
      rw [whole]
      exact List.mem_append_left _ (List.mem_of_getLast? last)
    rw [isBlank_eq_false_of_mem opening rfl] at blank
    cases blank
  · cases found.symm.trans foundOther
    rw [same, alignPorts_text, portParts_unlines]
    rfl
  · rw [found] at none
    cases none

theorem splitFinalNewline_reread {text other : Text}
    (ends : other.getLast? = (splitFinalNewline text).1.getLast?) :
    splitFinalNewline (other ++ (splitFinalNewline text).2) = (other, (splitFinalNewline text).2) := by
  cases dropped : dropTail? [newline] text with
  | some body =>
      have cut : splitFinalNewline text = (body, [newline]) := by rw [splitFinalNewline, dropped]
      rw [cut, splitFinalNewline, Assignment.dropTail?_eq_some_iff.mpr rfl]
  | none =>
      have cut : splitFinalNewline text = (text, []) := by rw [splitFinalNewline, dropped]
      rw [cut] at ends ⊢
      rw [List.append_nil, splitFinalNewline]
      cases again : dropTail? [newline] other with
      | none => rfl
      | some body =>
          rw [Assignment.dropTail?_eq_some_iff.mp again, List.getLast?_concat] at ends
          obtain ⟨front, split⟩ := List.getLast?_eq_some_iff.mp ends.symm
          rw [Assignment.dropTail?_eq_some_iff.mpr split] at dropped
          cases dropped

/-- Header and footer of a closed port list are found at the same places of the output, so that only
the lists differ. -/
theorem exists_frame_format (options : Options) {text : Text} {frame : Frame}
    (found : frame? (splitFinalNewline text).1 = some frame) (closed : frame.footer ≠ []) :
    ∃ new, frame? (splitFinalNewline (format options text)).1 = some new ∧
      (splitFinalNewline (format options text)).2 = (splitFinalNewline text).2 ∧
      new.header = frame.header ∧ new.footer = frame.footer ∧
      new.list = unlines (printedPorts options frame ++ [[]]) := by
  have isClosed : frame.footer.isEmpty = false := by simpa using closed
  have output : unlines ([frame.header] ++ printedPorts options frame ++ [frame.footer]) =
      frame.header ++ (newline :: unlines (printedPorts options frame ++ [[]]) ++ frame.footer) := by
    rw [List.append_assoc, List.singleton_append, unlines_cons (by simp), unlines_append_last]
    rfl
  have again := frame?_reread found closed (getLast?_unlines (printedPorts options frame))
  have ends : (frame.header ++ (newline :: unlines (printedPorts options frame ++ [[]]) ++
      frame.footer)).getLast? = (splitFinalNewline text).1.getLast? := by
    rw [(frame?_split found).1, ← List.append_assoc, ← List.append_assoc,
      List.getLast?_append_of_ne_nil _ closed, List.getLast?_append_of_ne_nil _ closed]
  rw [format_ports options found, isClosed, if_neg Bool.false_ne_true, output,
    splitFinalNewline_reread ends]
  exact ⟨_, again, rfl, rfl, rfl, rfl⟩

/-- Laying out a closed port list with other commas first makes no difference, if its lines are
regular. -/
theorem format_format {text : Text} {frame : Frame}
    (found : frame? (splitFinalNewline text).1 = some frame) (closed : frame.footer ≠ [])
    (regular : ∀ line ∈ frame.list.lines, IsRegular line) {options other : Options}
    (same : other.condense = options.condense) :
    format other (format options text) = format other text := by
  obtain ⟨new, again, final, header, footer, list⟩ := exists_frame_format options found closed
  have reread := printedPorts_eq_of_laidLike (portLines_reread regular list same)
  rw [format_ports other again, format_ports other found, reread, final, header, footer]

theorem format_format_mixed :
    let list := ofString "input a, // first\x0A, output reg[7 :0]b\x0A\x0A`ifdef X\x0Ac [1],\x0A"
    let frame : Frame := ⟨"module m (", list, ") ;"⟩
    let text := frame.header ++ (list ++ frame.footer) ++ [newline]
    frame? (splitFinalNewline text).1 = some frame ∧ frame.footer ≠ [] ∧
      (∀ line ∈ frame.list.lines, IsRegular line) ∧
      format {} (format { endOfLine := false } text) = format {} text := by
  intro list frame text
  have found : frame? (splitFinalNewline text).1 = some frame := by decide +kernel
  have closed : frame.footer ≠ [] := by decide +kernel
  have regular : ∀ line ∈ frame.list.lines, IsRegular line := by decide +kernel
  exact ⟨found, closed, regular, format_format found closed regular rfl⟩

/-- A type word that is cut out of the front of a name: the second layout leaves the line alone. -/
theorem format_format_severed :
    let frame : Frame := ⟨"module m (", ofString "\x0Areg$a,\x0Ainput b\x0A", ");"⟩
    let text := frame.header ++ (frame.body ++ frame.footer)
    frame? (splitFinalNewline text).1 = some frame ∧ frame.footer ≠ [] ∧
      (∀ line ∈ frame.body.lines, Plain line ∧ ¬ Doubled (splitComment line).1 ∧
        trim (splitComment line).1 ≠ comma) ∧
      format {} (format {} text) ≠ format {} text := by
  decide +kernel

end HdlAlign.Block
