import HdlAlign.Proofs.Margins
import HdlAlign.Proofs.ModuleHeads
import HdlAlign.Proofs.Reformatting
import HdlAlign.Proofs.Reordering

/-! When laying out a block twice is laying it out once.  The second layout finds the columns of the
first one again, in the same widths.  It is the margin that may be another one, since it is taken
from the first declaration as it is printed: blanks in front of that count as margin the second
time. -/

namespace HdlAlign.Block

open Text Statement Line

def firstDeclaration? (lines : List Text) : Option Text :=
  lines.find? fun line => (Grammar.declaration.classify line 0).isAligned

def margin (lines : List Text) : Text := (firstDeclaration? lines).elim [] indentation

theorem margin_isIndent (lines : List Text) : ∀ byte ∈ margin lines, isIndent byte := by
  rw [margin]
  cases firstDeclaration? lines with
  | none => exact nofun
  | some line => exact fun byte => List.mem_takeWhile_imp

theorem declarationIndent_eq (text : Text) : declarationIndent text = margin text.lines := by
  rw [declarationIndent, margin, firstDeclaration?]
  cases text.lines.find? fun line => (Grammar.declaration.classify line 0).isAligned <;> rfl

theorem isAligned_of_isBlank {line : Text} (blank : isBlank line) :
    (Grammar.declaration.classify line 0).isAligned = false := by
  rw [Grammar.classify, if_pos blank]
  rfl

/-! Blank lines have no part in the layout. -/

theorem printedAmong_congr {new old : List Text} (same : (readLines new).filter Line.isAligned =
    (readLines old).filter Line.isAligned) : printedAmong new = printedAmong old := by
  funext indent line
  rw [printedAmong, printedAmong, ← laidOut_eq, ← laidOut_eq, ← laidOut_aligned, same,
    laidOut_aligned, blockAnchors_eq, ← anchors_alignDeclarationColumns, same,
    anchors_alignDeclarationColumns, ← blockAnchors_eq]

theorem printedAmong_sourceLines (options : Options) (text : Text) :
    printedAmong (sourceLines options text) =
      printedAmong (keptLines options.condense (splitFinalNewline text).1) := by
  refine printedAmong_congr ?_
  have last : (Grammar.declaration.classify [] 0).isAligned = false := isAligned_of_isBlank rfl
  rw [sourceLines, readLines, readLines, List.map_append, List.filter_append]
  split <;> simp [last]

theorem margin_sourceLines (options : Options) (text : Text) :
    margin (sourceLines options text) = declarationIndent (splitFinalNewline text).1 := by
  have last : (Grammar.declaration.classify [] 0).isAligned = false := isAligned_of_isBlank rfl
  have kept : firstDeclaration? (keptLines options.condense (splitFinalNewline text).1) =
      firstDeclaration? (splitFinalNewline text).1.lines := by
    rw [firstDeclaration?, firstDeclaration?, keptLines, List.find?_filter]
    refine List.find?_congr fun line _ => ?_
    cases blank : isBlank line with
    | true => simp [isAligned_of_isBlank blank]
    | false => simp
  have whole : firstDeclaration? (sourceLines options text) =
      firstDeclaration? (splitFinalNewline text).1.lines := by
    rw [← kept, firstDeclaration?, sourceLines, List.find?_append]
    split <;> simp [last, firstDeclaration?]
  rw [declarationIndent_eq, margin, margin, whole]

theorem printedAmong_of_isBlank {lines : List Text} {line : Text} (blank : isBlank line)
    (indent : Text) : printedAmong lines indent line = [] := by
  rw [printedAmong, Grammar.classify, if_pos blank, Measures.lay_verbatim]
  rfl

theorem printedAmong_of_isVerbatim {lines : List Text} {line : Text} (verbatim : isVerbatim line)
    (indent : Text) : printedAmong lines indent line = line := by
  rcases classify_cases line 0 with ⟨-, other, -⟩ | ⟨-, -, read⟩ | ⟨-, other, -, -⟩
  · rw [other] at verbatim
    cases verbatim
  · rw [printedAmong, read, Measures.lay_verbatim]
    rfl
  · rw [other] at verbatim
    cases verbatim

theorem lines_format {options : Options} {text : Text}
    (mode : (align options text).mode = .declarations) :
    (format options text).lines = (sourceLines options text).map
      (printedAmong (sourceLines options text) (margin (sourceLines options text))) := by
  rw [printedAmong_sourceLines, margin_sourceLines]
  generalize printed : printedAmong (keptLines options.condense (splitFinalNewline text).1)
    (declarationIndent (splitFinalNewline text).1) = print
  have body : (alignDeclarations options (splitFinalNewline text).1).text.lines =
      (keptLines options.condense (splitFinalNewline text).1).map print := by
    rw [alignDeclarations_lines options (align_declarations mode).1, ← numbered_lines _ 0,
      List.map_map, ← printed]
    exact List.map_congr_left fun entry _ => printedLine_eq options _ entry
  have related : List.Forall₂ (fun new old => new = print old) (format options text).lines
      (sourceLines options text) := by
    refine forall₂_sourceLines mode ?_ ?_
    · rw [← printed, printedAmong_of_isBlank rfl]
    · rw [body, List.forall₂_map_left_iff, List.forall₂_same]
      exact fun _ _ => rfl
  rwa [← List.forall₂_map_right_iff (R := Eq), List.forall₂_eq_eq_eq] at related

/-! The second layout -/

section

variable {lines : List Text} (block : OrderlyLines lines) {indent : Text}
  (isMargin : ∀ byte ∈ indent, isIndent byte)

include block isMargin

theorem blockAlike_printedAmong {line : Text} (member : line ∈ lines) :
    BlockAlike (Grammar.declaration.classify (printedAmong lines indent line) 0)
      (Grammar.declaration.classify line 0) := by
  rcases classify_cases line 0 with ⟨blank, -, read⟩ | ⟨-, verbatim, read⟩ | ⟨-, -, -, read⟩
  · rw [printedAmong_of_isBlank blank, read]
    exact .verbatim [] 0 0
  · rw [printedAmong_of_isVerbatim verbatim, read]
    exact .verbatim line 0 0
  · have aligned : (Grammar.declaration.classify line 0).isAligned := by
      rw [read]
      rfl
    refine blockAlike_render (block.orderly line member aligned) (block.single line member) aligned
      (wide_classify member) (fun fields source laid => ?_) isMargin
    rw [blockAnchors_laidLines]
    refine @Batch.roomy_anchors (laidLines lines) fields source ?_
    rw [← laid]
    exact List.mem_map_of_mem (List.mem_map_of_mem member)

/-- The second layout prints the lines of the first one, in the margin that it finds. -/
theorem map_printedAmong_printed (other : Text) :
    (lines.map (printedAmong lines indent)).map
        (printedAmong (lines.map (printedAmong lines indent)) other) =
      lines.map (printedAmong lines other) := by
  have alike : List.Forall₂ BlockAlike (readLines (lines.map (printedAmong lines indent)))
      (readLines lines) := by
    rw [readLines, readLines, List.map_map, List.forall₂_map_left_iff, List.forall₂_map_right_iff,
      List.forall₂_same]
    exact fun line member => blockAlike_printedAmong block isMargin member
  have printed (lines : List Text) : lines.map (printedAmong lines other) =
      (readLines lines).map fun line => ((measures (readLines lines)).lay line).render
        (Batch.anchors ((readLines lines).map (measures (readLines lines)).lay)) other := by
    rw [← laidLines, ← blockAnchors_laidLines, readLines, List.map_map]
    rfl
  rw [printed, printed, map_render_eq_of_alike alike]

theorem firstDeclaration?_printed :
    firstDeclaration? (lines.map (printedAmong lines indent)) =
      (firstDeclaration? lines).map (printedAmong lines indent) := by
  rw [firstDeclaration?, firstDeclaration?, List.find?_map]
  refine congrArg (Option.map _) (List.find?_congr fun line member => ?_)
  exact (blockAlike_printedAmong block isMargin member).isAligned_eq

theorem indentation_printedAmong {line : Text} (member : line ∈ lines)
    (aligned : (Grammar.declaration.classify line 0).isAligned) :
    indentation (printedAmong lines indent line) = indent ++
      ((measures (readLines lines)).lay (Grammar.declaration.classify line 0)).gap
        (blockAnchors lines) := by
  obtain ⟨code, printed, readable, rereads, -, laid⟩ :=
    (block.orderly line member aligned).exists_rereads (block.single line member) aligned
      (wide_classify member)
  obtain ⟨column, inside, byte, shown, visible, -⟩ := rereads.exists_shown readable
  rw [printedAmong, laid]
  refine indentation_render isMargin ⟨printed.getD column [], ?_, byte, shown, ?_⟩
  · rw [List.getD_eq_getElem _ _ (by rw [rereads.length_eq.1]; exact inside)]
    exact List.mem_append_left _ (List.getElem_mem _)
  · by_contra blank
    rw [isSpace_of_isIndent (by simpa using blank)] at visible
    cases visible

end

/-! The lines of the output are the lines of the second layout. -/

theorem mode_eq_declarations_iff {options : Options} {text : Text} :
    (align options text).mode = .declarations ↔ isBlank text = false ∧ frame? text = none := by
  have body : isBlank (splitFinalNewline text).1 = isBlank text := by
    rw [Bool.eq_iff_iff, isBlank_iff_white, isBlank_iff_white, White, White, solid_splitFinalNewline]
  rw [← body, ← frame?_splitFinalNewline]
  rcases align_cases options text with ⟨blank, same⟩ | ⟨frame, -, found, ports, -⟩ |
    ⟨visible, none, declarations, -⟩
  · simp [same, blank]
  · simp [ports, found]
  · simp [declarations, visible, none]

theorem isBlank_iff_lines {text : Text} : isBlank text ↔ ∀ line ∈ text.lines, isBlank line := by
  rw [isBlank_iff_white, White, solid_lines, List.flatMap_eq_nil_iff]
  exact forall₂_congr fun line _ => isBlank_iff_white.symm

theorem single_sourceLines (options : Options) (text : Text) :
    ∀ line ∈ sourceLines options text, newline ∉ line := by
  intro line member
  rcases List.mem_append.mp member with kept | last
  · exact single_of_mem_lines (List.mem_filter.mp kept).1
  · split at last
    · cases last
    · rw [List.mem_singleton.mp last]
      exact List.not_mem_nil

theorem lines_splitFinalNewline (text : Text) :
    text.lines = (splitFinalNewline text).1.lines ++
      if (splitFinalNewline text).2.isEmpty then [] else [[]] := by
  conv => lhs; rw [← splitFinalNewline_append text]
  rcases splitFinalNewline_final text with final | final
  · simp [final]
  · rw [final, lines_append_newline]
    rfl

theorem sourceLines_eq_lines {options : Options} {text : Text} (visible : options.condense →
    ∀ line ∈ (splitFinalNewline text).1.lines, isBlank line = false) :
    sourceLines options text = text.lines := by
  rw [sourceLines, lines_splitFinalNewline text, keptLines,
    List.filter_eq_self.mpr fun line member => ?_]
  cases condense : options.condense with
  | false => rfl
  | true => simp [visible condense line member]

theorem sourceLines_format {options : Options} {text : Text}
    (mode : (align options text).mode = .declarations) :
    sourceLines options (format options text) = (format options text).lines := by
  obtain ⟨output, _, _, kept⟩ := declarations_linesKept mode
  refine sourceLines_eq_lines fun condense line member => (kept.condensed condense).2.1 line ?_
  rw [kept.final] at member
  rcases splitFinalNewline_final text with final | final
  · rw [final, List.append_nil] at member
    rw [lines_splitFinalNewline]
    exact List.mem_append_left _ member
  · rw [final, splitFinalNewline, Assignment.dropTail?_eq_some_iff.mpr rfl] at member
    exact member

section

variable {lines : List Text} (block : OrderlyLines lines) {indent : Text}
  (isMargin : ∀ byte ∈ indent, isIndent byte) {line : Text} (member : line ∈ lines)

include block isMargin member

theorem isBlank_printedAmong : isBlank (printedAmong lines indent line) = isBlank line := by
  have again := (blockAlike_printedAmong block isMargin member).isAligned_eq
  rcases classify_cases line 0 with ⟨blank, -, -⟩ | ⟨-, verbatim, -⟩ | ⟨-, -, -, read⟩
  · rw [printedAmong_of_isBlank blank, blank]
    rfl
  · rw [printedAmong_of_isVerbatim verbatim]
  · have aligned : (Grammar.declaration.classify line 0).isAligned := by
      rw [read]
      rfl
    rw [(classify_of_isAligned aligned).1, (classify_of_isAligned (again.trans aligned)).1]

end

theorem not_mem_printedAmong {byte : UInt8} (other : byte ≠ blank) {lines : List Text}
    {line indent : Text} (member : line ∈ lines) (single : newline ∉ line) (isMargin : byte ∉ indent)
    (absent : byte ∉ line) : byte ∉ printedAmong lines indent line := by
  have listed : Grammar.declaration.classify line 0 ∈ readLines lines := List.mem_map_of_mem member
  have alike := laidOut_alike listed (classify_isField single 0)
  rw [printedAmong, ← laidOut_eq]
  exact not_mem_render_classify other single absent alike _ isMargin

/-- A block that is read again.  Of a block of declarations every declaration is, and if blank lines
are left out, they kept no head of a module apart; of a port list, which is closed, every line is. -/
inductive IsReread (options : Options) (text : Text) : Prop
  | blank (blank : isBlank (splitFinalNewline text).1)
  | declarations (mode : (align options text).mode = .declarations)
      (orderly : ∀ line ∈ sourceLines options text,
        (Grammar.declaration.classify line 0).isAligned → IsOrderly line)
      (headless : options.condense → frame? (unlines (sourceLines options text)) = none)
  | ports {frame : Frame} (found : frame? (splitFinalNewline text).1 = some frame)
      (closed : frame.footer ≠ []) (regular : ∀ line ∈ frame.list.lines, IsRegular line)

/-- The first declaration of a block leads all its declarations. -/
def LedByFirst (lines : List Text) : Prop :=
  ∀ first ∈ firstDeclaration? lines, ∀ line ∈ lines,
    (Grammar.declaration.classify line 0).isAligned →
      (Grammar.declaration.classify first 0).Leads (Grammar.declaration.classify line 0)

instance (lines : List Text) : Decidable (LedByFirst lines) :=
  inferInstanceAs (Decidable (∀ first ∈ firstDeclaration? lines, _))

theorem isBlank_format {options : Options} {text : Text}
    (block : OrderlyLines (sourceLines options text))
    (mode : (align options text).mode = .declarations) : isBlank (format options text) = false := by
  have visible := (mode_eq_declarations_iff.mp mode).1
  by_contra blank
  have none := isBlank_iff_lines.mp (by simpa using blank)
  rw [lines_format mode] at none
  have allBlank : isBlank text := by
    refine isBlank_iff_lines.mpr fun line member => ?_
    by_contra shown
    have kept : line ∈ sourceLines options text := by
      rw [lines_splitFinalNewline] at member
      rcases List.mem_append.mp member with inside | last
      · exact List.mem_append_left _ (List.mem_filter.mpr ⟨inside, by simp [shown]⟩)
      · exact List.mem_append_right _ last
    have printed := none _ (List.mem_map_of_mem kept)
    rw [isBlank_printedAmong block (margin_isIndent _) kept] at printed
    exact shown printed
  rw [visible] at allBlank
  cases allBlank

theorem mode_format {options : Options} {text : Text}
    (block : OrderlyLines (sourceLines options text))
    (mode : (align options text).mode = .declarations)
    (headless : options.condense → frame? (unlines (sourceLines options text)) = none) :
    (align options (format options text)).mode = .declarations := by
  refine mode_eq_declarations_iff.mpr ⟨isBlank_format block mode, ?_⟩
  have free : frame? (unlines (sourceLines options text)) = none := by
    cases condense : options.condense with
    | true => exact headless condense
    | false =>
        have whole : sourceLines options text = text.lines :=
          sourceLines_eq_lines fun drops => by rw [condense] at drops; cases drops
        rw [whole, unlines_lines]
        exact (mode_eq_declarations_iff.mp mode).2
  have isMargin := margin_isIndent (sourceLines options text)
  have notMargin {byte : UInt8} (visible : isIndent byte = false) :
      byte ∉ margin (sourceLines options text) := fun member => by
    rw [isMargin byte member] at visible
    cases visible
  have single := single_sourceLines options text
  rw [← unlines_lines (format options text), lines_format mode]
  refine frame?_unlines_map single (fun line member => ?_) (fun line member => ?_)
    (fun line member => not_imp_not.mp fun absent => ?_) (printedAmong_of_isBlank rfl _) free
  · exact not_mem_printedAmong (by decide) member (single line member) (notMargin rfl)
      (single line member)
  · rcases classify_cases line 0 with ⟨blank, -, -⟩ | ⟨-, verbatim, -⟩ | ⟨-, -, -, read⟩
    · rw [printedAmong_of_isBlank blank]
      exact .inr not_opens_nil
    · exact .inl (printedAmong_of_isVerbatim verbatim _)
    · refine .inr (not_opens_of_isAligned ?_)
      rw [(blockAlike_printedAmong block isMargin member).isAligned_eq, read]
      rfl
  · exact not_mem_printedAmong (by decide) member (single line member) (notMargin rfl) absent

theorem lines_format_format {options : Options} {text : Text}
    (block : OrderlyLines (sourceLines options text))
    (mode : (align options text).mode = .declarations)
    (again : (align options (format options text)).mode = .declarations) :
    (format options (format options text)).lines = (sourceLines options text).map
      (printedAmong (sourceLines options text) (margin (format options text).lines)) := by
  rw [lines_format again, sourceLines_format mode]
  generalize margin (format options text).lines = indent
  rw [lines_format mode]
  exact map_printedAmong_printed block (margin_isIndent _) indent

theorem margin_format {options : Options} {text first : Text}
    (block : OrderlyLines (sourceLines options text))
    (mode : (align options text).mode = .declarations)
    (found : firstDeclaration? (sourceLines options text) = some first) :
    margin (format options text).lines = margin (sourceLines options text) ++
      ((measures (readLines (sourceLines options text))).lay
        (Grammar.declaration.classify first 0)).gap (blockAnchors (sourceLines options text)) := by
  have isMargin := margin_isIndent (sourceLines options text)
  have printed := firstDeclaration?_printed block isMargin
  rw [← lines_format mode, found] at printed
  have aligned : (Grammar.declaration.classify first 0).isAligned := by
    simpa using List.find?_some found
  rw [margin, printed]
  exact indentation_printedAmong block isMargin (List.mem_of_find?_eq_some found) aligned

theorem format_format_eq_iff_ledByFirst {options : Options} {text : Text}
    (block : OrderlyLines (sourceLines options text))
    (mode : (align options text).mode = .declarations)
    (again : (align options (format options text)).mode = .declarations) :
    format options (format options text) = format options text ↔
      LedByFirst (sourceLines options text) := by
  have second := lines_format_format block mode again
  have texts : format options (format options text) = format options text ↔
      (format options (format options text)).lines = (format options text).lines :=
    ⟨congrArg lines, fun same => by
      rw [← unlines_lines (format options (format options text)), same, unlines_lines]⟩
  rw [texts, second]
  cases found : firstDeclaration? (sourceLines options text) with
  | none =>
      -- Without a declaration there is no margin.
      have none : firstDeclaration? (format options text).lines = none := by
        rw [lines_format mode, firstDeclaration?_printed block (margin_isIndent _), found]
        rfl
      have same : margin (format options text).lines = margin (sourceLines options text) := by
        rw [margin, margin, none, found]
      refine iff_of_true ?_ (by simp [LedByFirst, found])
      rw [same, lines_format mode]
  | some first =>
      have member := List.mem_of_find?_eq_some found
      have aligned : (Grammar.declaration.classify first 0).isAligned := by
        simpa using List.find?_some found
      have led : LedByFirst (sourceLines options text) ↔ ∀ line ∈ sourceLines options text,
          (Grammar.declaration.classify line 0).isAligned →
            (Grammar.declaration.classify first 0).Leads (Grammar.declaration.classify line 0) := by
        simp [LedByFirst, found]
      have wider := margin_isIndent (format options text).lines
      rw [margin_format block mode found] at wider ⊢
      rw [led, ← gap_eq_nil_iff_leads block member aligned, lines_format mode]
      constructor
      · intro same
        have printed := congrArg indentation (List.map_inj_left.mp same first member)
        rw [indentation_printedAmong block wider member aligned,
          indentation_printedAmong block (margin_isIndent _) member aligned] at printed
        simpa using printed
      · intro none
        rw [none, List.append_nil]

/-- Laying out a block twice is laying it out once exactly if no declaration begins in front of the
first one. -/
theorem format_idempotent_iff {options : Options} {text : Text} (reread : IsReread options text) :
    format options (format options text) = format options text ↔
      ((align options text).mode = .declarations → LedByFirst (sourceLines options text)) := by
  cases reread with
  | blank blank =>
      have same : align options text = { text := text } := by
        rcases align_cases options text with ⟨-, same⟩ | ⟨_, visible, -⟩ | ⟨visible, -⟩
        · exact same
        · rw [blank] at visible
          cases visible
        · rw [blank] at visible
          cases visible
      refine iff_of_true ?_ fun mode => ?_
      · rw [format, format, same, same]
      · rw [same] at mode
        cases mode
  | declarations mode orderly headless =>
      have block : OrderlyLines (sourceLines options text) :=
        ⟨single_sourceLines options text, orderly⟩
      rw [format_format_eq_iff_ledByFirst block mode (mode_format block mode headless)]
      exact ⟨fun led _ => led, fun led => led mode⟩
  | ports found closed regular =>
      obtain ⟨new, again, final, header, footer, list⟩ := exists_frame_format options found closed
      have reread := printedPorts_eq_of_laidLike (portLines_reread regular list rfl)
      refine iff_of_true ?_ fun mode => ?_
      · rw [format_ports options again, reread, final, header, footer, ← format_ports options found]
      · rw [frame?_splitFinalNewline.mpr (mode_eq_declarations_iff.mp mode).2] at found
        cases found

theorem format_idempotent_iff_commented :
    let text := ofString "\x09b <= a+1; // sum\x0A\x0A// note\x0A  c = b;\x0A"
    let options : Options := { condense := true }
    IsReread options text ∧ (align options text).mode = .declarations ∧
      LedByFirst (sourceLines options text) ∧
      format options (format options text) = format options text := by
  intro text options
  have mode : (align options text).mode = .declarations := by decide +kernel
  have plain : ∀ line ∈ sourceLines options text, (Grammar.declaration.classify line 0).isAligned →
      Plain ((splitComment line).1.dropWhile isSpace) ∧
        ∀ byte ∈ (Declaration.cut line).behind, isSpace byte := by decide +kernel
  have headless : frame? (unlines (sourceLines options text)) = none := by decide +kernel
  have led : LedByFirst (sourceLines options text) := by decide +kernel
  have reread : IsReread options text := .declarations mode
    (fun line member aligned => isOrderly_of_plain aligned (plain line member aligned).1
      (plain line member aligned).2) fun _ => headless
  exact ⟨reread, mode, led, (format_idempotent_iff reread).mpr fun _ => led⟩

/-- An assignment in front of a declaration is printed behind a column of types, whose blanks are
taken for a margin the second time. -/
theorem format_not_idempotent :
    let text := ofString "a = b;\x0Awire c;"
    (align {} text).mode = .declarations ∧ ¬ LedByFirst (sourceLines {} text) ∧
      format {} text = ofString "     a = b ;\x0Awire c     ;" ∧
      format {} (format {} text) = ofString "          a = b ;\x0A     wire c     ;" ∧
      format {} (format {} text) ≠ format {} text := by
  decide +kernel

end HdlAlign.Block
