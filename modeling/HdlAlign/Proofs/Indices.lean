import HdlAlign.Proofs.LineStructure
import HdlAlign.Proofs.Payloads

/-! The numbers that are reported on a block stay below its length, so the cache can hold them. -/

namespace HdlAlign

namespace Text

theorem length_lines (text : Text) : text.lines.length = text.count newline + 1 := by
  rw [lines]
  induction text with
  | nil => rfl
  | cons byte rest ih =>
      rw [splitOn]
      split
      · next isNewline => rw [isNewline, List.length_cons, ih, List.count_cons_self]
      · next other =>
          rw [List.count_cons_of_ne other, ← ih]
          split
          · next none => exact absurd none (splitOn_ne_nil _ _)
          · next piece others pieces => rw [pieces, List.length_cons, List.length_cons]

theorem length_lines_le (text : Text) : text.lines.length ≤ text.length + 1 := by
  rw [length_lines]
  exact Nat.succ_le_succ List.count_le_length

theorem sum_length_le_unlines (pieces : List Text) :
    (pieces.map List.length).sum ≤ (unlines pieces).length := by
  induction pieces with
  | nil => exact Nat.zero_le _
  | cons piece pieces ih =>
      cases pieces with
      | nil => simp [unlines, join, List.intercalate]
      | cons next pieces =>
          rw [unlines_cons (List.cons_ne_nil _ _), List.map_cons, List.sum_cons]
          simp only [List.length_append, List.length_cons] at ih ⊢
          omega

end Text

open Text

namespace Line

@[simp] theorem source_withField (line : Line) (column : Nat) (value : Text) :
    (line.withField column value).source = line.source := by
  cases line <;> rfl

end Line

theorem length_untouched_le (lines : List Line) (anchors : List Nat) (indent : Text) :
    (untouched lines).length ≤
      (unlines (lines.map fun line => line.render anchors indent)).length := by
  refine Nat.le_trans ?_ (sum_length_le_unlines _)
  rw [List.map_map]
  induction lines with
  | nil => exact Nat.le_refl 0
  | cons line rest ih =>
      rw [List.map_cons, List.sum_cons]
      cases line with
      | aligned fields source => exact Nat.le_trans ih (Nat.le_add_left _ _)
      | verbatim text source =>
          cases text with
          | nil => exact Nat.le_trans ih (Nat.le_add_left _ _)
          | cons byte text =>
              show (untouched rest).length + 1 ≤ (text.length + 1) + _
              omega

theorem untouched_subset (lines : List Line) : untouched lines ⊆ lines.map Line.source := by
  intro source member
  obtain ⟨line, listed, found⟩ := List.mem_filterMap.mp member
  refine List.mem_map.mpr ⟨line, listed, ?_⟩
  cases line with
  | aligned fields other => cases found
  | verbatim text other =>
      cases text with
      | nil => cases found
      | cons byte text => exact Option.some.inj found

namespace Range

theorem source_layoutLine (column : Nat) (widths : List GroupWidth) (line : Line) :
    (layoutLine column widths line).source = line.source := by
  rw [layoutLine]
  split
  · exact line.source_withField _ _
  · rfl

theorem sources_alignColumn (column : Nat) (lines : List Line) :
    (alignColumn column lines).map Line.source = lines.map Line.source := by
  rw [alignColumn, List.map_map]
  exact List.map_congr_left fun line _ => source_layoutLine column _ line

end Range

namespace Assignment

theorem sources_alignColumn (column : Nat) (lines : List Line) :
    (alignColumn column lines).map Line.source = lines.map Line.source := by
  rw [alignColumn, List.map_map]
  exact List.map_congr_left fun line _ => line.source_withField column _

end Assignment

namespace Ports

theorem sources_commasBehind (lines : List Line) :
    (commasBehind lines).map Line.source = lines.map Line.source := by
  induction lines with
  | nil => rfl
  | cons line rest ih =>
      rw [commasBehind, List.map_cons, List.map_cons, ih]
      split
      · rw [Line.source_withField]
      · rfl

theorem sources_commasBefore (portSeen : Bool) (lines : List Line) :
    (commasBefore portSeen lines).map Line.source = lines.map Line.source := by
  induction lines generalizing portSeen with
  | nil => rfl
  | cons line rest ih =>
      rw [commasBefore, List.map_cons, List.map_cons, ih]
      split
      · rw [Line.source_withField]
      · rfl

theorem sources_placeCommas (endOfLine : Bool) (lines : List Line) :
    (placeCommas endOfLine lines).map Line.source = lines.map Line.source := by
  rw [placeCommas]
  split
  · exact sources_commasBehind lines
  · exact sources_commasBefore false lines

end Ports

namespace Block

theorem source_classify (grammar : Grammar) (line : Text) (source : Int) :
    (grammar.classify line source).source = source := by
  rw [Grammar.classify]
  split
  · rfl
  · split <;> rfl

theorem source_classifyPort (index : Nat) (line : Text) :
    (classifyPort index line).source = index := by
  rcases classifyPort_cases index line with ⟨-, read⟩ | ⟨-, -, read⟩ | ⟨-, -, read⟩ <;>
    rw [read] <;> rfl

theorem index_numbered {condense : Bool} {first : Nat} {text : Text} {entry : Nat × Text}
    (member : entry ∈ numbered condense first text) :
    entry.1 ≤ first + text.count newline := by
  obtain ⟨⟨line, index⟩, listed, rfl⟩ := List.mem_map.mp (List.mem_filter.mp member).1
  have bound := (List.mem_zipIdx listed).2.1
  rw [length_lines] at bound
  show index ≤ _
  omega

theorem length_numbered_le (condense : Bool) (first : Nat) (text : Text) :
    (numbered condense first text).length ≤ text.length + 1 := by
  refine Nat.le_trans (List.length_filter_le _ _) ?_
  rw [List.length_map, List.length_zipIdx]
  exact length_lines_le text

structure Numbered (length : Nat) (lines : List Line) : Prop where
  sources : ∀ n ∈ lines.map Line.source, 0 ≤ n ∧ n ≤ length
  few : lines.length ≤ length + 1

theorem Numbered.of_sources_eq {length : Nat} {old new : List Line} (numbered : Numbered length old)
    (same : new.map Line.source = old.map Line.source) : Numbered length new where
  sources := same ▸ numbered.sources
  few := by
    rw [← List.length_map (f := Line.source), same, List.length_map]
    exact numbered.few

theorem Numbered.mono {length more : Nat} {lines : List Line} (numbered : Numbered length lines)
    (le : length ≤ more) : Numbered more lines where
  sources n member := by
    have bound := numbered.sources n member
    omega
  few := Nat.le_trans numbered.few (Nat.succ_le_succ le)

theorem declarationLines_numbered (options : Options) (text : Text) :
    Numbered text.length (alignDeclarationColumns (declarationLines options text)) := by
  have classified : Numbered text.length (declarationLines options text) := by
    refine ⟨fun n member => ?_, ?_⟩
    · obtain ⟨line, listed, rfl⟩ := List.mem_map.mp member
      obtain ⟨entry, read, rfl⟩ := List.mem_map.mp listed
      have bound := index_numbered read
      have count := List.count_le_length (a := newline) (l := text)
      rw [source_classify]
      omega
    · rw [declarationLines, List.length_map]
      exact length_numbered_le _ _ _
  refine classified.of_sources_eq ?_
  rw [alignDeclarationColumns, Assignment.sources_alignColumn, Range.sources_alignColumn,
    Range.sources_alignColumn]

theorem length_trimEmptyLines_le (lines : List Line) :
    (trimEmptyLines lines).length ≤ lines.length := by
  have front := (List.dropWhile_sublist Line.isEmptyLine (l := lines)).length_le
  have back := (List.dropWhile_sublist Line.isEmptyLine
    (l := (lines.dropWhile Line.isEmptyLine).reverse)).length_le
  rw [trimEmptyLines, List.length_reverse]
  rw [List.length_reverse] at back
  omega

theorem body_cases (frame : Frame) :
    (frame.body = newline :: frame.list ∧ frame.firstLine = frame.header.count newline + 1) ∨
      (frame.body = frame.list ∧ frame.firstLine = frame.header.count newline) := by
  rw [Frame.firstLine, Frame.list]
  cases frame.body with
  | nil => exact .inr ⟨rfl, rfl⟩
  | cons byte rest =>
      by_cases isNewline : byte = newline
      · subst isNewline
        have list : trimHead [newline] (newline :: rest) = rest := by simp [trimHead, dropHead?]
        rw [list, List.head?_cons, if_pos rfl]
        exact .inl ⟨rfl, rfl⟩
      · have list : trimHead [newline] (byte :: rest) = byte :: rest := by
          simp [trimHead, dropHead?, Ne.symm isNewline]
        rw [list, List.head?_cons, if_neg fun same => isNewline (Option.some.inj same)]
        exact .inr ⟨rfl, rfl⟩

theorem lines_list (frame : Frame) :
    frame.firstLine + frame.list.count newline =
        frame.header.count newline + frame.body.count newline ∧
      frame.list.length ≤ frame.body.length := by
  rcases body_cases frame with ⟨body, first⟩ | ⟨body, first⟩
  · rw [body, first, List.count_cons_self, List.length_cons]
    omega
  · rw [body, first]
    exact ⟨rfl, Nat.le_refl _⟩

theorem portLines_numbered (options : Options) {text : Text} {frame : Frame}
    (found : frame? text = some frame) : Numbered text.length (laidOutPorts options frame) := by
  obtain ⟨whole, -, -⟩ := frame?_split found
  have size : frame.firstLine + frame.list.count newline ≤ text.length ∧
      frame.list.length ≤ text.length := by
    have list := lines_list frame
    have counted := List.count_le_length (a := newline) (l := text)
    have lengths := congrArg List.length whole
    have counts := congrArg (List.count newline) whole
    simp only [List.length_append, List.count_append] at lengths counts
    omega
  have classified : Numbered text.length (portLines options frame) := by
    refine ⟨fun n member => ?_, ?_⟩
    · obtain ⟨line, listed, rfl⟩ := List.mem_map.mp member
      obtain ⟨entry, read, rfl⟩ := List.mem_map.mp (trimEmptyLines_subset _ listed)
      have bound := index_numbered read
      rw [source_classifyPort]
      omega
    · have shorter : (portLines options frame).length ≤
          (numbered options.condense frame.firstLine frame.list).length :=
        Nat.le_trans (length_trimEmptyLines_le _) (Nat.le_of_eq (List.length_map _))
      have few := length_numbered_le options.condense frame.firstLine frame.list
      omega
  refine classified.of_sources_eq ?_
  rw [laidOutPorts, Ports.sources_placeCommas, Range.sources_alignColumn]

theorem mode_align (options : Options) (text : Text) :
    Mode.ofCode (align options text).mode.code = (align options text).mode := by
  rcases align_cases options text with ⟨-, same⟩ | ⟨_, -, -, mode, -⟩ | ⟨-, -, mode, -⟩
  · rw [same]
    rfl
  · rw [mode]
    rfl
  · rw [mode]
    rfl

theorem length_splitFinalNewline_le (text : Text) :
    (splitFinalNewline text).1.length ≤ text.length := by
  conv_rhs => rw [← splitFinalNewline_append text]
  rw [List.length_append]
  exact Nat.le_add_right _ _

theorem render_length_le_alignPorts (options : Options) (frame : Frame) :
    (Batch.render ⟨laidOutPorts options frame, portIndent⟩).length ≤
      (alignPorts options frame).text.length := by
  rw [alignPorts_text]
  refine Nat.le_trans ?_ (sum_length_le_unlines _)
  rw [portParts]
  cases laidOutPorts options frame with
  | nil => exact Nat.zero_le _
  | cons line lines =>
      simp only [Batch.render, List.isEmpty_cons, Bool.false_eq_true, if_false, List.map_append,
        List.sum_append, List.map_cons, List.sum_cons]
      omega

theorem align_numbered (options : Options) (text : Text) :
    (align options text).verbatim = [] ∧ (align options text).count = 0 ∨
      ∃ batch : Batch, Numbered text.length batch.lines ∧
        batch.render.length ≤ (align options text).text.length ∧
        (align options text).verbatim = untouched batch.lines ∧
        (align options text).count = batch.alignedCount := by
  have shorter := length_splitFinalNewline_le text
  unfold align
  dsimp only
  cases isBlank (splitFinalNewline text).1 with
  | true => exact .inl ⟨rfl, rfl⟩
  | false =>
      simp only [Bool.false_eq_true, if_false, alignBody]
      right
      cases found : frame? (splitFinalNewline text).1 with
      | some frame =>
          refine ⟨_, (portLines_numbered options found).mono shorter, ?_, rfl, rfl⟩
          rw [List.length_append]
          exact Nat.le_trans (render_length_le_alignPorts options frame) (Nat.le_add_right _ _)
      | none =>
          refine ⟨_, (declarationLines_numbered options _).mono shorter, ?_, rfl, rfl⟩
          rw [List.length_append]
          exact Nat.le_add_right _ _

end Block

namespace Cache

theorem toAligned_ofAligned (options : Options) (block : Text) :
    (Payload.ofAligned (Block.align options block)).toAligned = Block.align options block := by
  have list (verbatim : List Int) :
      (if verbatim.isEmpty then none else some verbatim).getD [] = verbatim := by
    cases verbatim <;> rfl
  simp only [Payload.ofAligned, Payload.toAligned, list, Block.mode_align]

theorem fits_ofAligned {options : Options} {block : Text} (size : block.length < 0x7fffffffffffffff)
    (short : (Block.align options block).text.length < 2 ^ 32) :
    (Payload.ofAligned (Block.align options block)).Fits := by
  have facts : ((Block.align options block).verbatim.length < 2 ^ 32 ∧
      ∀ n ∈ (Block.align options block).verbatim, Narrow n) ∧
        Narrow (Block.align options block).count := by
    rcases Block.align_numbered options block with ⟨none, zero⟩ |
      ⟨batch, numbered, printed, verbatim, count⟩
    · rw [none, zero]
      exact ⟨⟨by decide, by simp⟩, by decide, by decide⟩
    · have fewer := length_untouched_le batch.lines (Batch.anchors batch.lines) batch.indent
      have counted : batch.alignedCount ≤ batch.lines.length := List.countP_le_length
      have few := numbered.few
      rw [verbatim, count]
      refine ⟨⟨Nat.lt_of_le_of_lt (Nat.le_trans fewer printed) short, fun n member => ?_⟩, ?_, ?_⟩
      · have bound := numbered.sources n (untouched_subset _ member)
        exact ⟨by omega, by omega⟩
      · omega
      · omega
  refine ⟨short, fun ns listed => ?_, facts.2⟩
  have same : ns = (Block.align options block).verbatim := by
    rw [Payload.ofAligned] at listed
    dsimp only at listed
    split at listed
    · cases listed
    · exact (Option.some.inj listed).symm
  exact same ▸ facts.1

end Cache

end HdlAlign
