import HdlAlign.Proofs.Frames
import HdlAlign.Proofs.Modes
import HdlAlign.Proofs.Reformatting

/-! Lines that are reported as left alone are whole lines of the file, and their spans hold them. -/

namespace HdlAlign.Block

open Text Utf8 Statement Audit

/-! In a block -/

theorem visible_of_split (before : Text) {byte : UInt8} (printed : isPrinted byte)
    (other : byte ≠ newline) (after : Text) :
    ∃ line, (before ++ byte :: after).lines[before.count newline]? = some line ∧
      isBlank line = false := by
  have single : newline ∉ [byte] := by simpa using Ne.symm other
  obtain ⟨left, right, found⟩ := getElem?_lines_of_split before single after
  rw [List.append_assoc, List.singleton_append] at found
  exact ⟨_, found, isBlank_eq_false_of_mem (show byte ∈ left ++ [byte] ++ right by simp) printed⟩

theorem visible_header {header : Text} (last : header.getLast? = some ('(' : UInt8)) (rest : Text) :
    ∃ line, (header ++ rest).lines[header.count newline]? = some line ∧ isBlank line = false := by
  obtain ⟨front, rfl⟩ := List.getLast?_eq_some_iff.mp last
  have count : (front ++ [('(' : UInt8)]).count newline = front.count newline := by
    rw [List.count_append]
    rfl
  rw [List.append_assoc, List.singleton_append, count]
  exact visible_of_split front rfl (by decide) rest

theorem visible_footer (front : Text) {behind rest footer : Text}
    (closed : Closed behind rest footer) (filled : footer ≠ []) :
    ∃ line, (front ++ behind).lines[(front ++ rest).count newline]? = some line ∧
      isBlank line = false := by
  cases closed with
  | never => exact absurd rfl filled
  | @alone _ margin closing last starts white single =>
      obtain ⟨blanks, tail, rfl, -⟩ := last.closes
      have count : (front ++ rest).count newline = (front ++ rest ++ margin).count newline := by
        have none := List.count_eq_zero.mpr single
        simp only [List.count_append, none, Nat.add_zero]
      rw [count, ← List.append_assoc, ← List.append_assoc]
      exact visible_of_split _ rfl (by decide) _
  | shared last visible =>
      obtain ⟨blanks, tail, rfl, -⟩ := last.closes
      rw [← List.append_assoc]
      exact visible_of_split _ rfl (by decide) _

theorem visible_of_verbatim_mem_laidOutPorts {options : Options} {frame : Frame} {text : Text}
    {source : Int} (member : .verbatim text source ∈ laidOutPorts options frame)
    (shown : text ≠ []) : isBlank text = false := by
  obtain ⟨old, listed, laid⟩ := List.mem_map.mp (Ports.verbatim_mem_placeCommas member)
  obtain ⟨index, line, -, rfl⟩ := mem_portLines listed
  have alike := Range.layoutLine_alike Port.vectorColumn listed
  rw [laid] at alike
  generalize read : classifyPort index line = new at alike
  cases alike
  rcases classifyPort_cases index line with ⟨-, same⟩ | ⟨-, -, same⟩ | ⟨visible, -, same⟩
  · rw [same] at read
    cases read
    exact absurd rfl shown
  · rw [same] at read
    cases read
  · rw [same] at read
    cases read
    rw [← Bool.not_eq_true]
    intro blank
    rw [isBlank_stripSeparator blank] at visible
    cases visible

theorem visible_of_mem_untouched_ports {options : Options} {text : Text} {frame : Frame}
    (found : frame? text = some frame) {index : Int}
    (reported : index ∈ untouched (laidOutPorts options frame)) :
    ∃ (number : Nat) (line : Text), index = number ∧ text.lines[number]? = some line ∧
      isBlank line = false := by
  obtain ⟨line, member, shown⟩ := List.mem_filterMap.mp reported
  cases line with
  | aligned fields source => cases shown
  | verbatim part source =>
      have filled : part ≠ [] := fun none => by simp [none] at shown
      obtain rfl : source = index := by simpa [filled] using shown
      obtain ⟨number, rfl, listed⟩ := verbatim_mem_laidOutPorts member filled
      refine ⟨number, ?_⟩
      obtain ⟨whole, last, -⟩ := frame?_split found
      cases edge : frame.isEdge number with
      | false => exact ⟨part, rfl, getElem?_lines_list found listed edge,
          visible_of_verbatim_mem_laidOutPorts member filled⟩
      | true =>
          -- The list has only a part of this line, but the rest of it shows a parenthesis.
          simp only [Frame.isEdge, Bool.or_eq_true, Bool.and_eq_true, decide_eq_true_eq,
            Bool.not_eq_true', List.isEmpty_eq_false_iff] at edge
          rcases edge with header | ⟨some, footer⟩
          · obtain ⟨line, atEnd, visible⟩ := visible_header last (frame.body ++ frame.footer)
            rw [← whole] at atEnd
            exact ⟨line, rfl, by rwa [Int.ofNat_inj.mp header], visible⟩
          · obtain ⟨line, atStart, visible⟩ :=
              visible_footer frame.header (frame?_closed found) some
            rw [← whole] at atStart
            exact ⟨line, rfl, by rwa [Int.ofNat_inj.mp footer], visible⟩

theorem visible_of_mem_verbatim {options : Options} {text : Text} {index : Int}
    (reported : index ∈ (align options text).verbatim) :
    ∃ (number : Nat) (line : Text), index = number ∧
      (splitFinalNewline text).1.lines[number]? = some line ∧ isBlank line = false := by
  unfold align at reported
  dsimp only at reported
  cases blank : isBlank (splitFinalNewline text).1 with
  | true =>
      rw [blank] at reported
      cases reported
  | false =>
      rw [blank, if_neg Bool.false_ne_true, alignBody] at reported
      cases found : frame? (splitFinalNewline text).1 with
      | some frame =>
          rw [found] at reported
          exact visible_of_mem_untouched_ports found reported
      | none =>
          rw [found] at reported
          dsimp only at reported
          rw [alignDeclarations_verbatim, verbatimSources] at reported
          obtain ⟨⟨line, number⟩, listed, rfl⟩ := List.mem_map.mp reported
          obtain ⟨inText, verbatim⟩ := List.mem_filter.mp listed
          simp only [isVerbatim, Bool.and_eq_true, Bool.not_eq_true'] at verbatim
          exact ⟨number, line, rfl, List.mk_mem_zipIdx_iff_getElem?.mp inText, verbatim.1⟩

theorem getElem?_lines_of_body {text line : Text} {number : Nat}
    (found : (splitFinalNewline text).1.lines[number]? = some line) :
    text.lines[number]? = some line := by
  conv => lhs; rw [← splitFinalNewline_append text]
  rcases splitFinalNewline_final text with none | final
  · rwa [none, List.append_nil]
  · obtain ⟨bound, -⟩ := List.getElem?_eq_some_iff.mp found
    rw [final, lines_append_newline, List.getElem?_append_left bound]
    exact found

theorem mem_lines_format {options : Options} {text : Text}
    (mode : (align options text).mode = .declarations) {number : Nat} {line : Text}
    (reported : (number : Int) ∈ (align options text).verbatim)
    (found : (splitFinalNewline text).1.lines[number]? = some line) :
    line ∈ (format options text).lines := by
  have inside : isEdge text number = false := by
    rcases align_cases options text with ⟨-, same⟩ | ⟨frame, -, -, ports, -⟩ | ⟨-, none, -, -⟩
    · rw [same] at mode
      cases mode
    · rw [ports] at mode
      cases mode
    · rw [isEdge, none]
      rfl
  have kept := (inOrder_eq_none_iff.mp (inOrder_align options text)).2
  have member := kept.subset
    (List.mem_map_of_mem (List.mem_filter.mpr ⟨reported, by rw [inside]; rfl⟩))
  rw [Int.toNat_natCast, linesOf_eq text, List.getD_eq_getElem?_getD, found, Option.getD_some,
    linesOf_eq] at member
  obtain ⟨place, there⟩ := List.mem_iff_getElem?.mp member
  exact List.mem_of_getElem? (getElem?_lines_of_body there)

theorem atLineStart_format {options : Options} {front text : Text} (filled : text ≠ [])
    (ended : AtLineStart (front ++ text)) : AtLineStart (front ++ format options text) := by
  have last : ∃ body, text = body ++ [newline] := by
    obtain ⟨body, byte, rfl⟩ := (List.eq_nil_or_concat' text).resolve_left filled
    exact ⟨body, by rw [ended byte (by simp)]⟩
  obtain ⟨body, rfl⟩ := last
  have final : (splitFinalNewline (body ++ [newline])).2 = [newline] := by
    rw [splitFinalNewline, Assignment.dropTail?_eq_some_iff.mpr rfl]
  rcases align_cases options (body ++ [newline]) with ⟨-, same⟩ | ⟨frame, -, -, -, same⟩ |
    ⟨-, -, -, same⟩
  · rwa [format, same]
  · rw [same, final, ← List.append_assoc]
    exact atLineStart_iff.mpr (.inr ⟨_, rfl⟩)
  · rw [same, final, ← List.append_assoc]
    exact atLineStart_iff.mpr (.inr ⟨_, rfl⟩)

end HdlAlign.Block

namespace HdlAlign

open Text

namespace Text

theorem count_takeLines (n : Nat) (text : Text) :
    (takeLines n text).count newline = min n (text.count newline) := by
  induction text generalizing n with
  | nil => cases n <;> simp [takeLines]
  | cons byte rest ih =>
      cases n with
      | zero => simp [takeLines]
      | succ n =>
          rw [takeLines]
          split
          · next isNewline =>
              rw [isNewline, List.count_cons_self, List.count_cons_self, ih]
              omega
          · next other => rw [List.count_cons_of_ne other, List.count_cons_of_ne other, ih]

theorem atLineStart_takeLines {n : Nat} {text : Text} (few : n ≤ text.count newline) :
    AtLineStart (takeLines n text) := by
  induction text generalizing n with
  | nil =>
      cases n with
      | zero => simp [takeLines, AtLineStart]
      | succ n => cases few
  | cons byte rest ih =>
      cases n with
      | zero => simp [takeLines, AtLineStart]
      | succ n =>
          rw [takeLines]
          split
          · next isNewline =>
              rw [isNewline, List.count_cons_self] at few
              exact atLineStart_cons (ih (by omega)) fun _ => isNewline
          · next other =>
              rw [List.count_cons_of_ne other] at few
              refine atLineStart_cons (ih few) fun none => ?_
              have count := count_takeLines (n + 1) rest
              rw [none, List.count_nil] at count
              omega

theorem le_count_of_dropLines {n : Nat} {text : Text} (more : dropLines n text ≠ []) :
    n ≤ text.count newline := by
  by_contra few
  exact more (SourceFile.dropLines_eq_nil (.inl (by omega)))

theorem atLineStart_of_cons {byte : UInt8} {before : Text} (start : AtLineStart (byte :: before)) :
    AtLineStart before := by
  intro last isLast
  exact start last (by rw [Option.mem_def, List.getLast?_cons, isLast]; rfl)

theorem takeLines_of_atLineStart {before : Text} (start : AtLineStart before) (after : Text) :
    takeLines (before.count newline) (before ++ after) = before := by
  induction before with
  | nil => exact takeLines_zero after
  | cons byte before ih =>
      have rest := ih (atLineStart_of_cons start)
      by_cases isNewline : byte = newline
      · subst isNewline
        rw [List.count_cons_self, List.cons_append, takeLines, if_pos rfl, rest]
      · rw [List.count_cons_of_ne isNewline]
        cases count : before.count newline with
        | zero =>
            obtain rfl := atLineStart_of_count (atLineStart_of_cons start) count
            exact absurd (start byte rfl) isNewline
        | succ n => rw [List.cons_append, takeLines, if_neg isNewline, ← count, rest]

end Text

namespace SourceFile

/-! In a file -/

theorem newlinesFrom_append (offset : Nat) (left right : Text) :
    newlinesFrom offset (left ++ right) =
      newlinesFrom offset left ++ newlinesFrom (offset + left.length) right := by
  induction left generalizing offset with
  | nil => rfl
  | cons byte left ih =>
      have shifted : offset + 1 + left.length = offset + (byte :: left).length := by
        rw [List.length_cons]
        omega
      rw [List.cons_append, newlinesFrom, newlinesFrom, ih, shifted]
      split <;> rfl

theorem newlinesFrom_of_single (offset : Nat) {line : Text} (single : newline ∉ line) :
    newlinesFrom offset line = [] := by
  rw [← List.length_eq_zero_iff, length_newlinesFrom, List.count_eq_zero.mpr single]

variable {file : SourceFile} {before line after : Text}

section

variable (small : file.content.length ≤ 0x100000000)

include small

theorem lt_lineCount (whole : WholeLine file.content before line after) (filled : line ≠ []) :
    before.count newline < file.lineCount := by
  rw [lineCount, newlines_eq small, length_newlinesFrom, whole.split]
  rcases atLineEnd_iff.mp whole.stop with rfl | ⟨back, rfl⟩
  · obtain ⟨front, last, rfl⟩ := (List.eq_nil_or_concat' line).resolve_left filled
    have other : last ≠ newline := fun same => whole.single (by simp [same])
    simp [other]
  · simp only [List.count_append, List.count_cons_self]
    omega

theorem lineStart_of_wholeLine (whole : WholeLine file.content before line after) :
    file.lineStart (before.count newline + 1) = before.length := by
  have few : before.count newline ≤ file.newlines.length := by
    rw [newlines_eq small, length_newlinesFrom, whole.split, List.append_assoc, List.count_append]
    exact Nat.le_add_right _ _
  rw [lineStart_of_le small (by omega) (by omega), whole.split, Int.add_sub_cancel,
    Int.toNat_natCast, List.append_assoc, takeLines_of_atLineStart whole.start]

theorem lineStop_of_wholeLine (whole : WholeLine file.content before line after) :
    file.lineStop (before.count newline + 1) = before.length + line.length := by
  have behind : newlinesFrom 0 file.content = newlinesFrom 0 before ++
      newlinesFrom (before.length + line.length) after := by
    rw [whole.split, List.append_assoc, newlinesFrom_append, newlinesFrom_append,
      newlinesFrom_of_single _ whole.single, List.nil_append, Nat.zero_add]
  rw [lineStop, newlines_eq small, behind, Int.add_sub_cancel, Int.toNat_natCast,
    List.getElem?_append_right (by rw [length_newlinesFrom]), length_newlinesFrom, Nat.sub_self]
  rcases atLineEnd_iff.mp whole.stop with rfl | ⟨back, rfl⟩
  · rw [whole.split]
    simp [newlinesFrom]
  · simp [newlinesFrom]

theorem line_of_wholeLine (whole : WholeLine file.content before line after)
    (counted : before.count newline < file.lineCount) :
    file.line (before.count newline + 1) = line := by
  rw [SourceFile.line, if_neg (by simp; omega), slice, lineStart_of_wholeLine small whole,
    lineStop_of_wholeLine small whole, whole.split, ← List.length_append, List.take_left,
    List.drop_left]

end

/-! The spans of its lines -/

theorem lineStart_add_length_le (file : SourceFile) (number : Int) :
    file.lineStart number + (file.line number).length ≤ file.content.length := by
  have start := file.lineStart_le number
  rw [line]
  split
  · exact start
  · rw [slice, List.length_drop, List.length_take]
    omega

/-- A span that stands for no place, or lies in the content of a file. -/
def Contains (file : SourceFile) (span : Span) : Prop :=
  span.start = 0 ∧ span.stop = 0 ∨
    span.file = file.id ∧ span.start ≤ span.stop ∧ span.stop.toNat ≤ file.content.length

theorem contains_of_le {start stop : Nat} (ordered : start ≤ stop)
    (inside : stop ≤ file.content.length) (small : stop < 0x100000000) :
    file.Contains ⟨file.id, start.toUInt32, stop.toUInt32⟩ := by
  refine .inr ⟨rfl, ?_, ?_⟩
  · rw [UInt32.le_iff_toNat_le, Nat.toUInt32_eq, Nat.toUInt32_eq, UInt32.toNat_ofNat_of_lt' small,
      UInt32.toNat_ofNat_of_lt' (Nat.lt_of_le_of_lt ordered small)]
    exact ordered
  · rw [Nat.toUInt32_eq, UInt32.toNat_ofNat_of_lt' small]
    exact inside

theorem contains_lineSpan (file : SourceFile) (number : Int) :
    file.Contains (file.lineSpan number) := by
  rw [lineSpan]
  split
  · next small =>
      exact contains_of_le (Nat.le_add_right _ _) (file.lineStart_add_length_le number) small
  · exact .inl ⟨rfl, rfl⟩

/-- A span that holds one whole line of a file, without its newline.  Lines are counted from 1. -/
structure SpansLine (file : SourceFile) (span : Span) (number : Nat) (line : Text) : Prop where
  here : span.file = file.id
  place : ∃ before after, WholeLine file.content before line after ∧
    number = before.count newline + 1 ∧ span.start.toNat = before.length ∧
      span.stop.toNat = before.length + line.length

theorem spansLine_lineSpan (whole : WholeLine file.content before line after) (filled : line ≠ [])
    (small : file.content.length < 0x100000000) :
    file.SpansLine (file.lineSpan (before.count newline + 1)) (before.count newline + 1) line := by
  have length : before.length + line.length ≤ file.content.length := by
    rw [whole.split, List.length_append, List.length_append]
    exact Nat.le_add_right _ _
  have span : file.lineSpan (before.count newline + 1) =
      ⟨file.id, before.length.toUInt32, (before.length + line.length).toUInt32⟩ := by
    rw [lineSpan, lineStart_of_wholeLine small.le whole,
      line_of_wholeLine small.le whole (lt_lineCount small.le whole filled)]
    exact if_pos (Nat.lt_of_le_of_lt length small)
  rw [span]
  refine ⟨rfl, before, after, whole, rfl, ?_, ?_⟩ <;>
    exact UInt32.toNat_ofNat_of_lt' (by show _ < 0x100000000; omega)

/-! In a selection -/

theorem length_takeLines_mono {n m : Nat} (le : n ≤ m) (text : Text) :
    (text.takeLines n).length ≤ (text.takeLines m).length := by
  induction text generalizing n m with
  | nil => cases n <;> exact Nat.zero_le _
  | cons byte rest ih =>
      cases n with
      | zero => exact Nat.zero_le _
      | succ n =>
          obtain ⟨m, rfl⟩ := Nat.exists_eq_add_of_le' (Nat.le_trans (Nat.succ_pos n) le)
          rw [takeLines, takeLines, List.length_cons, List.length_cons]
          split
          · exact Nat.succ_le_succ (ih (by omega))
          · exact Nat.succ_le_succ (ih le)

section

variable (small : file.content.length ≤ 0x100000000) {range : LineRange} {selection : Selection}

include small

theorem slice_of_select (selected : file.select range = .ok selection) :
    selection.start ≤ selection.stop ∧
      selection.block = file.slice selection.start selection.stop := by
  rw [select] at selected
  split at selected
  · cases selected
    exact ⟨Nat.zero_le _, by simp [slice]⟩
  · split at selected
    · cases selected
    · next inside =>
        split at selected
        · cases selected
        · next ordered =>
            cases selected
            simp only [Bool.or_eq_true, decide_eq_true_eq, not_or, Int.not_lt] at inside ordered
            refine ⟨?_, rfl⟩
            rw [lineStart_eq small inside.1 inside.2,
              lineEnd_eq small (Int.le_trans inside.1 ordered)]
            exact length_takeLines_mono (by omega) _

theorem content_of_select (selected : file.select range = .ok selection) :
    file.content = range.before file.content ++ selection.block ++ range.behind file.content := by
  obtain ⟨ordered, block⟩ := slice_of_select small selected
  have front : file.content.take selection.start =
      (file.content.take selection.stop).take selection.start := by
    rw [List.take_take, Nat.min_eq_left ordered]
  rw [← splice_of_select small selected, splice, block, slice, front, List.take_append_drop,
    List.take_append_drop]

theorem first_of_select (selected : file.select range = .ok selection) :
    AtLineStart (range.before file.content) ∧
      ((range.before file.content).count newline : Int) + 1 = max range.first 1 := by
  have few : (range.first - 1).toNat ≤ file.content.count newline := by
    have counted := file.lineCount_le
    rw [newlines_eq small, length_newlinesFrom] at counted
    rw [select] at selected
    split at selected
    · next zero =>
        simp only [LineRange.isZero, Bool.and_eq_true, beq_iff_eq] at zero
        omega
    · split at selected
      · cases selected
      · next inside =>
          simp only [Bool.or_eq_true, decide_eq_true_eq, not_or, Int.not_lt] at inside
          omega
  refine ⟨atLineStart_takeLines few, ?_⟩
  rw [LineRange.before, count_takeLines, Nat.min_eq_left few]
  omega

theorem takeLines_of_select (selected : file.select range = .ok selection) (bounded : range.last ≠ 0) :
    range.before file.content ++ selection.block = file.content.takeLines range.last.toNat := by
  have whole := content_of_select small selected
  rw [LineRange.behind, if_neg bounded] at whole
  exact List.append_cancel_right
    (whole.symm.trans (takeLines_append_dropLines range.last.toNat file.content).symm)

theorem ended_of_select (selected : file.select range = .ok selection)
    (more : range.behind file.content ≠ []) :
    AtLineStart (range.before file.content ++ selection.block) := by
  rw [LineRange.behind] at more
  split at more
  · exact absurd rfl more
  · next bounded =>
      rw [takeLines_of_select small selected bounded]
      exact atLineStart_takeLines (le_count_of_dropLines more)

omit small in
theorem lt_of_wholeLine_takeLines {m : Nat} {text : Text}
    (whole : WholeLine (takeLines m text) before line after) (filled : line ≠ []) :
    before.count newline < m := by
  have count := count_takeLines m text
  rcases atLineEnd_iff.mp whole.stop with rfl | ⟨back, rfl⟩
  · have open_ : ¬ m ≤ text.count newline := fun few =>
      whole.not_atLineStart filled (atLineStart_takeLines few)
    rw [whole.split, List.append_nil, List.count_append] at count
    omega
  · rw [whole.split, List.count_append, List.count_append, List.count_cons_self] at count
    omega

/-- A line of the selected block is a line of the file, and its number is selected. -/
theorem wholeLine_of_select (selected : file.select range = .ok selection) {number : Nat}
    (found : selection.block.lines[number]? = some line) (filled : line ≠ []) :
    ∃ before after, WholeLine file.content before line after ∧
      (before.count newline : Int) + 1 = max range.first 1 + number ∧
      (before.count newline : Int) + 1 ≤ file.lastLine range := by
  obtain ⟨start, first⟩ := first_of_select small selected
  obtain ⟨before, after, whole, count⟩ := wholeLine_of_getElem?_lines found
  have inFile := whole.within filled start (ended_of_select small selected)
  rw [← content_of_select small selected] at inFile
  refine ⟨_, _, inFile, by rw [List.count_append]; omega, ?_⟩
  rcases file.lastLine_eq_or range with ⟨last, bounded⟩ | ⟨last, -⟩
  · have inFront := whole.within filled start fun none : ([] : Text) ≠ [] => absurd rfl none
    rw [List.append_nil, takeLines_of_select small selected bounded] at inFront
    have counted := lt_of_wholeLine_takeLines inFront filled
    omega
  · have counted := lt_lineCount small inFile filled
    omega

theorem mem_lines_splice (selected : file.select range = .ok selection) {options : Options}
    (listed : line ∈ (Block.format options selection.block).lines) (filled : line ≠ []) :
    line ∈ (file.splice selection.start selection.stop
      (Block.format options selection.block)).lines := by
  obtain ⟨place, found⟩ := List.mem_iff_getElem?.mp listed
  obtain ⟨before, after, whole, -⟩ := wholeLine_of_getElem?_lines found
  have shown : selection.block ≠ [] := by
    intro none
    rw [none] at whole
    exact filled (List.append_eq_nil_iff.mp (List.append_eq_nil_iff.mp whole.split.symm).1).2
  rw [splice_of_select small selected]
  exact (whole.within filled (first_of_select small selected).1 fun more =>
    Block.atLineStart_format shown (ended_of_select small selected more)).mem_lines

end

end SourceFile

end HdlAlign
