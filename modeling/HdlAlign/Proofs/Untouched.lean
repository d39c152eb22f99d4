import HdlAlign.Audit
import HdlAlign.Proofs.Boundaries
import HdlAlign.Proofs.Indices

/-! Lines that are reported as left alone.  They stand in the output, whole and in order, but for
those that a port list shares with the end of its header or the beginning of its footer. -/

namespace HdlAlign.Text

theorem lines_of_single {line : Text} (single : newline ∉ line) : lines line = [line] := by
  have alone : unlines [line] = line := by simp [unlines, join]
  conv => lhs; rw [← alone]
  exact lines_unlines (by simp) fun piece member => by rwa [List.mem_singleton.mp member]

theorem sublist_lines_unlines (pieces : List Text) :
    (pieces.flatMap lines).Sublist (unlines pieces).lines := by
  induction pieces with
  | nil => exact List.nil_sublist _
  | cons piece pieces ih =>
      by_cases last : pieces = []
      · simp [last, unlines, join]
      · rw [unlines_cons last, lines_append_newline, List.flatMap_cons]
        exact ih.append_left _

theorem lines_append (left right : Text) :
    ∃ front last first back, lines left = front ++ [last] ∧ lines right = first :: back ∧
      lines (left ++ right) = front ++ (last ++ first) :: back := by
  induction left with
  | nil =>
      cases pieces : lines right with
      | nil => exact absurd pieces (splitOn_ne_nil _ _)
      | cons first back => exact ⟨[], [], first, back, rfl, rfl, pieces⟩
  | cons byte left ih =>
      obtain ⟨front, last, first, back, leftLines, rightLines, whole⟩ := ih
      rw [lines] at leftLines whole
      by_cases isNewline : byte = newline
      · refine ⟨[] :: front, last, first, back, ?_, rightLines, ?_⟩
        · rw [lines, splitOn, if_pos isNewline, leftLines, List.cons_append]
        · rw [List.cons_append, lines, splitOn, if_pos isNewline, whole, List.cons_append]
      · cases front with
        | nil =>
            refine ⟨[], byte :: last, first, back, ?_, rightLines, ?_⟩
            · rw [lines, splitOn, if_neg isNewline, leftLines]
              rfl
            · rw [List.cons_append, lines, splitOn, if_neg isNewline, whole]
              rfl
        | cons piece front =>
            refine ⟨(byte :: piece) :: front, last, first, back, ?_, rightLines, ?_⟩
            · rw [lines, splitOn, if_neg isNewline, leftLines]
              rfl
            · rw [List.cons_append, lines, splitOn, if_neg isNewline, whole]
              rfl

theorem getElem?_lines_append_left (left right : Text) {index : Nat}
    (before : index < left.count newline) :
    (lines (left ++ right))[index]? = (lines left)[index]? := by
  obtain ⟨front, last, first, back, leftLines, -, whole⟩ := lines_append left right
  have length := length_lines left
  rw [leftLines, List.length_append, List.length_singleton] at length
  rw [whole, leftLines, List.getElem?_append_left (by omega), List.getElem?_append_left (by omega)]

theorem getElem?_lines_append_right (left right : Text) {index : Nat} (behind : 0 < index) :
    (lines (left ++ right))[left.count newline + index]? = (lines right)[index]? := by
  obtain ⟨front, last, first, back, leftLines, rightLines, whole⟩ := lines_append left right
  have length := length_lines left
  rw [leftLines, List.length_append, List.length_singleton] at length
  obtain ⟨index, rfl⟩ := Nat.exists_eq_succ_of_ne_zero (Nat.ne_of_gt behind)
  have front : left.count newline = front.length := by omega
  rw [whole, rightLines, front, List.getElem?_append_right (Nat.le_add_right _ _),
    Nat.add_sub_cancel_left, List.getElem?_cons_succ, List.getElem?_cons_succ]

end HdlAlign.Text

namespace HdlAlign.Audit

open Text

/-- Looking for the lines one after the other, each at its first place, misses no way to find them
in order. -/
theorem cons_sublist_iff {line : Text} {lines output : List Text} :
    (line :: lines).Sublist output ↔
      ∃ behind, behind? line output = some behind ∧ lines.Sublist behind := by
  induction output with
  | nil => simp [behind?]
  | cons other output ih =>
      rw [behind?]
      split
      · next same =>
          subst same
          simp [List.cons_sublist_cons]
      · next differ =>
          rw [← ih, List.cons_sublist_cons', or_iff_left fun both => differ both.1.symm]

theorem inOrder_eq_none_iff {lines output : List Text} {indexes : List Int} :
    inOrder lines indexes output = none ↔
      (∀ index ∈ indexes, 0 ≤ index ∧ index < lines.length) ∧
        (indexes.map fun index => lines.getD index.toNat []).Sublist output := by
  induction indexes generalizing output with
  | nil => simp [inOrder]
  | cons index indexes ih =>
      rw [inOrder, List.forall_mem_cons, List.map_cons, cons_sublist_iff]
      split
      · next outside =>
          simp only [Bool.or_eq_true, decide_eq_true_eq] at outside
          have excluded : ¬(0 ≤ index ∧ index < lines.length) := by omega
          simp [excluded]
      · next inside =>
          simp only [Bool.or_eq_true, decide_eq_true_eq] at inside
          have within : 0 ≤ index ∧ index < lines.length := by omega
          dsimp only
          cases behind? (lines.getD index.toNat []) output with
          | none => simp
          | some behind => simp [ih, within]

theorem linesOf_eq (text : Text) : linesOf text = (Block.splitFinalNewline text).1.lines := by
  rw [linesOf, trimTail, Block.splitFinalNewline]
  cases dropTail? [newline] text <;> rfl

theorem sublist_linesOf {lines : List Text} {text : Text} (some : [] ∉ lines)
    (found : lines.Sublist text.lines) : lines.Sublist (linesOf text) := by
  rw [linesOf, trimTail]
  cases dropped : dropTail? [newline] text with
  | none => exact found
  | some body =>
      have whole : text.lines = body.lines ++ [[]] := by
        rw [Assignment.dropTail?_eq_some_iff.mp dropped, lines_append_newline]
        rfl
      rw [whole] at found
      obtain ⟨front, back, rfl, inBody, inLast⟩ := List.sublist_append_iff.mp found
      have none : back = [] := by
        rcases List.sublist_singleton.mp inLast with none | empty
        · exact none
        · exact absurd (by simp [empty]) some
      rwa [none, List.append_nil]

end HdlAlign.Audit

namespace HdlAlign

open Text Audit

theorem Line.withField_eq_verbatim_iff {line : Line} {column : Nat} {value text : Text}
    {source : Int} :
    line.withField column value = .verbatim text source ↔ line = .verbatim text source := by
  cases line <;> simp [Line.withField]

theorem Ports.verbatim_mem_placeCommas {endOfLine : Bool} {lines : List Line} {text : Text}
    {source : Int} (member : .verbatim text source ∈ placeCommas endOfLine lines) :
    .verbatim text source ∈ lines := by
  have behind (lines : List Line) (member : .verbatim text source ∈ commasBehind lines) :
      .verbatim text source ∈ lines := by
    induction lines with
    | nil => exact member
    | cons line lines ih =>
        rw [commasBehind] at member
        rcases List.mem_cons.mp member with same | later
        · split at same
          · simp [Line.withField_eq_verbatim_iff.mp same.symm]
          · simp [same]
        · exact List.mem_cons_of_mem _ (ih later)
  have before (seen : Bool) (lines : List Line)
      (member : .verbatim text source ∈ commasBefore seen lines) :
      .verbatim text source ∈ lines := by
    induction lines generalizing seen with
    | nil => exact member
    | cons line lines ih =>
        rw [commasBefore] at member
        rcases List.mem_cons.mp member with same | later
        · split at same
          · simp [Line.withField_eq_verbatim_iff.mp same.symm]
          · simp [same]
        · exact List.mem_cons_of_mem _ (ih _ later)
  rw [placeCommas] at member
  split at member
  · exact behind lines member
  · exact before false lines member

/-- Of the lines that are passed through, the texts of some stand in their order in the output, as
the input has them under the numbers that are reported. -/
theorem sublist_untouched {lines : List Line} {input : List Text} {whole : Int → Bool}
    (single : ∀ line ∈ input, newline ∉ line)
    (numbered : ∀ text source, .verbatim text source ∈ lines → text ≠ [] → whole source →
      ∃ index : Nat, source = index ∧ input[index]? = some text) (anchors : List Nat)
    (indent : Text) :
    (((untouched lines).filter whole).map fun index => input.getD index.toNat []).Sublist
      (lines.flatMap fun line => (line.render anchors indent).lines) := by
  induction lines with
  | nil => exact .slnil
  | cons line lines ih =>
      have later := ih fun text source member =>
        numbered text source (List.mem_cons_of_mem _ member)
      rw [List.flatMap_cons]
      cases line with
      | aligned fields source => exact later.trans (List.sublist_append_right _ _)
      | verbatim text source =>
          by_cases reported : text ≠ [] ∧ whole source
          · obtain ⟨index, rfl, found⟩ := numbered text source (by simp) reported.1 reported.2
            have alone := lines_of_single (single text (List.mem_of_getElem? found))
            have kept : (untouched (.verbatim text index :: lines)).filter whole =
                (index : Int) :: (untouched lines).filter whole := by
              simp [untouched, reported.1, reported.2]
            rw [kept, List.map_cons, Int.toNat_natCast, List.getD_eq_getElem?_getD, found,
              Option.getD_some, Line.render, alone]
            exact later.cons_cons _
          · have dropped : (untouched (.verbatim text source :: lines)).filter whole =
                (untouched lines).filter whole := by
              by_cases none : text = []
              · simp [untouched, none]
              · simp [untouched, none, show whole source = false by simpa [none] using reported]
            rw [dropped]
            exact later.trans (List.sublist_append_right _ _)

theorem inOrder_untouched (lines : List Line) {input : List Text} {whole : Int → Bool}
    (single : ∀ line ∈ input, newline ∉ line)
    (numbered : ∀ text source, .verbatim text source ∈ lines → text ≠ [] → whole source →
      ∃ index : Nat, source = index ∧ input[index]? = some text) {anchors : List Nat}
    {indent output : Text}
    (printed : (lines.flatMap fun line => (line.render anchors indent).lines).Sublist
      output.lines) :
    inOrder input ((untouched lines).filter whole) (linesOf output) = none := by
  have read : ∀ source ∈ (untouched lines).filter whole,
      ∃ index : Nat, source = index ∧ ∃ text ≠ [], input[index]? = some text := by
    intro source member
    obtain ⟨reported, isWhole⟩ := List.mem_filter.mp member
    obtain ⟨line, listed, found⟩ := List.mem_filterMap.mp reported
    cases line with
    | aligned fields other => cases found
    | verbatim text other =>
        have some : text ≠ [] := fun none => by simp [none] at found
        obtain rfl : other = source := by simpa [some] using found
        obtain ⟨index, same, inInput⟩ := numbered text other listed some isWhole
        exact ⟨index, same, text, some, inInput⟩
  rw [inOrder_eq_none_iff]
  refine ⟨fun source member => ?_, sublist_linesOf ?_ ?_⟩
  · obtain ⟨index, rfl, text, -, found⟩ := read source member
    obtain ⟨bound, -⟩ := List.getElem?_eq_some_iff.mp found
    omega
  · intro member
    obtain ⟨source, listed, empty⟩ := List.mem_map.mp member
    obtain ⟨index, rfl, text, some, found⟩ := read source listed
    rw [Int.toNat_natCast, List.getD_eq_getElem?_getD, found, Option.getD_some] at empty
    exact some empty
  · exact (sublist_untouched single numbered anchors indent).trans printed

namespace Block

open Statement

def Frame.isEdge (frame : Frame) (index : Int) : Bool :=
  index = frame.header.count newline ||
    (!frame.footer.isEmpty && index = (frame.header ++ frame.body).count newline)

/-- Whether a line of a text is the one on which the header of a port list ends, or its footer
begins.  A line of the list can share it. -/
def isEdge (text : Text) (index : Int) : Bool :=
  (frame? (splitFinalNewline text).1).any fun frame => frame.isEdge index

theorem getElem?_lines_list {text : Text} {frame : Frame} (found : frame? text = some frame)
    {line : Text} {index : Nat} (listed : (line, index) ∈ frame.list.lines.zipIdx frame.firstLine)
    (inside : frame.isEdge index = false) : text.lines[index]? = some line := by
  obtain ⟨whole, -, -⟩ := frame?_split found
  obtain ⟨counted, -⟩ := lines_list frame
  obtain ⟨first, read⟩ := List.mk_mem_zipIdx_iff_le_and_getElem?_sub.mp listed
  obtain ⟨offset, rfl⟩ := Nat.exists_eq_add_of_le first
  rw [Nat.add_sub_cancel_left] at read
  simp only [Frame.isEdge, List.count_append, Bool.or_eq_false_iff, Bool.and_eq_false_iff,
    Bool.not_eq_false', List.isEmpty_iff, decide_eq_false_iff_not] at inside
  have withFooter : (frame.list ++ frame.footer).lines[offset]? = some line := by
    obtain ⟨bound, -⟩ := List.getElem?_eq_some_iff.mp read
    rw [length_lines] at bound
    by_cases last : offset < frame.list.count newline
    · rw [getElem?_lines_append_left _ _ last, read]
    · have none : frame.footer = [] := inside.2.resolve_right (by omega)
      rw [none, List.append_nil, read]
  rcases body_cases frame with ⟨body, begins⟩ | ⟨body, begins⟩
  · have split : text = frame.header ++ newline :: (frame.list ++ frame.footer) := by
      rw [whole, body, List.cons_append]
    have length : frame.header.lines.length = frame.firstLine := by rw [length_lines, begins]
    rw [split, lines_append_newline, ← length, List.getElem?_append_right (Nat.le_add_right _ _),
      Nat.add_sub_cancel_left, withFooter]
  · have behind : 0 < offset := by
      have other := inside.1
      omega
    rw [whole, body, begins, getElem?_lines_append_right _ _ behind, withFooter]

theorem verbatim_mem_laidOutPorts {options : Options} {frame : Frame} {text : Text} {source : Int}
    (member : .verbatim text source ∈ laidOutPorts options frame) (shown : text ≠ []) :
    ∃ index : Nat, source = index ∧ (text, index) ∈ frame.list.lines.zipIdx frame.firstLine := by
  obtain ⟨old, listed, laid⟩ := List.mem_map.mp (Ports.verbatim_mem_placeCommas member)
  have passed : old = .verbatim text source := by
    have alike := Range.layoutLine_alike Port.vectorColumn listed
    rw [laid] at alike
    cases alike
    rfl
  obtain ⟨entry, read, same⟩ := List.mem_map.mp (trimEmptyLines_subset _ listed)
  obtain ⟨⟨line, index⟩, inList, rfl⟩ := List.mem_map.mp (List.mem_filter.mp read).1
  rw [passed] at same
  have reading := classifyPort_reading index line
  dsimp only at same
  rw [same] at reading
  split at reading
  · cases reading
  · cases reading
    exact ⟨index, rfl, inList⟩
  · cases reading
    exact absurd rfl shown

theorem verbatim_mem_alignDeclarationColumns {options : Options} {text line : Text} {source : Int}
    (member : .verbatim line source ∈ alignDeclarationColumns (declarationLines options text))
    (shown : line ≠ []) : ∃ index : Nat, source = index ∧ text.lines[index]? = some line := by
  obtain ⟨old, listed, alike⟩ := Line.exists_of_forall₂_left (columns_alike options text) member
  obtain ⟨entry, read, same⟩ := List.mem_map.mp listed
  obtain ⟨⟨input, index⟩, inText, rfl⟩ := List.mem_map.mp (List.mem_filter.mp read).1
  dsimp only at same
  cases alike
  rcases classify_cases input index with ⟨-, -, reading⟩ | ⟨-, -, reading⟩ | ⟨-, -, -, reading⟩
  · rw [reading] at same
    cases same
    exact absurd rfl shown
  · rw [reading] at same
    cases same
    exact ⟨index, rfl, List.mk_mem_zipIdx_iff_getElem?.mp inText⟩
  · rw [reading] at same
    cases same

theorem alignPorts_printed (options : Options) (frame : Frame) :
    ((laidOutPorts options frame).flatMap fun line =>
      (line.render (Batch.anchors (laidOutPorts options frame)) portIndent).lines).Sublist
        (alignPorts options frame).text.lines := by
  rw [alignPorts_text, portParts_unlines]
  refine List.Sublist.trans ?_ (sublist_lines_unlines _)
  rw [List.flatMap_append, List.flatMap_append, List.flatMap_map]
  exact (List.sublist_append_right _ _).trans (List.sublist_append_left _ _)

theorem alignDeclarations_printedLines (options : Options) (text : Text) :
    ((alignDeclarationColumns (declarationLines options text)).flatMap fun line =>
      (line.render (Batch.anchors (alignDeclarationColumns (declarationLines options text)))
        (declarationIndent text)).lines).Sublist (alignDeclarations options text).text.lines := by
  rw [← List.flatMap_map (f := fun line : Line => line.render _ _)]
  exact sublist_lines_unlines _

theorem sublist_lines_final {lines : List Text} {output : Text} (text : Text)
    (found : lines.Sublist output.lines) :
    lines.Sublist (output ++ (splitFinalNewline text).2).lines := by
  rcases splitFinalNewline_final text with none | newline
  · rwa [none, List.append_nil]
  · rw [newline, lines_append_newline]
    exact found.trans (List.sublist_append_left _ _)

theorem inOrder_align (options : Options) (text : Text) :
    inOrder (linesOf text) ((align options text).verbatim.filter fun index => !isEdge text index)
      (linesOf (align options text).text) = none := by
  rw [linesOf_eq text]
  have single : ∀ line ∈ (splitFinalNewline text).1.lines, newline ∉ line :=
    fun line member => single_of_mem_lines member
  unfold align
  dsimp only
  cases isBlank (splitFinalNewline text).1 with
  | true => rfl
  | false =>
      rw [if_neg Bool.false_ne_true, alignBody]
      cases found : frame? (splitFinalNewline text).1 with
      | some frame =>
          refine inOrder_untouched (laidOutPorts options frame) single ?_
            (sublist_lines_final text (alignPorts_printed options frame))
          intro line source member shown inside
          obtain ⟨index, rfl, listed⟩ := verbatim_mem_laidOutPorts member shown
          have within : frame.isEdge index = false := by simpa [isEdge, found] using inside
          exact ⟨index, rfl, getElem?_lines_list found listed within⟩
      | none =>
          refine inOrder_untouched (alignDeclarationColumns _) single ?_
            (sublist_lines_final text (alignDeclarations_printedLines options _))
          intro line source member shown _
          exact verbatim_mem_alignDeclarationColumns member shown

theorem untouched_ne_none {options : Options} {text : Text} {index : Int}
    (reported : index ∈ (align options text).verbatim)
    (missing : (linesOf text).getD index.toNat [] ∉ linesOf (align options text).text) :
    Audit.untouched text (align options text) ≠ none := by
  intro passed
  have found := (inOrder_eq_none_iff.mp passed).2
  exact missing (found.subset (List.mem_map_of_mem reported))

/-- Every line that is reported as left alone, but for those at the edges of a port list, stands in
the output, whole and in order.  A reported line at an edge is one that the list only has a part of,
so unless its text turns up elsewhere, all reported lines are left alone exactly if none is at an
edge. -/
theorem untouched_align (options : Options) (text : Text) :
    inOrder (linesOf text) ((align options text).verbatim.filter fun index => !isEdge text index)
        (linesOf (align options text).text) = none ∧
      ((∀ index ∈ (align options text).verbatim, isEdge text index →
          (linesOf text).getD index.toNat [] ∉ linesOf (align options text).text) →
        (Audit.untouched text (align options text) = none ↔
          ∀ index ∈ (align options text).verbatim, isEdge text index = false)) := by
  refine ⟨inOrder_align options text, fun torn => ⟨fun passed index reported => ?_,
    fun inside => ?_⟩⟩
  · rw [← Bool.not_eq_true]
    exact fun edge => untouched_ne_none reported (torn index reported edge) passed
  · have all : (align options text).verbatim.filter (fun index => !isEdge text index) =
        (align options text).verbatim :=
      List.filter_eq_self.mpr fun index reported => by rw [inside index reported]; rfl
    have passed := inOrder_align options text
    rwa [all] at passed

theorem untouched_align_shared :
    (∀ index ∈ (align {} (ofString "module m (axi.s b,\x0Ainput c,\x0Aaxi.m d\x0A);")).verbatim,
        isEdge (ofString "module m (axi.s b,\x0Ainput c,\x0Aaxi.m d\x0A);") index →
        (linesOf (ofString "module m (axi.s b,\x0Ainput c,\x0Aaxi.m d\x0A);")).getD index.toNat [] ∉
          linesOf (align {} (ofString "module m (axi.s b,\x0Ainput c,\x0Aaxi.m d\x0A);")).text) ∧
      (Audit.untouched (ofString "module m (axi.s b,\x0Ainput c,\x0Aaxi.m d\x0A);")
          (align {} (ofString "module m (axi.s b,\x0Ainput c,\x0Aaxi.m d\x0A);")) = none ↔
        ∀ index ∈ (align {} (ofString "module m (axi.s b,\x0Ainput c,\x0Aaxi.m d\x0A);")).verbatim,
          isEdge (ofString "module m (axi.s b,\x0Ainput c,\x0Aaxi.m d\x0A);") index = false) :=
  have torn : ∀ index ∈
      (align {} (ofString "module m (axi.s b,\x0Ainput c,\x0Aaxi.m d\x0A);")).verbatim,
      isEdge (ofString "module m (axi.s b,\x0Ainput c,\x0Aaxi.m d\x0A);") index →
      (linesOf (ofString "module m (axi.s b,\x0Ainput c,\x0Aaxi.m d\x0A);")).getD index.toNat [] ∉
        linesOf (align {} (ofString "module m (axi.s b,\x0Ainput c,\x0Aaxi.m d\x0A);")).text := by
    decide +kernel
  ⟨torn, (untouched_align {} _).2 torn⟩

/-- The header's line holds more than what is left alone of it, which gets a line of its own. -/
theorem untouched_line_missing :
    (align {} (ofString "module m (foo bar\x0A);")).text = ofString "module m (\x0Afoo bar\x0A);" ∧
      (align {} (ofString "module m (foo bar\x0A);")).verbatim = [0] ∧
      Audit.untouched (ofString "module m (foo bar\x0A);")
          (align {} (ofString "module m (foo bar\x0A);")) =
        some (.missingLine 1 (ofString "module m (foo bar")) := by
  decide +kernel

end Block

end HdlAlign
