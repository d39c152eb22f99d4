import HdlAlign.Proofs.Justified
import HdlAlign.Proofs.Spacing

/-! Lining up a column of assignments pads their parts and changes nothing else.  What was lined up
is read as the same assignments, so lining it up again has no effect. -/

namespace HdlAlign.Text

open Utf8

theorem whiteUnit_of_mem_scalars {text : Text} : ∀ scalar ∈ scalars text,
    isWhiteChar scalar.char → WhiteUnit scalar.bytes := by
  induction text using sequence_induction with
  | nil => exact fun scalar member => by cases member
  | whole text first tail found ih =>
      rw [scalars_of_sequence? found]
      exact List.forall_mem_cons.mpr ⟨whiteUnit_of_sequence? found, ih⟩
  | loose a rest absent ih =>
      rw [scalars_of_no_sequence absent]
      refine List.forall_mem_cons.mpr ⟨fun white => ?_, ih⟩
      exact absurd (show isWhiteChar replacement = true from white) (by decide)

theorem last_of_solid {text : Text} (trimmed : trimEnd text = text) {scalar : Scalar}
    (last : (solid text).getLast? = some scalar) : ∃ front, text = front ++ scalar.bytes := by
  rcases List.eq_nil_or_concat (scalars text) with none | ⟨before, final, split⟩
  · simp [solid, none] at last
  · rw [List.concat_eq_append] at split
    have whole : text = before.flatMap Scalar.bytes ++ final.bytes := by
      conv => lhs; rw [← flatMap_bytes_scalars text, split]
      simp
    have visible : isWhiteChar final.char = false := by
      rw [← Bool.not_eq_true]
      intro white
      have unit := whiteUnit_of_mem_scalars final (by rw [split]; simp) white
      have shorter : (trimEnd text).length ≤ (before.flatMap Scalar.bytes).length := by
        rw [whole, unit.trimEnd_append]
        obtain ⟨cut, -, same⟩ := trimEnd_split (before.flatMap Scalar.bytes)
        conv => rhs; rw [same]
        simp
      have some : 0 < final.bytes.length := by
        generalize final.bytes = bytes at unit
        cases unit <;> simp
      rw [trimmed, whole, List.length_append] at shorter
      omega
    have same : final = scalar := by simpa [solid, split, visible] using last
    exact ⟨_, same ▸ whole⟩

end HdlAlign.Text

namespace HdlAlign.Assignment

open Text

/-! What is written for an assignment is read as the same assignment. -/

theorem splitTerminator_of_trim_eq {first second : Text} (same : trim first = trim second) :
    splitTerminator first = splitTerminator second := by
  rw [splitTerminator, splitTerminator, same]

theorem splitTerminator_terminated {field body : Text} (ends : trim field = body ++ terminator) :
    splitTerminator field = (true, trim body) := by
  rw [splitTerminator, show dropTail? (ofString ";") (trim field) = some body from
    dropTail?_eq_some_iff.mpr ends]

theorem splitTerminator_eq_false_iff {field rest : Text} :
    splitTerminator field = (false, rest) ↔
      rest = trim field ∧ ∀ body, trim field ≠ body ++ terminator := by
  rw [splitTerminator]
  cases dropped : dropTail? (ofString ";") (trim field) with
  | none =>
      refine ⟨fun same => ⟨(Prod.mk.inj same).2.symm, fun body ends => ?_⟩, fun h => by rw [h.1]⟩
      cases dropped.symm.trans (dropTail?_eq_some_iff.mpr ends)
  | some body =>
      exact iff_of_false (fun same => Bool.noConfusion (Prod.mk.inj same).1)
        fun h => h.2 body (dropTail?_eq_some_iff.mp dropped)

theorem parse?_of_split {field op rest : Text} {terminated : Bool} (member : op ∈ operators)
    (split : splitTerminator field = (terminated, op ++ rest)) :
    parse? field = some ⟨op, spaceOperators rest, terminated⟩ :=
  parse?_eq_some_iff.mpr ⟨op, rest, by rw [split, operator?_append op member], by rw [split]⟩

theorem last_of_mem_operators : ∀ op ∈ operators, op.getLast? = some ('=' : UInt8) := by decide

theorem trimStart_operator {op : Text} (member : op ∈ operators) (rest : Text) :
    trimStart (op ++ rest) = op ++ rest := by
  have last := last_of_mem_operators op member
  cases op with
  | nil => cases last
  | cons byte more =>
      have black := (black_of_mem_operators _ member byte (by simp)).1
      rw [isBlack, Bool.and_eq_true, Bool.not_eq_true'] at black
      exact trimStart_of_isAscii black.1 black.2 _

theorem trimEnd_operator {op : Text} (member : op ∈ operators) : trimEnd op = op := by
  obtain ⟨front, rfl⟩ := List.getLast?_eq_some_iff.mp (last_of_mem_operators op member)
  exact trimEnd_of_isAscii rfl rfl front

theorem exists_trim_operator {op value : Text} (member : op ∈ operators)
    (trimmed : trim value = value) {before behind : Text} (whiteBefore : White before)
    (whiteBehind : White behind) :
    ∃ rest, trim (before ++ (op ++ blank :: value) ++ behind) = op ++ rest ∧
      spaceOperators rest = spaceOperators value ∧ (rest = [] ∨ trimEnd value = value ∧ value ≠ [] ∧
        rest = blank :: value) := by
  rw [whiteBehind.trim_append_right, whiteBefore.trim_append_left, trim, trimStart_operator member]
  by_cases none : value = []
  · refine ⟨[], ?_, by rw [none], .inl rfl⟩
    rw [none, white_blank.trimEnd_append, trimEnd_operator member, List.append_nil]
  · have ends : trimEnd value = value := by rw [← trimmed, trimEnd_trim]
    refine ⟨blank :: value, trimEnd_append_cons rfl none ends op, ?_, .inr ⟨ends, none, rfl⟩⟩
    rw [← spaceOperators_trim, trim_cons_blank, spaceOperators_trim]

theorem getLast?_append_terminator (text : Text) :
    (text ++ terminator).getLast? = some (';' : UInt8) :=
  List.getLast?_concat

theorem last_spaceOperators {op rest : Text} (member : op ∈ operators)
    (trimmed : trimEnd (op ++ rest) = op ++ rest)
    (closed : ∀ body, op ++ rest ≠ body ++ terminator) :
    (spaceOperators rest).getLast? ≠ some (';' : UInt8) := by
  intro last
  obtain ⟨front, ends⟩ := List.getLast?_eq_some_iff.mp last
  have visible : (solid terminator).getLast? = some ⟨';', terminator⟩ := by decide
  have shown : (solid (op ++ rest)).getLast? = some ⟨';', terminator⟩ := by
    rw [solid_append (operator_seam member rest), ← solid_spaceOperators rest,
      show spaceOperators rest = front ++ terminator from ends, solid_append_terminator,
      List.getLast?_append, List.getLast?_append, visible]
    rfl
  obtain ⟨body, same⟩ := last_of_solid trimmed shown
  exact closed body same

theorem trim_render_terminated {op value : Text} (member : op ∈ operators) (widths : Widths) :
    trim (render ⟨op, value, true⟩ widths) =
      op ++ blank :: value.padRight (widths.value + 1) ++ terminator := by
  have split : render ⟨op, value, true⟩ widths = blanks (widths.operator - op.width) ++
      (op ++ blank :: value.padRight (widths.value + 1) ++ terminator) := by
    simp [render, padLeft]
  rw [split, (White.blanks _).trim_append_left, trim, List.append_assoc, trimStart_operator member,
    ← List.append_assoc]
  exact trimEnd_of_isAscii rfl rfl _

theorem parse?_render {field : Text} {value : Assignment} (read : parse? field = some value)
    (widths : Widths) : parse? (render value widths) = some value := by
  obtain ⟨op, rest, found, rfl⟩ := parse?_eq_some_iff.mp read
  obtain ⟨member, split⟩ := operator?_eq_some_iff.mp found
  have trimmed : trim (spaceOperators rest) = spaceOperators rest := trim_trim _
  cases terminated : (splitTerminator field).1 with
  | true =>
      obtain ⟨behind, same, spaced, -⟩ := exists_trim_operator member trimmed .nil
        (.blanks (widths.value + 1 - (spaceOperators rest).width))
      have body : trim (op ++ blank :: (spaceOperators rest).padRight (widths.value + 1)) =
          op ++ behind := by
        simpa [padRight] using same
      have cut := splitTerminator_terminated
        (@trim_render_terminated op (spaceOperators rest) member widths)
      rw [parse?_of_split member (cut.trans (by rw [body])), spaced, spaceOperators_spaceOperators]
  | false =>
      obtain ⟨behind, same, spaced, shape⟩ := exists_trim_operator member trimmed
        (.blanks (widths.operator - op.width)) .nil
      have whole : trim (render ⟨op, spaceOperators rest, false⟩ widths) = op ++ behind := by
        rw [← same, render, padLeft]
        simp
      obtain ⟨fieldEq, closed⟩ := splitTerminator_eq_false_iff.mp (Prod.ext terminated split)
      have last := last_spaceOperators member (by rw [fieldEq, trimEnd_trim]) (by rwa [fieldEq])
      have open_ : ∀ body, op ++ behind ≠ body ++ terminator := by
        intro body ends
        have lasts := congrArg List.getLast? ends
        rw [getLast?_append_terminator] at lasts
        rcases shape with rfl | ⟨-, some, rfl⟩
        · rw [List.append_nil, last_of_mem_operators op member] at lasts
          cases lasts
        · rw [List.append_cons, List.getLast?_append_of_ne_nil _ some] at lasts
          exact last lasts
      have cut := splitTerminator_eq_false_iff.mpr ⟨whole.symm, by rwa [whole]⟩
      rw [parse?_of_split member cut, spaced, spaceOperators_spaceOperators]

/-! Laying out a field changes none of what it holds. -/

theorem mem_trim {byte : UInt8} (ascii : isAscii byte) (black : isWhite1 byte = false) (text : Text) :
    byte ∈ trim text ↔ byte ∈ text :=
  mem_iff_of_solid_eq ascii black (solid_trim text)

theorem cell_of_trim_eq {field : Text} (alone : trim field = terminator) :
    cell field = .terminator := by
  have noEquals : ('=' : UInt8) ∉ field := by
    rw [← mem_trim rfl rfl, alone]
    decide
  rw [cell, if_neg (by simpa using noEquals), @splitTerminator_terminated field [] alone]
  rfl

theorem cell_renderTerminator (anyAssignment : Bool) (widths : Widths) :
    cell (renderTerminator anyAssignment widths) = .terminator := by
  refine cell_of_trim_eq ?_
  rw [renderTerminator_eq, List.append_nil, (White.blanks _).trim_append_left]
  exact trimEnd_of_isAscii rfl rfl []

theorem cell_layoutField (anyAssignment : Bool) (widths : Widths) (field : Text) :
    cell (layoutField anyAssignment widths field) = cell field := by
  cases found : cell field with
  | assignment value =>
      rw [layoutField, found]
      exact cell_of_parse? (parse?_render (cell_eq_assignment found) widths)
  | terminator =>
      rw [layoutField, found]
      exact cell_renderTerminator anyAssignment widths
  | foreign => rw [layoutField, found, found]
  | nothing =>
      rw [layoutField, found]
      rfl

theorem layoutField_layoutField (anyAssignment : Bool) (widths : Widths) (field : Text) :
    layoutField anyAssignment widths (layoutField anyAssignment widths field) =
      layoutField anyAssignment widths field := by
  conv_lhs => rw [layoutField, cell_layoutField]
  rw [layoutField]
  cases cell field <;> rfl

/-! Lining up a second time. -/

section

variable (column : Nat) (anyAssignment : Bool) (widths : Widths) (line : Line)

theorem isAligned_layoutLine :
    (layoutLine column anyAssignment widths line).isAligned = line.isAligned := by
  cases line <;> rfl

theorem reaches_layoutLine :
    (layoutLine column anyAssignment widths line).reaches column = line.reaches column := by
  cases line with
  | verbatim text source => rfl
  | aligned fields source => simp [layoutLine, Line.withField, Line.reaches]

theorem field_layoutLine : (layoutLine column anyAssignment widths line).field column =
    if line.reaches column ∧ line.isAligned then layoutField anyAssignment widths (line.field column)
    else line.field column := by
  cases line with
  | verbatim text source => rfl
  | aligned fields source =>
      by_cases inside : column < fields.length
      · simp [layoutLine, Line.withField, Line.field, Line.reaches, Line.isAligned, inside]
      · simp [layoutLine, Line.withField, Line.field, Line.reaches, inside]

theorem cell_field_layoutLine :
    cell ((layoutLine column anyAssignment widths line).field column) = cell (line.field column) := by
  rw [field_layoutLine]
  split
  · exact cell_layoutField anyAssignment widths _
  · rfl

theorem layoutLine_layoutLine :
    layoutLine column anyAssignment widths (layoutLine column anyAssignment widths line) =
      layoutLine column anyAssignment widths line := by
  have same : layoutField anyAssignment widths
      ((layoutLine column anyAssignment widths line).field column) =
        layoutField anyAssignment widths (line.field column) := by
    rw [field_layoutLine]
    split
    · exact layoutField_layoutField anyAssignment widths _
    · rfl
  conv_lhs => rw [layoutLine, same, layoutLine]
  exact line.withField_withField column _ _

end

section

variable (column : Nat) (lines : List Line)

theorem assignments_alignColumn_self :
    assignments column (alignColumn column lines) = assignments column lines := by
  rw [assignments, assignments, alignColumn, List.filterMap_map]
  refine List.filterMap_congr fun line _ => ?_
  rw [Function.comp, isAligned_layoutLine, cell_field_layoutLine]

theorem alignColumn_alignColumn :
    alignColumn column (alignColumn column lines) = alignColumn column lines := by
  have widths := assignments_alignColumn_self column lines
  conv_lhs => rw [alignColumn, widths, alignColumn, List.map_map]
  exact List.map_congr_left fun line _ => layoutLine_layoutLine column _ _ line

end

/-- What a field of the column may hold: nothing, a terminator alone, or an operator in front. -/
inductive Holds (field : Text) : Prop
  | nothing (blank : isBlank field)
  | terminator (alone : trim field = terminator)
  | operator (begins : (operator? (trim field)).isSome)

theorem cell_of_isBlank {field : Text} (blank : isBlank field) : cell field = .nothing := by
  have none : trim field = [] := List.isEmpty_iff.mp blank
  have noEquals : ('=' : UInt8) ∉ field := by
    rw [← mem_trim rfl rfl, none]
    exact List.not_mem_nil
  have closed : splitTerminator field = (false, []) :=
    splitTerminator_eq_false_iff.mpr ⟨none.symm, fun body ends => by
      rw [none] at ends
      exact absurd ends.symm (List.append_ne_nil_of_right_ne_nil body (by decide))⟩
  rw [cell, if_neg (by simpa using noEquals), closed]
  rfl

theorem exists_parse? {field : Text} (begins : (operator? (trim field)).isSome) :
    ∃ value, parse? field = some value := by
  obtain ⟨⟨op, rest⟩, found⟩ := Option.isSome_iff_exists.mp begins
  obtain ⟨member, split⟩ := operator?_eq_some_iff.mp found
  obtain ⟨value, read, -⟩ := cell_of_operator member ⟨rest, split.symm⟩
  refine ⟨value, ?_⟩
  rw [← read, parse?, parse?, splitTerminator_of_trim_eq (trim_trim field)]

/-- A line before and after its field of the column is laid out.  Nothing else of the line changes. -/
inductive Relaid (column : Nat) : Line → Line → Prop
  | verbatim (text : Text) (source : Int) :
      Relaid column (.verbatim text source) (.verbatim text source)
  | nothing {fields : List Text} {source : Int} (inside : column < fields.length)
      (blank : isBlank fields[column]) :
      Relaid column (.aligned fields source) (.aligned (fields.set column []) source)
  | terminator {fields : List Text} {source : Int} (inside : column < fields.length)
      (alone : trim fields[column] = terminator) (n : Nat) :
      Relaid column (.aligned fields source)
        (.aligned (fields.set column (blanks n ++ Assignment.terminator)) source)
  | assignment {fields : List Text} {source : Int} {field : Text} {value : Assignment}
      (inside : column < fields.length) (begins : (operator? (trim fields[column])).isSome)
      (read : parse? fields[column] = some value) (again : parse? field = some value) :
      Relaid column (.aligned fields source) (.aligned (fields.set column field) source)

theorem relaid_layoutLine {column : Nat} {line : Line} (reaches : line.reaches column)
    (holds : line.isAligned → Holds (line.field column)) (anyAssignment : Bool) (widths : Widths) :
    Relaid column line (layoutLine column anyAssignment widths line) := by
  cases line with
  | verbatim text source => exact .verbatim text source
  | aligned fields source =>
      have inside : column < fields.length := by simpa [Line.reaches] using reaches
      have same : (Line.aligned fields source).field column = fields[column] := by
        simp [Line.field, inside]
      have kind := holds rfl
      rw [layoutLine, same]
      rw [same] at kind
      cases kind with
      | nothing blank =>
          rw [layoutField, cell_of_isBlank blank]
          exact .nothing inside blank
      | terminator alone =>
          rw [layoutField, cell_of_trim_eq alone]
          change Relaid column _ (Line.withField _ column (renderTerminator anyAssignment widths))
          rw [renderTerminator_eq, List.append_nil]
          exact .terminator inside alone _
      | operator begins =>
          obtain ⟨value, read⟩ := exists_parse? begins
          rw [layoutField, cell_of_parse? read]
          exact .assignment inside begins read (parse?_render read widths)

theorem alignColumn?_eq {column : Nat} {lines : List Line}
    (reaches : ∀ line ∈ lines, line.reaches column) :
    alignColumn? column lines = some (alignColumn column lines) :=
  if_pos (List.all_eq_true.mpr reaches)

/-- The spacing of a right-hand side is stable; lining up a column of assignments keeps every
assignment and is a fixed point. -/
theorem alignColumn?_relaid :
    (∀ text, spaceOperators (spaceOperators text) = spaceOperators text) ∧
    ∀ (column : Nat) (lines : List Line), (∀ line ∈ lines, line.reaches column) →
      (∀ line ∈ lines, line.isAligned → Holds (line.field column)) →
      ∃ aligned, alignColumn? column lines = some aligned ∧
        List.Forall₂ (Relaid column) lines aligned ∧ alignColumn? column aligned = some aligned := by
  refine ⟨spaceOperators_spaceOperators, fun column lines reaches holds => ?_⟩
  refine ⟨alignColumn column lines, alignColumn?_eq reaches, ?_, ?_⟩
  · rw [alignColumn, List.forall₂_map_right_iff, List.forall₂_same]
    exact fun line member => relaid_layoutLine (reaches line member) (holds line member) _ _
  · have still : ∀ line ∈ alignColumn column lines, line.reaches column := by
      intro line member
      obtain ⟨old, listed, rfl⟩ := List.mem_map.mp member
      rw [reaches_layoutLine]
      exact reaches old listed
    rw [alignColumn?_eq still, alignColumn_alignColumn]

theorem alignColumn?_relaid_mixture :
    let lines := [Line.aligned (literals ["a", "<= b+ c ;"]) 0, .aligned (literals ["d", " ;"]) 1,
      .verbatim (ofString "// e = f") 2, .aligned (literals ["g", ""]) 3]
    (∀ line ∈ lines, line.reaches 1) ∧ (∀ line ∈ lines, line.isAligned → Holds (line.field 1)) ∧
      ∃ aligned, alignColumn? 1 lines = some aligned ∧
        List.Forall₂ (Relaid 1) lines aligned ∧ alignColumn? 1 aligned = some aligned := by
  have reaches : ∀ line ∈ [Line.aligned (literals ["a", "<= b+ c ;"]) 0,
      .aligned (literals ["d", " ;"]) 1, .verbatim (ofString "// e = f") 2,
      .aligned (literals ["g", ""]) 3], line.reaches 1 := by
    decide +kernel
  have holds : ∀ line ∈ [Line.aligned (literals ["a", "<= b+ c ;"]) 0,
      .aligned (literals ["d", " ;"]) 1, .verbatim (ofString "// e = f") 2,
      .aligned (literals ["g", ""]) 3], line.isAligned → Holds (line.field 1) := by
    simp only [List.forall_mem_cons]
    exact ⟨fun _ => .operator (by decide +kernel), fun _ => .terminator (by decide +kernel),
      fun aligned => Bool.noConfusion aligned, fun _ => .nothing (by decide +kernel),
      fun line none => absurd none List.not_mem_nil⟩
  exact ⟨reaches, holds, alignColumn?_relaid.2 1 _ reaches holds⟩

end HdlAlign.Assignment
