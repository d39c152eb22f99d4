import HdlAlign.Proofs.PortLists

/-! What aligning a block keeps of its characters. -/

namespace HdlAlign.Block

open Text Utf8 Statement

theorem splitFinalNewline_append (text : Text) :
    (splitFinalNewline text).1 ++ (splitFinalNewline text).2 = text := by
  rw [splitFinalNewline]
  cases dropped : dropTail? [newline] text with
  | none => exact List.append_nil text
  | some body => exact (Assignment.dropTail?_eq_some_iff.mp dropped).symm

theorem splitFinalNewline_final (text : Text) :
    (splitFinalNewline text).2 = [] ∨ (splitFinalNewline text).2 = [newline] := by
  rw [splitFinalNewline]
  cases dropTail? [newline] text with
  | none => exact .inl rfl
  | some body => exact .inr rfl

theorem white_final (text : Text) : White (splitFinalNewline text).2 := by
  rcases splitFinalNewline_final text with final | final
  · rw [final]
    exact .nil
  · rw [final]
    exact .of_isWhite1 rfl

theorem solid_splitFinalNewline (text : Text) : solid (splitFinalNewline text).1 = solid text := by
  conv => rhs; rw [← splitFinalNewline_append text]
  exact ((white_final text).solid_append_right _).symm

/-- The three ways in which a block is aligned. -/
theorem align_cases (options : Options) (text : Text) :
    (isBlank (splitFinalNewline text).1 ∧ align options text = { text := text }) ∨
    (∃ frame, isBlank (splitFinalNewline text).1 = false ∧
      frame? (splitFinalNewline text).1 = some frame ∧
      (align options text).mode = .ports ∧
      format options text = (alignPorts options frame).text ++ (splitFinalNewline text).2) ∨
    (isBlank (splitFinalNewline text).1 = false ∧ frame? (splitFinalNewline text).1 = none ∧
      (align options text).mode = .declarations ∧
      format options text =
        (alignDeclarations options (splitFinalNewline text).1).text ++
          (splitFinalNewline text).2) := by
  unfold format align
  dsimp only
  cases blank : isBlank (splitFinalNewline text).1 with
  | true => exact .inl ⟨rfl, rfl⟩
  | false =>
      simp only [Bool.false_eq_true, if_false, alignBody]
      cases found : frame? (splitFinalNewline text).1 with
      | some frame => exact .inr (.inl ⟨frame, trivial, rfl, rfl, rfl⟩)
      | none => exact .inr (.inr ⟨trivial, rfl, rfl, rfl⟩)

theorem align_declarations {options : Options} {text : Text}
    (mode : (align options text).mode = .declarations) :
    isBlank (splitFinalNewline text).1 = false ∧
      format options text =
        (alignDeclarations options (splitFinalNewline text).1).text ++
          (splitFinalNewline text).2 := by
  rcases align_cases options text with ⟨-, same⟩ | ⟨frame, -, -, ports, -⟩ | ⟨visible, -, -, same⟩
  · rw [same] at mode
    cases mode
  · rw [ports] at mode
    cases mode
  · exact ⟨visible, same⟩

theorem align_ports {options : Options} {text : Text} (mode : (align options text).mode = .ports) :
    ∃ frame, frame? (splitFinalNewline text).1 = some frame ∧
      format options text = (alignPorts options frame).text ++ (splitFinalNewline text).2 := by
  rcases align_cases options text with ⟨-, same⟩ | ⟨frame, -, found, -, same⟩ |
    ⟨-, -, declarations, -⟩
  · rw [same] at mode
    cases mode
  · exact ⟨frame, found, same⟩
  · rw [declarations] at mode
    cases mode

/-- The input lines of a block of declarations, one for each line of the output.  The newline that
ends a text begins a last, empty line. -/
def sourceLines (options : Options) (text : Text) : List Text :=
  keptLines options.condense (splitFinalNewline text).1 ++
    if (splitFinalNewline text).2.isEmpty then [] else [[]]

theorem forall₂_sourceLines {options : Options} {text : Text}
    (mode : (align options text).mode = .declarations) {relation : Text → Text → Prop}
    (blank : relation [] [])
    (body : List.Forall₂ relation (alignDeclarations options (splitFinalNewline text).1).text.lines
      (keptLines options.condense (splitFinalNewline text).1)) :
    List.Forall₂ relation (format options text).lines (sourceLines options text) := by
  rw [(align_declarations mode).2, sourceLines]
  rcases splitFinalNewline_final text with final | final
  · rw [final, List.append_nil]
    simpa using body
  · rw [final, lines_append_newline]
    exact List.rel_append body (.cons blank .nil)

theorem format_shown {options : Options} {text : Text} (valid : isValid text)
    (mode : (align options text).mode = .declarations) :
    List.Forall₂ (fun new old => solid new = shownLine old)
      (format options text).lines (sourceLines options text) :=
  forall₂_sourceLines mode rfl (alignDeclarations_shown options
    (isValid_of_solid_eq (solid_splitFinalNewline text) valid) (align_declarations mode).1)

/-- Nothing is lost, duplicated or invented.  Of a block of declarations every line keeps its
characters other than white space; of a port list the whole text keeps its characters other than
white space and commas, in order; any other text stays as it is. -/
structure Conserved (options : Options) (text : Text) : Prop where
  declarations : (align options text).mode = .declarations →
    List.Forall₂ (fun new old => (solid new).Perm (solid old))
      (format options text).lines (sourceLines options text)
  ports : (align options text).mode = .ports → bare (format options text) = bare text
  others : (align options text).mode ≠ .declarations → (align options text).mode ≠ .ports →
    format options text = text

theorem shownLine_perm (line : Text) : (shownLine line).Perm (solid line) := by
  rw [shownLine]
  split
  · exact Declaration.shown_perm line
  · exact .refl _

theorem align_conserved (options : Options) {text : Text} (valid : isValid text) :
    Conserved options text := by
  refine ⟨fun mode => ?_, fun mode => ?_, fun notDeclarations notPorts => ?_⟩
  · refine (format_shown valid mode).imp fun new old shown => ?_
    rw [shown]
    exact shownLine_perm old
  · obtain ⟨frame, found, same⟩ := align_ports mode
    have bodyValid : isValid (splitFinalNewline text).1 :=
      isValid_of_solid_eq (solid_splitFinalNewline text) valid
    calc
      bare (format options text) = bare (alignPorts options frame).text := by
        rw [same]
        exact bare_of_solid_eq ((white_final text).solid_append_right _)
      _ = bare (splitFinalNewline text).1 := alignPorts_bare options found bodyValid
      _ = bare text := bare_of_solid_eq (solid_splitFinalNewline text)
  · rcases align_cases options text with ⟨-, same⟩ | ⟨frame, -, -, ports, -⟩ | ⟨-, -, declarations, -⟩
    · rw [format, same]
    · exact absurd ports notPorts
    · exact absurd declarations notDeclarations

theorem align_conserved_ports :
    isValid (ofString "module m (\x0Ainput a,\x0Aaxi.s b\x0A);") ∧
      Conserved { condense := true } (ofString "module m (\x0Ainput a,\x0Aaxi.s b\x0A);") :=
  have valid : isValid (ofString "module m (\x0Ainput a,\x0Aaxi.s b\x0A);") :=
    isValid_of_isAscii (by decide +kernel)
  ⟨valid, align_conserved { condense := true } valid⟩

/-- A declaration keeps the order of its characters exactly if exchanging its array with what stands
behind it makes no difference. -/
theorem declaration_solid_eq_iff (options : Options) {text : Text} (valid : isValid text)
    (mode : (align options text).mode = .declarations) :
    List.Forall₂ (fun new old => (Grammar.declaration.classify old 0).isAligned →
        (solid new = solid old ↔ (Declaration.cut old).InOrder))
      (format options text).lines (sourceLines options text) := by
  refine (format_shown valid mode).imp fun new old shown aligned => ?_
  rw [shown, shownLine, if_pos aligned]
  exact Declaration.shown_eq_iff old

theorem declaration_solid_eq_iff_array :
    isValid (ofString "reg a [1:0];") ∧ (align {} (ofString "reg a [1:0];")).mode = .declarations ∧
      List.Forall₂ (fun new old => (Grammar.declaration.classify old 0).isAligned →
          (solid new = solid old ↔ (Declaration.cut old).InOrder))
        (format {} (ofString "reg a [1:0];")).lines (sourceLines {} (ofString "reg a [1:0];")) :=
  have valid : isValid (ofString "reg a [1:0];") := isValid_of_isAscii (by decide +kernel)
  have mode : (align {} (ofString "reg a [1:0];")).mode = .declarations := by decide +kernel
  ⟨valid, mode, declaration_solid_eq_iff {} valid mode⟩

/-- The array of the first name is laid out behind the second name. -/
theorem declaration_reordered :
    isValid (ofString "reg a [1:0], b;") ∧
      (align {} (ofString "reg a [1:0], b;")).mode = .declarations ∧
      (Grammar.declaration.classify (ofString "reg a [1:0], b;") 0).isAligned ∧
      format {} (ofString "reg a [1:0], b;") = ofString "reg a, b [1:0] ;" ∧
      solid (format {} (ofString "reg a [1:0], b;")) ≠ solid (ofString "reg a [1:0], b;") := by
  have moved : format {} (ofString "reg a [1:0], b;") = ofString "reg a, b [1:0] ;" := by
    decide +kernel
  have differ : decide (solid (ofString "reg a, b [1:0] ;") =
      solid (ofString "reg a [1:0], b;")) = false := by decide +kernel
  refine ⟨isValid_of_isAscii (by decide +kernel), by decide +kernel, by decide +kernel, moved, ?_⟩
  rw [moved]
  exact of_decide_eq_false differ

end HdlAlign.Block
