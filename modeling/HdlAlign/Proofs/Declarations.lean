import HdlAlign.Block.Align
import HdlAlign.Proofs.Lines
import HdlAlign.Proofs.Pieces

/-! Aligning a block of declarations keeps the characters of every line.  Only their order may
change, and only where an array stands in front of a part of the name. -/

namespace HdlAlign.Statement

open Pattern Text Utf8 Assignment

theorem normalize_of_isTerminator {text : Text} (h : isTerminator text) :
    normalize text = ofString ";" := by
  cases text with
  | nil => cases h
  | cons byte rest =>
      simp only [isTerminator, Bool.and_eq_true, beq_iff_eq, List.all_eq_true] at h
      obtain ⟨rfl, spaces⟩ := h
      have white : White rest := .of_isSpace spaces
      have trimmed : trim ((';' : UInt8) :: rest) = [(';' : UInt8)] := by
        rw [trim, trimStart_of_isAscii rfl rfl]
        exact (white.trimEnd_append [(';' : UInt8)]).trans
          (trimEnd_of_isAscii rfl rfl [])
      rw [Text.normalize, trimmed]
      rfl

theorem assignment_isField (code : Text) : IsField (normalize (splitAssignment code).2) := by
  rw [splitAssignment]
  cases found : breakBefore? opensAssignment code with
  | none => exact .inr (.inr rfl)
  | some parts =>
      rcases Bool.or_eq_true_iff.mp (breakBefore?_split found).2 with operator | terminator
      · obtain ⟨⟨op, rest⟩, read⟩ := Option.isSome_iff_exists.mp operator
        obtain ⟨member, split⟩ := operator?_eq_some_iff.mp read
        have equals : ∀ op ∈ operators, ('=' : UInt8) ∈ op := by decide
        refine .inl ((mem_iff_of_solid_eq rfl rfl (solid_normalize _)).mpr ?_)
        rw [Option.getD_some, split]
        exact List.mem_append_left _ (equals op member)
      · exact .inr (.inl (normalize_of_isTerminator terminator))

theorem isValid_of_perm {fields : List Text} {line : Text}
    (same : (fields.map solid).flatten.Perm (solid line)) (valid : isValid line) :
    ∀ field ∈ fields, isValid field := by
  intro field member
  rw [isValid_iff_solid] at valid ⊢
  intro scalar inside
  refine valid scalar (same.mem_iff.mp ?_)
  exact List.mem_flatten.mpr ⟨_, List.mem_map_of_mem member, inside⟩

namespace Declaration

def Cut.shown (c : Cut) : List Scalar :=
  solid c.type ++ (solid c.vector ++ (solid c.front ++ (solid c.behind ++ (solid c.array ++
    (solid c.assignment ++ solid c.comment)))))

def Cut.parts (c : Cut) : List Text :=
  [c.type, c.vector, c.front, c.array, c.behind, c.assignment, c.comment]

/-- The columns show the characters in the order of the line: exchanging the array with what stands
behind it makes no difference. -/
def Cut.InOrder (c : Cut) : Prop :=
  solid c.behind ++ solid c.array = solid c.array ++ solid c.behind

instance (c : Cut) : Decidable c.InOrder := inferInstanceAs (Decidable (_ = _))

theorem shown_perm (line : Text) : (cut line).shown.Perm (solid line) := by
  rw [cut_solid, Cut.shown]
  refine .append_left _ (.append_left _ (.append_left _ ?_))
  rw [← List.append_assoc, ← List.append_assoc (solid (cut line).array)]
  exact List.perm_append_comm.append_right _

theorem shown_eq_iff (line : Text) : (cut line).shown = solid line ↔ (cut line).InOrder := by
  rw [cut_solid, Cut.shown, Cut.InOrder]
  simp only [List.append_cancel_left_eq]
  rw [← List.append_assoc, ← List.append_assoc (solid (cut line).array), List.append_cancel_right_eq]

theorem solid_cut_subset (line : Text) :
    ∀ part ∈ (cut line).parts, solid part ⊆ solid line := by
  intro part member scalar inside
  rw [cut_solid line]
  simp only [Cut.parts, List.mem_cons, List.not_mem_nil, or_false] at member
  rcases member with rfl | rfl | rfl | rfl | rfl | rfl | rfl
  all_goals simp only [List.mem_append, inside, true_or, or_true]

theorem isValid_cut {line : Text} (valid : isValid line) :
    ∀ part ∈ (cut line).parts, isValid part := by
  intro part member
  rw [isValid_iff_solid] at valid ⊢
  exact fun scalar inside => valid scalar (solid_cut_subset line part member inside)

theorem solid_columns {line : Text} (valid : isValid line) (single : newline ∉ line) :
    ((extract line).columns.map solid).flatten = (cut line).shown := by
  have front : isValid (cut line).front := isValid_cut valid _ (by simp [Cut.parts])
  rw [extract_eq_cut single, Cut.shown]
  simp only [columns, Cut.declaration, List.map_cons, List.map_nil, solid_normalize,
    solid_normalizeList, solid_append_of_isValid front]
  simp

theorem isValid_columns {line : Text} (valid : isValid line) (single : newline ∉ line) :
    ∀ field ∈ (extract line).columns, isValid field := by
  refine isValid_of_perm ?_ valid
  rw [solid_columns valid single]
  exact shown_perm line

theorem cut_subset (line : Text) : ∀ part ∈ (cut line).parts, part ⊆ line := by
  intro part member byte inside
  have whole : byte ∈ (cut line).text := by
    simp only [Cut.parts, List.mem_cons, List.not_mem_nil, or_false] at member
    rw [Cut.text]
    rcases member with rfl | rfl | rfl | rfl | rfl | rfl | rfl
    all_goals simp only [List.mem_append, inside, true_or, or_true]
  rw [cut_text] at whole
  exact whole

theorem columns_within {line : Text} (single : newline ∉ line) :
    ∀ field ∈ (extract line).columns, Within field line := by
  intro field member
  have parts {part : Text} (listed : part ∈ (cut line).parts) : part ⊆ line :=
    cut_subset line part listed
  rw [extract_eq_cut single] at member
  simp only [columns, Cut.declaration, List.mem_cons, List.not_mem_nil, or_false] at member
  rcases member with same | same | same | same | same | same
  all_goals rw [same]
  · exact (normalize_within _).mono (parts (by simp [Cut.parts]))
  · exact (normalize_within _).mono (parts (by simp [Cut.parts]))
  · have name : (cut line).front ++ (cut line).behind ⊆ line :=
      List.append_subset.mpr ⟨parts (by simp [Cut.parts]), parts (by simp [Cut.parts])⟩
    exact ((normalizeList_within _).trans (normalize_within _)).mono name
  · exact (normalize_within _).mono (parts (by simp [Cut.parts]))
  · exact (normalize_within _).mono (parts (by simp [Cut.parts]))
  · exact .of_subset (parts (by simp [Cut.parts]))

theorem extract_assignment_isField {line : Text} (single : newline ∉ line) :
    IsField (extract line).assignment := by
  rw [extract_eq_cut single]
  simp only [Cut.declaration, cut_assignment]
  exact assignment_isField _

end Declaration

end HdlAlign.Statement

namespace HdlAlign.Range

theorem field_layoutLine {column other : Nat} (differ : column ≠ other)
    (widths : List GroupWidth) (line : Line) :
    (layoutLine column widths line).field other = line.field other := by
  rw [layoutLine]
  split
  · cases line with
    | verbatim text source => rfl
    | aligned fields source => simp [Line.withField, Line.field, differ]
  · rfl

theorem isAligned_layoutLine (column : Nat) (widths : List GroupWidth) (line : Line) :
    (layoutLine column widths line).isAligned = line.isAligned := by
  rw [layoutLine]
  split
  · cases line <;> rfl
  · rfl

end HdlAlign.Range

namespace HdlAlign.Block

open Text Utf8 Statement

def laidOut (lines : List Line) (line : Line) : Line :=
  let vectors := Range.alignColumn Declaration.vectorColumn lines
  let found := Assignment.assignments Declaration.assignmentColumn
    (Range.alignColumn Declaration.arrayColumn vectors)
  Assignment.layoutLine Declaration.assignmentColumn (!found.isEmpty) (Assignment.widths found)
    (Range.layoutLine Declaration.arrayColumn (Range.columnWidths Declaration.arrayColumn vectors)
      (Range.layoutLine Declaration.vectorColumn
        (Range.columnWidths Declaration.vectorColumn lines) line))

theorem alignDeclarationColumns_eq (lines : List Line) :
    alignDeclarationColumns lines = lines.map (laidOut lines) := by
  rw [alignDeclarationColumns, Assignment.alignColumn]
  conv => lhs; arg 2; rw [Range.alignColumn, Range.alignColumn, List.map_map]
  rw [List.map_map]
  rfl

theorem laidOut_alike {lines : List Line} {line : Line} (member : line ∈ lines)
    (isField : Assignment.IsField (line.field Declaration.assignmentColumn)) :
    (laidOut lines line).Alike line := by
  have vectors := Range.layoutLine_alike Declaration.vectorColumn member
  have arrays := Range.layoutLine_alike Declaration.arrayColumn
    (List.mem_map_of_mem (f := Range.layoutLine Declaration.vectorColumn
      (Range.columnWidths Declaration.vectorColumn lines)) member)
  refine .trans ?_ (arrays.trans vectors)
  refine Line.alike_withField (Assignment.layoutField_moved _ _ ?_)
  rw [Range.field_layoutLine (by decide), Range.field_layoutLine (by decide)]
  exact isField

def keptLines (condense : Bool) (text : Text) : List Text :=
  text.lines.filter fun line => !(condense && isBlank line)

theorem numbered_lines (condense : Bool) (first : Nat) (text : Text) :
    (numbered condense first text).map Prod.snd = keptLines condense text := by
  rw [numbered, keptLines]
  generalize text.lines = lines
  induction lines generalizing first with
  | nil => rfl
  | cons line lines ih =>
      simp only [List.zipIdx_cons, List.map_cons, List.filter_cons]
      by_cases kept : (!(condense && isBlank line)) = true
      · rw [if_pos kept, if_pos kept, List.map_cons, ih]
      · rw [if_neg kept, if_neg kept, ih]

theorem mem_lines_of_numbered {condense : Bool} {first : Nat} {text : Text} {entry : Nat × Text}
    (member : entry ∈ numbered condense first text) : entry.2 ∈ text.lines := by
  have kept : entry.2 ∈ keptLines condense text := by
    rw [← numbered_lines condense first]
    exact List.mem_map_of_mem member
  exact (List.mem_filter.mp kept).1

theorem keptLines_ne_nil (condense : Bool) {text : Text} (visible : isBlank text = false) :
    keptLines condense text ≠ [] := by
  intro none
  rw [keptLines, List.filter_eq_nil_iff] at none
  have white : White text := by
    rw [White, solid_lines, List.flatMap_eq_nil_iff]
    intro line member
    have dropped := none line member
    simp only [Bool.not_eq_true, Bool.not_eq_false', Bool.and_eq_true] at dropped
    exact isBlank_iff_white.mp dropped.2
  rw [isBlank_iff_white.mpr white] at visible
  cases visible

theorem isAligned_classify (grammar : Grammar) (line : Text) (source other : Int) :
    (grammar.classify line source).isAligned = (grammar.classify line other).isAligned := by
  unfold Grammar.classify
  split
  · rfl
  · split <;> rfl

def shownLine (line : Text) : List Scalar :=
  if (Grammar.declaration.classify line 0).isAligned then (Declaration.cut line).shown
  else solid line

/-- One line through all the passes. -/
theorem solid_render_classify {line : Text} (valid : isValid line) (single : newline ∉ line)
    {source : Int} {new : Line} (alike : new.Alike (Grammar.declaration.classify line source))
    (anchors : List Nat) {indent : Text} (margin : White indent) :
    solid (new.render anchors indent) = shownLine line := by
  rw [shownLine, isAligned_classify _ _ 0 source]
  unfold Grammar.classify at alike ⊢
  split at alike
  · next blank =>
      rw [if_pos blank]
      cases alike
      exact (solid_eq_nil_of_isBlank blank).symm
  · next visible =>
      rw [if_neg visible]
      split at alike
      · next statement =>
          rw [if_pos statement]
          exact (alike.solid_render anchors margin
            (Declaration.isValid_columns valid single)).trans
              (Declaration.solid_columns valid single)
      · next foreign =>
          rw [if_neg foreign]
          cases alike
          rfl

theorem not_mem_render_classify {byte : UInt8} (other : byte ≠ blank) {line : Text}
    (single : newline ∉ line) (absent : byte ∉ line) {source : Int} {new : Line}
    (alike : new.Alike (Grammar.declaration.classify line source)) (anchors : List Nat)
    {indent : Text} (margin : byte ∉ indent) : byte ∉ new.render anchors indent := by
  refine alike.not_mem_render other anchors margin ?_
  unfold Grammar.classify
  split
  · simp [Line.fields]
  · split
    · intro field member
      exact (Declaration.columns_within single field member).not_mem other absent
    · simpa [Line.fields] using absent

theorem single_render_classify {line : Text} (single : newline ∉ line) {source : Int} {new : Line}
    (alike : new.Alike (Grammar.declaration.classify line source)) (anchors : List Nat)
    {indent : Text} (margin : newline ∉ indent) : newline ∉ new.render anchors indent :=
  not_mem_render_classify (by decide) single single alike anchors margin

theorem classify_isField {line : Text} (single : newline ∉ line) (source : Int) :
    Assignment.IsField
      ((Grammar.declaration.classify line source).field Declaration.assignmentColumn) := by
  unfold Grammar.classify
  split
  · exact .inr (.inr rfl)
  · split
    · exact Declaration.extract_assignment_isField single
    · exact .inr (.inr rfl)

theorem indentation_blank (line : Text) : White (indentation line) ∧ newline ∉ indentation line := by
  have blanks : ∀ byte ∈ indentation line, isIndent byte := fun byte => List.mem_takeWhile_imp
  constructor
  · exact .of_isSpace fun byte member => Line.isSpace_of_isIndent (blanks byte member)
  · exact fun member => absurd (blanks _ member) (by decide)

theorem declarationIndent_blank (text : Text) :
    White (declarationIndent text) ∧ newline ∉ declarationIndent text := by
  rw [declarationIndent]
  split
  · exact indentation_blank _
  · exact ⟨.nil, List.not_mem_nil⟩

theorem laidOut_classify_alike {options : Options} {text : Text} {entry : Nat × Text}
    (member : entry ∈ numbered options.condense 0 text) :
    (laidOut (declarationLines options text) (Grammar.declaration.classify entry.2 entry.1)).Alike
      (Grammar.declaration.classify entry.2 entry.1) :=
  laidOut_alike (List.mem_map_of_mem (f := fun entry : Nat × Text =>
    Grammar.declaration.classify entry.2 entry.1) member)
    (classify_isField (single_of_mem_lines (mem_lines_of_numbered member)) _)

def printedLine (options : Options) (text : Text) (entry : Nat × Text) : Text :=
  (laidOut (declarationLines options text) (Grammar.declaration.classify entry.2 entry.1)).render
    (Batch.anchors (alignDeclarationColumns (declarationLines options text)))
    (declarationIndent text)

theorem alignDeclarations_text (options : Options) (text : Text) :
    (alignDeclarations options text).text =
      unlines ((numbered options.condense 0 text).map (printedLine options text)) := by
  simp only [alignDeclarations, Batch.render]
  conv => lhs; arg 1; arg 2; rw [alignDeclarationColumns_eq]
  conv => lhs; arg 1; arg 2; arg 2; rw [declarationLines]
  rw [List.map_map, List.map_map]
  rfl

theorem alignDeclarations_lines_of_kept {options : Options} {text : Text}
    (some : keptLines options.condense text ≠ []) :
    (alignDeclarations options text).text.lines =
      (numbered options.condense 0 text).map (printedLine options text) := by
  rw [alignDeclarations_text, lines_unlines]
  · rw [Ne, List.map_eq_nil_iff]
    intro none
    refine some ?_
    rw [← numbered_lines _ 0, none, List.map_nil]
  · intro piece member
    obtain ⟨entry, listed, rfl⟩ := List.mem_map.mp member
    exact single_render_classify (single_of_mem_lines (mem_lines_of_numbered listed))
      (laidOut_classify_alike listed) _ (declarationIndent_blank text).2

theorem alignDeclarations_lines (options : Options) {text : Text}
    (visible : isBlank text = false) :
    (alignDeclarations options text).text.lines =
      (numbered options.condense 0 text).map (printedLine options text) :=
  alignDeclarations_lines_of_kept (keptLines_ne_nil options.condense visible)

theorem alignDeclarations_shown (options : Options) {text : Text} (valid : isValid text)
    (visible : isBlank text = false) :
    List.Forall₂ (fun new old => solid new = shownLine old)
      (alignDeclarations options text).text.lines (keptLines options.condense text) := by
  rw [alignDeclarations_lines options visible, ← numbered_lines _ 0, List.forall₂_map_left_iff,
    List.forall₂_map_right_iff, List.forall₂_same]
  intro entry member
  have line := mem_lines_of_numbered member
  exact solid_render_classify (isValid_of_mem_lines valid line) (single_of_mem_lines line)
    (laidOut_classify_alike member) _ (declarationIndent_blank text).1

end HdlAlign.Block
