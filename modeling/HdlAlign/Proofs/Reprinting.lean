import HdlAlign.Proofs.Boundaries
import HdlAlign.Proofs.PortLines

/-! Lines that are printed alike get the same vectors, the same commas and the same columns, and
come out as the same texts. -/

namespace HdlAlign.Batch

open Text

theorem take_widen (n : Nat) (anchors : List Nat) (fields : List Text) :
    (widen anchors fields).take n = widen (anchors.take n) (fields.take n) := by
  fun_induction widen anchors fields generalizing n with
  | case1 anchors => rw [List.take_nil, widen]
  | case2 field fields ih =>
      cases n with
      | zero => rfl
      | succ n => simpa [widen] using ih n
  | case3 anchor anchors field fields ih =>
      cases n with
      | zero => rfl
      | succ n => simpa [widen] using ih n

def grown (widths : List Nat) : Line → List Nat
  | .aligned fields _ => widen widths fields
  | .verbatim _ _ => widths

theorem anchors_eq (lines : List Line) : anchors lines = lines.foldl grown [] := rfl

end HdlAlign.Batch

namespace HdlAlign.Line

open Text Batch Statement

variable {new old : Line}

theorem padded_take (fields : List Text) (anchors : List Nat) :
    padded fields (anchors.take fields.length) = padded fields anchors := by
  fun_induction padded fields anchors with
  | case1 => rfl
  | case2 field fields ih => simp [padded]
  | case3 field fields anchor anchors ih => simpa [padded] using ih

theorem dropTailWhile_comment {comment : Text}
    (begins : comment = [] ∨ comment.startsWith (ofString "//")) :
    (dropTailWhile isIndent comment = [] ∨
      (dropTailWhile isIndent comment).startsWith (ofString "//")) ∧
    (dropTailWhile isIndent comment).isEmpty = comment.isEmpty := by
  rcases begins with rfl | begins
  · exact ⟨.inl rfl, rfl⟩
  · obtain ⟨rest, rfl⟩ := startsWith_slashes.mp begins
    rw [dropTailWhile_slashes]
    exact ⟨.inr (startsWith_slashes.mpr ⟨_, rfl⟩), rfl⟩

theorem dropTailWhile_dropTailWhile (p : UInt8 → Bool) (text : Text) :
    dropTailWhile p (dropTailWhile p text) = dropTailWhile p text := by
  simp [dropTailWhile, List.dropWhile_idempotent]

theorem PrintedLike.isAligned_eq (alike : PrintedLike new old) : new.isAligned = old.isAligned := by
  cases alike <;> rfl

theorem PrintedLike.isEmptyLine_eq (alike : PrintedLike new old) :
    new.isEmptyLine = old.isEmptyLine := by
  cases alike <;> rfl

theorem PrintedLike.field_eq (alike : PrintedLike new old) {column : Nat}
    (code : column < Grammar.commentColumn) : new.field column = old.field column := by
  cases alike with
  | aligned length =>
      rw [← length] at code
      rw [field, field, List.getD_append _ _ _ _ code, List.getD_append _ _ _ _ code]
  | verbatim => rfl

theorem PrintedLike.withField (alike : PrintedLike new old) {column : Nat}
    (code : column < Grammar.commentColumn) (value : Text) :
    PrintedLike (new.withField column value) (old.withField column value) := by
  cases alike with
  | aligned length begins source other =>
      rw [← length] at code
      rw [Line.withField, Line.withField, List.set_append_left _ _ code,
        List.set_append_left _ _ code]
      exact .aligned (by rw [List.length_set, length]) begins source other
  | verbatim text source other => exact .verbatim text source other

/-- The comment takes part in the last column only, so lines that are printed alike get the same
columns in front of it. -/
theorem take_foldl_grown {new old : List Line} (alike : List.Forall₂ PrintedLike new old)
    {widths others : List Nat}
    (same : widths.take Grammar.commentColumn = others.take Grammar.commentColumn) :
    (new.foldl grown widths).take Grammar.commentColumn =
      (old.foldl grown others).take Grammar.commentColumn := by
  induction alike generalizing widths others with
  | nil => exact same
  | cons first _ ih =>
      refine ih ?_
      cases first with
      | aligned length =>
          rw [grown, grown, take_widen, take_widen, same, ← length, List.take_left, List.take_left]
      | verbatim => exact same

theorem PrintedLike.render_eq (alike : PrintedLike new old) {anchors others : List Nat}
    (same : anchors.take Grammar.commentColumn = others.take Grammar.commentColumn)
    (roomy : ∀ fields source, new = .aligned fields source → Roomy fields anchors)
    (roomyOld : ∀ fields source, old = .aligned fields source → Roomy fields others)
    (indent : Text) : new.render anchors indent = old.render others indent := by
  cases alike with
  | @aligned front comment length begins source other =>
      obtain ⟨still, empty⟩ := dropTailWhile_comment begins
      have columns : padded front anchors = padded front others := by
        rw [← padded_take front anchors, ← padded_take front others, length, same]
      rw [Line.render_eq (roomy _ _ rfl) still, Line.render_eq (roomyOld _ _ rfl) begins,
        renderedCode, renderedCode, empty, columns, dropTailWhile_dropTailWhile]
  | verbatim => rfl

theorem map_render_eq {new old : List Line} (alike : List.Forall₂ PrintedLike new old)
    (indent : Text) :
    (new.map fun line => line.render (anchors new) indent) =
      old.map fun line => line.render (anchors old) indent := by
  have same : (anchors new).take Grammar.commentColumn =
      (anchors old).take Grammar.commentColumn := by
    rw [anchors_eq, anchors_eq]
    exact take_foldl_grown alike rfl
  have roomy (fields : List Text) (source : Int) (member : .aligned fields source ∈ new) :
      Roomy fields (anchors new) := roomy_anchors member
  have roomyOld (fields : List Text) (source : Int) (member : .aligned fields source ∈ old) :
      Roomy fields (anchors old) := roomy_anchors member
  -- The columns are those of the whole lists; they stay while the induction takes lines off.
  generalize anchors new = widths at same roomy
  generalize anchors old = others at same roomyOld
  induction alike with
  | nil => rfl
  | cons first _ ih =>
      rw [List.map_cons, List.map_cons]
      congr 1
      · exact first.render_eq same (fun fields source is => roomy fields source (by simp [is]))
          (fun fields source is => roomyOld fields source (by simp [is])) indent
      · exact ih (fun fields source member => roomy fields source (List.mem_cons_of_mem _ member))
          fun fields source member => roomyOld fields source (List.mem_cons_of_mem _ member)

theorem LaidLike.verbatim (text : Text) (source other : Int) :
    LaidLike (.verbatim text source) (.verbatim text other) :=
  ⟨rfl, fun _ => .verbatim text source other⟩

end HdlAlign.Line

namespace HdlAlign.Range

open Line Statement

variable {new old : List Line}

theorem isEmptyLine_layoutLine (column : Nat) (widths : List GroupWidth) (line : Line) :
    (layoutLine column widths line).isEmptyLine = line.isEmptyLine := by
  rw [layoutLine]
  split
  · cases line <;> rfl
  · rfl

theorem lists_eq_of_laidLike (alike : List.Forall₂ LaidLike new old) :
    lists Port.vectorColumn new = lists Port.vectorColumn old := by
  rw [lists, lists]
  exact filterMap_eq_of_forall₂ (fun _ _ laid => congrArg Cell.list? laid.cell) alike

theorem printedLike_alignColumn (alike : List.Forall₂ LaidLike new old) :
    List.Forall₂ PrintedLike (alignColumn Port.vectorColumn new)
      (alignColumn Port.vectorColumn old) := by
  rw [alignColumn, alignColumn, columnWidths, columnWidths, lists_eq_of_laidLike alike,
    List.forall₂_map_left_iff, List.forall₂_map_right_iff]
  exact alike.imp fun _ _ laid => laid.printed _

end HdlAlign.Range

namespace HdlAlign.Line

theorem LaidLike.isEmptyLine_eq {new old : Line} (laid : LaidLike new old) :
    new.isEmptyLine = old.isEmptyLine := by
  rw [← Range.isEmptyLine_layoutLine Statement.Port.vectorColumn [] new,
    ← Range.isEmptyLine_layoutLine Statement.Port.vectorColumn [] old]
  exact (laid.printed []).isEmptyLine_eq

end HdlAlign.Line

namespace HdlAlign.Ports

open Line Statement

theorem commaColumn_lt (endOfLine : Bool) : commaColumn endOfLine < Grammar.commentColumn := by
  cases endOfLine <;> decide

theorem printedLike_punctuated (endOfLine earlier later : Bool) {new old : Line}
    (alike : PrintedLike new old) :
    PrintedLike (punctuated endOfLine earlier later new) (punctuated endOfLine earlier later old) := by
  have code := commaColumn_lt endOfLine
  rw [punctuated, punctuated, alike.isAligned_eq, alike.field_eq code]
  generalize (old.isAligned && if endOfLine then later else earlier) = given
  cases given with
  | true => exact alike.withField code _
  | false => exact alike

theorem any_isAligned_eq {new old : List Line} (alike : List.Forall₂ PrintedLike new old) :
    new.any Line.isAligned = old.any Line.isAligned := by
  induction alike with
  | nil => rfl
  | cons first _ ih => rw [List.any_cons, List.any_cons, first.isAligned_eq, ih]

theorem printedLike_punctuate (endOfLine earlier : Bool) {new old : List Line}
    (alike : List.Forall₂ PrintedLike new old) :
    List.Forall₂ PrintedLike (punctuate endOfLine earlier new)
      (punctuate endOfLine earlier old) := by
  induction alike generalizing earlier with
  | nil => exact .nil
  | cons first rest ih =>
      rw [punctuate, punctuate, any_isAligned_eq rest, first.isAligned_eq]
      exact .cons (printedLike_punctuated _ _ _ first) (ih _)

end HdlAlign.Ports

namespace HdlAlign.Block

open Text Statement Ports

def printedPorts (options : Options) (frame : Frame) : List Text :=
  (laidOutPorts options frame).map fun line =>
    line.render (Batch.anchors (laidOutPorts options frame)) portIndent

theorem laidOutPorts_eq (options : Options) (frame : Frame) :
    laidOutPorts options frame = punctuate options.endOfLine false
      (Range.alignColumn Port.vectorColumn (portLines options frame)) :=
  placeCommas_eq _ (portLines_separator options frame)

theorem printedPorts_eq_of_laidLike {options : Options} {new old : Frame}
    (alike : List.Forall₂ Line.LaidLike (portLines options new) (portLines options old)) :
    printedPorts options new = printedPorts options old := by
  rw [printedPorts, printedPorts, laidOutPorts_eq, laidOutPorts_eq]
  exact Line.map_render_eq
    (printedLike_punctuate _ _ (Range.printedLike_alignColumn alike)) portIndent

end HdlAlign.Block
