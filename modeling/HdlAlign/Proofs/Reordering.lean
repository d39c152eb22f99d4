import HdlAlign.Proofs.Measures

/-! The order of the lines of a block of declarations does not matter to the layout: permuted lines
are printed as the permuted output. -/

namespace HdlAlign.Range

theorem columnWidths_perm {column : Nat} {new old : List Line} (perm : new.Perm old) :
    columnWidths column new = columnWidths column old :=
  (perm.filterMap _).foldl_eq' (fun first _ second _ widths => by
    simp only [widen_eq, Columns.merge_right_comm]) []

/-- The running maximum makes no difference: the first list decides. -/
theorem mismatch_some (largest : Nat) (lists : List (List Group)) :
    mismatch (some largest) lists = lists.any fun groups => groups.length != largest := by
  induction lists with
  | nil => rfl
  | cons groups lists ih =>
      rw [mismatch, List.any_cons]
      by_cases same : groups.length = largest
      · rw [same, Nat.max_self, ih]
      · have differ : (groups.length != largest) = true := by simpa using same
        rw [differ, Bool.true_or, Bool.true_or]

theorem mismatch_none_iff (lists : List (List Group)) :
    mismatch none lists = false ↔
      ∀ first ∈ lists, ∀ second ∈ lists, first.length = second.length := by
  cases lists with
  | nil => simp [mismatch]
  | cons groups lists =>
      rw [mismatch, mismatch_some, List.any_eq_false]
      constructor
      · intro same
        have all : ∀ first ∈ groups :: lists, first.length = groups.length := by
          intro first member
          rcases List.mem_cons.mp member with rfl | later
          · rfl
          · simpa using same first later
        exact fun first member second member' => (all first member).trans (all second member').symm
      · intro same first later
        simpa using same first (List.mem_cons_of_mem _ later) groups List.mem_cons_self

theorem mismatch_perm {new old : List (List Group)} (perm : new.Perm old) :
    mismatch none new = mismatch none old := by
  have iff : mismatch none new = false ↔ mismatch none old = false := by
    rw [mismatch_none_iff, mismatch_none_iff]
    simp only [perm.mem_iff]
  exact Bool.eq_iff_iff.mpr (by simpa using not_congr iff)

end HdlAlign.Range

namespace HdlAlign.Assignment

theorem widths_perm {new old : List Assignment} (perm : new.Perm old) :
    widths new = widths old := by
  have largest (f : Assignment → Nat) :
      new.foldl (fun most a => max most (f a)) 0 = old.foldl (fun most a => max most (f a)) 0 :=
    perm.foldl_eq' (fun first _ second _ most => Nat.max_right_comm most (f first) (f second)) 0
  rw [widths, widths, largest, largest]

end HdlAlign.Assignment

namespace HdlAlign.Batch

theorem anchors_perm {new old : List Line} (perm : new.Perm old) : anchors new = anchors old := by
  refine perm.foldl_eq' (fun first _ second _ widths => ?_) []
  cases first <;> cases second <;> simp only [widen_eq]
  exact Columns.merge_right_comm _ _ _

end HdlAlign.Batch

namespace HdlAlign.Block

open Text Statement

theorem measures_perm {new old : List Line} (perm : new.Perm old) :
    measures new = measures old := by
  have found : (Assignment.assignments Declaration.assignmentColumn new).Perm
      (Assignment.assignments Declaration.assignmentColumn old) := perm.filterMap _
  rw [measures, measures, Range.columnWidths_perm perm, Range.columnWidths_perm perm,
    Assignment.widths_perm found, found.isEmpty_eq]

def printedAmong (lines : List Text) (indent line : Text) : Text :=
  ((measures (readLines lines)).lay (Grammar.declaration.classify line 0)).render
    (blockAnchors lines) indent

theorem printedLine_eq (options : Options) (text : Text) (entry : Nat × Text) :
    printedLine options text entry =
      printedAmong (keptLines options.condense text) (declarationIndent text) entry.2 := by
  rw [printedLine, printedAmong, laidOut_eq, anchors_declarationLines,
    ← unnumbered_declarationLines, measures_unnumbered, ← Line.render_unnumbered,
    Measures.unnumbered_lay, Line.unnumbered_classify]

theorem printedAmong_perm {new old : List Text} (perm : new.Perm old) :
    printedAmong new = printedAmong old := by
  have read : (readLines new).Perm (readLines old) := perm.map _
  have columns : (alignDeclarationColumns (readLines new)).Perm
      (alignDeclarationColumns (readLines old)) := by
    rw [alignDeclarationColumns_measures, alignDeclarationColumns_measures, measures_perm read]
    exact read.map _
  funext indent line
  rw [printedAmong, printedAmong, measures_perm read, blockAnchors_eq, blockAnchors_eq,
    Batch.anchors_perm columns]

theorem keptLines_unlines {options : Options} (keeps : options.condense = false)
    {lines : List Text} (some : lines ≠ []) (single : ∀ line ∈ lines, newline ∉ line) :
    keptLines options.condense (unlines lines) = lines := by
  rw [keptLines_eq, keeps, if_neg Bool.false_ne_true, lines_unlines some single]

theorem declarationIndent_perm {new old : List Text} (some : old ≠ [])
    (single : ∀ line ∈ old, newline ∉ line)
    (margin : ∀ first ∈ old, ∀ second ∈ old,
      (Grammar.declaration.classify first 0).isAligned →
      (Grammar.declaration.classify second 0).isAligned →
      indentation first = indentation second)
    (perm : new.Perm old) : declarationIndent (unlines new) = declarationIndent (unlines old) := by
  have someNew : new ≠ [] := fun none => some (List.nil_perm.mp (none ▸ perm))
  rw [declarationIndent, declarationIndent, lines_unlines some single,
    lines_unlines someNew fun line member => single line (perm.mem_iff.mp member)]
  cases first : new.find? fun line => (Grammar.declaration.classify line 0).isAligned with
  | none =>
      have none :
          old.find? (fun line => (Grammar.declaration.classify line 0).isAligned) = none := by
        rw [List.find?_eq_none] at first ⊢
        exact fun line member => first line (perm.mem_iff.mpr member)
      rw [none]
  | some line =>
      have member := perm.mem_iff.mp (List.mem_of_find?_eq_some first)
      have aligned := List.find?_some first
      cases second : old.find? fun line => (Grammar.declaration.classify line 0).isAligned with
      | none => exact absurd aligned (List.find?_eq_none.mp second line member)
      | some other =>
          have alignedOther := List.find?_some second
          exact margin line member other (List.mem_of_find?_eq_some second) aligned alignedOther

structure Reordered (new old : List Text) (print : Text → Text) (first second : Aligned) :
    Prop where
  text : first.text.lines = new.map print
  textOld : second.text.lines = old.map print
  rangeMismatch : first.rangeMismatch = second.rangeMismatch
  count : first.count = second.count

theorem rangeMismatch_alignDeclarations (options : Options) (text : Text) :
    (alignDeclarations options text).rangeMismatch =
      (Range.mismatch none (Range.lists Declaration.vectorColumn
          (readLines (keptLines options.condense text))) ||
        Range.mismatch none (Range.lists Declaration.arrayColumn
          (readLines (keptLines options.condense text)))) := by
  have differ : Declaration.vectorColumn ≠ Declaration.arrayColumn := by decide
  have arrays := Range.lists_alignColumn differ (declarationLines options text)
  rw [← unnumbered_declarationLines, Range.lists_unnumbered, Range.lists_unnumbered, ← arrays]
  rfl

/-- One function prints the lines, whatever their order. -/
theorem alignDeclarations_perm {options : Options} (keeps : options.condense = false)
    {new old : List Text} (some : old ≠ []) (single : ∀ line ∈ old, newline ∉ line)
    (margin : ∀ first ∈ old, ∀ second ∈ old,
      (Grammar.declaration.classify first 0).isAligned →
      (Grammar.declaration.classify second 0).isAligned →
      indentation first = indentation second)
    (perm : new.Perm old) :
    Reordered new old (printedAmong old (declarationIndent (unlines old)))
      (alignDeclarations options (unlines new)) (alignDeclarations options (unlines old)) := by
  have someNew : new ≠ [] := fun none => some (List.nil_perm.mp (none ▸ perm))
  have singleNew : ∀ line ∈ new, newline ∉ line :=
    fun line member => single line (perm.mem_iff.mp member)
  have kept := keptLines_unlines keeps some single
  have keptNew := keptLines_unlines keeps someNew singleNew
  have printed {lines : List Text} (some : lines ≠ [])
      (kept : keptLines options.condense (unlines lines) = lines) :
      (alignDeclarations options (unlines lines)).text.lines =
        lines.map (printedAmong lines (declarationIndent (unlines lines))) := by
    rw [alignDeclarations_lines_of_kept (by rwa [kept])]
    conv => rhs; arg 2; rw [← kept, ← numbered_lines _ 0]
    rw [List.map_map]
    refine List.map_congr_left fun entry _ => ?_
    rw [printedLine_eq, kept, Function.comp_apply]
  have read : (readLines new).Perm (readLines old) := perm.map _
  refine ⟨?_, printed some kept, ?_, ?_⟩
  · rw [printed someNew keptNew, printedAmong_perm perm,
      declarationIndent_perm some single margin perm]
  · rw [rangeMismatch_alignDeclarations, rangeMismatch_alignDeclarations, kept, keptNew]
    exact congrArg₂ _ (Range.mismatch_perm (read.filterMap _))
      (Range.mismatch_perm (read.filterMap _))
  · rw [alignDeclarations_count, alignDeclarations_count, lines_unlines some single,
      lines_unlines someNew singleNew, perm.countP_eq]

def arranged (order : List Nat) (lines : List Text) : List Text :=
  order.map fun index => lines.getD index []

theorem arranged_perm {order : List Nat} {lines : List Text}
    (permutes : order.Perm (List.range lines.length)) : (arranged order lines).Perm lines := by
  have whole : (List.range lines.length).map (fun index => lines.getD index []) = lines := by
    refine List.ext_getElem (by simp) fun index _ bound => ?_
    simp [bound]
  conv => rhs; rw [← whole]
  exact permutes.map _

theorem arranged_map {order : List Nat} {lines : List Text}
    (permutes : order.Perm (List.range lines.length)) (f : Text → Text) :
    (arranged order lines).map f = arranged order (lines.map f) := by
  rw [arranged, arranged, List.map_map]
  refine List.map_congr_left fun index member => ?_
  have bound : index < lines.length := List.mem_range.mp (permutes.mem_iff.mp member)
  simp [bound]

/-- Permuting the lines of a block of declarations, whose declarations share a margin, permutes the
lines of the output and changes nothing else. -/
theorem alignDeclarations_arranged {options : Options} (keeps : options.condense = false)
    {lines : List Text} (some : lines ≠ []) (single : ∀ line ∈ lines, newline ∉ line)
    (margin : ∀ first ∈ lines, ∀ second ∈ lines,
      (Grammar.declaration.classify first 0).isAligned →
      (Grammar.declaration.classify second 0).isAligned →
      indentation first = indentation second)
    {order : List Nat} (permutes : order.Perm (List.range lines.length)) :
    let whole := alignDeclarations options (unlines lines)
    let permuted := alignDeclarations options (unlines (arranged order lines))
    whole.text.lines.length = lines.length ∧
      permuted.text.lines = arranged order whole.text.lines ∧
      permuted.rangeMismatch = whole.rangeMismatch ∧ permuted.count = whole.count := by
  have reordered := alignDeclarations_perm keeps some single margin (arranged_perm permutes)
  refine ⟨?_, ?_, reordered.rangeMismatch, reordered.count⟩
  · rw [reordered.textOld, List.length_map]
  · rw [reordered.text, reordered.textOld, arranged_map permutes]

theorem alignDeclarations_arranged_rotated :
    let lines : List Text := Text.literals ["  reg [7:0] a;", "", "// note", "  b <= a+1;"]
    let order := [2, 3, 1, 0]
    ((∀ line ∈ lines, newline ∉ line) ∧ order.Perm (List.range lines.length)) ∧
      let whole := alignDeclarations {} (unlines lines)
      let permuted := alignDeclarations {} (unlines (arranged order lines))
      whole.text.lines.length = lines.length ∧
        permuted.text.lines = arranged order whole.text.lines ∧
        permuted.rangeMismatch = whole.rangeMismatch ∧ permuted.count = whole.count := by
  have single : ∀ line ∈ Text.literals ["  reg [7:0] a;", "", "// note", "  b <= a+1;"],
      newline ∉ line := by
    decide +kernel
  have permutes : [2, 3, 1, 0].Perm (List.range
      (Text.literals ["  reg [7:0] a;", "", "// note", "  b <= a+1;"]).length) := by
    decide +kernel
  exact ⟨⟨single, permutes⟩,
    alignDeclarations_arranged rfl (by decide +kernel) single (by decide +kernel) permutes⟩

end HdlAlign.Block
