import HdlAlign.Proofs.Brackets
import HdlAlign.Proofs.PortLists

/-! Every dimension list that is cut out of a line is read.  The patterns of a vector and of an
array and the parser describe one syntax, so that no field of their columns stays as it was. -/

namespace HdlAlign.Range

open Text

theorem Unmarked.collapseRuns {text : Text} (unmarked : Unmarked text) (inRun : Bool) :
    Unmarked (collapseRuns inRun text) := by
  intro byte member
  rcases collapseRuns_within inRun text byte member with inside | rfl
  · exact unmarked byte inside
  · rfl

def Group.collapsed (group : Group) : Group :=
  ⟨collapseRuns false group.left, collapseRuns false group.right⟩

namespace Pairs

theorem append {pairs others : List Group} {text more : Text} (h : Pairs pairs text)
    (h' : Pairs others more) : Pairs (pairs ++ others) (text ++ more) := by
  induction h with
  | nil => exact h'
  | cons leftUnmarked rightUnmarked spaces _ ih =>
      simpa using Pairs.cons leftUnmarked rightUnmarked spaces ih

theorem starts {pairs : List Group} {text : Text} (written : Pairs pairs text) : Starts text := by
  cases written with
  | nil => exact .nil
  | cons => exact fun byte first => by cases first; rfl

theorem exists_core {pairs : List Group} {text : Text} (written : Pairs pairs text)
    (nonempty : pairs ≠ []) :
    ∃ core tail, text = core ++ tail ∧ Spaces tail ∧ Pairs pairs core ∧
      core.head? = some ('[' : UInt8) ∧ core.getLast? = some (']' : UInt8) := by
  induction written with
  | nil => exact absurd rfl nonempty
  | @cons left right gap rest pairs leftUnmarked rightUnmarked spaces others ih =>
      by_cases last : pairs = []
      · subst last
        cases others
        refine ⟨_, gap, ?_, spaces, .cons leftUnmarked rightUnmarked .nil .nil, rfl, ?_⟩
        · simp
        · simp [List.getLast?_cons]
      · obtain ⟨core, tail, rfl, tailSpaces, written, -, bracket⟩ := ih last
        refine ⟨_, tail, ?_, tailSpaces, .cons leftUnmarked rightUnmarked spaces written, rfl, ?_⟩
        · simp
        · simp [List.getLast?_cons, bracket]

theorem collapseRuns {pairs : List Group} {text : Text} (written : Pairs pairs text) :
    Pairs (pairs.map Group.collapsed) (collapseRuns false text) := by
  induction written with
  | nil => exact .nil
  | @cons left right gap rest pairs leftUnmarked rightUnmarked spaces others ih =>
      have bracket (byte : UInt8) (visible : isSpace byte = false) (text : Text) :
          Starts (byte :: text) ∧
            Text.collapseRuns false (byte :: text) = byte :: Text.collapseRuns false text :=
        ⟨fun first head => by cases head; exact visible, by simp [Text.collapseRuns, visible]⟩
      have opening := bracket '[' rfl
      have colon := bracket ':' rfl
      have closing := bracket ']' rfl
      rw [(opening _).2, collapseRuns_append_of_starts (colon _).1, (colon _).2,
        collapseRuns_append_of_starts (closing _).1, (closing _).2,
        collapseRuns_append_of_starts others.starts]
      exact .cons (leftUnmarked.collapseRuns false) (rightUnmarked.collapseRuns false)
        (spaces.collapseRuns false) ih

end Pairs

theorem IsDimensionList.normalize {pairs : List Group} {field : Text}
    (written : IsDimensionList pairs field) :
    IsDimensionList (pairs.map Group.collapsed) (normalize field) := by
  obtain ⟨some, lead, rest, leadSpaces, list, rfl⟩ := written
  obtain ⟨core, tail, rfl, tailSpaces, inner, first, last⟩ := list.exists_core some
  have trimmed : trim (lead ++ (core ++ tail)) = core := by
    refine trim_between leadSpaces tailSpaces ?_ ?_
    · rw [first]
      exact fun byte same => by cases same; exact ⟨rfl, rfl⟩
    · rw [last]
      exact fun byte same => by cases same; exact ⟨rfl, rfl⟩
  refine ⟨by simpa using some, [], _, .nil, inner.collapseRuns, ?_⟩
  rw [Text.normalize, trimmed, List.nil_append]

theorem parse_normalize {field : Text} {groups : List Group} (read : parse field = .ok groups) :
    parse (normalize field) = .ok (groups.map Group.collapsed) := by
  obtain ⟨pairs, written, rfl⟩ := parse_eq_ok_iff.mp read
  have trimmed (pair : Group) : pair.collapsed.trimmed = pair.trimmed.collapsed := by
    rw [Group.trimmed, Group.collapsed, Group.collapsed, Group.trimmed, trimSpaces_collapseRuns,
      trimSpaces_collapseRuns]
  rw [written.normalize.parse, List.map_map, List.map_map]
  exact congrArg Except.ok (List.map_congr_left fun pair _ => trimmed pair)

def Readable (field : Text) : Prop := field ≠ [] → ∃ groups, parse field = .ok groups

theorem readable_nil : Readable [] := fun some => absurd rfl some

theorem IsDimensionList.readable {pairs : List Group} {field : Text}
    (written : IsDimensionList pairs field) : Readable field := fun _ => ⟨_, written.parse⟩

/-- Every field of the column that is not empty is read, counts for the widths of the column and is
written in them. -/
structure TakesPart (column : Nat) (lines : List Line) : Prop where
  unparsed : (stats column lines).unparsed = []
  aligned : ∀ (index : Nat) (line : Line), lines[index]? = some line → line.field column ≠ [] →
    ∃ groups ∈ lists column lines, parse (line.field column) = .ok groups ∧
      ∃ new, (alignColumn column lines)[index]? = some new ∧
        new.field column = render groups (columnWidths column lines)

theorem unparsedSource_of_readable {column : Nat} {line : Line}
    (readable : Readable (line.field column)) : unparsedSource column line = none := by
  by_cases some : line.field column = []
  · rw [unparsedSource, cell, some]
    rfl
  · obtain ⟨groups, read⟩ := readable some
    rw [unparsedSource, cell_eq_list_iff.mpr read]

theorem takesPart {column : Nat} {lines : List Line}
    (readable : ∀ line ∈ lines, Readable (line.field column)) : TakesPart column lines := by
  refine ⟨List.filterMap_eq_nil_iff.mpr fun line member =>
    unparsedSource_of_readable (readable line member), fun index line found some => ?_⟩
  have member := List.mem_of_getElem? found
  obtain ⟨groups, read⟩ := readable line member some
  refine ⟨groups, mem_lists.mpr ⟨line, member, read⟩, read,
    layoutLine column (columnWidths column lines) line, ?_, ?_⟩
  · rw [alignColumn, List.getElem?_map, found, Option.map_some]
  · rw [layoutLine, cell_eq_list_iff.mpr read]
    exact Line.field_withField some _

end HdlAlign.Range

namespace HdlAlign.Statement

open Pattern Text Range

theorem unmarked_iff {text : Text} : Unmarked text ↔ ∀ byte ∈ text, isIndexByte byte := by
  have same : ∀ byte, Token.ofByte? byte = none ↔ isIndexByte byte :=
    forall_byte (by decide +kernel)
  simp only [Unmarked, same]

theorem unmarked_of_run {text part rest : Text} (read : run isIndexByte text = some (part, rest)) :
    Unmarked part := by
  obtain ⟨rfl, -⟩ := run_eq_some_iff.mp read
  exact unmarked_iff.mpr fun byte member => List.mem_takeWhile_imp member

theorem spaces_of_run {text part rest : Text} (read : spaces text = some (part, rest)) :
    Spaces part := by
  obtain ⟨rfl, -⟩ := run_eq_some_iff.mp read
  exact fun byte member => List.mem_takeWhile_imp member

theorem pairs_of_dimension {text part rest : Text} (read : dimension text = some (part, rest)) :
    ∃ pair, Pairs [pair] part := by
  obtain ⟨_, _, _, opened, inner, rfl⟩ := andThen_eq_some_iff.mp read
  obtain ⟨left, _, _, leftRead, divided, rfl⟩ := andThen_eq_some_iff.mp inner
  obtain ⟨_, _, _, colon, behind, rfl⟩ := andThen_eq_some_iff.mp divided
  obtain ⟨right, _, _, rightRead, closed, rfl⟩ := andThen_eq_some_iff.mp behind
  obtain ⟨_, _, gap, closing, spaces, rfl⟩ := andThen_eq_some_iff.mp closed
  obtain ⟨rfl, -⟩ := literal_eq_some_iff.mp opened
  obtain ⟨rfl, -⟩ := literal_eq_some_iff.mp colon
  obtain ⟨rfl, -⟩ := literal_eq_some_iff.mp closing
  have written := Pairs.cons (unmarked_of_run leftRead) (unmarked_of_run rightRead)
    (spaces_of_run spaces) .nil
  rw [List.append_nil] at written
  exact ⟨⟨left, right⟩, written⟩

theorem pairs_of_array {text part rest : Text} (read : array text = some (part, rest)) :
    ∃ pairs, pairs ≠ [] ∧ Pairs pairs part := by
  have more (n : Nat) {text part rest : Text} (read : upTo dimension n text = some (part, rest)) :
      ∃ pairs, Pairs pairs part := by
    induction n generalizing text part rest with
    | zero =>
        cases read
        exact ⟨[], .nil⟩
    | succ n ih =>
        rcases optional_eq_some_iff.mp read with read | ⟨-, rfl, -⟩
        · obtain ⟨_, _, _, first, others, rfl⟩ := andThen_eq_some_iff.mp read
          obtain ⟨pair, written⟩ := pairs_of_dimension first
          obtain ⟨pairs, behind⟩ := ih others
          exact ⟨_, written.append behind⟩
        · exact ⟨[], .nil⟩
  obtain ⟨_, _, _, first, others, rfl⟩ := andThen_eq_some_iff.mp read
  obtain ⟨pair, written⟩ := pairs_of_dimension first
  obtain ⟨pairs, behind⟩ := more _ others
  exact ⟨_, by simp, written.append behind⟩

theorem isDimensionList_of_vector {text part rest : Text} (read : vector text = some (part, rest)) :
    ∃ pairs, IsDimensionList pairs part := by
  obtain ⟨lead, _, list, leadRead, arrayRead, rfl⟩ := andThen_eq_some_iff.mp read
  obtain ⟨pairs, some, written⟩ := pairs_of_array arrayRead
  exact ⟨pairs, some, lead, list, spaces_of_run leadRead, written, rfl⟩

theorem isDimensionList_of_array {text part rest : Text} (read : array text = some (part, rest)) :
    ∃ pairs, IsDimensionList pairs part := by
  obtain ⟨pairs, some, written⟩ := pairs_of_array read
  exact ⟨pairs, some, [], part, .nil, written, rfl⟩

theorem readable_vector (text : Text) : Readable (normalize (vector.cutFront text).1) := by
  rw [cutFront]
  cases read : vector text with
  | none => exact readable_nil
  | some found =>
      obtain ⟨part, rest⟩ := found
      obtain ⟨pairs, written⟩ := isDimensionList_of_vector read
      exact written.normalize.readable

theorem readable_array (text : Text) : Readable (normalize (array.cutFirst text).1) := by
  rw [cutFirst]
  cases search : array.find text with
  | none => exact readable_nil
  | some found =>
      obtain ⟨rest, -, read, -⟩ := find_eq_some_iff.mp search
      obtain ⟨pairs, written⟩ := isDimensionList_of_array read
      exact written.normalize.readable

theorem Declaration.readable_extract (line : Text) :
    Readable (extract line).vector ∧ Readable (extract line).array := by
  rw [extract]
  dsimp only
  unfold Declaration.cutIf
  split
  · exact ⟨readable_vector _, readable_array _⟩
  · exact ⟨readable_nil, readable_nil⟩

theorem Port.readable_extract (line : Text) : Readable (extract line).vector := by
  rw [extract]
  dsimp only
  exact readable_vector _

end HdlAlign.Statement

namespace HdlAlign

open Statement Range

def Grammar.dimensionLists : Grammar → Text → List Text
  | declaration, line => [(Declaration.extract line).vector, (Declaration.extract line).array]
  | port, line => [(Port.extract line).vector]

theorem Grammar.dimensionLists_subset (grammar : Grammar) (line : Text) :
    grammar.dimensionLists line ⊆ grammar.extract line := by
  cases grammar <;> simp [dimensionLists, extract, Declaration.found, Port.found]

namespace Block

theorem readable_declarationLines {options : Options} {text : Text} {line : Line}
    (member : line ∈ declarationLines options text) :
    Readable (line.field Declaration.vectorColumn) ∧
      Readable (line.field Declaration.arrayColumn) := by
  obtain ⟨⟨index, line⟩, -, rfl⟩ := List.mem_map.mp member
  dsimp only
  rcases classify_cases line index with ⟨-, -, read⟩ | ⟨-, -, read⟩ | ⟨-, -, -, read⟩
  · rw [read]
    exact ⟨readable_nil, readable_nil⟩
  · rw [read]
    exact ⟨readable_nil, readable_nil⟩
  · rw [read]
    exact Declaration.readable_extract line

theorem readable_portLines {options : Options} {frame : Frame} {line : Line}
    (member : line ∈ portLines options frame) : Readable (line.field Port.vectorColumn) := by
  obtain ⟨⟨index, line⟩, -, rfl⟩ := List.mem_map.mp (trimEmptyLines_subset _ member)
  dsimp only
  rcases classifyPort_cases index line with ⟨-, read⟩ | ⟨-, -, read⟩ | ⟨-, -, read⟩
  · rw [read]
    exact readable_nil
  · rw [read]
    exact Port.readable_extract _
  · rw [read]
    exact readable_nil

/-- Every dimension list that is cut out of a line, by either grammar, is read.  So no field of a
block is left as it was, and every dimension list is lined up with the others. -/
theorem dimensionLists_takePart :
    (∀ (grammar : Grammar) (line : Text), ∀ field ∈ grammar.dimensionLists line,
      field ∈ grammar.extract line ∧ Readable field) ∧
    (∀ (options : Options) (text : Text),
      TakesPart Declaration.vectorColumn (declarationLines options text) ∧
      TakesPart Declaration.arrayColumn
        (Range.alignColumn Declaration.vectorColumn (declarationLines options text))) ∧
    ∀ (options : Options) (frame : Frame),
      TakesPart Port.vectorColumn (portLines options frame) := by
  refine ⟨fun grammar line field member => ⟨grammar.dimensionLists_subset line member, ?_⟩,
    fun options text => ⟨?_, ?_⟩, fun options frame => ?_⟩
  · cases grammar with
    | declaration =>
        obtain ⟨vector, array⟩ := Declaration.readable_extract line
        rcases List.mem_pair.mp member with rfl | rfl
        · exact vector
        · exact array
    | port =>
        rw [List.mem_singleton.mp member]
        exact Port.readable_extract line
  · exact takesPart fun line member => (readable_declarationLines member).1
  · refine takesPart fun line member => ?_
    obtain ⟨old, listed, rfl⟩ := List.mem_map.mp member
    rw [field_layoutLine (by decide)]
    exact (readable_declarationLines listed).2
  · exact takesPart fun line member => readable_portLines member

theorem dimensionLists_takePart_memory :
    let line : Text := "reg [ N - 1 : ][3:0] m [0:\t7] ; // [a:b]"
    let field : Text := "[ N - 1 : ][3:0]"
    field ∈ Grammar.declaration.dimensionLists line ∧ field ≠ [] ∧
      ∃ groups, parse field = .ok groups := by
  have listed : ("[ N - 1 : ][3:0]" : Text) ∈
      Grammar.declaration.dimensionLists "reg [ N - 1 : ][3:0] m [0:\t7] ; // [a:b]" := by
    decide +kernel
  exact ⟨listed, by decide, (dimensionLists_takePart.1 _ _ _ listed).2 (by decide)⟩

end Block

end HdlAlign
