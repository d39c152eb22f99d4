import HdlAlign.Proofs.Stripping

/-! A printed line of a port list is read as the line that it was printed from. -/

namespace HdlAlign.Text

theorem Laid.trimmed {fields : List Text} {text : Text} (laid : Laid fields text)
    (starts : ∀ field ∈ fields, Starts field) (ends : ∀ field ∈ fields, Ends field) :
    Laid fields (Text.trimSpaces text) :=
  (laid.dropWhile starts).dropTailWhile id ends

theorem Laid.between_ends {first left right text : Text} {fields : List Text}
    (laid : Laid (first :: (fields ++ [left ++ right])) text) :
    ∃ lead middle tail, text = lead ++ (first ++ (middle ++ right) ++ tail) ∧
      Laid (fields ++ [left]) middle ∧ Spaces lead ∧ Spaces tail := by
  cases laid with
  | @cons lead _ rest _ leadSpaces _ laid =>
      obtain ⟨middle, tail, rfl, inner, tailSpaces⟩ := laid.append_last
      exact ⟨lead, middle, tail, by simp, inner, leadSpaces, tailSpaces⟩

end HdlAlign.Text

namespace HdlAlign.Line

open Text Batch

theorem renderedCode_subset (front : List Text) (comment : Text) (anchors : List Nat)
    (indent : Text) : renderedCode front comment anchors indent ⊆ indent ++ padded front anchors := by
  rw [renderedCode]
  split
  · exact dropTailWhile_subset _ _
  · exact List.Subset.refl _

theorem plain_of_renderedCode {front : List Text} {indent : Text} (margin : Plain indent)
    (plain : ∀ field ∈ front, Plain field) (comment : Text) (anchors : List Nat) :
    Plain (renderedCode front comment anchors indent) := by
  intro byte member
  rcases List.mem_append.mp (renderedCode_subset _ _ _ _ member) with inside | inside
  · exact margin byte inside
  · rcases padded_subset front anchors inside with rfl | ⟨field, listed, inside⟩
    · rfl
    · exact plain field listed byte inside

end HdlAlign.Line

namespace HdlAlign.Statement.Port

open Text Pattern

variable {code : Text} {port : Port} {comment spaced : Text}

theorem loosenedColumns (plain : Plain code) (same : port.columns = codeColumns code ++ [comment])
    (loosened : Loosened spaced port.vector) :
    LoosenedColumns code [[], port.direction, port.type, spaced, port.name] := by
  obtain ⟨-, plainType⟩ := plain_cutFront direction_sound plain
  obtain ⟨-, plainName⟩ := plain_cutFront portType_sound plainType
  obtain ⟨plainVector, -⟩ := plain_cutFront vector_sound plainName
  simp only [columns, codeColumns, typeColumns, nameColumns, List.cons_append, List.nil_append,
    List.cons.injEq, true_and, and_true] at same
  obtain ⟨direction, type, vector, name, -⟩ := same
  rw [vector] at loosened
  rw [direction, type, name]
  exact .intro (.intro (.intro (loosened.of_normalize plainVector)))

theorem tidy_columns (plain : Plain code) (same : port.columns = codeColumns code ++ [comment]) :
    Tidy port.direction ∧ Tidy port.type ∧ Tidy port.vector ∧ Tidy port.name := by
  have tidy := tidy_codeColumns plain
  have front : [[], port.direction, port.type, port.vector, port.name] = codeColumns code :=
    List.append_inj_left' (show [[], port.direction, port.type, port.vector, port.name] ++
      [port.comment] = codeColumns code ++ [comment] from same) rfl
  rw [← front] at tidy
  simpa [Tidy.nil] using tidy

theorem codeColumns_reread {other : Text} (plain : Plain code)
    (same : port.columns = codeColumns code ++ [comment]) (statement : isStatement (trim code))
    (intact : ¬ Severed port.columns) (loosened : Loosened spaced port.vector)
    (laid : Laid [[], port.direction, port.type, spaced, port.name] other) (plainOther : Plain other) :
    isStatement (trim other) ∧
      codeColumns other = [[], port.direction, port.type, normalize spaced, port.name] := by
  have moved := loosenedColumns plain same loosened
  obtain ⟨direction, type, -, name⟩ := tidy_columns plain same
  have normal {field : Text} (tidy : Tidy field) : normalize field = field :=
    (Laid.alone field).normalize_single tidy
  constructor
  · exact (isStatement_reread_iff plain moved laid (plainOther.subset (List.dropWhile_subset _))
      statement).mpr intact
  · rw [(code_reread plain moved laid).2]
    simp only [List.map_cons, List.map_nil, normal direction, normal type, normal name,
      normal Tidy.nil]

end HdlAlign.Statement.Port

namespace HdlAlign.Ports

open Text Utf8 Statement

theorem separator_bounds (given : Bool) : Plain (separator given) ∧ Starts (separator given) ∧
    Ends (separator given) := by
  have tidy : Tidy (separator given) := by
    cases given with
    | false => exact .nil
    | true =>
        have visible : ∀ byte ∈ comma, isSpace byte = false := by decide +kernel
        exact ⟨by decide +kernel, fun byte first => visible byte (List.mem_of_mem_head? first),
          fun byte last => visible byte (List.mem_of_getLast? last), .singleton _⟩
  exact ⟨tidy.plain, tidy.starts, tidy.ends⟩

section

variable {port : Port} {spaced : Text} {endOfLine earlier later : Bool}

theorem bounds_punctuatedFields
    (tidy : Tidy port.direction ∧ Tidy port.type ∧ Tidy port.vector ∧ Tidy port.name)
    (loosened : Loosened spaced port.vector) :
    ∀ field ∈ punctuatedFields endOfLine earlier later port spaced,
      Plain field ∧ Starts field ∧ Ends field := by
  obtain ⟨direction, type, -, name⟩ := tidy
  obtain ⟨plain, starts, ends⟩ := separator_bounds (endOfLine && later)
  simp only [punctuatedFields, List.forall_mem_cons, List.not_mem_nil, false_implies, implies_true,
    and_true]
  refine ⟨separator_bounds _, ⟨direction.plain, direction.starts, direction.ends⟩,
    ⟨type.plain, type.starts, type.ends⟩, ⟨loosened.plain, loosened.starts, loosened.ends⟩,
    name.plain.append plain, ?_, name.ends.append ends⟩
  by_cases none : port.name = []
  · rw [none, List.nil_append]
    exact starts
  · exact name.starts.append none _

theorem stripSeparator_render (calm : IsCalm port)
    (tidy : Tidy port.direction ∧ Tidy port.type ∧ Tidy port.vector ∧ Tidy port.name)
    (moved : Moved spaced port.vector) (loosened : Loosened spaced port.vector)
    {code : Text} (enclosed : Enclosed code)
    (shows : ([[], port.direction, port.type, spaced, port.name].map squeeze).flatten = squeeze code)
    {source : Int} {anchors : List Nat}
    (roomy : Batch.Roomy (punctuatedFields endOfLine earlier later port spaced ++ [port.comment])
      anchors) :
    ∃ other, splitComment (stripSeparator ((Line.aligned (punctuatedFields endOfLine earlier later
        port spaced ++ [port.comment]) source).render anchors Block.portIndent)) =
          (other, dropTailWhile isIndent port.comment) ∧
      Laid [[], port.direction, port.type, spaced, port.name] other ∧ Plain other := by
  have margin : ∀ byte ∈ Block.portIndent, isIndent byte := by decide +kernel
  have bounds := @bounds_punctuatedFields port spaced endOfLine earlier later tidy loosened
  have printed := Line.splitComment_render roomy
    (calm_punctuatedFields calm moved endOfLine earlier later) calm.comment margin source
  have plain := Line.plain_of_renderedCode (by decide +kernel : Plain Block.portIndent)
    (fun field member => (bounds field member).1) port.comment anchors
  have laid := Line.laid_renderedCode roomy.append.1 (fun field member => (bounds field member).1)
    port.comment margin
  rw [map_trimSpaces fun field member => (bounds field member).2] at laid
  obtain ⟨gap, blanks, split⟩ := splitComment_stripSeparator_gap
    ((Line.aligned (punctuatedFields endOfLine earlier later port spaced ++ [port.comment])
      source).render anchors Block.portIndent)
  rw [printed] at split
  refine ⟨_, split, ?_⟩
  dsimp only
  generalize Line.renderedCode _ _ _ _ = whole at plain laid
  obtain ⟨lead, middle, tail, split, inner, leadSpaces, tailSpaces⟩ :=
    @Laid.between_ends _ port.name _ whole [port.direction, port.type, spaced] laid
  have stripped : strippedCode whole = trimSpaces middle := by
    rw [split] at plain ⊢
    exact strippedCode_between (enclosed.of_squeeze_eq (inner.squeeze.trans shows)) leadSpaces
      tailSpaces plain
  have gapSpaces : Spaces gap := fun byte member => by
    rw [blanks byte member]
    exact isSpace_blank
  have gapPlain : Plain gap := fun byte member => by
    rw [blanks byte member]
    rfl
  have indent : Spaces (indentation whole) := fun byte member =>
    Line.isSpace_of_isIndent (List.mem_takeWhile_imp member)
  have middlePlain : Plain middle := plain.subset fun byte member => by
    rw [split]
    simp [member]
  have inBounds : ∀ field ∈ [port.direction, port.type, spaced] ++ [port.name],
      Starts field ∧ Ends field := by
    obtain ⟨direction, type, -, name⟩ := tidy
    simp only [List.cons_append, List.nil_append, List.forall_mem_cons, List.not_mem_nil,
      false_implies, implies_true, and_true]
    exact ⟨⟨direction.starts, direction.ends⟩, ⟨type.starts, type.ends⟩,
      ⟨loosened.starts, loosened.ends⟩, name.starts, name.ends⟩
  have trimmed := inner.trimmed (fun field member => (inBounds field member).1)
    fun field member => (inBounds field member).2
  rw [stripped]
  exact ⟨(trimmed.append_spaces gapSpaces).skip indent,
    (plain.subset (List.takeWhile_subset _)).append
      ((middlePlain.subset (trimSpaces_subset _)).append gapPlain)⟩

end

end HdlAlign.Ports

namespace HdlAlign.Line

open Text Statement

/-- A line that is printed like another: neither its source nor the blanks at the end of its comment
show. -/
inductive PrintedLike : Line → Line → Prop
  | aligned {front : List Text} {comment : Text} (length : front.length = Grammar.commentColumn)
      (begins : comment = [] ∨ comment.startsWith (ofString "//")) (source other : Int) :
      PrintedLike (.aligned (front ++ [dropTailWhile isIndent comment]) source)
        (.aligned (front ++ [comment]) other)
  | verbatim (text : Text) (source other : Int) :
      PrintedLike (.verbatim text source) (.verbatim text other)

/-- A line that the pass over the vectors makes one that is printed like what it makes of another. -/
structure LaidLike (new old : Line) : Prop where
  cell : Range.cell Port.vectorColumn new = Range.cell Port.vectorColumn old
  printed : ∀ widths, PrintedLike (Range.layoutLine Port.vectorColumn widths new)
    (Range.layoutLine Port.vectorColumn widths old)

end HdlAlign.Line

namespace HdlAlign.Range

open Text

theorem exists_layoutLine_port {lines : List Line} {direction type vector name comment : Text}
    {source : Int} (tidy : Tidy vector)
    (member : .aligned [[], direction, type, vector, name, comment] source ∈ lines) :
    ∃ spaced, Moved spaced vector ∧ Loosened spaced vector ∧
      layoutLine Statement.Port.vectorColumn (columnWidths Statement.Port.vectorColumn lines)
        (.aligned [[], direction, type, vector, name, comment] source) =
          .aligned [[], direction, type, spaced, name, comment] source ∧
      ((∃ groups, parse vector = .ok groups ∧ parse (normalize spaced) = .ok groups) ∨
        spaced = vector) := by
  obtain ⟨spaced, moved, laid⟩ := layoutLine_port member
  refine ⟨spaced, moved, ?_⟩
  have result := laid
  rw [layoutLine] at result
  split at result
  · next groups found =>
      have read : parse vector = .ok groups := cell_eq_list_iff.mp found
      have wide := @length_le_columnWidths Statement.Port.vectorColumn lines groups
        (mem_lists.mpr ⟨_, member, read⟩)
      cases result
      exact ⟨loosened_render read wide tidy.plain, laid,
        .inl ⟨groups, read, parse_normalize_render read wide tidy⟩⟩
  · cases result
    exact ⟨.of_tidy tidy, laid, .inr rfl⟩

theorem laidLike_port {direction type vector name comment spaced : Text} {source other : Int}
    (tidy : Tidy vector) (begins : comment = [] ∨ comment.startsWith (ofString "//"))
    (again : (∃ groups, parse vector = .ok groups ∧ parse (normalize spaced) = .ok groups) ∨
      spaced = vector) :
    Line.LaidLike
      (.aligned [[], direction, type, normalize spaced, name, dropTailWhile isIndent comment] other)
      (.aligned [[], direction, type, vector, name, comment] source) := by
  have printed (field : Text) : Line.PrintedLike
      (.aligned [[], direction, type, field, name, dropTailWhile isIndent comment] other)
      (.aligned [[], direction, type, field, name, comment] source) :=
    @Line.PrintedLike.aligned [[], direction, type, field, name] comment rfl begins other source
  rcases again with ⟨groups, read, reread⟩ | rfl
  · have cells : cell Statement.Port.vectorColumn (.aligned [[], direction, type, normalize spaced,
        name, dropTailWhile isIndent comment] other) = .list groups := cell_eq_list_iff.mpr reread
    have old : cell Statement.Port.vectorColumn (.aligned [[], direction, type, vector, name,
        comment] source) = .list groups := cell_eq_list_iff.mpr read
    refine ⟨cells.trans old.symm, fun widths => ?_⟩
    rw [layoutLine, cells, layoutLine, old]
    exact printed (render groups widths)
  · rw [(Laid.alone spaced).normalize_single tidy]
    refine ⟨rfl, fun widths => ?_⟩
    have same : cell Statement.Port.vectorColumn (.aligned [[], direction, type, spaced, name,
        dropTailWhile isIndent comment] other) = cell Statement.Port.vectorColumn
          (.aligned [[], direction, type, spaced, name, comment] source) := rfl
    rw [layoutLine, layoutLine, same]
    split
    · exact printed _
    · exact printed spaced

end HdlAlign.Range

namespace HdlAlign.Block

open Text Utf8 Statement Ports

theorem classifyPort_of_classify {index : Nat} {line : Text} {fields : List Text} {source : Int}
    (read : Grammar.port.classify (stripSeparator line) index = .aligned fields source) :
    classifyPort index line = .aligned fields source := by
  rw [classifyPort, read]

theorem laidLike_render_port {line : Text} (plain : Plain line) (port : reading line = .port)
    (once : ¬ Doubled (splitComment line).1)
    (intact : ¬ Port.Severed (Port.extract (stripSeparator line)).columns) {lines : List Line}
    {index : Nat} (member : classifyPort index line ∈ lines) {endOfLine earlier later : Bool}
    {anchors : List Nat} {new : Line}
    (passed : new = punctuated endOfLine earlier later (Range.layoutLine Port.vectorColumn
      (Range.columnWidths Port.vectorColumn lines) (classifyPort index line)))
    (roomy : ∀ fields source, new = .aligned fields source → Batch.Roomy fields anchors)
    (other : Nat) :
    (classifyPort other (new.render anchors portIndent)).LaidLike (classifyPort index line) := by
  have single : newline ∉ line := fun inside => absurd (plain newline inside) (by decide)
  have read := classifyPort_reading index line
  rw [port] at read
  dsimp only at read
  rw [read] at member passed ⊢
  have strippedSingle := stripSeparator_single single
  obtain ⟨plainCode, -⟩ := Grammar.plain_splitComment plain
  obtain ⟨plainOld, plainComment⟩ :=
    Grammar.plain_splitComment (plain.within (stripSeparator_within line))
  rw [← Port.extract_comment strippedSingle] at plainComment
  have same := Port.columns_eq strippedSingle
  have statement := isStatement_of_port port
  have calm := Port.isCalm_extract strippedSingle
  have enclosed : Enclosed (splitComment (stripSeparator line)).1 := by
    obtain ⟨gap, blanks, split⟩ := splitComment_stripSeparator_gap line
    refine (enclosed_strippedCode plainCode once (exists_not_comma_of_port port)).of_squeeze_eq ?_
    have gapSpaces : Spaces gap := fun byte member => by
      rw [blanks byte member]
      exact isSpace_blank
    have indent : Spaces (indentation (splitComment line).1) := fun byte member =>
      Line.isSpace_of_isIndent (List.mem_takeWhile_imp member)
    rw [split, squeeze_append, squeeze_append, squeeze_eq_nil_iff.mpr gapSpaces,
      squeeze_eq_nil_iff.mpr indent, List.nil_append, List.append_nil]
  generalize Port.extract (stripSeparator line) = parts at member passed same calm intact plainComment ⊢
  generalize (splitComment (stripSeparator line)).1 = code at plainOld same statement enclosed
  have tidy := Port.tidy_columns plainOld same
  obtain ⟨spaced, moved, loosened, laid, again⟩ := Range.exists_layoutLine_port tidy.2.2.1 member
  rw [Port.columns, laid, punctuated_port] at passed
  have shows := (Port.loosenedColumns plainOld same loosened).squeeze plainOld
  -- Without its comma the printed line holds the columns of the port, the vector respaced.
  obtain ⟨printed, split, held, plainPrinted⟩ :=
    stripSeparator_render calm tidy moved loosened enclosed shows (roomy _ _ passed)
  obtain ⟨statementAgain, columns⟩ :=
    Port.codeColumns_reread plainOld same statement intact loosened held plainPrinted
  rw [← passed] at split
  have reread : Grammar.port.classify (stripSeparator (new.render anchors portIndent)) other =
      .aligned [[], parts.direction, parts.type, normalize spaced, parts.name,
        dropTailWhile isIndent parts.comment] other := by
    refine Grammar.classify_eq_aligned_iff.mpr ⟨?_, ?_⟩
    · rw [split]
      exact statementAgain
    · have single : newline ∉ stripSeparator (new.render anchors portIndent) := fun inside => by
        rw [← Declaration.splitComment_append (stripSeparator _), split] at inside
        have whole := plainPrinted.append (plainComment.subset (dropTailWhile_subset isIndent _))
        exact absurd (whole newline inside) (by decide)
      rw [Grammar.layout_eq single, split]
      exact congrArg (· ++ [dropTailWhile isIndent parts.comment]) columns
  rw [classifyPort_of_classify reread]
  exact Range.laidLike_port tidy.2.2.1 calm.comment again

end HdlAlign.Block
