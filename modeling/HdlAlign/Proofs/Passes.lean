import HdlAlign.Proofs.Extraction

/-! The passes over the lines of a block, with every access to a field, a width, a token or a place
of the output checked.  None is out of range where aligned lines have the columns that the passes
rewrite. -/

namespace HdlAlign.Checked

open Text

/-! Fields -/

def field (column : Nat) (fields : List Text) : Option Text :=
  if column < fields.length then item column fields else some []

def withField (column : Nat) (value : Text) (fields : List Text) (source : Int) : Option Line := do
  let fields ← store column value fields
  some (.aligned fields source)

theorem field_eq (column : Nat) (fields : List Text) :
    field column fields = some (fields.getD column []) := by
  rw [field, List.getD_eq_getElem?_getD]
  split
  · next inside => rw [item_natCast, List.getElem?_eq_getElem inside, Option.getD_some]
  · next outside => rw [List.getElem?_eq_none (Nat.le_of_not_lt outside), Option.getD_none]

theorem withField_eq {column : Nat} {fields : List Text} (inside : column < fields.length)
    (value : Text) (source : Int) :
    withField column value fields source =
      some ((Line.aligned fields source).withField column value) := by
  rw [withField, store_natCast inside]
  rfl

/-! Dimension lists -/

def growWidth (widths : List Nat) (entry : Text × Nat) : Option (List Nat) :=
  let (token, index) := entry
  if widths.length ≤ index then some (widths ++ [token.width])
  else do
    if (← item index widths) < token.width then store index token.width widths else some widths

def writeToken (widths : List Nat) (w : Writer) (entry : Text × Nat) : Option Writer := do
  let (token, index) := entry
  if index % 2 = 0 then
    let width ← item index widths
    some (((w.byte '[').padLeft token width).byte ':')
  else
    let width ← item index widths
    some ((w.padLeft token width).byte ']')

def renderRange (tokens : List Text) (widths : List Nat) : Option Text := do
  let w ← tokens.zipIdx.foldlM (writeToken widths) {}
  some w.text

def readRange (column : Nat) (state : List (Option (List Text)) × List Nat) (entry : Line × Nat) :
    Option (List (Option (List Text)) × List Nat) :=
  let (line, index) := entry
  match line with
  | .verbatim _ _ => some state
  | .aligned fields _ => do
    let field ← field column fields
    if field.isEmpty then some state
    else
      match Range.parse field with
      | .error _ => some state
      | .ok groups =>
        let tokens ← store index (some (Range.indexes groups)) state.1
        let widths ← (Range.indexes groups).zipIdx.foldlM growWidth state.2
        some (tokens, widths)

def writeRange (column : Nat) (tokens : List (Option (List Text))) (widths : List Nat)
    (index : Nat) : Line → Option Line
  | .verbatim text source => some (.verbatim text source)
  | .aligned fields source => do
    match ← item index tokens with
    | none => some (.aligned fields source)
    | some tokens =>
      let text ← renderRange tokens widths
      withField column text fields source

def alignRanges (column : Nat) (lines : List Line) : Option (List Line) := do
  let (tokens, widths) ← lines.zipIdx.foldlM (readRange column)
    (List.replicate lines.length none, [])
  fill (writeRange column tokens widths) lines

def flatten (widths : List Range.GroupWidth) : List Nat :=
  widths.flatMap fun (left, right) => [left, right]

def tokens (column : Nat) (line : Line) : Option (List Text) :=
  (Range.cell column line).list?.map Range.indexes

theorem growWidth_append (front tail : List Nat) (token : Text) :
    growWidth (front ++ tail) (token, front.length) =
      some (front ++ max (tail.headD 0) token.width :: tail.tail) := by
  rw [growWidth]
  cases tail with
  | nil => simp
  | cons old rest =>
      rw [if_neg (by simp), item_append, Option.bind_eq_bind, Option.bind_some, store_append]
      split
      · next less => rw [List.headD_cons, Nat.max_eq_right (Nat.le_of_lt less), List.tail_cons]
      · next more => rw [List.headD_cons, Nat.max_eq_left (Nat.le_of_not_lt more), List.tail_cons]

theorem range_widen_cons (widths : List Range.GroupWidth) (group : Range.Group)
    (groups : List Range.Group) :
    Range.widen widths (group :: groups) =
      (max (widths.headD (0, 0)).1 group.left.width,
        max (widths.headD (0, 0)).2 group.right.width) :: Range.widen widths.tail groups := by
  cases widths with
  | nil => rw [Range.widen, List.headD_nil, Nat.zero_max, Nat.zero_max, List.tail_nil]
  | cons width widths => rfl

theorem growWidth_flatten (front : List Nat) (widths : List Range.GroupWidth) (left right : Text) :
    ([left, right].zipIdx front.length).foldlM growWidth (front ++ flatten widths) =
      some (front ++ flatten ((max (widths.headD (0, 0)).1 left.width,
        max (widths.headD (0, 0)).2 right.width) :: widths.tail)) := by
  obtain ⟨leftHead, rightHead, behind⟩ : (flatten widths).headD 0 = (widths.headD (0, 0)).1 ∧
      (flatten widths).tail.headD 0 = (widths.headD (0, 0)).2 ∧
      (flatten widths).tail.tail = flatten widths.tail := by
    cases widths <;> exact ⟨rfl, rfl, rfl⟩
  have first := growWidth_append front (flatten widths) left
  have second := growWidth_append (front ++ [max (widths.headD (0, 0)).1 left.width])
    (flatten widths).tail right
  rw [leftHead] at first
  rw [rightHead, behind, List.length_append, List.append_assoc, List.append_assoc] at second
  rw [List.zipIdx_cons, List.foldlM_cons, first, Option.bind_eq_bind, Option.bind_some]
  exact (Option.bind_fun_some _).trans second

theorem growWidths_eq (front : List Nat) (widths : List Range.GroupWidth)
    (groups : List Range.Group) :
    ((Range.indexes groups).zipIdx front.length).foldlM growWidth (front ++ flatten widths) =
      some (front ++ flatten (Range.widen widths groups)) := by
  induction groups generalizing front widths with
  | nil => cases widths <;> rfl
  | cons group groups ih =>
      rw [Range.indexes, List.flatMap_cons, ← Range.indexes, List.zipIdx_append,
        List.foldlM_append, growWidth_flatten, range_widen_cons]
      generalize max (widths.headD (0, 0)).1 group.left.width = left
      generalize max (widths.headD (0, 0)).2 group.right.width = right
      have next := ih (front ++ [left, right]) widths.tail
      rw [List.length_append, List.append_assoc, List.append_assoc] at next
      exact next

theorem writeToken_even {front : List Nat} (even : front.length % 2 = 0) (width : Nat)
    (back : List Nat) (w : Writer) (token : Text) :
    writeToken (front ++ width :: back) w (token, front.length) =
      some (((w.byte '[').padLeft token width).byte ':') := by
  rw [writeToken, if_pos even, item_append]
  rfl

theorem writeToken_odd {front : List Nat} (odd : front.length % 2 = 1) (width : Nat)
    (back : List Nat) (w : Writer) (token : Text) :
    writeToken (front ++ width :: back) w (token, front.length) =
      some ((w.padLeft token width).byte ']') := by
  rw [writeToken, if_neg (by omega), item_append]
  rfl

theorem writeGroup_eq {front : List Nat} (even : front.length % 2 = 0) (group : Range.Group)
    (width : Range.GroupWidth) (back : List Nat) (w : Writer) :
    ∃ next : Writer, next.text = w.text ++ Range.renderGroup group width ∧
      ([group.left, group.right].zipIdx front.length).foldlM
        (writeToken (front ++ width.1 :: width.2 :: back)) w = some next := by
  have odd : (front ++ [width.1]).length % 2 = 1 := by
    rw [List.length_append, List.length_singleton]
    omega
  have first := writeToken_even even width.1 (width.2 :: back) w group.left
  generalize written : ((w.byte '[').padLeft group.left width.1).byte ':' = middle at first
  have second := writeToken_odd odd width.2 back middle group.right
  rw [List.append_assoc, List.length_append] at second
  refine ⟨(middle.padLeft group.right width.2).byte ']', ?_, ?_⟩
  · have opening : ofString "[" = [('[' : UInt8)] := by decide
    have colon : ofString ":" = [(':' : UInt8)] := by decide
    have closing : ofString "]" = [(']' : UInt8)] := by decide
    rw [← written, Range.renderGroup, opening, colon, closing]
    simp
  · rw [List.zipIdx_cons, List.foldlM_cons, first, Option.bind_eq_bind, Option.bind_some]
    exact (Option.bind_fun_some _).trans second

theorem writeTokens_eq (front : List Nat) (even : front.length % 2 = 0)
    {groups : List Range.Group} {widths : List Range.GroupWidth}
    (wide : groups.length ≤ widths.length) (w : Writer) :
    (((Range.indexes groups).zipIdx front.length).foldlM
        (writeToken (front ++ flatten widths)) w).map Writer.text =
      some (w.text ++ Range.render groups widths) := by
  induction groups generalizing front widths w with
  | nil =>
      rw [Range.render, List.zipWith_nil_left, List.flatten_nil, List.append_nil]
      rfl
  | cons group groups ih =>
      cases widths with
      | nil => cases wide
      | cons width widths =>
          obtain ⟨next, text, group⟩ := writeGroup_eq even group width (flatten widths) w
          have rest := ih (front ++ [width.1, width.2])
            (by rw [List.length_append]; exact (Nat.add_mod_right _ 2).trans even)
            (Nat.le_of_succ_le_succ wide) next
          rw [List.append_assoc, List.length_append, text, List.append_assoc] at rest
          rw [Range.indexes, List.flatMap_cons, ← Range.indexes, List.zipIdx_append,
            List.foldlM_append, flatten, List.flatMap_cons, ← flatten]
          refine Eq.trans (congrArg (Option.map _) (congrArg (Option.bind · _) group)) ?_
          exact rest

theorem renderRange_eq {groups : List Range.Group} {widths : List Range.GroupWidth}
    (wide : groups.length ≤ widths.length) :
    renderRange (Range.indexes groups) (flatten widths) = some (Range.render groups widths) := by
  have written := writeTokens_eq [] rfl wide {}
  obtain ⟨w, run, text⟩ := Option.map_eq_some_iff.mp written
  rw [List.nil_append] at run
  rw [renderRange]
  exact (congrArg (Option.bind · _) run).trans (congrArg some text)

theorem readRange_eq (column : Nat) (front back : List (Option (List Text)))
    (widths : List Range.GroupWidth) (line : Line) :
    readRange column (front ++ none :: back, flatten widths) (line, front.length) =
      some (front ++ tokens column line :: back, flatten
        ((Range.cell column line).list?.elim widths (Range.widen widths))) := by
  cases line with
  | verbatim text source => rfl
  | aligned fields source =>
      rw [readRange, field_eq, tokens, Range.cell, Line.field]
      dsimp only [Option.bind_eq_bind, Option.bind_some]
      split
      · rfl
      · cases read : Range.parse (fields.getD column []) with
        | error fault => rfl
        | ok groups =>
            have grown := growWidths_eq [] widths groups
            dsimp only
            rw [store_append]
            exact (congrArg (Option.bind · _) grown).trans rfl

theorem readRanges_eq (column : Nat) (lines : List Line) :
    lines.zipIdx.foldlM (readRange column) (List.replicate lines.length none, []) =
      some (lines.map (tokens column), flatten (Range.columnWidths column lines)) := by
  have run (front : List (Option (List Text))) (widths : List Range.GroupWidth)
      (lines : List Line) :
      (lines.zipIdx front.length).foldlM (readRange column)
          (front ++ List.replicate lines.length none, flatten widths) =
        some (front ++ lines.map (tokens column),
          flatten ((Range.lists column lines).foldl Range.widen widths)) := by
    -- The places in front are written, and the columns hold the lists of their lines.
    induction lines generalizing front widths with
    | nil => rfl
    | cons line lines ih =>
        rw [List.zipIdx_cons, List.foldlM_cons, List.length_cons, List.replicate_succ,
          readRange_eq, Option.bind_eq_bind, Option.bind_some]
        have next := ih (front ++ [tokens column line])
          ((Range.cell column line).list?.elim widths (Range.widen widths))
        rw [List.length_append, List.append_assoc, List.append_assoc] at next
        refine next.trans ?_
        rw [Range.lists, Range.lists, List.filterMap_cons]
        cases (Range.cell column line).list? <;> rfl
  exact run [] [] lines

theorem writeRange_eq {column : Nat} {lines : List Line} {index : Nat} {line : Line}
    (found : lines[index]? = some line) :
    writeRange column (lines.map (tokens column)) (flatten (Range.columnWidths column lines))
        index line =
      some (Range.layoutLine column (Range.columnWidths column lines) line) := by
  cases line with
  | verbatim text source => rfl
  | aligned fields source =>
      have read : item index (lines.map (tokens column)) =
          some (tokens column (.aligned fields source)) := by
        rw [item_natCast, List.getElem?_map, found, Option.map_some]
      rw [writeRange, read, Range.layoutLine, tokens]
      cases cell : Range.cell column (.aligned fields source) with
      | absent => rfl
      | unparsed => rfl
      | list groups =>
          have again := Range.cell_eq_list_iff.mp cell
          have listed : groups ∈ Range.lists column lines :=
            Range.mem_lists.mpr ⟨_, List.mem_of_getElem? found, again⟩
          have inside := Range.lt_length_of_parse again
          have written := renderRange_eq (Range.length_le_columnWidths listed)
          dsimp only [Range.Cell.list?, Option.map_some, Option.bind_eq_bind, Option.bind_some]
          rw [written, Option.bind_some, withField_eq inside]

/-- A line that is no dimension list in the column, or too short for it, keeps its fields, so the
pass needs no column. -/
theorem alignRanges_eq (column : Nat) (lines : List Line) :
    alignRanges column lines = some (Range.alignColumn column lines) := by
  rw [alignRanges, readRanges_eq]
  exact fill_eq fun index line found => writeRange_eq found

/-! Assignments -/

def parseAssignment (field : Text) : Option (Option Assignment) :=
  let (terminated, body) := Assignment.splitTerminator field
  match (Assignment.operator? body).map Prod.fst with
  | none => some none
  | some operator => do
    let value ← slice operator.length body.length body
    some (some ⟨operator, Assignment.spaceOperators value, terminated⟩)

def noAssignment : Assignment := ⟨[], [], false⟩

def readAssignment (column : Nat) (state : List Assignment × List Bool) (entry : Line × Nat) :
    Option (List Assignment × List Bool) :=
  let (line, index) := entry
  match line with
  | .verbatim _ _ => some state
  | .aligned fields _ => do
    let field ← field column fields
    if field.contains '=' then
      match ← parseAssignment field with
      | none => some state
      | some value =>
        let parsed ← store index value state.1
        let isAssignment ← store index true state.2
        some (parsed, isAssignment)
    else if (Assignment.splitTerminator field).1 then
      let old ← item index state.1
      let parsed ← store index { old with terminated := true } state.1
      some (parsed, state.2)
    else some state

def writeAssignment (column : Nat) (parsed : List Assignment) (isAssignment : List Bool)
    (anyAssignment : Bool) (widths : Assignment.Widths) (index : Nat) : Line → Option Line
  | .verbatim text source => some (.verbatim text source)
  | .aligned fields source => do
    let value ← item index parsed
    if ← item index isAssignment then
      withField column (Assignment.render value widths) fields source
    else if value.terminated && anyAssignment then
      withField column (Assignment.renderTerminator true widths) fields source
    else if (← field column fields).contains '=' then some (.aligned fields source)
    else withField column (if value.terminated then Assignment.terminator else []) fields source

def alignAssignments (column : Nat) (lines : List Line) : Option (List Line) := do
  let (parsed, isAssignment) ← lines.zipIdx.foldlM (readAssignment column)
    (List.replicate lines.length noAssignment, List.replicate lines.length false)
  let found := Assignment.assignments column lines
  fill (writeAssignment column parsed isAssignment (!found.isEmpty) (Assignment.widths found)) lines

def parsed (column : Nat) : Line → Assignment × Bool
  | .verbatim _ _ => (noAssignment, false)
  | .aligned fields _ =>
    match Assignment.cell (fields.getD column []) with
    | .assignment value => (value, true)
    | .terminator => ({ noAssignment with terminated := true }, false)
    | .foreign | .nothing => (noAssignment, false)

theorem parseAssignment_eq (field : Text) :
    parseAssignment field = some (Assignment.parse? field) := by
  rw [parseAssignment, Assignment.parse?]
  rcases Assignment.splitTerminator field with ⟨terminated, body⟩
  dsimp only
  cases found : Assignment.operator? body with
  | none => rfl
  | some cut =>
      obtain ⟨operator, value⟩ := cut
      have split : body = operator ++ value := (Assignment.operator?_eq_some_iff.mp found).2
      rw [split]
      simp only [Option.map_some, slice_back, Option.bind_eq_bind, Option.bind_some]

theorem readAssignment_eq (column : Nat) (front back : List Assignment)
    (frontFlags backFlags : List Bool) (same : front.length = frontFlags.length) (line : Line) :
    readAssignment column (front ++ noAssignment :: back, frontFlags ++ false :: backFlags)
        (line, front.length) =
      some (front ++ (parsed column line).1 :: back,
        frontFlags ++ (parsed column line).2 :: backFlags) := by
  cases line with
  | verbatim text source => rfl
  | aligned fields source =>
      rw [readAssignment, field_eq, parsed, Assignment.cell]
      dsimp only [Option.bind_eq_bind, Option.bind_some]
      split
      · rw [parseAssignment_eq, Option.bind_some]
        cases Assignment.parse? (fields.getD column []) with
        | none => rfl
        | some value =>
            dsimp only
            rw [store_append, Option.bind_some, same, store_append, Option.bind_some]
      · split
        · rw [item_append, Option.bind_some, store_append, Option.bind_some]
        · rfl

theorem readAssignments_eq (column : Nat) (lines : List Line) :
    lines.zipIdx.foldlM (readAssignment column)
        (List.replicate lines.length noAssignment, List.replicate lines.length false) =
      some (lines.map fun line => (parsed column line).1,
        lines.map fun line => (parsed column line).2) := by
  have run (front : List Assignment) (flags : List Bool) (same : front.length = flags.length)
      (lines : List Line) :
      (lines.zipIdx front.length).foldlM (readAssignment column)
          (front ++ List.replicate lines.length noAssignment,
            flags ++ List.replicate lines.length false) =
        some (front ++ lines.map fun line => (parsed column line).1,
          flags ++ lines.map fun line => (parsed column line).2) := by
    induction lines generalizing front flags with
    | nil => rfl
    | cons line lines ih =>
        rw [List.zipIdx_cons, List.foldlM_cons, List.length_cons, List.replicate_succ,
          List.replicate_succ, readAssignment_eq column _ _ _ _ same, Option.bind_eq_bind,
          Option.bind_some]
        have next := ih (front ++ [(parsed column line).1]) (flags ++ [(parsed column line).2])
          (by rw [List.length_append, List.length_append, same]; rfl)
        rw [List.length_append, List.append_assoc, List.append_assoc, List.append_assoc,
          List.append_assoc] at next
        exact next
  exact run [] [] rfl lines

theorem contains_of_cell (field : Text) :
    match Assignment.cell field with
    | .terminator | .nothing => field.contains '=' = false
    | .foreign => field.contains '=' = true
    | .assignment _ => True := by
  rw [Assignment.cell]
  cases equals : field.contains '=' with
  | true => cases Assignment.parse? field <;> trivial
  | false => cases (Assignment.splitTerminator field).1 <;> rfl

theorem writeAssignment_eq {column : Nat} {lines : List Line} {index : Nat} {line : Line}
    (found : lines[index]? = some line) (reaches : line.reaches column) (anyAssignment : Bool)
    (widths : Assignment.Widths) :
    writeAssignment column (lines.map fun line => (parsed column line).1)
        (lines.map fun line => (parsed column line).2) anyAssignment widths index line =
      some (Assignment.layoutLine column anyAssignment widths line) := by
  cases line with
  | verbatim text source => rfl
  | aligned fields source =>
      have inside : column < fields.length := by simpa [Line.reaches] using reaches
      have value : item index (lines.map fun line => (parsed column line).1) =
          some (parsed column (.aligned fields source)).1 := by
        rw [item_natCast, List.getElem?_map, found, Option.map_some]
      have flag : item index (lines.map fun line => (parsed column line).2) =
          some (parsed column (.aligned fields source)).2 := by
        rw [item_natCast, List.getElem?_map, found, Option.map_some]
      rw [writeAssignment, value, flag, Assignment.layoutLine, Assignment.layoutField, Line.field,
        parsed]
      simp only [Option.bind_eq_bind, Option.bind_some, field_eq, withField_eq inside]
      have equals := contains_of_cell (fields.getD column [])
      cases cell : Assignment.cell (fields.getD column []) with
      | assignment value => rfl
      | terminator =>
          rw [cell] at equals
          dsimp only at equals
          simp only [Bool.false_eq_true, if_false, equals]
          cases anyAssignment <;> rfl
      | foreign =>
          rw [cell] at equals
          dsimp only at equals
          have same : (Line.aligned fields source).withField column (fields.getD column []) =
              .aligned fields source := by
            rw [Line.withField, List.getD_eq_getElem _ _ inside, List.set_getElem_self]
          simp only [noAssignment, Bool.false_eq_true, if_false, Bool.false_and, equals, if_true,
            same]
      | nothing =>
          rw [cell] at equals
          dsimp only at equals
          simp only [noAssignment, Bool.false_eq_true, if_false, Bool.false_and, equals]

theorem alignAssignments_eq {column : Nat} {lines : List Line}
    (reaches : ∀ line ∈ lines, line.reaches column) :
    alignAssignments column lines = some (Assignment.alignColumn column lines) := by
  rw [alignAssignments, readAssignments_eq]
  exact fill_eq fun index line found =>
    writeAssignment_eq found (reaches line (List.mem_of_getElem? found)) _ _

/-! Commas -/

def portsFrom (first : Nat) (lines : List Line) : List Nat :=
  ((lines.zipIdx first).filter fun entry => entry.1.isAligned).map Prod.snd

def placeComma (endOfLine : Bool) (count : Nat) (lines : List Line) (entry : Nat × Nat) :
    Option (List Line) := do
  let (place, number) := entry
  match ← item place lines with
  | .verbatim _ _ => none
  | .aligned fields source =>
    if endOfLine && decide ((number : Int) < count - 1) then
      let name ← field Ports.nameColumn fields
      let line ← withField Ports.nameColumn (name ++ Ports.comma) fields source
      store place line lines
    else if !endOfLine && decide (0 < number) then
      let line ← withField Ports.separatorColumn Ports.comma fields source
      store place line lines
    else some lines

def placeCommas (endOfLine : Bool) (lines : List Line) : Option (List Line) :=
  (portsFrom 0 lines).zipIdx.foldlM (placeComma endOfLine (portsFrom 0 lines).length) lines

def withComma (endOfLine earlier later : Bool) (line : Line) : Line :=
  if endOfLine then
    if line.isAligned && later then
      line.withField Ports.nameColumn (line.field Ports.nameColumn ++ Ports.comma)
    else line
  else if line.isAligned && earlier then line.withField Ports.separatorColumn Ports.comma
  else line

def commas (endOfLine earlier : Bool) (lines : List Line) : List Line :=
  if endOfLine then Ports.commasBehind lines else Ports.commasBefore earlier lines

theorem commas_cons (endOfLine earlier : Bool) (line : Line) (lines : List Line) :
    commas endOfLine earlier (line :: lines) =
      withComma endOfLine earlier (lines.any Line.isAligned) line ::
        commas endOfLine (earlier || line.isAligned) lines := by
  cases endOfLine <;> rfl

theorem portsFrom_cons (first : Nat) (line : Line) (lines : List Line) :
    portsFrom first (line :: lines) =
      if line.isAligned then first :: portsFrom (first + 1) lines
      else portsFrom (first + 1) lines := by
  rw [portsFrom, List.zipIdx_cons, List.filter_cons]
  split <;> rfl

theorem length_portsFrom_pos (first : Nat) (lines : List Line) :
    decide (0 < (portsFrom first lines).length) = lines.any Line.isAligned := by
  induction lines generalizing first with
  | nil => rfl
  | cons line lines ih =>
      rw [portsFrom_cons, List.any_cons, ← ih (first + 1)]
      cases line.isAligned <;> simp

theorem placeComma_eq (endOfLine : Bool) (front back : List Line) {line : Line}
    (port : line.isAligned) (reaches : line.reaches Ports.nameColumn) (number more : Nat) :
    placeComma endOfLine (number + 1 + more) (front ++ line :: back) (front.length, number) =
      some (front ++
        withComma endOfLine (decide (0 < number)) (decide (0 < more)) line :: back) := by
  cases line with
  | verbatim text source => cases port
  | aligned fields source =>
      have name : Ports.nameColumn < fields.length := by simpa [Line.reaches] using reaches
      have separator : Ports.separatorColumn < fields.length := Nat.zero_lt_of_lt name
      have last : decide ((number : Int) < (number + 1 + more : Nat) - 1) = decide (0 < more) :=
        decide_eq_decide.mpr (by omega)
      rw [placeComma]
      simp only [item_append, Option.bind_eq_bind, Option.bind_some, last, withComma,
        Line.isAligned, Bool.true_and, field_eq, withField_eq name, withField_eq separator,
        store_append]
      cases endOfLine
      · cases decide (0 < number) <;> rfl
      · cases decide (0 < more) <;> rfl

theorem placeCommas_run (endOfLine : Bool) (front : List Line) {lines : List Line}
    (reaches : ∀ line ∈ lines, line.reaches Ports.nameColumn) (number : Nat) :
    ((portsFrom front.length lines).zipIdx number).foldlM
        (placeComma endOfLine (number + (portsFrom front.length lines).length)) (front ++ lines) =
      some (front ++ commas endOfLine (decide (0 < number)) lines) := by
  -- The lines in front have their commas, and `number` of them are ports.
  induction lines generalizing front number with
  | nil => cases endOfLine <;> rfl
  | cons line lines ih =>
      have others : ∀ line ∈ lines, line.reaches Ports.nameColumn :=
        fun other member => reaches other (by simp [member])
      rw [portsFrom_cons, commas_cons, ← length_portsFrom_pos (front.length + 1)]
      cases port : line.isAligned with
      | false =>
          have next := ih (front ++ [line]) others number
          have plain : withComma endOfLine (decide (0 < number))
              (decide (0 < (portsFrom (front.length + 1) lines).length)) line = line := by
            simp [withComma, port]
          rw [List.length_append, List.append_assoc, List.append_assoc] at next
          rw [plain, Bool.or_false]
          exact next
      | true =>
          rw [if_pos rfl, List.length_cons, List.zipIdx_cons, List.foldlM_cons, Bool.or_true]
          have count : number + ((portsFrom (front.length + 1) lines).length + 1) =
              number + 1 + (portsFrom (front.length + 1) lines).length := by omega
          rw [count, placeComma_eq endOfLine front lines port (reaches line (by simp)),
            Option.bind_eq_bind, Option.bind_some]
          have next := ih (front ++ [withComma endOfLine (decide (0 < number))
            (decide (0 < (portsFrom (front.length + 1) lines).length)) line]) others (number + 1)
          rw [List.length_append, List.append_assoc, List.append_assoc,
            decide_eq_true (Nat.succ_pos number)] at next
          exact next

theorem placeCommas_eq {lines : List Line}
    (reaches : ∀ line ∈ lines, line.reaches Ports.nameColumn) (endOfLine : Bool) :
    placeCommas endOfLine lines = some (Ports.placeCommas endOfLine lines) := by
  have run := placeCommas_run endOfLine [] reaches 0
  rw [Nat.zero_add] at run
  exact run

end HdlAlign.Checked
