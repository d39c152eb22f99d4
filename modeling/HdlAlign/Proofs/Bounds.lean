import HdlAlign.Proofs.Framing
import HdlAlign.Proofs.Passes
import HdlAlign.Proofs.Printing

/-! Aligning a block with checked access to everything that is cut, read and written by an index.
It comes to the same as without the checks, so no index is out of range. -/

namespace HdlAlign

def Line.fieldCount : Line → Option Nat
  | aligned fields _ => some fields.length
  | verbatim _ _ => none

@[simp] theorem Line.fieldCount_withField (line : Line) (column : Nat) (value : Text) :
    (line.withField column value).fieldCount = line.fieldCount := by
  cases line with
  | aligned fields source => exact congrArg some List.length_set
  | verbatim text source => rfl

theorem Line.reaches_eq (line : Line) (column : Nat) :
    line.reaches column = line.fieldCount.all (column < ·) := by
  cases line <;> rfl

theorem Line.reaches_of_fieldCounts {column : Nat} {new old : List Line}
    (same : new.map Line.fieldCount = old.map Line.fieldCount)
    (reaches : ∀ line ∈ old, line.reaches column) : ∀ line ∈ new, line.reaches column := by
  intro line member
  have counted : line.fieldCount ∈ old.map Line.fieldCount :=
    same ▸ List.mem_map_of_mem member
  obtain ⟨other, listed, count⟩ := List.mem_map.mp counted
  rw [reaches_eq, ← count, ← reaches_eq]
  exact reaches other listed

theorem Range.fieldCounts_alignColumn (column : Nat) (lines : List Line) :
    (alignColumn column lines).map Line.fieldCount = lines.map Line.fieldCount := by
  rw [alignColumn, List.map_map]
  refine List.map_congr_left fun line _ => ?_
  rw [Function.comp_apply, layoutLine]
  split
  · exact line.fieldCount_withField _ _
  · rfl

theorem Assignment.fieldCounts_alignColumn (column : Nat) (lines : List Line) :
    (alignColumn column lines).map Line.fieldCount = lines.map Line.fieldCount := by
  rw [alignColumn, List.map_map]
  exact List.map_congr_left fun line _ => line.fieldCount_withField _ _

theorem Ports.fieldCounts_placeCommas (endOfLine : Bool) (lines : List Line) :
    (placeCommas endOfLine lines).map Line.fieldCount = lines.map Line.fieldCount := by
  have each (earlier : Bool) (lines : List Line) :
      (Checked.commas endOfLine earlier lines).map Line.fieldCount =
        lines.map Line.fieldCount := by
    induction lines generalizing earlier with
    | nil => cases endOfLine <;> rfl
    | cons line lines ih =>
        rw [Checked.commas_cons, List.map_cons, List.map_cons, ih, Checked.withComma]
        refine congrArg (· :: _) ?_
        split
        all_goals
          split
          · exact line.fieldCount_withField _ _
          · rfl
  exact each false lines

theorem Grammar.fieldCount_classify {grammar : Grammar} {line : Text} {source : Int} {count : Nat}
    (counted : (grammar.classify line source).fieldCount = some count) :
    count = grammar.columns := by
  rw [classify] at counted
  split at counted
  · cases counted
  · split at counted
    · rw [Line.fieldCount, length_layout] at counted
      exact (Option.some.inj counted).symm
    · cases counted

theorem Grammar.reaches_classify {grammar : Grammar} {column : Nat}
    (inside : column < grammar.columns) (line : Text) (source : Int) :
    (grammar.classify line source).reaches column := by
  rw [Line.reaches_eq, Option.all_eq_true]
  intro count counted
  rw [fieldCount_classify counted]
  exact decide_eq_true inside

namespace Checked

open Text Block Statement

/-! Declarations -/

def readDeclaration (state : List Line × Option Text) (entry : Nat × Text) :
    Option (List Line × Option Text) := do
  let line ← classify .declaration entry.2 entry.1
  let indent ←
    if line.isAligned && state.2.isNone then (indentation entry.2).map some else some state.2
  some (state.1 ++ [line], indent)

def alignDeclarations (options : Options) (text : Text) : Option Aligned := do
  let (classified, indent) ← (numbered options.condense 0 text).foldlM readDeclaration ([], none)
  let vectors ← alignRanges Declaration.vectorColumn classified
  let arrays ← alignRanges Declaration.arrayColumn vectors
  let assignments ← alignAssignments Declaration.assignmentColumn arrays
  let batch : Batch := ⟨assignments, indent.getD []⟩
  let text ← renderBatch batch
  some
    { text
      mode := .declarations
      verbatim := untouched batch.lines
      rangeMismatch := (Range.stats Declaration.vectorColumn classified).mismatch ||
        (Range.stats Declaration.arrayColumn vectors).mismatch
      count := batch.alignedCount }

/-! Port lists -/

def stripSeparator (line : Text) : Option Text := do
  let (code, comment) ← splitComment line
  let indent ← indentation code
  let body := trim (trimHead Ports.comma (trim code))
  let body := trim (trimTail Ports.comma body)
  let start := indent ++ body
  some (if comment.isEmpty then start
    else if body.isEmpty then start ++ comment
    else start ++ blank :: comment)

def classifyPort (index : Nat) (line : Text) : Option Line := do
  let stripped ← stripSeparator line
  match ← classify .port stripped index with
  | .verbatim text source =>
    some (if text.isEmpty then .verbatim text source else .verbatim line source)
  | port => some port

def trimFront : (rounds : Nat) → List Line → Option (List Line)
  | 0, lines => some lines
  | rounds + 1, lines =>
    if 0 < lines.length then do
      if (← item 0 lines).isEmptyLine then
        let rest ← slice 1 lines.length lines
        trimFront rounds rest
      else some lines
    else some lines

def trimBack : (rounds : Nat) → List Line → Option (List Line)
  | 0, lines => some lines
  | rounds + 1, lines =>
    if 0 < lines.length then do
      if (← item (lines.length - 1) lines).isEmptyLine then
        let rest ← slice 0 (lines.length - 1) lines
        trimBack rounds rest
      else some lines
    else some lines

def trimEmptyLines (lines : List Line) : Option (List Line) := do
  let lines ← trimFront lines.length lines
  trimBack lines.length lines

def closings (first : Nat) : Text → List Nat
  | [] => []
  | byte :: rest =>
    if closes (byte :: rest) then first :: closings (first + 1) rest
    else closings (first + 1) rest

/-- The offset of the last occurrence of a byte, -1 if there is none. -/
def lastIndex (byte : UInt8) (text : Text) : Int := text.length - 1 - (afterLast byte text).length

/-- Cuts a port list off its footer at the offset of the last closing, or of its line if only white
space stands in front. -/
def splitBody (rest : Text) : Option (Text × Text) := do
  let found := closings 0 rest
  if 0 < found.length then
    let closing ← item (found.length - 1) found
    let front ← slice 0 closing rest
    let lineStart := lastIndex newline front + 1
    let margin ← slice lineStart closing rest
    let cut := if isBlank margin then lineStart else closing
    let body ← slice 0 cut rest
    let footer ← slice cut rest.length rest
    some (body, footer)
  else some (rest, [])

def alignPorts (options : Options) (text : Text) (headEnd : Nat) : Option Aligned := do
  let header ← slice 0 headEnd text
  let rest ← slice headEnd text.length text
  let (body, footer) ← splitBody rest
  let frame : Frame := ⟨header, body, footer⟩
  let lines ← (numbered options.condense frame.firstLine frame.list).mapM fun (index, line) =>
    classifyPort index line
  let classified ← trimEmptyLines lines
  let vectors ← alignRanges Port.vectorColumn classified
  let placed ← placeCommas options.endOfLine vectors
  let batch : Batch := ⟨placed, portIndent⟩
  let list ← renderBatch batch
  let parts := [header] ++ (if batch.lines.isEmpty then [] else [list]) ++
    (if footer.isEmpty then [] else [footer])
  some
    { text := unlines parts
      mode := .ports
      verbatim := untouched batch.lines
      rangeMismatch := (Range.stats Port.vectorColumn classified).mismatch
      count := batch.alignedCount }

/-! Blocks -/

def alignBody (options : Options) (body : Text) : Option Aligned :=
  match (splitHeader? true body).map fun (header, _) => header.length with
  | some headEnd => alignPorts options body headEnd
  | none => alignDeclarations options body

def align (options : Options) (text : Text) : Option Aligned := do
  let (body, final) := splitFinalNewline text
  if isBlank body then some { text := text }
  else
    let result ← alignBody options body
    some { result with text := result.text ++ final }

theorem readDeclarations_eq (options : Options) (text : Text) :
    (numbered options.condense 0 text).foldlM readDeclaration ([], none) =
      some (declarationLines options text,
        ((numbered options.condense 0 text).find? fun entry =>
          (Grammar.declaration.classify entry.2 entry.1).isAligned).map
            fun entry => Text.indentation entry.2) := by
  rw [declarationLines]
  generalize numbered options.condense 0 text = entries
  have run (lines : List Line) (indent : Option Text) :
      entries.foldlM readDeclaration (lines, indent) =
        some (lines ++ entries.map fun (index, line) => Grammar.declaration.classify line index,
          indent.or ((entries.find? fun entry =>
            (Grammar.declaration.classify entry.2 entry.1).isAligned).map
              fun entry => Text.indentation entry.2)) := by
    induction entries generalizing lines indent with
    | nil => simp
    | cons entry entries ih =>
        have step : readDeclaration (lines, indent) entry =
            some (lines ++ [Grammar.declaration.classify entry.2 entry.1],
              if (Grammar.declaration.classify entry.2 entry.1).isAligned && indent.isNone then
                some (Text.indentation entry.2) else indent) := by
          rw [readDeclaration, classify_eq, indentation_eq]
          dsimp only [Option.bind_eq_bind, Option.bind_some, Option.map_some]
          split <;> rfl
        rw [List.foldlM_cons, step, Option.bind_eq_bind, Option.bind_some, ih, List.find?_cons]
        cases (Grammar.declaration.classify entry.2 entry.1).isAligned <;> cases indent <;> simp
  exact run [] none

theorem declarationIndent_eq (options : Options) (text : Text) :
    (((numbered options.condense 0 text).find? fun entry =>
      (Grammar.declaration.classify entry.2 entry.1).isAligned).map
        fun entry => Text.indentation entry.2).getD [] = declarationIndent text := by
  have unnumbered : (fun entry : Nat × Text =>
      (Grammar.declaration.classify entry.2 entry.1).isAligned) =
      (fun line => (Grammar.declaration.classify line 0).isAligned) ∘ Prod.snd :=
    funext fun entry => isAligned_classify _ _ _ _
  have kept : (keptLines options.condense text).find?
        (fun line => (Grammar.declaration.classify line 0).isAligned) =
      text.lines.find? fun line => (Grammar.declaration.classify line 0).isAligned := by
    rw [keptLines, List.find?_filter]
    refine congrArg (List.find? · text.lines) (funext fun line => ?_)
    cases blank : isBlank line with
    | true => simp [Grammar.classify, blank, Line.isAligned]
    | false => simp
  have first := List.find?_map (p := fun line => (Grammar.declaration.classify line 0).isAligned)
    (f := Prod.snd) (l := numbered options.condense 0 text)
  rw [numbered_lines, kept, ← unnumbered] at first
  rw [declarationIndent, first]
  cases (numbered options.condense 0 text).find? fun entry =>
    (Grammar.declaration.classify entry.2 entry.1).isAligned <;> rfl

theorem alignDeclarations_eq (options : Options) (text : Text) :
    alignDeclarations options text = some (Block.alignDeclarations options text) := by
  have reaches : ∀ line ∈ Range.alignColumn Declaration.arrayColumn
      (Range.alignColumn Declaration.vectorColumn (declarationLines options text)),
      line.reaches Declaration.assignmentColumn := by
    have vectors := Range.fieldCounts_alignColumn Declaration.vectorColumn
      (declarationLines options text)
    have arrays := Range.fieldCounts_alignColumn Declaration.arrayColumn
      (Range.alignColumn Declaration.vectorColumn (declarationLines options text))
    refine Line.reaches_of_fieldCounts (arrays.trans vectors) fun line member => ?_
    obtain ⟨entry, -, rfl⟩ := List.mem_map.mp member
    exact Grammar.reaches_classify (by decide) _ _
  rw [alignDeclarations, readDeclarations_eq]
  simp only [Option.bind_eq_bind, Option.bind_some, alignRanges_eq, alignAssignments_eq reaches,
    declarationIndent_eq, renderBatch_eq]
  rfl

theorem stripSeparator_eq (line : Text) :
    stripSeparator line = some (Ports.stripSeparator line) := by
  rw [stripSeparator, splitComment_eq, Option.bind_eq_bind, Option.bind_some]
  dsimp only
  rw [indentation_eq]
  rfl

theorem classifyPort_eq (index : Nat) (line : Text) :
    classifyPort index line = some (Block.classifyPort index line) := by
  rw [classifyPort, stripSeparator_eq, Option.bind_eq_bind, Option.bind_some, classify_eq,
    Block.classifyPort]
  cases Grammar.port.classify (Ports.stripSeparator line) index with
  | aligned fields source => rfl
  | verbatim text source => cases text <;> rfl

theorem trimFront_eq {rounds : Nat} {lines : List Line} (enough : lines.length ≤ rounds) :
    trimFront rounds lines = some (lines.dropWhile Line.isEmptyLine) := by
  induction rounds generalizing lines with
  | zero => rw [List.eq_nil_of_length_eq_zero (Nat.le_zero.mp enough)]; rfl
  | succ rounds ih =>
      cases lines with
      | nil => rfl
      | cons line lines =>
          have rest := slice_back [line] lines
          have first : item 0 (line :: lines) = some line := rfl
          have lineLeft : 0 < (line :: lines).length := Nat.succ_pos _
          rw [trimFront, if_pos lineLeft, first, List.dropWhile_cons, Option.bind_eq_bind,
            Option.bind_some]
          split
          · refine Eq.trans (congrArg (Option.bind · _) rest) ?_
            exact ih (Nat.le_of_succ_le_succ enough)
          · rfl

theorem trimBack_eq {rounds : Nat} {lines : List Line} (enough : lines.length ≤ rounds) :
    trimBack rounds lines = some (lines.reverse.dropWhile Line.isEmptyLine).reverse := by
  induction rounds generalizing lines with
  | zero => rw [List.eq_nil_of_length_eq_zero (Nat.le_zero.mp enough)]; rfl
  | succ rounds ih =>
      rcases List.eq_nil_or_concat' lines with rfl | ⟨front, last, rfl⟩
      · rfl
      · have before : ((front ++ [last]).length : Int) - 1 = front.length := by
          rw [List.length_append, List.length_singleton]
          omega
        rw [trimBack, if_pos (by simp), before, item_append, slice_front, List.reverse_append,
          List.reverse_singleton, List.singleton_append, List.dropWhile_cons, Option.bind_eq_bind,
          Option.bind_some]
        split
        · rw [List.length_append] at enough
          exact ih (Nat.le_of_succ_le_succ enough)
        · simp

theorem trimEmptyLines_eq (lines : List Line) :
    trimEmptyLines lines = some (HdlAlign.trimEmptyLines lines) := by
  rw [trimEmptyLines, trimFront_eq (Nat.le_refl _), Option.bind_eq_bind, Option.bind_some,
    trimBack_eq (Nat.le_refl _)]
  rfl

theorem getLast?_closings (first : Nat) (text : Text) :
    (closings first text).getLast? =
      (splitFooter? text).map fun (body, _) => first + body.length := by
  induction text generalizing first with
  | nil => rfl
  | cons byte text ih =>
      have later := ih (first + 1)
      rw [closings, splitFooter?]
      cases found : splitFooter? text with
      | none =>
          rw [found] at later
          rw [List.getLast?_eq_none_iff.mp later]
          split <;> rfl
      | some cut =>
          rw [found] at later
          dsimp only [Option.map_some] at later ⊢
          rw [List.length_cons, Nat.add_comm cut.1.length, ← Nat.add_assoc]
          split
          · rw [List.getLast?_cons, later, Option.getD_some]
          · exact later

theorem splitBody_eq (rest : Text) : splitBody rest = some (Block.splitBody rest) := by
  have last := getLast?_closings 0 rest
  rw [splitBody, Block.splitBody]
  cases found : splitFooter? rest with
  | none =>
      rw [found] at last
      rw [List.getLast?_eq_none_iff.mp last]
      rfl
  | some cut =>
      obtain ⟨front, closing⟩ := cut
      obtain ⟨rfl, -⟩ := splitFooter?_split found
      rw [found] at last
      dsimp only [Option.map_some] at last ⊢
      rw [Nat.zero_add] at last
      obtain ⟨earlier, listed⟩ := List.getLast?_eq_some_iff.mp last
      have before : ((earlier ++ [front.length]).length : Int) - 1 = earlier.length := by
        rw [List.length_append, List.length_singleton]
        omega
      obtain ⟨others, split, -⟩ := afterLast_split newline front
      generalize same : afterLast newline front = margin at split
      have length : front.length = others.length + margin.length := by
        rw [split, List.length_append]
      have lineStart : lastIndex newline front + 1 = others.length := by
        rw [lastIndex, same]
        omega
      have marginPart : slice others.length front.length (front ++ closing) = some margin := by
        rw [length, split, List.append_assoc, slice_middle]
      have whole : front ++ closing = others ++ (margin ++ closing) := by
        rw [split, List.append_assoc]
      have othersPart : front.take (front.length - margin.length) = others := by
        rw [length, Nat.add_sub_cancel, split, List.take_left]
      rw [listed, if_pos (by simp), before, item_append]
      simp only [Option.bind_eq_bind, Option.bind_some, slice_front, lineStart, marginPart]
      split
      · rw [othersPart, whole, slice_front, Option.bind_some, slice_back, Option.bind_some]
      · rw [slice_front, Option.bind_some, slice_back, Option.bind_some]

theorem alignPorts_eq (options : Options) {text header rest : Text}
    (found : splitHeader? true text = some (header, rest)) :
    alignPorts options text header.length = some (Block.alignPorts options
      ⟨header, (Block.splitBody rest).1, (Block.splitBody rest).2⟩) := by
  obtain ⟨rfl, -⟩ := splitHeader?_split found
  rcases cut : Block.splitBody rest with ⟨body, footer⟩
  have reaches : ∀ line ∈ Range.alignColumn Port.vectorColumn
      (portLines options ⟨header, body, footer⟩), line.reaches Ports.nameColumn := by
    refine Line.reaches_of_fieldCounts (Range.fieldCounts_alignColumn _ _) fun line member => ?_
    obtain ⟨index, input, -, rfl⟩ := mem_portLines member
    rw [Block.classifyPort]
    have port : (Grammar.port.classify (Ports.stripSeparator input) index).reaches
        Ports.nameColumn := Grammar.reaches_classify (by decide) _ _
    split
    · split <;> rfl
    · exact port
  rw [alignPorts, slice_front, slice_back]
  simp only [Option.bind_eq_bind, Option.bind_some, splitBody_eq, cut]
  rw [mapM_eq_map fun entry _ => classifyPort_eq entry.1 entry.2]
  simp only [Option.bind_some, trimEmptyLines_eq]
  rw [← portLines, alignRanges_eq, Option.bind_some, placeCommas_eq reaches, Option.bind_some,
    renderBatch_eq]
  rfl

theorem alignBody_eq (options : Options) (body : Text) :
    alignBody options body = some (Block.alignBody options body) := by
  rw [alignBody, Block.alignBody, frame?]
  cases found : splitHeader? true body with
  | none => exact alignDeclarations_eq options body
  | some cut => exact alignPorts_eq options found

theorem align_eq (options : Options) (text : Text) :
    align options text = some (Block.align options text) := by
  rw [align, Block.align]
  dsimp only
  split
  · rfl
  · rw [alignBody_eq]
    rfl

/-- No block and no options take aligning out of range: with every slice, every read and every write
checked it comes to its result.  The header, the list and the footer are cut within the text, and
the widths of a column reach as far as the tokens of every line.  A statement has the columns of its
grammar, and no pass adds or drops one. -/
theorem align_inRange :
    (∀ options text, align options text = some (Block.align options text)) ∧
      (∀ text header rest, splitHeader? true text = some (header, rest) →
        slice 0 header.length text = some header ∧
          slice header.length text.length text = some rest) ∧
      (∀ rest, splitBody rest = some (Block.splitBody rest)) ∧
      (∀ column lines, ∀ groups ∈ Range.lists column lines,
        renderRange (Range.indexes groups) (flatten (Range.columnWidths column lines)) =
          some (Range.render groups (Range.columnWidths column lines))) ∧
      (∀ grammar line source count,
        (Grammar.classify grammar line source).fieldCount = some count →
          columns grammar = some count) ∧
      (∀ column lines,
        (Range.alignColumn column lines).map Line.fieldCount = lines.map Line.fieldCount) ∧
      (∀ column lines,
        (Assignment.alignColumn column lines).map Line.fieldCount = lines.map Line.fieldCount) ∧
      ∀ endOfLine lines,
        (Ports.placeCommas endOfLine lines).map Line.fieldCount = lines.map Line.fieldCount := by
  refine ⟨align_eq, fun text header rest found => ?_, splitBody_eq,
    fun column lines groups listed => renderRange_eq (Range.length_le_columnWidths listed),
    fun grammar line source count counted => ?_, Range.fieldCounts_alignColumn,
    Assignment.fieldCounts_alignColumn, Ports.fieldCounts_placeCommas⟩
  · obtain ⟨rfl, -⟩ := splitHeader?_split found
    exact ⟨slice_front header rest, slice_back header rest⟩
  · rw [columns_eq, Grammar.fieldCount_classify counted]

end Checked

end HdlAlign
