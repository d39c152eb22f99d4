import HdlAlign.Proofs.Separators

/-! The commas that the layout of a port list puts between its ports. -/

namespace HdlAlign.Statement.Port

open Pattern Text Utf8 Declaration

theorem isStatement_head {code : Text} (statement : isStatement code) :
    ∃ byte ∈ code, isWord byte := by
  rw [isStatement, Bool.or_eq_true, matchesFront_iff, matchesFront_iff] at statement
  rcases statement with ⟨part, rest, read⟩ | ⟨part, rest, read⟩
  · obtain ⟨listed, rfl, -⟩ := keyword_eq_some_iff.mp read
    have words : ∀ word ∈ directionWords, word ≠ [] := by decide
    obtain ⟨byte, member⟩ := List.exists_mem_of_ne_nil _ (words _ listed)
    exact ⟨byte, (List.takeWhile_subset _) member, List.mem_takeWhile_imp member⟩
  · obtain ⟨_, _, _, name, -, -⟩ := andThen_eq_some_iff.mp read
    obtain ⟨_, _, _, first, -, -⟩ := andThen_eq_some_iff.mp name
    obtain ⟨byte, begins, -, same⟩ := one_eq_some_iff.mp first
    have word : ∀ byte : UInt8, (isLetter byte || byte == '_') = true → isWord byte :=
      forall_byte (by decide +kernel)
    exact ⟨byte, by simp [same], word byte begins⟩

theorem not_comma_of_isWord : ∀ {byte : UInt8}, isWord byte → isAscii byte ∧
    isWhite1 byte = false ∧ isCommaScalar ⟨Char.ofNat byte.toNat, [byte]⟩ = false :=
  @(forall_byte (by decide +kernel))

theorem exists_not_comma {code : Text} (statement : isStatement (trim code)) :
    ∃ scalar ∈ solid code, ¬isCommaScalar scalar := by
  obtain ⟨byte, member, word⟩ := isStatement_head statement
  obtain ⟨ascii, black, other⟩ := not_comma_of_isWord word
  have listed := (mem_iff_mem_solid ascii black _).mp member
  rw [solid_trim] at listed
  exact ⟨_, listed, by rw [other]; exact Bool.false_ne_true⟩

theorem calm_columns {line : Text} (single : newline ∉ line) :
    Calm (extract line).direction ∧ Calm (extract line).type ∧ Calm (extract line).vector ∧
      Calm (extract line).name := by
  have code := calm_splitComment line
  rw [direction_sound.cutFront (splitComment line).1] at code
  have behindDirection := code.right
  rw [portType_sound.cutFront (cutFront Statement.direction _).2] at behindDirection
  have behindType := behindDirection.right
  rw [vector_sound.cutFront (cutFront portType _).2] at behindType
  rw [extract_eq_cut single]
  simp only [normal, cut]
  exact ⟨calm_normalize code.left, calm_normalize behindDirection.left,
    calm_normalize behindType.left, calm_normalizeList (calm_normalize behindType.right)⟩

theorem solid_code {line : Text} (single : newline ∉ line) :
    solid (splitComment line).1 = solid (extract line).direction ++ (solid (extract line).type ++
      (solid (extract line).vector ++ solid (extract line).name)) := by
  rw [extract_eq_cut single, cut_solid_code]
  simp [normal]

theorem extract_comment {line : Text} (single : newline ∉ line) :
    (extract line).comment = (splitComment line).2 := by
  rw [extract_eq_cut single]
  rfl

end HdlAlign.Statement.Port

namespace HdlAlign.Range

open Text

theorem layoutLine_port {lines : List Line} {direction type vector name comment : Text}
    {source : Int} (member : .aligned [[], direction, type, vector, name, comment] source ∈ lines) :
    ∃ spaced, Moved spaced vector ∧
      layoutLine Statement.Port.vectorColumn (columnWidths Statement.Port.vectorColumn lines)
        (.aligned [[], direction, type, vector, name, comment] source) =
        .aligned [[], direction, type, spaced, name, comment] source := by
  have alike := layoutLine_alike Statement.Port.vectorColumn member
  rw [layoutLine] at alike ⊢
  split at alike
  · refine ⟨_, ?_, rfl⟩
    cases alike with
    | aligned _ moved =>
        cases moved with | cons _ moved => cases moved with | cons _ moved =>
        cases moved with | cons _ moved => cases moved with | cons spaced _ => exact spaced
  · exact ⟨vector, .refl vector, rfl⟩

end HdlAlign.Range

namespace HdlAlign.Ports

open Text

/-- A line with the comma that it receives, given whether ports stand before and behind it. -/
def punctuated (endOfLine earlier later : Bool) (line : Line) : Line :=
  if line.isAligned && (if endOfLine then later else earlier) then
    line.withField (commaColumn endOfLine) (line.field (commaColumn endOfLine) ++ comma)
  else line

def punctuate (endOfLine : Bool) : (earlier : Bool) → List Line → List Line
  | _, [] => []
  | earlier, line :: rest =>
    punctuated endOfLine earlier (rest.any Line.isAligned) line ::
      punctuate endOfLine (earlier || line.isAligned) rest

theorem commasBehind_eq (earlier : Bool) (lines : List Line) :
    commasBehind lines = punctuate true earlier lines := by
  induction lines generalizing earlier with
  | nil => rfl
  | cons line rest ih => rw [commasBehind, punctuate, ih]; rfl

theorem commasBefore_eq (earlier : Bool) {lines : List Line}
    (free : ∀ line ∈ lines, line.field separatorColumn = []) :
    commasBefore earlier lines = punctuate false earlier lines := by
  induction lines generalizing earlier with
  | nil => rfl
  | cons line rest ih =>
      have empty : line.field (commaColumn false) = [] := free line (by simp)
      rw [commasBefore, punctuate, ih _ fun other member => free other (by simp [member]),
        punctuated, empty]
      rfl

theorem placeCommas_eq (endOfLine : Bool) {lines : List Line}
    (free : ∀ line ∈ lines, line.field separatorColumn = []) :
    placeCommas endOfLine lines = punctuate endOfLine false lines := by
  cases endOfLine with
  | true => exact commasBehind_eq false lines
  | false => exact commasBefore_eq false free

theorem punctuated_verbatim (endOfLine earlier later : Bool) {line : Line}
    (verbatim : line.isAligned = false) : punctuated endOfLine earlier later line = line := by
  simp [punctuated, verbatim]

theorem punctuate_append_right (endOfLine earlier : Bool) {front : List Line} (back : List Line)
    (verbatim : ∀ line ∈ front, line.isAligned = false) :
    punctuate endOfLine earlier (front ++ back) = front ++ punctuate endOfLine earlier back := by
  induction front with
  | nil => rfl
  | cons line front ih =>
      have plain := verbatim line (by simp)
      rw [List.cons_append, punctuate, punctuated_verbatim _ _ _ plain, plain, Bool.or_false,
        ih fun other member => verbatim other (by simp [member])]
      rfl

theorem punctuate_append_left (endOfLine earlier : Bool) (front : List Line) {back : List Line}
    (verbatim : ∀ line ∈ back, line.isAligned = false) :
    punctuate endOfLine earlier (front ++ back) = punctuate endOfLine earlier front ++ back := by
  induction front generalizing earlier with
  | nil =>
      have whole := punctuate_append_right endOfLine earlier [] verbatim
      rw [List.append_nil] at whole
      rw [List.nil_append, whole]
      simp [punctuate]
  | cons line front ih =>
      have none : back.any Line.isAligned = false := by
        rw [List.any_eq_false]
        exact fun other member => by simp [verbatim other member]
      rw [List.cons_append, punctuate, ih, List.any_append, none, Bool.or_false]
      rfl

def separator (given : Bool) : Text := if given then comma else []

theorem head_separator (given : Bool) : ∀ byte ∈ (separator given).head?, byte = (',' : UInt8) := by
  cases given <;> decide +kernel

theorem calm_separator (given : Bool) : Text.Calm (separator given) := by
  cases given with
  | true => exact .of_forall_ne (by decide +kernel)
  | false => exact .nil

theorem seam_separator (left : Text) (given : Bool) : Utf8.Seam left (separator given) := by
  cases given with
  | true => exact .cons_right left [] rfl
  | false => exact .nil_right left

def punctuatedFields (endOfLine earlier later : Bool) (port : Statement.Port) (vector : Text) :
    List Text :=
  [separator (!endOfLine && earlier), port.direction, port.type, vector,
    port.name ++ separator (endOfLine && later)]

theorem punctuated_port (endOfLine earlier later : Bool) (port : Statement.Port) (vector : Text)
    (source : Int) :
    punctuated endOfLine earlier later
        (.aligned [[], port.direction, port.type, vector, port.name, port.comment] source) =
      .aligned (punctuatedFields endOfLine earlier later port vector ++ [port.comment]) source := by
  cases endOfLine <;> cases earlier <;> cases later
  all_goals simp [punctuated, Line.isAligned, Line.withField, Line.field, commaColumn,
    separatorColumn, nameColumn, punctuatedFields, separator]

structure IsCalm (port : Statement.Port) : Prop where
  direction : Calm port.direction
  type : Calm port.type
  vector : Calm port.vector
  name : Calm port.name
  comment : port.comment = [] ∨ port.comment.startsWith (ofString "//")

theorem calm_punctuatedFields {port : Statement.Port} (calm : IsCalm port) {vector : Text}
    (moved : Moved vector port.vector) (endOfLine earlier later : Bool) :
    ∀ field ∈ punctuatedFields endOfLine earlier later port vector, Calm field := by
  have name : Calm (port.name ++ separator (endOfLine && later)) :=
    calm.name.append_of_head (calm_separator _) fun byte first => by
      rw [head_separator _ byte first]
      decide
  simp only [punctuatedFields, List.mem_cons, List.not_mem_nil, or_false]
  rintro field (rfl | rfl | rfl | rfl | rfl)
  · exact calm_separator _
  · exact calm.direction
  · exact calm.type
  · exact moved.calm calm.vector
  · exact name

theorem solid_code_render {port : Statement.Port} (calm : IsCalm port) {vector : Text}
    (moved : Moved vector port.vector) (endOfLine earlier later : Bool) (source : Int)
    {anchors : List Nat}
    (roomy : Batch.Roomy (punctuatedFields endOfLine earlier later port vector ++
      [port.comment]) anchors) :
    solid (splitComment ((Line.aligned (punctuatedFields endOfLine earlier later port vector ++
      [port.comment]) source).render anchors Block.portIndent)).1 =
      solid (separator (!endOfLine && earlier)) ++ (solid port.direction ++ (solid port.type ++
        (solid port.vector ++ (solid port.name ++ solid (separator (endOfLine && later)))))) := by
  have each := calm_punctuatedFields calm moved endOfLine earlier later
  have margin : ∀ byte ∈ Block.portIndent, isIndent byte := by decide +kernel
  rw [Line.splitComment_render roomy each calm.comment margin,
    Line.solid_renderedCode roomy.append.1 _ Block.portIndent_white]
  simp only [punctuatedFields, List.map_cons, List.map_nil, List.flatten_cons, List.flatten_nil,
    List.append_nil, moved.solid, solid_append (seam_separator _ _)]

end HdlAlign.Ports

namespace HdlAlign.Statement.Port

open Text

theorem isCalm_extract {line : Text} (single : newline ∉ line) : Ports.IsCalm (extract line) := by
  obtain ⟨direction, type, vector, name⟩ := calm_columns single
  refine ⟨direction, type, vector, name, ?_⟩
  rw [extract_comment single]
  exact Declaration.splitComment_comment line

end HdlAlign.Statement.Port

namespace HdlAlign.Block

open Text Utf8 Statement Ports

inductive Reading where
  | port
  | verbatim
  /-- Nothing but white space, behind the commas that are stripped off. -/
  | erased
  deriving DecidableEq

def reading (line : Text) : Reading :=
  if isBlank (stripSeparator line) then .erased
  else if Grammar.port.isStatement (splitComment (stripSeparator line)).1 then .port
  else .verbatim

def isPort (line : Text) : Bool := reading line = .port

def placedInFront (endOfLine earlier : Bool) (line : Text) : Nat :=
  match reading line with
  | .port => commasInFront line - 1 + (!endOfLine && earlier).toNat
  | .verbatim => commasInFront line
  | .erased => 0

def placedAtEnd (endOfLine later : Bool) (line : Text) : Nat :=
  match reading line with
  | .port => commasAtEnd line - 1 + (endOfLine && later).toNat
  | .verbatim => commasAtEnd line
  | .erased => 0

theorem classifyPort_reading (index : Nat) (line : Text) :
    match reading line with
    | .port => classifyPort index line = .aligned (Port.extract (stripSeparator line)).columns index
    | .verbatim => classifyPort index line = .verbatim line index
    | .erased => classifyPort index line = .verbatim [] index := by
  rcases classifyPort_cases index line with ⟨blank, read⟩ | ⟨visible, statement, read⟩ |
    ⟨visible, statement, read⟩
  · simpa [reading, blank] using read
  · simpa [reading, visible, statement] using read
  · simpa [reading, visible, statement] using read

theorem isAligned_classifyPort (index : Nat) (line : Text) :
    (classifyPort index line).isAligned = isPort line := by
  have read := classifyPort_reading index line
  rw [isPort]
  cases kind : reading line
  all_goals
    rw [kind] at read
    rw [read]
    rfl

theorem isStatement_of_port {line : Text} (port : reading line = .port) :
    Port.isStatement (trim (splitComment (stripSeparator line)).1) := by
  rw [reading] at port
  split at port
  · cases port
  · split at port
    · next statement => exact statement
    · cases port

theorem exists_not_comma_of_port {line : Text} (port : reading line = .port) :
    ∃ scalar ∈ solid (strippedCode (splitComment line).1), ¬isCommaScalar scalar := by
  have statement := isStatement_of_port port
  obtain ⟨code, split, same⟩ := splitComment_stripSeparator line
  have found := Port.exists_not_comma statement
  rw [split, same] at found
  exact found

theorem solid_separator (given : Bool) :
    ∃ commas : List Scalar, solid (separator given) = commas ∧ commas.reverse = commas ∧
      ∀ chars, commasAhead (commas ++ chars) = given.toNat + commasAhead chars := by
  cases given with
  | false => exact ⟨[], rfl, rfl, fun chars => by simp⟩
  | true =>
      obtain ⟨scalar, is, chars⟩ := solid_comma_cons []
      refine ⟨[scalar], chars, rfl, fun others => ?_⟩
      rw [List.singleton_append, commasAhead, List.takeWhile_cons, if_pos is]
      exact Nat.add_comm _ 1

/-- The commas of a port behind the passes: its own are gone, and it has the one it was given. -/
theorem separated_port {line : Text} (single : newline ∉ line) (port : reading line = .port)
    {lines : List Line} {index : Nat} (member : classifyPort index line ∈ lines)
    {endOfLine earlier later : Bool} {anchors : List Nat} {new : Line}
    (passed : new = punctuated endOfLine earlier later (Range.layoutLine Port.vectorColumn
      (Range.columnWidths Port.vectorColumn lines) (classifyPort index line)))
    (roomy : ∀ fields source, new = .aligned fields source → Batch.Roomy fields anchors) :
    commasInFront (new.render anchors portIndent) = placedInFront endOfLine earlier line ∧
      commasAtEnd (new.render anchors portIndent) = placedAtEnd endOfLine later line := by
  have read := classifyPort_reading index line
  rw [port] at read
  dsimp only at read
  rw [read] at member passed
  have calm := Port.isCalm_extract (stripSeparator_single single)
  have code := Port.solid_code (stripSeparator_single single)
  generalize Port.extract (stripSeparator line) = parts at member passed calm code
  obtain ⟨spaced, moved, laid⟩ := Range.layoutLine_port member
  rw [Port.columns, laid, punctuated_port] at passed
  have shown := solid_code_render calm moved endOfLine earlier later index (roomy _ _ passed)
  rw [← passed] at shown
  have stripped : solid (splitComment (stripSeparator line)).1 =
      solid (strippedCode (splitComment line).1) := by
    obtain ⟨code, split, same⟩ := splitComment_stripSeparator line
    rw [split, same]
  have other := exists_not_comma_of_port port
  obtain ⟨own, ownEnd⟩ := commasAhead_strippedCode other
  rw [← stripped, code] at own ownEnd other
  obtain ⟨ahead, aheadSame, -, aheadCount⟩ := solid_separator (!endOfLine && earlier)
  obtain ⟨behind, behindSame, behindReverse, behindCount⟩ := solid_separator (endOfLine && later)
  have whole : solid (splitComment (new.render anchors portIndent)).1 = ahead ++
      (solid (splitComment (stripSeparator line)).1 ++ behind) := by
    rw [shown, code, aheadSame, behindSame]
    simp only [List.append_assoc]
  rw [← code] at own ownEnd other
  generalize solid (splitComment (stripSeparator line)).1 = chars at whole own ownEnd other
  have otherReverse : ∃ scalar ∈ chars.reverse, ¬isCommaScalar scalar := by simpa using other
  constructor
  · rw [commasInFront, whole, aheadCount, commasAhead_append other, own, placedInFront, port]
    exact Nat.add_comm _ _
  · rw [commasAtEnd, whole, List.reverse_append, List.reverse_append, behindReverse,
      List.append_assoc, behindCount, commasAhead_append otherReverse, ownEnd, placedAtEnd, port]
    exact Nat.add_comm _ _

theorem separated_line {line : Text} (single : newline ∉ line) {lines : List Line} {index : Nat}
    (member : classifyPort index line ∈ lines) {endOfLine earlier later : Bool}
    {anchors : List Nat} {new : Line}
    (passed : new = punctuated endOfLine earlier later (Range.layoutLine Port.vectorColumn
      (Range.columnWidths Port.vectorColumn lines) (classifyPort index line)))
    (roomy : ∀ fields source, new = .aligned fields source → Batch.Roomy fields anchors) :
    commasInFront (new.render anchors portIndent) = placedInFront endOfLine earlier line ∧
      commasAtEnd (new.render anchors portIndent) = placedAtEnd endOfLine later line := by
  have read := classifyPort_reading index line
  cases kind : reading line with
  | port => exact separated_port single kind member passed roomy
  | verbatim =>
      rw [kind] at read
      dsimp only at read
      rw [read] at passed
      rw [placedInFront, placedAtEnd, kind, passed]
      exact ⟨rfl, rfl⟩
  | erased =>
      rw [kind] at read
      dsimp only at read
      rw [read] at passed
      rw [placedInFront, placedAtEnd, kind, passed]
      exact ⟨rfl, rfl⟩

end HdlAlign.Block
