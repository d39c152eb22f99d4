import HdlAlign.Assignment.Column
import HdlAlign.Layout.Batch
import HdlAlign.Ports.Separator
import HdlAlign.Range.Column
import HdlAlign.Statement.Grammar

namespace HdlAlign

structure Options where
  condense : Bool := false
  /-- Put the commas of a port list behind the names and not in front of the next port. -/
  endOfLine : Bool := true
  deriving DecidableEq

inductive Mode where
  | empty
  | declarations
  | ports
  | unknown (code : UInt8)
  deriving DecidableEq

namespace Mode

def name : Mode → Text
  | empty | unknown _ => "empty"
  | declarations => "declarations"
  | ports => "ports"

def code : Mode → UInt8
  | empty => 0
  | declarations => 1
  | ports => 2
  | unknown code => code

def ofCode (code : UInt8) : Mode :=
  if code = 0 then empty
  else if code = 1 then declarations
  else if code = 2 then ports
  else unknown code

end Mode

structure Aligned where
  text : Text
  mode : Mode := .empty
  /-- The input lines that were left alone, blank ones excepted. -/
  verbatim : List Int := []
  /-- Dimension lists of one column have different numbers of groups. -/
  rangeMismatch : Bool := false
  count : Int := 0
  deriving DecidableEq

namespace Block

open Statement

/-- Numbers the lines of a text from a first index on, leaving out blank ones if asked to. -/
def numbered (condense : Bool) (first : Nat) (text : Text) : List (Nat × Text) :=
  ((text.lines.zipIdx first).map fun (line, index) => (index, line)).filter
    fun (_, line) => !(condense && Text.isBlank line)

/-! Declarations -/

def declarationLines (options : Options) (text : Text) : List Line :=
  (numbered options.condense 0 text).map fun (index, line) =>
    Grammar.declaration.classify line index

def declarationIndent (text : Text) : Text :=
  match text.lines.find? fun line => (Grammar.declaration.classify line 0).isAligned with
  | some line => Text.indentation line
  | none => []

def alignDeclarationColumns (lines : List Line) : List Line :=
  Assignment.alignColumn Declaration.assignmentColumn
    (Range.alignColumn Declaration.arrayColumn
      (Range.alignColumn Declaration.vectorColumn lines))

def alignDeclarations (options : Options) (text : Text) : Aligned :=
  let classified := declarationLines options text
  let vectors := Range.alignColumn Declaration.vectorColumn classified
  let batch : Batch := ⟨alignDeclarationColumns classified, declarationIndent text⟩
  { text := batch.render
    mode := .declarations
    verbatim := untouched batch.lines
    rangeMismatch := (Range.stats Declaration.vectorColumn classified).mismatch ||
      (Range.stats Declaration.arrayColumn vectors).mismatch
    count := batch.alignedCount }

/-! Port lists -/

/-- A module header, the text of its port list, and what closes it. -/
structure Frame where
  header : Text
  body : Text
  footer : Text
  deriving DecidableEq

def toLastParenthesis? (line : Text) : Option Text :=
  (Text.beforeLast? '(' line).map (· ++ Text.ofString "(")

/-- The head of a module at the start of a line: the keyword, one blank, and the rest of the line
up to its last opening parenthesis. -/
def moduleHead : Pattern := fun text =>
  let (lead, rest) := Pattern.cutFront
    (Pattern.run Text.isIndent >> Pattern.optional (Pattern.literal "macro")) text
  match (Pattern.literal "module" >> Pattern.one Text.isSpace) rest with
  | none => none
  | some (word, rest) =>
    match toLastParenthesis? (rest.takeWhile (· != Text.newline)) with
    | none => none
    | some line => some (lead ++ word ++ line, rest.drop line.length)

def splitHeader? (lineStart : Bool) : Text → Option (Text × Text)
  | [] => none
  | byte :: rest =>
    match if lineStart then moduleHead (byte :: rest) else none with
    | some found => some found
    | none =>
      (splitHeader? (byte = Text.newline) rest).map fun (header, rest) => (byte :: header, rest)

/-- Whether a text starts with a closing parenthesis and, behind blanks, a semicolon. -/
def closes (text : Text) : Bool :=
  (Pattern.literal ")" >> Pattern.spaces >> Pattern.literal ";").matchesFront text

/-- Cuts before the last closing of the list. -/
def splitFooter? : Text → Option (Text × Text)
  | [] => none
  | byte :: rest =>
    match splitFooter? rest with
    | some (body, footer) => some (byte :: body, footer)
    | none => if closes (byte :: rest) then some ([], byte :: rest) else none

/-- Cuts a port list off its footer.  White space in front of the closing, on its own line,
belongs to the footer. -/
def splitBody (rest : Text) : Text × Text :=
  match splitFooter? rest with
  | none => (rest, [])
  | some (body, footer) =>
    let margin := Text.afterLast Text.newline body
    if Text.isBlank margin then (body.take (body.length - margin.length), margin ++ footer)
    else (body, footer)

def frame? (text : Text) : Option Frame :=
  (splitHeader? true text).map fun (header, rest) =>
    let (body, footer) := splitBody rest
    ⟨header, body, footer⟩

namespace Frame

def list (frame : Frame) : Text := Text.trimHead [Text.newline] frame.body

/-- The input line on which the list begins. -/
def firstLine (frame : Frame) : Nat :=
  frame.header.count Text.newline + if frame.body.head? = some Text.newline then 1 else 0

end Frame

/-- Reads one line of a port list; a line that is no port keeps its own text. -/
def classifyPort (index : Nat) (line : Text) : Line :=
  match Grammar.port.classify (Ports.stripSeparator line) index with
  | .verbatim text source => if text.isEmpty then .verbatim text source else .verbatim line source
  | port => port

def portLines (options : Options) (frame : Frame) : List Line :=
  trimEmptyLines ((numbered options.condense frame.firstLine frame.list).map
    fun (index, line) => classifyPort index line)

def portIndent : Text := "  "

def alignPorts (options : Options) (frame : Frame) : Aligned :=
  let classified := portLines options frame
  let batch : Batch :=
    ⟨Ports.placeCommas options.endOfLine (Range.alignColumn Port.vectorColumn classified),
      portIndent⟩
  let parts := [frame.header] ++ (if batch.lines.isEmpty then [] else [batch.render]) ++
    (if frame.footer.isEmpty then [] else [frame.footer])
  { text := Text.unlines parts
    mode := .ports
    verbatim := untouched batch.lines
    rangeMismatch := (Range.stats Port.vectorColumn classified).mismatch
    count := batch.alignedCount }

/-! Blocks -/

/-- Aligns a text that does not end in the newline of its last line. -/
def alignBody (options : Options) (body : Text) : Aligned :=
  match frame? body with
  | some frame => alignPorts options frame
  | none => alignDeclarations options body

def splitFinalNewline (text : Text) : Text × Text :=
  match Text.dropTail? [Text.newline] text with
  | some body => (body, [Text.newline])
  | none => (text, [])

/-- Aligns one block.  A newline at its end is kept. -/
def align (options : Options) (text : Text) : Aligned :=
  let (body, final) := splitFinalNewline text
  if Text.isBlank body then { text := text }
  else
    let result := alignBody options body
    { result with text := result.text ++ final }

def format (options : Options) (text : Text) : Text := (align options text).text

end Block

end HdlAlign
