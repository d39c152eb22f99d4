import HdlAlign.Block.Stability
import HdlAlign.Diagnostic.Bag
import HdlAlign.Source.File
import HdlAlign.Text.Quoted

/-! Checks of what aligning promises.  Each answers with the first fault it finds. -/

namespace HdlAlign.Audit

inductive Fault where
  | fieldCount (grammar line : Text) (found wanted : Nat)
  | noSuchLine (index : Int) (lines : Nat)
  | missingLine (number : Int) (line : Text)
  | unstable (stability : Block.Stability)
  | narrowed (column width : Nat) (now : Option Nat)
  | otherFile (code : Code) (found wanted : FileId)
  | inverted (code : Code) (span : Span)
  | pastEnd (code : Code) (stop : UInt32) (size : Nat)
  | nothing
  deriving DecidableEq

def Fault.message : Fault → Text
  | fieldCount grammar line found wanted =>
    grammar ++ ": " ++ Text.quote line ++ " has " ++ Text.decimal found ++ " fields, want " ++
      Text.decimal wanted
  | noSuchLine index lines =>
    "verbatim index " ++ Text.decimalInt index ++ " out of range (" ++ Text.decimal lines ++
      " lines)"
  | missingLine number line =>
    "line " ++ Text.decimalInt number ++ " " ++ Text.quote line ++ " is missing from the output"
  | unstable stability => stability.message
  | narrowed column width now =>
    "column " ++ Text.decimal column ++ " narrowed from " ++ Text.decimal width ++ " to " ++
      (match now with
        | none => Text.ofString "missing"
        | some width => Text.decimal width)
  | otherFile code found wanted =>
    code.id ++ ": span points to different file id: got=" ++ Text.decimal found.toNat ++ " want=" ++
      Text.decimal wanted.toNat
  | inverted code span => code.id ++ ": inverted span " ++ span.toText
  | pastEnd code stop size =>
    code.id ++ ": span end beyond content: " ++ Text.decimal stop.toNat ++ " > " ++
      Text.decimal size
  | nothing => "nil bag or file"

def fieldCount (grammar : Grammar) (lines : List Text) : Option Fault :=
  (lines.find? fun line => (grammar.extract line).length != grammar.arity).map fun line =>
    .fieldCount grammar.name line (grammar.extract line).length grammar.arity

/-- The lines of a text; a newline at its end starts no further line. -/
def linesOf (text : Text) : List Text := (Text.trimTail [Text.newline] text).lines

def behind? (line : Text) : List Text → Option (List Text)
  | [] => none
  | other :: rest => if other = line then some rest else behind? line rest

/-- The lines of some indexes stand among others, whole and in order. -/
def inOrder (lines : List Text) : (indexes : List Int) → (output : List Text) → Option Fault
  | [], _ => none
  | index :: rest, output =>
    if index < 0 || (lines.length : Int) ≤ index then some (.noSuchLine index lines.length)
    else
      let line := lines.getD index.toNat []
      match behind? line output with
      | none => some (.missingLine (index + 1) line)
      | some output => inOrder lines rest output

/-- The lines that were left alone stand in the output, whole and in order. -/
def untouched (input : Text) (aligned : Aligned) : Option Fault :=
  inOrder (linesOf input) aligned.verbatim (linesOf aligned.text)

def idempotent (options : Options) (text : Text) : Option Fault :=
  let stability := Block.stability options text
  if stability.isStable then none else some (.unstable stability)

def firstNarrowed (column : Nat) : (before after : List Nat) → Option Fault
  | [], _ => none
  | width :: _, [] => some (.narrowed column width none)
  | width :: before, now :: after =>
    if now < width then some (.narrowed column width (some now))
    else firstNarrowed (column + 1) before after

def declarationAnchors (lines : List Text) : List Nat :=
  Batch.anchors (lines.zipIdx.map fun (line, index) => Grammar.declaration.classify line index)

/-- More lines make no column of a block narrower. -/
def widthMonotonic (block extra : List Text) : Option Fault :=
  firstNarrowed 0 (declarationAnchors block) (declarationAnchors (block ++ extra))

/-- The fault of a span, if it does not lie in a content.  A span without length at the start
points nowhere. -/
def spanFault (file : SourceFile) (d : Diagnostic) : Option Fault :=
  let span := d.span
  if span.start = 0 && span.stop = 0 then none
  else if span.file != file.id then some (.otherFile d.code span.file file.id)
  else if span.stop < span.start then some (.inverted d.code span)
  else if file.content.length < span.stop.toNat then
    some (.pastEnd d.code span.stop file.content.length)
  else none

def spans (bag : Bag) (file : SourceFile) : Option Fault := bag.items.findSome? (spanFault file)

end HdlAlign.Audit
