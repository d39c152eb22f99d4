import HdlAlign.Diagnostic.Bag
import HdlAlign.Diagnostic.Preview
import HdlAlign.Text.Style
import HdlAlign.Text.Width

/-! Diagnostics with the source lines they point at. -/

namespace HdlAlign

namespace Diagnostic

open Style

structure PrettyOptions where
  color : Bool := false
  /-- The number of source lines before the one in question; none are shown if it is negative. -/
  context : Int := 0
  style : SourceFile.PathStyle := .automatic
  notes : Bool := false
  fixes : Bool := false
  preview : Bool := false
  least : Severity := .info

def severityColor (severity : Severity) : List Nat :=
  if severity = .error then [red, bold]
  else if severity = .warning then [yellow, bold]
  else [cyan]

def place? (set : Option FileSet) (cwd : Text) (style : SourceFile.PathStyle) (span : Span) :
    Option Text :=
  match set with
  | none => none
  | some set =>
    (set.get? span.file).map fun file =>
      let position := file.position span.start
      file.showPath style cwd (set.baseDirectory cwd) ++ ":" ++
        Text.decimal position.line.toNat ++ ":" ++ Text.decimal position.column.toNat

/-- Blanks under a text, with its tabs kept. -/
def underBlanks (text : Text) : Text :=
  (Utf8.chars text).flatMap fun c =>
    if c = '\t' then [0x09] else Text.blanks (Unicode.columns c.toNat)

def underline (text : Text) : Text :=
  "^" ++ List.replicate (text.width - 1) (('~' : Char) : UInt8)

/-- The part of a line that a span marks, between two offsets in the line.  A column that wrapped
around to 0 marks nothing that exists. -/
def markedPart? (line : Text) (start stop : Position) : Option (Text × Text) :=
  let first : Int := min ((start.column.toNat : Int) - 1) line.length
  let last : Int :=
    if stop.line = start.line then
      min (max ((stop.column.toNat : Int) - 1) first) line.length
    else line.length
  if first < 0 then none
  else some (line.take first.toNat, (line.take last.toNat).drop first.toNat)

def contextLines? (file : SourceFile) (span : Span) (context : Nat) (color : Bool) : Option Text :=
  let start := file.position span.start
  let stop := file.position span.stop
  let number := start.line.toNat
  let gutterWidth := (Text.decimal number).length
  let gutter (label : Text) : Text :=
    " " ++ paint color [blue] (Text.fillLeft Text.blank gutterWidth label ++ " |") ++ " "
  let source := (numbersFrom (max (number - context) 1) number).flatMap fun (n : Nat) =>
    gutter (Text.decimal n) ++ file.line n ++ [Text.newline]
  (markedPart? (file.line number) start stop).map fun (before, marked) =>
    source ++ gutter [] ++ underBlanks before ++ paint color [green, bold] (underline marked) ++
      [Text.newline]

def noteLine (set : Option FileSet) (cwd : Text) (options : PrettyOptions) (note : Note) : Text :=
  match place? set cwd options.style note.span with
  | some place => "  note: " ++ place ++ ": " ++ note.message ++ "\n"
  | none => "  note: " ++ note.message ++ "\n"

def previewLine (color : Bool) (hue : Nat) (mark line : Text) : Text :=
  "    " ++ paint color [hue] (mark ++ line) ++ "\n"

def editLines (set : Option FileSet) (color : Bool) (edit : Edit) : Text :=
  match Diagnostic.preview set edit with
  | .error e => "    (no preview: " ++ e.message ++ ")\n"
  | .ok p =>
    p.before.flatMap (previewLine color red "- ") ++ p.after.flatMap (previewLine color green "+ ")

def fixLines (set : Option FileSet) (options : PrettyOptions) (fix : Fix) : Text :=
  "  fix: " ++ fix.title ++ "\n" ++
    if options.preview then fix.edits.flatMap (editLines set options.color) else []

def headline (set : Option FileSet) (cwd : Text) (options : PrettyOptions) (d : Diagnostic) :
    Text :=
  let lead : Text := match place? set cwd options.style d.span with
    | some place => paint options.color [white, bold] place ++ ": "
    | none => ""
  lead ++ paint options.color (severityColor d.severity) d.severity.name ++ " " ++
    paint options.color [bold] d.code.id ++ ": " ++ d.message ++ "\n"

def contextOf? (set : Option FileSet) (options : PrettyOptions) (d : Diagnostic) : Option Text :=
  match set.bind (·.get? d.span.file) with
  | none => some []
  | some file =>
    if options.context < 0 then some []
    else contextLines? file d.span options.context.toNat options.color

/-- One diagnostic, or nothing where its place cannot be shown. -/
def pretty? (set : Option FileSet) (cwd : Text) (options : PrettyOptions) (d : Diagnostic) :
    Option Text :=
  (contextOf? set options d).map fun context =>
    let notes := if options.notes || d.code = .timings then d.notes else []
    let fixes := if options.fixes then d.fixes else []
    headline set cwd options d ++ context ++ notes.flatMap (noteLine set cwd options) ++
      fixes.flatMap (fixLines set options)

end Diagnostic

def Bag.pretty? (bag : Bag) (set : Option FileSet) (cwd : Text)
    (options : Diagnostic.PrettyOptions) : Option Text :=
  ((bag.filter options.least).items.mapM (Diagnostic.pretty? set cwd options)).map List.flatten

end HdlAlign
