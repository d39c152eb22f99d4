import HdlAlign.Diagnostic.Basic
import HdlAlign.Source.FileSet

/-! What an edit does to the lines it touches. -/

namespace HdlAlign.Diagnostic

inductive PreviewError where
  | noFiles
  | unknownFile (file : FileId)
  | outsideFile (span : Span)
  deriving DecidableEq

def PreviewError.message : PreviewError → Text
  | noFiles => "no file set"
  | unknownFile file => "unknown file " ++ Text.decimal file.toNat
  | outsideFile span => "edit span " ++ span.toText ++ " outside the file"

structure Preview where
  before : List Text
  after : List Text
  deriving DecidableEq

def numbersFrom (first last : Nat) : List Nat :=
  (List.range (last + 1 - first)).map (· + first)

def Preview.ofEdit (file : SourceFile) (edit : Edit) : Preview :=
  let first := (file.position edit.span.start).line.toNat
  let last := max (file.position edit.span.stop).line.toNat first
  let head := file.slice (file.lineSpan first).start.toNat edit.span.start.toNat
  let tail := file.slice edit.span.stop.toNat (file.lineSpan last).stop.toNat
  { before := (numbersFrom first last).map fun (n : Nat) => file.line n
    after := (Text.trimTail [Text.newline] (head ++ edit.text ++ tail)).lines }

/-- The preview of an edit whose span must lie in a known file. -/
def preview (set : Option FileSet) (edit : Edit) : Except PreviewError Preview :=
  match set with
  | none => .error .noFiles
  | some set =>
    match set.get? edit.span.file with
    | none => .error (.unknownFile edit.span.file)
    | some file =>
      if edit.span.stop < edit.span.start || file.content.length < edit.span.stop.toNat then
        .error (.outsideFile edit.span)
      else .ok (.ofEdit file edit)

end HdlAlign.Diagnostic
