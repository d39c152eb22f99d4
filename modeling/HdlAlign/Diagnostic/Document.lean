import HdlAlign.Diagnostic.Bag
import HdlAlign.Diagnostic.Preview
import HdlAlign.Json.Value

/-! Diagnostics as a JSON document. -/

namespace HdlAlign.Diagnostic

structure DocumentOptions where
  positions : Bool := false
  style : SourceFile.PathStyle := .automatic
  /-- The most diagnostics to write, if it is positive. -/
  limit : Int := 0
  notes : Bool := false
  fixes : Bool := false
  preview : Bool := false

open Json

def locationJson? (set : Option FileSet) (cwd : Text) (options : DocumentOptions) (span : Span) :
    Option Json :=
  match set with
  | none => none
  | some set =>
    (set.get? span.file).map fun file =>
      let start := file.position span.start
      let stop := file.position span.stop
      object <|
        member "file" (string (file.showPath options.style cwd (set.baseDirectory cwd))) ++
        member "start_byte" (integer span.start.toNat) ++
        member "end_byte" (integer span.stop.toNat) ++
        if options.positions then
          numberMember "start_line" start.line.toNat ++
          numberMember "start_col" start.column.toNat ++
          numberMember "end_line" stop.line.toNat ++
          numberMember "end_col" stop.column.toNat
        else []

def editJson (set : Option FileSet) (cwd : Text) (options : DocumentOptions) (edit : Edit) : Json :=
  let lines : List (Text × Json) :=
    match if options.preview then (Diagnostic.preview set edit).toOption else none with
    | some p =>
      listMember "before_lines" (p.before.map string) ++
        listMember "after_lines" (p.after.map string)
    | none => []
  object <|
    member? "location" (locationJson? set cwd options edit.span) ++
    member "new_text" (string edit.text) ++ lines

def toJson (set : Option FileSet) (cwd : Text) (options : DocumentOptions) (d : Diagnostic) :
    Json :=
  let notes := if options.notes || d.code = .timings then d.notes else []
  let fixes := if options.fixes then d.fixes else []
  object <|
    member "severity" (string d.severity.name) ++
    member "code" (string d.code.id) ++
    member "message" (string d.message) ++
    member? "location" (locationJson? set cwd options d.span) ++
    listMember "notes" (notes.map fun n =>
      object (member "message" (string n.message) ++
        member? "location" (locationJson? set cwd options n.span))) ++
    listMember "fixes" (fixes.map fun fix =>
      object (member "title" (string fix.title) ++
        listMember "edits" (fix.edits.map (editJson set cwd options))))

def document (bag : Bag) (set : Option FileSet) (cwd : Text) (options : DocumentOptions) : Json :=
  let items := if 0 < options.limit then bag.items.take options.limit.toNat else bag.items
  object <|
    member "diagnostics" (array (items.map (toJson set cwd options))) ++
    member "count" (integer items.length)

def documentText (bag : Bag) (set : Option FileSet) (cwd : Text) (options : DocumentOptions) :
    Text :=
  (document bag set cwd options).indented 0 ++ [Text.newline]

end HdlAlign.Diagnostic
