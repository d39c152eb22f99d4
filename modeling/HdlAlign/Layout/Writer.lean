import HdlAlign.Text.Blank
import HdlAlign.Text.Width

namespace HdlAlign

/-- Output under construction.  `lineStart` is the offset behind the last newline written as a
byte of its own, and `lines` counts the lines begun with `line`. -/
structure Writer where
  text : Text := []
  lineStart : Nat := 0
  lines : Nat := 0

namespace Writer

def write (w : Writer) (s : Text) : Writer := { w with text := w.text ++ s }

def byte (w : Writer) (b : UInt8) : Writer :=
  let text := w.text ++ [b]
  { w with text, lineStart := if b = Text.newline then text.length else w.lineStart }

def pad (w : Writer) (s : Text) (columns : Nat) : Writer := w.write (s.padRight columns)

def padLeft (w : Writer) (s : Text) (columns : Nat) : Writer := w.write (s.padLeft columns)

/-- Begins a line.  Nothing separates the first line from what was there, so lines end up
joined by newlines. -/
def line (w : Writer) (s : Text) : Writer :=
  let w := if 0 < w.lines then w.byte Text.newline else w
  { w with lines := w.lines + 1 }.write s

def trimLineEnd (w : Writer) : Writer :=
  { w with
    text := w.text.take w.lineStart ++ Text.dropTailWhile Text.isIndent (w.text.drop w.lineStart) }

@[simp] theorem text_write (w : Writer) (s : Text) : (w.write s).text = w.text ++ s := rfl

@[simp] theorem text_pad (w : Writer) (s : Text) (columns : Nat) :
    (w.pad s columns).text = w.text ++ s.padRight columns := rfl

@[simp] theorem text_padLeft (w : Writer) (s : Text) (columns : Nat) :
    (w.padLeft s columns).text = w.text ++ s.padLeft columns := rfl

@[simp] theorem text_byte (w : Writer) (b : UInt8) : (w.byte b).text = w.text ++ [b] := rfl

end Writer

end HdlAlign
