import HdlAlign.Source.Path
import HdlAlign.Text.Utf8

/-! Patterns for file names and paths.  A star stands for any bytes but a slash, a question mark
for one character but a slash, and brackets for one character of a class. -/

namespace HdlAlign

namespace Glob

inductive Item where
  | exactly (value : UInt8)
  | any
  | oneOf (negated : Bool) (ranges : List (Char × Char))
  deriving DecidableEq

structure Segment where
  star : Bool
  items : List Item
  deriving DecidableEq

end Glob

abbrev Glob := List Glob.Segment

namespace Glob

/-! Reading -/

/-- Reads a character of a class.  Something must follow it, at least the closing bracket. -/
def classChar? (pattern : Text) : Option (Char × Text) :=
  let body := match pattern with
    | 0x5C :: rest => rest
    | pattern => pattern
  if pattern.head? = some 0x2D || pattern.head? = some 0x5D then none
  else match Utf8.scalars body with
    | [] => none
    | scalar :: others =>
      if scalar.isIllFormed || others.isEmpty then none
      else some (scalar.char, body.drop scalar.bytes.length)

def classRanges? : Nat → (started : Bool) → Text → Option (List (Char × Char) × Text)
  | 0, _, _ => none
  | n + 1, started, pattern =>
    match started, pattern with
    | true, 0x5D :: rest => some ([], rest)
    | _, pattern => do
      let (low, rest) ← classChar? pattern
      let (high, rest) ← match rest with
        | 0x2D :: rest => classChar? rest
        | rest => some (low, rest)
      let (ranges, rest) ← classRanges? n true rest
      some ((low, high) :: ranges, rest)

def item? : Text → Option (Item × Text)
  | [] => none
  | 0x5B :: rest => do
    let (negated, rest) := match rest with
      | 0x5E :: rest => (true, rest)
      | rest => (false, rest)
    let (ranges, rest) ← classRanges? (rest.length + 1) false rest
    some (.oneOf negated ranges, rest)
  | 0x3F :: rest => some (.any, rest)
  | [0x5C] => none
  | 0x5C :: byte :: rest => some (.exactly byte, rest)
  | byte :: rest => some (.exactly byte, rest)

def addItem (item : Item) : Glob → Glob
  | [] => [⟨false, [item]⟩]
  | segment :: others =>
    if segment.star then ⟨false, [item]⟩ :: segment :: others
    else { segment with items := item :: segment.items } :: others

/-- Puts a star in front of the segments read so far; stars in a row are one. -/
def addStar : Glob → Glob
  | [] => [⟨true, []⟩]
  | segment :: others =>
    if segment.star then segment :: others else { segment with star := true } :: others

def parseSteps? : Nat → Text → Option Glob
  | 0, _ => none
  | _ + 1, [] => some []
  | n + 1, 0x2A :: rest => (parseSteps? n rest).map addStar
  | n + 1, pattern => do
    let (item, rest) ← item? pattern
    let glob ← parseSteps? n rest
    some (addItem item glob)

def parse? (pattern : Text) : Option Glob := parseSteps? (pattern.length + 1) pattern

/-! Matching -/

def Item.take? (item : Item) (name : Text) : Option Text :=
  match item, name with
  | _, [] => none
  | .exactly value, byte :: rest => if byte = value then some rest else none
  | .any, byte :: rest =>
    if byte = Path.slash then none
    else (Utf8.scalars (byte :: rest)).head?.map fun scalar =>
      (byte :: rest).drop scalar.bytes.length
  | .oneOf negated ranges, name =>
    match Utf8.scalars name with
    | [] => none
    | scalar :: _ =>
      let found := ranges.any fun (low, high) => low ≤ scalar.char && scalar.char ≤ high
      if found = negated then none else some (name.drop scalar.bytes.length)

def takeItems? : List Item → Text → Option Text
  | [], name => some name
  | item :: items, name => (item.take? name).bind (takeItems? items)

/-- What is left of a name behind a segment.  The last segment has to reach the end of the name. -/
def Segment.here? (segment : Segment) (isLast : Bool) (name : Text) : Option Text :=
  match takeItems? segment.items name with
  | none => none
  | some rest => if isLast && !rest.isEmpty then none else some rest

def Segment.find? (segment : Segment) (isLast : Bool) : Text → Option Text
  | [] => segment.here? isLast []
  | byte :: rest =>
    match segment.here? isLast (byte :: rest) with
    | some left => some left
    | none => if segment.star && byte != Path.slash then segment.find? isLast rest else none

def accepts : Glob → Text → Bool
  | [], name => name.isEmpty
  | segment :: others, name =>
    if segment.star && segment.items.isEmpty then !name.contains Path.slash
    else match segment.find? others.isEmpty name with
      | none => false
      | some rest => accepts others rest

end Glob

end HdlAlign
