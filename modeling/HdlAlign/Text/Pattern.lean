import HdlAlign.Text.Blank

namespace HdlAlign

/-- A pattern reads a part off the front of a text and returns it with what follows. -/
abbrev Pattern := Text → Option (Text × Text)

namespace Pattern

/-- The longest run of bytes that satisfy the predicate, which may be empty. -/
def run (p : UInt8 → Bool) : Pattern :=
  fun text => some (text.takeWhile p, text.dropWhile p)

def one (p : UInt8 → Bool) : Pattern
  | [] => none
  | byte :: rest => if p byte then some ([byte], rest) else none

def literal (part : Text) : Pattern :=
  fun text => (Text.dropHead? part text).map fun rest => (part, rest)

def keyword (words : List Text) : Pattern :=
  fun text =>
    if words.contains (text.takeWhile Text.isWord) then
      some (text.takeWhile Text.isWord, text.dropWhile Text.isWord)
    else none

def andThen (first second : Pattern) : Pattern :=
  fun text =>
    match first text with
    | none => none
    | some (left, rest) =>
      match second rest with
      | none => none
      | some (right, rest) => some (left ++ right, rest)

instance : AndThen Pattern := ⟨fun first second => andThen first (second ())⟩

def orElse (first second : Pattern) : Pattern :=
  fun text => (first text).or (second text)

instance : OrElse Pattern := ⟨fun first second => orElse first (second ())⟩

def optional (p : Pattern) : Pattern :=
  fun text => some ((p text).getD ([], text))

def upTo (p : Pattern) : Nat → Pattern
  | 0 => optional fun _ => none
  | n + 1 => optional (andThen p (upTo p n))

/-- The pattern as often as it goes; one that never reads an empty part is exhausted. -/
def many (p : Pattern) : Pattern :=
  fun text => upTo p text.length text

def many1 (p : Pattern) : Pattern := andThen p (many p)

def spaces : Pattern := run Text.isSpace

def spaces1 : Pattern := andThen (one Text.isSpace) spaces

def toLineEnd : Pattern := run (· != Text.newline)

def atEnd : Pattern
  | [] => some ([], [])
  | _ :: _ => none

def matchesFront (p : Pattern) (text : Text) : Bool := (p text).isSome

structure Found where
  before : Text
  part : Text
  after : Text
  deriving DecidableEq

/-- The leftmost place where the pattern reads something. -/
def find (p : Pattern) : Text → Option Found
  | [] => (p []).map fun (part, after) => ⟨[], part, after⟩
  | byte :: rest =>
    match p (byte :: rest) with
    | some (part, after) => some ⟨[], part, after⟩
    | none => (find p rest).map fun found => { found with before := byte :: found.before }

/-- Cuts the part at the front out of the text; an absent part is empty. -/
def cutFront (p : Pattern) (text : Text) : Text × Text :=
  (p text).getD ([], text)

/-- Cuts the leftmost part out of the text; an absent part is empty. -/
def cutFirst (p : Pattern) (text : Text) : Text × Text :=
  match p.find text with
  | some found => (found.part, found.before ++ found.after)
  | none => ([], text)

end Pattern

end HdlAlign
