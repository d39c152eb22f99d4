import HdlAlign.Text.Basic

/-! Two classes of blanks.  Patterns know only the five ASCII blanks of `isSpace`;
trimming knows every character of the Unicode property White_Space, recognised by
its UTF-8 bytes at either end of a text. -/

namespace HdlAlign.Text

/-- Tab, newline, form feed, carriage return and space. -/
def isSpace (byte : UInt8) : Bool :=
  byte == 0x20 || byte == 0x09 || byte == 0x0A || byte == 0x0C || byte == 0x0D

def isIndent (byte : UInt8) : Bool := byte == 0x20 || byte == 0x09

def isWhite1 (a : UInt8) : Bool := a == 0x20 || (0x09 ≤ a && a ≤ 0x0D)

def isWhite2 (a b : UInt8) : Bool := a == 0xC2 && (b == 0x85 || b == 0xA0)

/-- White space of three bytes: U+1680, U+2000 to U+200A, U+2028, U+2029, U+202F,
U+205F and U+3000. -/
def isWhite3 (a b c : UInt8) : Bool :=
  (a == 0xE1 && b == 0x9A && c == 0x80) ||
  (a == 0xE2 && b == 0x80 &&
    ((0x80 ≤ c && c ≤ 0x8A) || c == 0xA8 || c == 0xA9 || c == 0xAF)) ||
  (a == 0xE2 && b == 0x81 && c == 0x9F) ||
  (a == 0xE3 && b == 0x80 && c == 0x80)

/-- Drops white space characters off the front, where the predicates tell which groups
of two and three leading bytes are one. -/
def dropWhite (two : UInt8 → UInt8 → Bool) (three : UInt8 → UInt8 → UInt8 → Bool) :
    Text → Text
  | [] => []
  | a :: rest =>
    if isWhite1 a then dropWhite two three rest
    else match rest with
      | [] => [a]
      | b :: rest =>
        if two a b then dropWhite two three rest
        else match rest with
          | [] => [a, b]
          | c :: rest =>
            if three a b c then dropWhite two three rest else a :: b :: c :: rest

def trimStart (text : Text) : Text := dropWhite isWhite2 isWhite3 text

def trimEnd (text : Text) : Text :=
  (dropWhite (fun b a => isWhite2 a b) (fun c b a => isWhite3 a b c) text.reverse).reverse

def trim (text : Text) : Text := trimEnd (trimStart text)

def isBlank (text : Text) : Bool := (trim text).isEmpty

def indentation (line : Text) : Text := line.takeWhile isIndent

/-- Removes the ASCII blanks of patterns at both ends. -/
def trimSpaces (text : Text) : Text := dropTailWhile isSpace (text.dropWhile isSpace)

def spaceFollows : Text → Bool
  | [] => false
  | byte :: _ => isSpace byte

/-- Every run of two or more blanks becomes one space; a lone blank is kept.  The flag
tells that the run has already begun. -/
def collapseRuns (inRun : Bool) : Text → Text
  | [] => []
  | byte :: rest =>
    if isSpace byte then
      if spaceFollows rest then collapseRuns true rest
      else (if inRun then blank else byte) :: collapseRuns false rest
    else byte :: collapseRuns false rest

def collapseSpaces : Text → Text
  | [] => []
  | byte :: rest =>
    if isSpace byte then
      if spaceFollows rest then collapseSpaces rest else blank :: collapseSpaces rest
    else byte :: collapseSpaces rest

def normalize (text : Text) : Text := collapseRuns false (trim text)

def commaFollows (text : Text) : Bool := (text.dropWhile isSpace).head? == some ','

/-- Every comma, with the blanks around it, becomes a comma and one space.  The flag
tells that the preceding comma still absorbs blanks. -/
def spaceCommas (absorbing : Bool) : Text → Text
  | [] => []
  | byte :: rest =>
    if byte = ',' then byte :: blank :: spaceCommas true rest
    else if isSpace byte then
      if absorbing || commaFollows rest then spaceCommas absorbing rest
      else byte :: spaceCommas false rest
    else byte :: spaceCommas false rest

/-- Writes the separators of a comma list uniformly. -/
def normalizeList (text : Text) : Text := trim (spaceCommas false text)

/-- Splits a line into its code and its line comment; the comment keeps its exact text. -/
def splitComment (line : Text) : Text × Text :=
  (breakOn? (ofString "//") line).getD (line, [])

def fields (text : Text) : List Text :=
  scan [] text
where
  flush (word : Text) : List Text := if word.isEmpty then [] else [word.reverse]
  scan (word : Text) : Text → List Text
    | [] => flush word
    | a :: rest =>
      if isWhite1 a then flush word ++ scan [] rest
      else match rest with
        | [] => flush (a :: word)
        | b :: rest =>
          if isWhite2 a b then flush word ++ scan [] rest
          else match rest with
            | [] => scan (a :: word) [b]
            | c :: rest =>
              if isWhite3 a b c then flush word ++ scan [] rest
              else scan (a :: word) (b :: c :: rest)

end HdlAlign.Text
