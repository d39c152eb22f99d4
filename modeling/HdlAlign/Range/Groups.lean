import HdlAlign.Text.Blank

namespace HdlAlign.Range

structure Group where
  left : Text
  right : Text
  deriving DecidableEq

inductive Token where
  | opening
  | closing
  | colon
  | index (text : Text)
  deriving DecidableEq

inductive ParseError where
  | empty
  | malformed
  deriving DecidableEq

def Token.ofByte? (byte : UInt8) : Option Token :=
  if byte = '[' then some .opening
  else if byte = ']' then some .closing
  else if byte = ':' then some .colon
  else none

def indexTokens (gap : Text) : List Token :=
  if (Text.trimSpaces gap).isEmpty then [] else [.index (Text.trimSpaces gap)]

def scan (gap : Text) : Text → List Token
  | [] => indexTokens gap
  | byte :: rest =>
    match Token.ofByte? byte with
    | some mark => indexTokens gap ++ mark :: scan [] rest
    | none => scan (gap ++ [byte]) rest

def groups? : List Token → Option (List Group)
  | [] => some []
  | .opening :: .colon :: .closing :: rest => (groups? rest).map (⟨[], []⟩ :: ·)
  | .opening :: .index l :: .colon :: .closing :: rest => (groups? rest).map (⟨l, []⟩ :: ·)
  | .opening :: .colon :: .index r :: .closing :: rest => (groups? rest).map (⟨[], r⟩ :: ·)
  | .opening :: .index l :: .colon :: .index r :: .closing :: rest =>
    (groups? rest).map (⟨l, r⟩ :: ·)
  | _ => none

/-- Reads a dimension list: one or more bracket pairs and nothing else. -/
def parse (field : Text) : Except ParseError (List Group) :=
  if Text.isBlank field then .error .empty
  else match groups? (scan [] field) with
    | none | some [] => .error .malformed
    | some groups => .ok groups

def indexes (groups : List Group) : List Text :=
  groups.flatMap fun group => [group.left, group.right]

end HdlAlign.Range
