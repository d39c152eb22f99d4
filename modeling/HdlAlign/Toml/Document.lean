import HdlAlign.Toml.Reader

/-! What the statements of a file define together. -/

namespace HdlAlign.Toml

/-- What stands at a key: a value, a table, or a row of tables of which the last is open. -/
inductive Entry where
  | value (value : Value)
  | table
  | tables

/-- The entries in the order in which they came up, and the keys in the order in which they were
written.  A table that only came up on the way to another is implicit and may still be opened once.
`arrays` holds the keys whose last value was an array; such a value may be replaced. -/
structure Document where
  entries : List (Key × Entry) := []
  implicit : List Key := []
  arrays : List Key := []
  written : List Key := []

namespace Document

def entry? (doc : Document) (key : Key) : Option Entry := doc.entries.lookup key

def isWithin (key outer : Key) : Bool := outer.isPrefixOf key && key != outer

def put (doc : Document) (key : Key) (entry : Entry) : Document :=
  let kept := doc.entries.filter fun e => !isWithin e.1 key
  let entries :=
    if (doc.entry? key).isSome then kept.map fun e => if e.1 = key then (key, entry) else e
    else kept ++ [(key, entry)]
  { doc with entries }

def markImplicit (doc : Document) (key : Key) : Document :=
  if doc.implicit.contains key then doc else { doc with implicit := key :: doc.implicit }

def unmarkImplicit (doc : Document) (key : Key) : Document :=
  { doc with implicit := doc.implicit.filter (· != key) }

/-- The key whose kind a value decides; an empty last part stands for the table itself. -/
def kindKey (context : Key) (part : Text) : Key :=
  let key := if part.isEmpty then context else context ++ [part]
  if key.isEmpty then [[]] else key

def setKind (doc : Document) (key : Key) (isArray : Bool) : Document :=
  let others := doc.arrays.filter (· != key)
  { doc with arrays := if isArray then key :: others else others }

def write (doc : Document) (key : Key) : Document := { doc with written := doc.written ++ [key] }

def isOpen (doc : Document) (key : Key) : Bool :=
  match doc.entry? key with
  | some .table => true
  | some .tables => true
  | _ => false

def leadingKeys (key : Key) : List Key :=
  (List.range key.length).filterMap fun i => if i = 0 then none else some (key.take i)

/-- Defines an entry.  What is defined already stays an error, except for an array, which is
replaced, and for an implicit table, which becomes explicit. -/
def define? (doc : Document) (key : Key) (entry : Entry) : Option Document :=
  if !(leadingKeys key).all doc.isOpen then none
  else if (doc.entry? key).isNone then some (doc.put key entry)
  else if doc.arrays.contains key then some ((doc.unmarkImplicit key).put key entry)
  else if doc.implicit.contains key then some (doc.unmarkImplicit key)
  else none

/-- Makes an implicit table of each key that is not there yet; the others must be tables. -/
def openEach? (doc : Document) : List Key → Option Document
  | [] => some doc
  | key :: rest =>
    match doc.entry? key with
    | none => ((doc.markImplicit key).put key .table).openEach? rest
    | some (.value _) => none
    | some _ => doc.openEach? rest

def open? (doc : Document) (key : Key) (inRow : Bool) : Option Document := do
  let doc ← doc.openEach? (leadingKeys key)
  if !inRow then doc.define? key .table
  else match doc.entry? key with
    | none => some (doc.put key .tables)
    | some .tables => some (doc.put key .tables)
    | some _ => none

/-- Opens the tables that a dotted key goes through, each marked as implicit. -/
def openDotted? (doc : Document) (context : Key) : Key → Option (Document × Key)
  | [] => some (doc, context)
  | part :: rest => do
    let context := context ++ [part]
    let doc ← (doc.markImplicit context).open? context false
    doc.openDotted? context rest

def store? (doc : Document) (context : Key) (part : Text) (value : Value) : Option Document := do
  let key := context ++ [part]
  let doc ← match value with
    | .inline _ =>
      if doc.arrays.contains key then some (doc.unmarkImplicit key) else doc.define? key .table
    | value => doc.define? key (.value value)
  some (doc.setKind (kindKey context part) (match value with
    | .array _ => true
    | _ => false))

mutual

/-- What a value does to the document before it is stored at a key: arrays mark their kind, and
inline tables define their members. -/
def prepare? (doc : Document) (context : Key) (part : Text) (inArray : Bool) :
    Value → Option Document
  | .array items => (doc.setKind (kindKey context part) true).prepareItems? context part items
  | .inline members => do
    let key := context ++ [part]
    let doc ← (doc.markImplicit key).open? key inArray
    doc.assignMembers? key members
  | _ => some doc

def prepareItems? (doc : Document) (context : Key) (part : Text) :
    List Value → Option Document
  | [] => some doc
  | item :: rest => do
    let doc ← doc.prepare? context part true item
    doc.prepareItems? context part rest

def assignMembers? (doc : Document) (context : Key) : List (Key × Value) → Option Document
  | [] => some doc
  | (key, value) :: rest => do
    let part := key.getLastD []
    let (doc, inner) ← doc.openDotted? context key.dropLast
    let doc ← (doc.write (inner ++ [part])).prepare? inner part false value
    let doc ← doc.store? inner part value
    doc.assignMembers? context rest

end

/-- Takes in one statement inside the table that is open. -/
def step? (doc : Document) (context : Key) : Statement → Option (Document × Key)
  | .table key => do
    let doc ← doc.open? key false
    some ((doc.setKind key false).write key, key)
  | .tableItem key => do
    let doc ← doc.open? key true
    some ((doc.setKind key false).write key, key)
  | .assign key value => do
    let doc ← doc.assignMembers? context [(key, value)]
    some (doc, context)

def steps? (doc : Document) (context : Key) : List Statement → Option Document
  | [] => some doc
  | statement :: rest => do
    let (doc, context) ← doc.step? context statement
    doc.steps? context rest

def ofText? (text : Text) : Option Document := do
  let statements ← read? text
  ({} : Document).steps? [] statements

def children (doc : Document) (context : Key) : List (Text × Entry) :=
  doc.entries.filterMap fun (key, entry) =>
    if key.dropLast = context then key.getLast?.map fun part => (part, entry) else none

end Document

end HdlAlign.Toml
