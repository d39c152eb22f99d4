import HdlAlign.Diagnostic.Basic

namespace HdlAlign

/-- Diagnostics up to a limit that has 16 bits. -/
structure Bag where
  items : List Diagnostic := []
  capacity : UInt16

namespace Bag

/-- An empty bag; a limit out of range is moved to the nearest one. -/
def ofLimit (limit : Int) : Bag where
  capacity := if limit < 0 then 0 else if 65535 < limit then 65535 else limit.toNat.toUInt16

def size (bag : Bag) : Nat := bag.items.length

def isFull (bag : Bag) : Bool := bag.capacity.toNat ≤ bag.size

def add (bag : Bag) (d : Diagnostic) : Bag :=
  if bag.isFull then bag else { bag with items := bag.items ++ [d] }

def hasErrors (bag : Bag) : Bool := bag.items.any fun d => d.severity.atLeast .error

def hasWarnings (bag : Bag) : Bool := bag.items.any fun d => d.severity.atLeast .warning

/-- The limit that holds the items of two bags, if 16 bits can express it. -/
def mergedCapacity (bag other : Bag) : UInt16 :=
  let total := bag.size + other.size
  if total ≤ 65535 && bag.capacity.toNat < total then total.toUInt16 else bag.capacity

/-- Takes in the items of another bag, raising the limit where that is possible. -/
def merge (bag other : Bag) : Bag :=
  let capacity := mergedCapacity bag other
  { items := bag.items ++ other.items.take (capacity.toNat - bag.size), capacity }

def filter (bag : Bag) (least : Severity) : Bag :=
  { bag with items := bag.items.filter fun d => d.severity.atLeast least }

/-- The order of diagnostics: by span, then the more severe first, then by code. -/
def precedes (a b : Diagnostic) : Bool :=
  if a.span.file != b.span.file then a.span.file < b.span.file
  else if a.span.start != b.span.start then a.span.start < b.span.start
  else if a.span.stop != b.span.stop then a.span.stop < b.span.stop
  else if a.severity != b.severity then b.severity.level < a.severity.level
  else Text.lt a.code.toText b.code.toText

def sort (bag : Bag) : Bag :=
  { bag with items := bag.items.mergeSort fun a b => !precedes b a }

end Bag

structure Collector where
  bag : Bag
  /-- Everything that was ever reported, kept or not. -/
  seen : List Diagnostic := []

namespace Collector

/-- Diagnostics that differ at most in notes and fixes are the same report. -/
def sameReport (a b : Diagnostic) : Bool :=
  a.code = b.code && a.severity = b.severity && a.span = b.span && a.message = b.message

def report (c : Collector) (d : Diagnostic) : Collector :=
  if c.seen.any (sameReport d) then c
  else { bag := c.bag.add d, seen := c.seen ++ [d] }

end Collector

/-- A diagnostic on its way to a receiver; it is sent once. -/
structure Pending where
  diagnostic : Diagnostic
  sent : Bool := false

/-- Sends a diagnostic to a receiver, unless that was done before. -/
def Pending.emit {σ : Type} (report : σ → Diagnostic → σ) (p : Pending) (receiver : σ) :
    Pending × σ :=
  if p.sent then (p, receiver) else ({ p with sent := true }, report receiver p.diagnostic)

end HdlAlign
