import HdlAlign.Text.Basic

namespace HdlAlign.Trace

/-- A row of cells of a fixed number that is filled round and round.  While it fills up, the next
cell is the one behind the last; then it is the oldest, which is overwritten. -/
structure Ring (α : Type) where
  size : Nat
  cells : List α := []
  next : Nat := 0

namespace Ring

def push (ring : Ring α) (a : α) : Ring α :=
  { ring with
    cells := if ring.cells.length < ring.size then ring.cells ++ [a] else ring.cells.set ring.next a
    next := (ring.next + 1) % ring.size }

/-- A ring of a size, which cannot be negative. -/
def ofSize? (size : Int) : Option (Ring α) := if size < 0 then none else some { size := size.toNat }

def push? (ring : Ring α) (a : α) : Option (Ring α) :=
  if ring.size = 0 then none else some (ring.push a)

def toList (ring : Ring α) : List α :=
  if ring.cells.length < ring.size then ring.cells
  else ring.cells.drop ring.next ++ ring.cells.take ring.next

def pushAll (ring : Ring α) (as : List α) : Ring α := as.foldl push ring

end Ring

end HdlAlign.Trace
