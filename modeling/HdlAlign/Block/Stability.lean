import HdlAlign.Block.Align
import HdlAlign.Text.Quoted

/-! Checking that aligning an aligned block changes nothing. -/

namespace HdlAlign.Block

inductive Stability where
  | stable
  | lineChanged (number : Nat) (first second : Text)
  | countChanged (first second : Nat)
  deriving DecidableEq

namespace Stability

def firstChange (number : Nat) : List Text → List Text → Option (Nat × Text × Text)
  | a :: first, b :: second =>
    if a = b then firstChange (number + 1) first second else some (number, a, b)
  | _, _ => none

def compare (first second : Text) : Stability :=
  if first = second then stable
  else match firstChange 1 first.lines second.lines with
    | some (number, a, b) => lineChanged number a b
    | none => countChanged first.lines.length second.lines.length

def isStable : Stability → Bool
  | stable => true
  | _ => false

def message : Stability → Text
  | stable => "fmt-check: OK"
  | lineChanged number a b =>
    "fmt-check: line " ++ Text.decimal number ++ " changed on second pass: " ++ Text.quote a ++
      " -> " ++ Text.quote b
  | countChanged a b =>
    "fmt-check: line count changed on second pass: " ++ Text.decimal a ++ " -> " ++
      Text.decimal b

end Stability

def stability (options : Options) (text : Text) : Stability :=
  .compare (format options text) (format options (format options text))

end HdlAlign.Block
