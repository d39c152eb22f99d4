import HdlAlign.Layout.Line
import HdlAlign.Statement.Port

namespace HdlAlign

inductive Grammar where
  | declaration
  | port
  deriving DecidableEq

namespace Grammar

open Statement

def name : Grammar → Text
  | declaration => "declaration"
  | port => "port"

/-- The parts of a line in the order in which they are found; absent parts are empty. -/
def extract : Grammar → Text → List Text
  | declaration, line => (Declaration.extract line).found
  | port, line => (Port.extract line).found

def layout : Grammar → Text → List Text
  | declaration, line => (Declaration.extract line).columns
  | port, line => (Port.extract line).columns

def arity : Grammar → Nat
  | declaration => 6
  | port => 5

def columns : Grammar → Nat
  | declaration => 6
  | port => 6

def isStatement : Grammar → Text → Bool
  | declaration, code => Declaration.isStatement (Text.trim code)
  | port, code => Port.isStatement (Text.trim code)

/-- Reads one input line.  A blank line becomes an empty one; a line that is no statement keeps
its text. -/
def classify (grammar : Grammar) (line : Text) (source : Int) : Line :=
  if Text.isBlank line then .verbatim [] source
  else if grammar.isStatement (Text.splitComment line).1 then
    .aligned (grammar.layout line) source
  else .verbatim line source

@[simp] theorem length_extract (grammar : Grammar) (line : Text) :
    (grammar.extract line).length = grammar.arity := by
  cases grammar <;> rfl

@[simp] theorem length_layout (grammar : Grammar) (line : Text) :
    (grammar.layout line).length = grammar.columns := by
  cases grammar <;> rfl

end Grammar

end HdlAlign
