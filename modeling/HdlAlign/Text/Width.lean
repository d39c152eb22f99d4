import HdlAlign.Text.Cluster
import HdlAlign.Unicode.Columns

namespace HdlAlign.Text

/-- A cluster is as wide as its first character that takes any column. -/
def clusterWidth (cluster : Text) : Nat :=
  (((Utf8.chars cluster).map fun c => Unicode.columns c.toNat).find? (· != 0)).getD 0

def width (text : Text) : Nat :=
  (clusters text).foldr (fun cluster rest => clusterWidth cluster + rest) 0

/-- Appends blanks up to a width; wider text is kept whole. -/
def padRight (text : Text) (columns : Nat) : Text := text ++ blanks (columns - text.width)

def padLeft (text : Text) (columns : Nat) : Text := blanks (columns - text.width) ++ text

def fitClusters (columns : Nat) : List Text → Text
  | [] => []
  | cluster :: rest =>
    if clusterWidth cluster ≤ columns then
      cluster ++ fitClusters (columns - clusterWidth cluster) rest
    else []

/-- Shortens a text to a width and marks the cut with a tail. -/
def truncate (text : Text) (columns : Nat) (tail : Text) : Text :=
  if text.width ≤ columns then text
  else fitClusters (columns - tail.width) (clusters text) ++ tail

end HdlAlign.Text
