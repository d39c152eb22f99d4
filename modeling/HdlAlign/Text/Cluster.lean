import HdlAlign.Text.Utf8
import HdlAlign.Unicode.BreakClass

/-! Extended grapheme clusters of a text.  The text is first read into units, which follow the
lengths announced by leading bytes: a sequence that is only ill-formed in its value is one unit,
and what is announced but missing at the end of the text stays with the cluster before it. -/

namespace HdlAlign.Text

open Unicode

/-- A stretch of bytes that is never cut; the class is absent for a truncated last sequence. -/
structure Stretch where
  bytes : Text
  breakClass : Option BreakClass

/-- The class of a sequence of three or four bytes, which has none of its own when the value is
encoded too long, is a surrogate or is too large. -/
def sequenceClass (least code : Nat) : BreakClass :=
  if code < least || (0xD800 ≤ code && code ≤ 0xDFFF) || 0x10FFFF < code then .other
  else BreakClass.ofCode code

def Stretch.loose (bytes : Text) : Stretch := ⟨bytes, some .other⟩

def Stretch.truncated (bytes : Text) : Stretch := ⟨bytes, none⟩

def units : Text → List Stretch
  | [] => []
  | a :: rest =>
    if a < 0x80 then ⟨[a], some (.ofAscii a.toNat)⟩ :: units rest
    else if a < 0xC2 || 0xF8 ≤ a then .loose [a] :: units rest
    else if a < 0xE0 then
      match rest with
      | b :: tail =>
        if Utf8.isContinuation b then ⟨[a, b], some (.ofCode (Utf8.code2 a b))⟩ :: units tail
        else .loose [a] :: units (b :: tail)
      | rest => [.truncated (a :: rest)]
    else if a < 0xF0 then
      match rest with
      | b :: c :: tail =>
        if !Utf8.isContinuation b then .loose [a] :: units (b :: c :: tail)
        else if !Utf8.isContinuation c then .loose [a, b] :: units (c :: tail)
        else ⟨[a, b, c], some (sequenceClass 0x800 (Utf8.code3 a b c))⟩ :: units tail
      | rest => [.truncated (a :: rest)]
    else
      match rest with
      | b :: c :: d :: tail =>
        if !Utf8.isContinuation b then .loose [a] :: units (b :: c :: d :: tail)
        else if !Utf8.isContinuation c then .loose [a, b] :: units (c :: d :: tail)
        else if !Utf8.isContinuation d then .loose [a, b, c] :: units (d :: tail)
        else ⟨[a, b, c, d], some (sequenceClass 0x10000 (Utf8.code4 a b c d))⟩ :: units tail
      | rest => [.truncated (a :: rest)]

structure ClusterState where
  last : BreakClass
  /-- The cluster ends with a pictograph and any number of extending characters. -/
  pictograph : Bool
  joined : Bool
  oddRegional : Bool

namespace ClusterState

def first (cls : BreakClass) : ClusterState :=
  ⟨cls, cls == .pictographic, false, cls == .regional⟩

def next (state : ClusterState) (cls : BreakClass) : ClusterState where
  last := cls
  pictograph := cls == .pictographic || (cls == .extending && state.pictograph)
  joined := cls == .joiner && state.pictograph
  oddRegional := cls == .regional && !state.oddRegional

def isBreaking : BreakClass → Bool
  | .control | .carriageReturn | .lineFeed => true
  | _ => false

def syllableContinues : BreakClass → BreakClass → Bool
  | .leadingJamo, .leadingJamo | .leadingJamo, .vowelJamo => true
  | .leadingJamo, .openSyllable | .leadingJamo, .closedSyllable => true
  | .openSyllable, .vowelJamo | .openSyllable, .trailingJamo => true
  | .vowelJamo, .vowelJamo | .vowelJamo, .trailingJamo => true
  | .closedSyllable, .trailingJamo | .trailingJamo, .trailingJamo => true
  | _, _ => false

def continues (state : ClusterState) (cls : BreakClass) : Bool :=
  if state.last == .carriageReturn && cls == .lineFeed then true
  else if isBreaking state.last || isBreaking cls then false
  else syllableContinues state.last cls ||
    cls == .extending || cls == .joiner || cls == .spacing || state.last == .prepended ||
    (cls == .pictographic && state.joined) || (cls == .regional && state.oddRegional)

end ClusterState

def gather (cluster : Text) (state : ClusterState) : List Stretch → List Text
  | [] => [cluster]
  | unit :: rest =>
    match unit.breakClass with
    | none => [cluster ++ unit.bytes]
    | some cls =>
      if state.continues cls then gather (cluster ++ unit.bytes) (state.next cls) rest
      else cluster :: gather unit.bytes (.first cls) rest

def clusters (text : Text) : List Text :=
  match units text with
  | [] => []
  | unit :: rest => gather unit.bytes (.first (unit.breakClass.getD .other)) rest

end HdlAlign.Text
