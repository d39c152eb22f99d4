import HdlAlign.Block.Align

/-! Cached outcomes as bytes, in the MessagePack format. -/

namespace HdlAlign.Cache

/-- The version of the payload; others are passed over. -/
def schema : UInt16 := 1

/-- What is cached of one block.  Where no line was left alone there may be no list at all. -/
structure Payload where
  schema : UInt16 := 0
  text : Text := []
  mode : UInt8 := 0
  verbatim : Option (List Int) := none
  rangeMismatch : Bool := false
  count : Int := 0
  deriving DecidableEq

def Payload.ofAligned (aligned : Aligned) : Payload where
  schema := Cache.schema
  text := aligned.text
  mode := aligned.mode.code
  verbatim := if aligned.verbatim.isEmpty then none else some aligned.verbatim
  rangeMismatch := aligned.rangeMismatch
  count := aligned.count

def Payload.toAligned (payload : Payload) : Aligned where
  text := payload.text
  mode := .ofCode payload.mode
  verbatim := payload.verbatim.getD []
  rangeMismatch := payload.rangeMismatch
  count := payload.count

/-! Writing -/

def bytesOf : (size : Nat) → Nat → Text
  | 0, _ => []
  | size + 1, n => bytesOf size (n / 256) ++ [n.toUInt8]

def lengthBytes (short : Nat) (shortMark mark8 mark16 mark32 : UInt8) (n : Nat) : Text :=
  if n < short then [shortMark + n.toUInt8]
  else if n < 256 && mark8 != 0 then mark8 :: bytesOf 1 n
  else if n < 65536 then mark16 :: bytesOf 2 n
  else mark32 :: bytesOf 4 n

def textBytes (text : Text) : Text := lengthBytes 32 0xA0 0xD9 0xDA 0xDB text.length ++ text

def intBytes (n : Int) : Text :=
  let low (bits : Nat) : Nat := (n.emod (Nat.pow 2 bits)).toNat
  if 0 ≤ n then
    if n < 128 then bytesOf 1 (low 8)
    else if n < 256 then 0xCC :: bytesOf 1 (low 8)
    else if n < 65536 then 0xCD :: bytesOf 2 (low 16)
    else if n < 0x100000000 then 0xCE :: bytesOf 4 (low 32)
    else 0xCF :: bytesOf 8 (low 64)
  else
    if -32 ≤ n then bytesOf 1 (low 8)
    else if -(128) ≤ n then 0xD0 :: bytesOf 1 (low 8)
    else if -(32768) ≤ n then 0xD1 :: bytesOf 2 (low 16)
    else if -(0x80000000) ≤ n then 0xD2 :: bytesOf 4 (low 32)
    else 0xD3 :: bytesOf 8 (low 64)

def listBytes : Option (List Int) → Text
  | none => [0xC0]
  | some ns => lengthBytes 16 0x90 0 0xDC 0xDD ns.length ++ ns.flatMap intBytes

def boolBytes (b : Bool) : Text := if b then [0xC3] else [0xC2]

inductive Field where
  | schema
  | text
  | mode
  | verbatim
  | rangeMismatch
  | count
  deriving DecidableEq

namespace Field

def all : List Field := [schema, text, mode, verbatim, rangeMismatch, count]

def name : Field → Text
  | schema => "Schema"
  | text => "Text"
  | mode => "Mode"
  | verbatim => "Verbatim"
  | rangeMismatch => "RangeMismatch"
  | count => "Aligned"

/-- The value of a field; the two narrow numbers have a fixed width. -/
def encode (payload : Payload) : Field → Text
  | schema => 0xCD :: bytesOf 2 payload.schema.toNat
  | text => textBytes payload.text
  | mode => 0xCC :: bytesOf 1 payload.mode.toNat
  | verbatim => listBytes payload.verbatim
  | rangeMismatch => boolBytes payload.rangeMismatch
  | count => intBytes payload.count

end Field

def Payload.encode (payload : Payload) : Text :=
  0x86 :: Field.all.flatMap fun field => textBytes field.name ++ field.encode payload

/-! Reading.  A reader answers with nothing where the bytes end too early or do not fit. -/

def numberOf (bytes : Text) : Nat := bytes.foldl (fun n byte => n * 256 + byte.toNat) 0

def take? (n : Nat) (bytes : Text) : Option (Text × Text) :=
  if bytes.length < n then none else some (bytes.take n, bytes.drop n)

def number? (size : Nat) (bytes : Text) : Option (Nat × Text) := do
  let (digits, rest) ← take? size bytes
  some (numberOf digits, rest)

/-- A number of some bits whose highest bit stands for the sign. -/
def ofBits (bits n : Nat) : Int := if 2 * n < Nat.pow 2 bits then n else (n : Int) - Nat.pow 2 bits

/-- Reads an integer of any width; where nothing stands it is 0.  The largest numbers wrap
around. -/
def int? : Text → Option (Int × Text)
  | [] => none
  | mark :: rest =>
    let plain (size : Nat) : Option (Int × Text) :=
      (number? size rest).map fun (n, r) => ((n : Int), r)
    let signed (size : Nat) : Option (Int × Text) :=
      (number? size rest).map fun (n, r) => (ofBits (8 * size) n, r)
    if mark < 0x80 || 0xE0 ≤ mark then some (ofBits 8 mark.toNat, rest)
    else match mark.toNat with
      | 0xC0 => some (0, rest)
      | 0xCC => plain 1
      | 0xCD => plain 2
      | 0xCE => plain 4
      | 0xCF => signed 8
      | 0xD0 => signed 1
      | 0xD1 => signed 2
      | 0xD2 => signed 4
      | 0xD3 => signed 8
      | _ => none

/-- Reads the length of a text or of raw bytes; where nothing stands there is none. -/
def textLength? : Text → Option (Nat × Text)
  | [] => none
  | mark :: rest =>
    if 0xA0 ≤ mark && mark < 0xC0 then some (mark.toNat - 0xA0, rest)
    else match mark.toNat with
      | 0xC0 => some (0, rest)
      | 0xC4 | 0xD9 => number? 1 rest
      | 0xC5 | 0xDA => number? 2 rest
      | 0xC6 | 0xDB => number? 4 rest
      | _ => none

def text? (bytes : Text) : Option (Text × Text) := do
  let (n, rest) ← textLength? bytes
  take? n rest

def bool? : Text → Option (Bool × Text)
  | 0xC0 :: rest => some (false, rest)
  | 0xC2 :: rest => some (false, rest)
  | 0xC3 :: rest => some (true, rest)
  | _ => none

/-- Reads the length of an array, which is missing where nothing stands. -/
def arrayLength? : Text → Option (Option Nat × Text)
  | [] => none
  | mark :: rest =>
    if 0x90 ≤ mark && mark < 0xA0 then some (some (mark.toNat - 0x90), rest)
    else match mark.toNat with
      | 0xC0 => some (none, rest)
      | 0xDC => (number? 2 rest).map fun (n, r) => (some n, r)
      | 0xDD => (number? 4 rest).map fun (n, r) => (some n, r)
      | _ => none

def mapLength? : Text → Option (Option Nat × Text)
  | [] => none
  | mark :: rest =>
    if 0x80 ≤ mark && mark < 0x90 then some (some (mark.toNat - 0x80), rest)
    else match mark.toNat with
      | 0xC0 => some (none, rest)
      | 0xDE => (number? 2 rest).map fun (n, r) => (some n, r)
      | 0xDF => (number? 4 rest).map fun (n, r) => (some n, r)
      | _ => none

def ints? : Nat → Text → Option (List Int × Text)
  | 0, bytes => some ([], bytes)
  | n + 1, bytes => do
    let (head, rest) ← int? bytes
    let (tail, rest) ← ints? n rest
    some (head :: tail, rest)

def list? (bytes : Text) : Option (Option (List Int) × Text) := do
  match ← arrayLength? bytes with
  | (none, rest) => some (none, rest)
  | (some n, rest) =>
    if rest.length < n then none
    else
      let (ns, rest) ← ints? n rest
      some (some ns, rest)

/-- The number of bytes behind a mark that stands for one value without parts. -/
def plainSize? (mark : UInt8) : Option Nat :=
  if mark < 0x80 || 0xE0 ≤ mark then some 0
  else match mark.toNat with
    | 0xC0 | 0xC2 | 0xC3 => some 0
    | 0xCC | 0xD0 => some 1
    | 0xCD | 0xD1 | 0xD4 => some 2
    | 0xD5 => some 3
    | 0xCA | 0xCE | 0xD2 => some 4
    | 0xD6 => some 5
    | 0xCB | 0xCF | 0xD3 => some 8
    | 0xD7 => some 9
    | 0xD8 => some 17
    | _ => none

def extensionSize? (mark : UInt8) : Option Nat :=
  match mark.toNat with
  | 0xC7 => some 1
  | 0xC8 => some 2
  | 0xC9 => some 4
  | _ => none

/-- Passes over values, of which `count` are left; each step takes in at least one byte. -/
def skip? : (steps count : Nat) → Text → Option Text
  | _, 0, bytes => some bytes
  | 0, _ + 1, _ => none
  | _ + 1, _ + 1, [] => none
  | steps + 1, count + 1, mark :: rest =>
    match plainSize? mark, extensionSize? mark with
    | some size, _ => do
      let (_, rest) ← take? size rest
      skip? steps count rest
    | none, some size => do
      let (n, rest) ← number? size rest
      let (_, rest) ← take? (n + 1) rest
      skip? steps count rest
    | none, none =>
      match textLength? (mark :: rest), arrayLength? (mark :: rest), mapLength? (mark :: rest) with
      | some (n, rest), _, _ => do
        let (_, rest) ← take? n rest
        skip? steps count rest
      | _, some (n, rest), _ => skip? steps (count + n.getD 0) rest
      | _, _, some (n, rest) => skip? steps (count + 2 * n.getD 0) rest
      | none, none, none => none

namespace Field

/-- Reads the value of a field; numbers that are too wide lose their upper bits. -/
def decode? (payload : Payload) (field : Field) (bytes : Text) : Option (Payload × Text) :=
  match field with
  | schema => (int? bytes).map fun (n, rest) =>
    ({ payload with schema := (n.emod (65536)).toNat.toUInt16 }, rest)
  | text => (text? bytes).map fun (t, rest) => ({ payload with text := t }, rest)
  | mode => (int? bytes).map fun (n, rest) =>
    ({ payload with mode := (n.emod (256)).toNat.toUInt8 }, rest)
  | verbatim => (list? bytes).map fun (ns, rest) => ({ payload with verbatim := ns }, rest)
  | rangeMismatch => (bool? bytes).map fun (b, rest) => ({ payload with rangeMismatch := b }, rest)
  | count => (int? bytes).map fun (n, rest) => ({ payload with count := n }, rest)

def decodeRow? (payload : Payload) : List Field → Text → Option Payload
  | [], _ => some payload
  | field :: rest, bytes => do
    let (payload, bytes) ← field.decode? payload bytes
    decodeRow? payload rest bytes

/-- Reads so many named fields; names that stand for none are passed over. -/
def decodeNamed? (payload : Payload) : Nat → Text → Option Payload
  | 0, _ => some payload
  | n + 1, bytes => do
    let (name, bytes) ← text? bytes
    match all.find? fun field => field.name = name with
    | some field =>
      let (payload, bytes) ← field.decode? payload bytes
      decodeNamed? payload n bytes
    | none =>
      let bytes ← skip? bytes.length 1 bytes
      decodeNamed? payload n bytes

end Field

/-- Reads a payload from the front: a map from names, a row of all fields, or nothing. -/
def Payload.decode? (bytes : Text) : Option Payload :=
  match mapLength? bytes, arrayLength? bytes with
  | some (none, _), _ => some {}
  | some (some n, rest), _ => Field.decodeNamed? {} n rest
  | none, some (n, rest) =>
    if n.getD 0 = 0 then some {}
    else if n = some Field.all.length then Field.decodeRow? {} Field.all rest
    else none
  | none, none => none

end HdlAlign.Cache
