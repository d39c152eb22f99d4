import HdlAlign.Command.Value

/-! Options of a command line, and what is left when they are taken out. -/

namespace HdlAlign.Command

structure Flag where
  name : Text
  letter : Option UInt8 := none
  kind : Kind
  deriving DecidableEq

inductive FlagError where
  | badSyntax (argument : Text)
  | unknown (name : Text)
  | unknownLetter (letter : UInt8) (letters : Text)
  | needsArgument (name : Text)
  | badValue (flag : Flag) (value cause : Text)
  deriving DecidableEq

/-- The character that stands for an unknown letter.  Only the first of several bytes is shown. -/
def letterText (letter : UInt8) : Text :=
  let code := if letter < 0x80 then letter.toNat else if letter < 0xC0 then 0xC2 else 0xC3
  if code = 0x27 then "'\\''"
  else if code = 0x22 then "'\"'"
  else "'" ++ ((Text.quote (Utf8.encodeChar (Char.ofNat code))).drop 1).dropLast ++ "'"

def Flag.title (flag : Flag) : Text :=
  match flag.letter with
  | none => "--" ++ flag.name
  | some letter => "-" ++ letter :: ", --" ++ flag.name

def FlagError.message : FlagError → Text
  | badSyntax argument => "bad flag syntax: " ++ argument
  | unknown name => "unknown flag: --" ++ name
  | unknownLetter letter letters =>
    "unknown shorthand flag: " ++ letterText letter ++ " in -" ++ letters
  | needsArgument name => "flag needs an argument: --" ++ name
  | badValue flag value cause =>
    "invalid argument " ++ Text.quote value ++ " for " ++ Text.quote flag.title ++ " flag: " ++
      cause

/-- The options that were given, the last one first, and the arguments in order. -/
structure Parsed where
  values : List (Text × Value) := []
  arguments : List Text := []

namespace Parsed

def set (parsed : Parsed) (flag : Flag) (text : Text) : Except FlagError Parsed :=
  match flag.kind.read text with
  | .error cause => .error (.badValue flag text cause)
  | .ok value => .ok { parsed with values := (flag.name, value) :: parsed.values }

def toggle? (parsed : Parsed) (name : String) : Option Bool :=
  match parsed.values.lookup (Text.ofString name) with
  | some (.toggle b) => some b
  | _ => none

def toggle (parsed : Parsed) (name : String) : Bool := (parsed.toggle? name).getD false

def text (parsed : Parsed) (name default : String) : Text :=
  match parsed.values.lookup (Text.ofString name) with
  | some (.text t) => t
  | _ => Text.ofString default

def number (parsed : Parsed) (name : String) (default : Int) : Int :=
  match parsed.values.lookup (Text.ofString name) with
  | some (.number n) => n
  | _ => default

end Parsed

def findFlag? (flags : List Flag) (name : Text) : Option Flag := flags.find? (·.name = name)

def truth : Text := "true"

/-- Reads letters that stand for options.  Each of them is a toggle; a value may follow an equals
sign. -/
def readLetters (flags : List Flag) (parsed : Parsed) : Text → Except FlagError Parsed
  | [] => .ok parsed
  | letter :: rest =>
    match flags.find? (·.letter = some letter) with
    | none => .error (.unknownLetter letter (letter :: rest))
    | some flag =>
      match rest with
      | 0x3D :: byte :: value => parsed.set flag (byte :: value)
      | rest => do
        let parsed ← parsed.set flag truth
        readLetters flags parsed rest

def readLong (flags : List Flag) (parsed : Parsed) (argument name : Text) (rest : List Text) :
    Except FlagError (Parsed × List Text) :=
  let (name, value?) := match Text.breakOn? "=" name with
    | none => (name, none)
    | some (name, value) => (name, some (value.drop 1))
  if name.isEmpty || name.head? = some 0x2D then .error (.badSyntax argument)
  else match findFlag? flags name with
    | none => .error (.unknown name)
    | some flag =>
      match value?, rest with
      | some value, rest => do return (← parsed.set flag value, rest)
      | none, rest =>
        if flag.kind = .toggle then do return (← parsed.set flag truth, rest)
        else match rest with
          | [] => .error (.needsArgument name)
          | value :: rest => do return (← parsed.set flag value, rest)

/-- Reads a command line.  Options and arguments may be mixed; two dashes end the options. -/
def readArguments (flags : List Flag) : Nat → Parsed → List Text → Except FlagError Parsed
  | 0, parsed, _ => .ok parsed
  | _ + 1, parsed, [] => .ok parsed
  | n + 1, parsed, argument :: rest =>
    match argument with
    | [0x2D, 0x2D] => .ok { parsed with arguments := parsed.arguments ++ rest }
    | 0x2D :: 0x2D :: name => do
      let (parsed, rest) ← readLong flags parsed argument name rest
      readArguments flags n parsed rest
    | 0x2D :: byte :: letters => do
      let letters : Text := byte :: letters
      let parsed ←
        if letters.startsWith "test." then .ok parsed else readLetters flags parsed letters
      readArguments flags n parsed rest
    | argument =>
      readArguments flags n { parsed with arguments := parsed.arguments ++ [argument] } rest

def parse (flags : List Flag) (arguments : List Text) : Except FlagError Parsed :=
  readArguments flags (arguments.length + 1) {} arguments

/-! Finding a command among options whose meaning is not settled yet.  An option that might take
an argument takes the next one. -/

def takesNext (flags : List Flag) (argument : Text) : Bool :=
  !argument.contains 0x3D &&
    match argument with
    | 0x2D :: 0x2D :: name =>
      match findFlag? flags name with
      | none => true
      | some flag => flag.kind != .toggle
    | [0x2D, letter] =>
      match flags.find? (·.letter = some letter) with
      | none => true
      | some flag => flag.kind != .toggle
    | _ => false

def plainArguments (flags : List Flag) : List Text → List Text
  | [] => []
  | argument :: rest =>
    if argument = "--" then []
    else if takesNext flags argument then
      match rest with
      | _ :: next :: others => plainArguments flags (next :: others)
      | _ => []
    else if !argument.isEmpty && argument.head? != some 0x2D then
      argument :: plainArguments flags rest
    else plainArguments flags rest

/-- The arguments without the first plain one that is a given name. -/
def withoutFirst (flags : List Flag) (name : Text) : List Text → List Text
  | [] => []
  | argument :: rest =>
    if argument = "--" then argument :: rest
    else if takesNext flags argument then
      match rest with
      | [] => [argument]
      | value :: others => argument :: value :: withoutFirst flags name others
    else if argument = name then rest
    else argument :: withoutFirst flags name rest

end HdlAlign.Command
