import HdlAlign.Block.Align
import HdlAlign.Disk
import HdlAlign.Settings.Glob
import HdlAlign.Text.Quoted
import HdlAlign.Toml.Document

/-! The settings of a project, read from its settings file. -/

namespace HdlAlign

def Settings.defaultExtensions : List Text := Text.literals [".v", ".sv", ".vh", ".svh"]

/-- What a settings file decides.  Without one, the path and the root are empty. -/
structure Settings where
  path : Text := []
  root : Text := []
  options : Options := {}
  /-- The extensions of the files that are collected from directories. -/
  extensions : List Text := Settings.defaultExtensions
  exclude : List Text := []
  cacheEnabled : Bool := false
  cacheDirectory : Text := []
  deriving DecidableEq

inductive SettingsError where
  /-- The file cannot be read, is malformed, or gives a setting a value of the wrong kind. -/
  | unreadable (path : Text)
  | unknownKeys (path : Text) (keys : List Toml.Key)
  | noExtensions (path : Text)
  | badExtension (path extension : Text)
  | badPattern (path pattern : Text)
  | notSearchable (path : Text) (failure : Disk.Failure)

def SettingsError.message : SettingsError → Text
  | unreadable path => path ++ ": failed to parse TOML"
  | unknownKeys path keys =>
    path ++ ": unknown keys: " ++ Text.join ", " (keys.map Toml.Key.toText)
  | noExtensions path => path ++ ": [files].extensions must not be empty"
  | badExtension path ext => path ++ ": [files].extensions: bad extension " ++ Text.quote ext
  | badPattern path pattern =>
    path ++ ": [files].exclude: bad pattern " ++ Text.quote pattern ++ ": syntax error in pattern"
  | notSearchable path failure =>
    "failed to stat " ++ Text.quote path ++ ": " ++ failure.message

inductive Setting where
  | condense
  | endOfLine
  | extensions
  | exclude
  | cacheEnabled
  | cacheDirectory
  deriving DecidableEq

namespace Setting

def all : List Setting :=
  [condense, endOfLine, extensions, exclude, cacheEnabled, cacheDirectory]

def key : Setting → Text × Text
  | condense => ("format", "condense_blank_lines")
  | endOfLine => ("format", "align_end_of_line")
  | extensions => ("files", "extensions")
  | exclude => ("files", "exclude")
  | cacheEnabled => ("cache", "enabled")
  | cacheDirectory => ("cache", "dir")

/-- A character regardless of case; two letters outside ASCII are variants of ASCII ones. -/
def foldCase (c : Char) : Char :=
  if c = 'ſ' then 's' else if c = 'K' then 'k' else c.toLower

def sameName (a b : Text) : Bool := (Utf8.chars a).map foldCase == (Utf8.chars b).map foldCase

def isSection (name : Text) : Bool := all.any fun setting => sameName setting.key.1 name

def find? (sectionName name : Text) : Option Setting :=
  all.find? fun setting => sameName setting.key.1 sectionName && sameName setting.key.2 name

def bool? : Toml.Entry → Option Bool
  | .value (.boolean value) => some value
  | _ => none

def text? : Toml.Value → Option Text
  | .text value => some value
  | _ => none

def texts? : Toml.Entry → Option (List Text)
  | .value (.array items) => items.mapM text?
  | _ => none

def assign? (setting : Setting) (settings : Settings) (entry : Toml.Entry) : Option Settings :=
  match setting with
  | condense => (bool? entry).map fun b =>
    { settings with options := { settings.options with condense := b } }
  | endOfLine => (bool? entry).map fun b =>
    { settings with options := { settings.options with endOfLine := b } }
  | extensions => (texts? entry).map fun list => { settings with extensions := list }
  | exclude => (texts? entry).map fun list => { settings with exclude := list }
  | cacheEnabled => (bool? entry).map fun b => { settings with cacheEnabled := b }
  | cacheDirectory =>
    match entry with
    | .value value => (text? value).map fun t => { settings with cacheDirectory := t }
    | _ => none

end Setting

namespace Settings

def applySection? (sectionName : Text) :
    Settings → List (Text × Toml.Entry) → Option Settings
  | settings, [] => some settings
  | settings, (name, entry) :: rest =>
    match Setting.find? sectionName name with
    | none => applySection? sectionName settings rest
    | some setting => do
      let settings ← setting.assign? settings entry
      applySection? sectionName settings rest

def applyAll? (doc : Toml.Document) :
    Settings → List (Text × Toml.Entry) → Option Settings
  | settings, [] => some settings
  | settings, (name, entry) :: rest =>
    if !Setting.isSection name then applyAll? doc settings rest
    else match entry with
      | .table => do
        let settings ← applySection? name settings (doc.children [name])
        applyAll? doc settings rest
      | _ => none

/-- Whether a key that was written is a setting or a section of settings. -/
def isKnown (doc : Toml.Document) (key : Toml.Key) : Bool :=
  (doc.entry? key).isSome &&
    match key with
    | [name] => Setting.isSection name
    | [sectionName, name] => (Setting.find? sectionName name).isSome
    | _ => false

def isExtension (ext : Text) : Bool :=
  ext.head? == some 0x2E && !ext.contains 0x2F && !ext.contains 0x5C

def check (path : Text) (doc : Toml.Document) (settings : Settings) :
    Except SettingsError Unit := do
  let unknown := doc.written.filter (!isKnown doc ·)
  if !unknown.isEmpty then throw (.unknownKeys path unknown)
  if (doc.entry? (Text.literals ["files", "extensions"])).isSome then
    if settings.extensions.isEmpty then throw (.noExtensions path)
    if let some ext := settings.extensions.find? (!isExtension ·) then
      throw (.badExtension path ext)
  if let some pattern := settings.exclude.find? fun p => (Glob.parse? p).isNone then
    throw (.badPattern path pattern)

/-- Gives settings their place: the directory of the file is the root, from which a relative cache
directory is seen. -/
def located (settings : Settings) (path : Text) : Settings :=
  let root := Path.directory path
  let dir := settings.cacheDirectory
  { settings with
    path, root
    cacheDirectory := if dir.isEmpty || Path.isAbsolute dir then dir else Path.join root dir }

/-- The settings that the text of a file makes, on top of the defaults. -/
def ofText (path text : Text) : Except SettingsError Settings := do
  let some doc := Toml.Document.ofText? text | throw (.unreadable path)
  let some settings := applyAll? doc {} (doc.children []) | throw (.unreadable path)
  check path doc settings
  return settings.located path

def load (disk : Disk) (path : Text) : Except SettingsError Settings :=
  match disk.read path with
  | .error _ => .error (.unreadable path)
  | .ok text => ofText path text

/-- Whether a path is passed over: a pattern accepts its last name, or its way from the root. -/
def excludes (settings : Settings) (path : Text) : Bool :=
  let candidates := Path.base path ::
    if settings.root.isEmpty then [] else (Path.relative? settings.root path).toList
  settings.exclude.any fun pattern =>
    match Glob.parse? pattern with
    | none => false
    | some glob => candidates.any (Glob.accepts glob)

end Settings

end HdlAlign
