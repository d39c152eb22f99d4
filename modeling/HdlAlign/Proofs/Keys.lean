import HdlAlign.Proofs.Paths

/-! The keys of a cache: different blocks and options have different ones, and every key has a
file of its own. -/

namespace HdlAlign

namespace Text

theorem hex_cons (byte : UInt8) (text : Text) : hex (byte :: text) = hex [byte] ++ hex text := by
  rw [hex, hex, List.flatMap_cons, List.flatMap_cons, List.flatMap_nil, List.append_nil]
  rfl

def hexValue (digit : UInt8) : Nat := (if digit < 0x3A then digit - 0x30 else digit - 0x57).toNat

theorem hexDigits_nibble {n : Nat} (small : n < 16) :
    ∃ digit, hexDigits n = [digit] ∧ hexValue digit = n ∧ digit ≠ Path.slash ∧ digit ≠ 0x2E := by
  have checked : ∀ n : Fin 16, (hexDigits n).length = 1 ∧
      ∀ digit ∈ hexDigits n, hexValue digit = n ∧ digit ≠ Path.slash ∧ digit ≠ 0x2E := by
    decide +kernel
  obtain ⟨single, digits⟩ := checked ⟨n, small⟩
  obtain ⟨digit, alone⟩ := List.length_eq_one_iff.mp single
  exact ⟨digit, alone, digits digit (alone ▸ List.mem_singleton_self digit)⟩

theorem hex_byte (byte : UInt8) :
    ∃ high low, hex [byte] = [high, low] ∧ byte.toNat = 16 * hexValue high + hexValue low ∧
      ∀ digit ∈ hex [byte], digit ≠ Path.slash ∧ digit ≠ 0x2E := by
  have bound := byte.toNat_lt
  obtain ⟨high, alone, value, clear⟩ := hexDigits_nibble (n := byte.toNat / 16) (by omega)
  obtain ⟨low, alone', value', clear'⟩ := hexDigits_nibble (n := byte.toNat % 16) (by omega)
  have digits : hex [byte] = [high, low] := by
    rw [hex, List.flatMap_cons, List.flatMap_nil, List.append_nil, alone, alone']
    rfl
  refine ⟨high, low, digits, by omega, fun digit member => ?_⟩
  rw [digits, List.mem_cons, List.mem_singleton] at member
  rcases member with rfl | rfl
  · exact clear
  · exact clear'

theorem length_hex_byte (byte : UInt8) : (hex [byte]).length = 2 := by
  obtain ⟨high, low, digits, -, -⟩ := hex_byte byte
  rw [digits]
  rfl

theorem hex_byte_inj {byte other : UInt8} (same : hex [byte] = hex [other]) : byte = other := by
  obtain ⟨high, low, digits, value, -⟩ := hex_byte byte
  obtain ⟨high', low', digits', value', -⟩ := hex_byte other
  rw [digits, digits'] at same
  cases same
  exact UInt8.toNat_inj.mp (value.trans value'.symm)

theorem length_hex_cons (byte : UInt8) (text : Text) :
    (hex (byte :: text)).length = 2 + (hex text).length := by
  rw [hex_cons, List.length_append, length_hex_byte]

theorem hex_inj {left right : Text} (same : hex left = hex right) : left = right := by
  induction left generalizing right with
  | nil =>
      cases right with
      | nil => rfl
      | cons byte right =>
          have length : 0 = _ := congrArg List.length same
          rw [length_hex_cons] at length
          omega
  | cons byte left ih =>
      cases right with
      | nil =>
          have length : _ = 0 := congrArg List.length same
          rw [length_hex_cons] at length
          omega
      | cons other right =>
          rw [hex_cons byte left, hex_cons other right] at same
          have pairs := List.append_inj same
            ((length_hex_byte byte).trans (length_hex_byte other).symm)
          rw [hex_byte_inj pairs.1, ih pairs.2]

theorem mem_hex {text : Text} {digit : UInt8} (member : digit ∈ hex text) :
    digit ≠ Path.slash ∧ digit ≠ 0x2E := by
  obtain ⟨byte, -, listed⟩ := List.mem_flatMap.mp member
  obtain ⟨_, _, -, -, clear⟩ := hex_byte byte
  refine clear digit ?_
  rw [hex, List.flatMap_cons, List.flatMap_nil, List.append_nil]
  exact listed

end Text

theorem Digest.length_of (message : Text) : (Digest.of message).length = 32 := rfl

namespace Cache

/-! Digests -/

def optionsText (options : Options) : Text :=
  "condense=" ++ key.flag options.condense ++ " eol=" ++ key.flag options.endOfLine

def hashed (block : Text) (options : Options) (lines : LineRange) : List Text :=
  [block, optionsText options,
    Digest.of block ++ (Digest.of (optionsText options) ++ Digest.of lines.toText)]

theorem optionsText_inj {options other : Options} (same : optionsText options = optionsText other) :
    options = other := by
  obtain ⟨condense, endOfLine⟩ := options
  obtain ⟨condense', endOfLine'⟩ := other
  revert same
  cases condense <;> cases endOfLine <;> cases condense' <;> cases endOfLine' <;> decide

theorem key_eq (block : Text) (options : Options) (lines : LineRange) :
    key block options lines =
      Digest.of (Digest.of block ++ (Digest.of (optionsText options) ++ Digest.of lines.toText)) := by
  rw [key, Digest.combine]
  simp only [List.flatten_cons, List.flatten_nil, List.append_nil]
  rfl

theorem length_key (block : Text) (options : Options) (lines : LineRange) :
    (key block options lines).length = 32 := Digest.length_of _

/-- As long as no two of the texts that are hashed share a digest, a key stands for one block and
one choice of options. -/
theorem key_inj {texts : Set Text} (distinct : texts.InjOn Digest.of) {block block' : Text}
    {options options' : Options} {lines lines' : LineRange}
    (listed : ∀ text ∈ hashed block options lines, text ∈ texts)
    (listed' : ∀ text ∈ hashed block' options' lines', text ∈ texts)
    (same : key block options lines = key block' options' lines') :
    block = block' ∧ options = options' := by
  rw [key_eq, key_eq] at same
  have joined := distinct (listed _ (by simp [hashed])) (listed' _ (by simp [hashed])) same
  have sameLength (first second : Text) : (Digest.of first).length = (Digest.of second).length :=
    (Digest.length_of first).trans (Digest.length_of second).symm
  obtain ⟨blocks, rest⟩ := List.append_inj joined (sameLength _ _)
  obtain ⟨choices, -⟩ := List.append_inj rest (sameLength _ _)
  exact ⟨distinct (listed _ (by simp [hashed])) (listed' _ (by simp [hashed])) blocks,
    optionsText_inj (distinct (listed _ (by simp [hashed])) (listed' _ (by simp [hashed])) choices)⟩

/-! Files -/

def directoryName (key : Digest) : Text := Text.hex (key.take 1)

def fileName (key : Digest) : Text := Text.hex key ++ Text.ofString ".mp"

theorem isName_of_digits {byte : UInt8} {text : Text} (front : Text.hex [byte] <+: text)
    (noSlash : Path.slash ∉ text) : Path.IsName text ∧ Disk.Proper text := by
  obtain ⟨digit, low, starts, -, digits⟩ := Text.hex_byte byte
  obtain ⟨tail, rfl⟩ := front
  have notDot : digit ≠ 0x2E := (digits digit (by rw [starts]; exact List.mem_cons_self)).2
  rw [starts] at noSlash ⊢
  exact ⟨⟨List.cons_ne_nil _ _, noSlash⟩, fun same => notDot (List.cons.inj same).1,
    fun same => notDot (List.cons.inj same).1⟩

theorem isName_directoryName {key : Digest} (filled : key ≠ []) :
    Path.IsName (directoryName key) ∧ Disk.Proper (directoryName key) := by
  obtain ⟨byte, rest, rfl⟩ := List.exists_cons_of_ne_nil filled
  exact isName_of_digits (List.prefix_refl _) fun slash => (Text.mem_hex slash).1 rfl

theorem isName_fileName {key : Digest} (filled : key ≠ []) :
    Path.IsName (fileName key) ∧ Disk.Proper (fileName key) := by
  obtain ⟨byte, rest, rfl⟩ := List.exists_cons_of_ne_nil filled
  refine @isName_of_digits byte _ ?_ fun slash => ?_
  · rw [fileName, Text.hex_cons byte rest, List.append_assoc]
    exact List.prefix_append _ _
  · rcases List.mem_append.mp slash with digit | suffix
    · exact (Text.mem_hex digit).1 rfl
    · exact absurd suffix (by decide)

theorem fileName_inj {key other : Digest} (same : fileName key = fileName other) : key = other :=
  Text.hex_inj (List.append_cancel_right same)

theorem blocks_eq (cache : Cache) :
    ∃ absolute names, names ≠ [] ∧ Path.Settled absolute names.reverse ∧
      cache.blocks = Path.ofNames absolute names := by
  have isName : Path.IsName (Text.ofString "blocks") := ⟨by decide, by decide⟩
  have proper : Disk.Proper (Text.ofString "blocks") := ⟨by decide, by decide⟩
  by_cases filled : cache.directory = []
  · refine ⟨false, [Text.ofString "blocks"], List.cons_ne_nil _ _,
      Path.Settled.push ⟨fun _ member => absurd member List.not_mem_nil, rfl⟩ isName proper, ?_⟩
    rw [blocks, filled]
    rfl
  · refine ⟨_, _, ?_, ?_, Path.join_of_isName filled isName proper⟩
    · simp
    · rw [List.reverse_append]
      exact (Path.settled_cleanNames cache.directory).push isName proper

theorem join_ofNames {absolute : Bool} {names : List Text} (some : names ≠ [])
    (settled : Path.Settled absolute names.reverse) {name : Text}
    (isName : Path.IsName name ∧ Disk.Proper name) :
    Path.join (Path.ofNames absolute names) name = Path.ofNames absolute (names ++ [name]) ∧
      Path.Settled absolute (names ++ [name]).reverse := by
  rw [Path.join_of_isName (Path.ofNames_ne_nil some settled.isName_reverse) isName.1 isName.2,
    Path.isAbsolute_ofNames some settled.isName_reverse, Path.cleanNames_ofNames some settled,
    List.reverse_append]
  exact ⟨rfl, settled.push isName.1 isName.2⟩

theorem exists_names (cache : Cache) :
    ∃ absolute names, names ≠ [] ∧ cache.blocks = Path.ofNames absolute names ∧
      ∀ {key : Digest}, key ≠ [] →
        (∀ name ∈ names ++ [directoryName key, fileName key], Path.IsName name) ∧
        cache.file key = Path.ofNames absolute (names ++ [directoryName key, fileName key]) ∧
        Path.directory (cache.file key) = Path.ofNames absolute (names ++ [directoryName key]) := by
  obtain ⟨absolute, names, some, settled, same⟩ := cache.blocks_eq
  refine ⟨absolute, names, some, same, fun {key} filled => ?_⟩
  have isName := isName_fileName filled
  obtain ⟨directory, settled'⟩ := join_ofNames some settled (isName_directoryName filled)
  obtain ⟨file, settled''⟩ := join_ofNames (by simp) settled' isName
  have path : cache.file key =
      Path.ofNames absolute (names ++ [directoryName key] ++ [fileName key]) := by
    rw [← file, ← directory, ← same]
    rfl
  have parent := Path.directory_ofNames (by simp) settled' isName.1
  rw [← path] at parent
  rw [List.append_assoc] at path settled''
  exact ⟨settled''.isName_reverse, path, parent⟩

theorem steps_file (cache : Cache) {key : Digest} (filled : key ≠ []) (disk : Disk) :
    Disk.steps (cache.file key) =
        Disk.steps cache.blocks ++ [directoryName key, fileName key] ∧
      disk.start (cache.file key) = disk.start cache.blocks ∧ cache.file key ≠ [] := by
  obtain ⟨absolute, names, some, same, files⟩ := cache.exists_names
  obtain ⟨isName, path, -⟩ := files filled
  have isName' : ∀ name ∈ names, Path.IsName name := fun name member =>
    isName name (List.mem_append_left _ member)
  have more : names ++ [directoryName key, fileName key] ≠ [] := by simp
  rw [path, same, Path.steps_ofNames more isName, Path.steps_ofNames some isName', Disk.start,
    Disk.start, Path.isAbsolute_ofNames more isName, Path.isAbsolute_ofNames some isName']
  exact ⟨rfl, rfl, Path.ofNames_ne_nil more isName⟩

theorem steps_directory (cache : Cache) {key : Digest} (filled : key ≠ []) (disk : Disk) :
    Disk.steps (cache.file key) =
        Disk.steps (Path.directory (cache.file key)) ++ [fileName key] ∧
      disk.start (cache.file key) = disk.start (Path.directory (cache.file key)) := by
  obtain ⟨absolute, names, some, -, files⟩ := cache.exists_names
  obtain ⟨isName, path, directory⟩ := files filled
  rw [List.append_cons] at isName path
  have isName' : ∀ name ∈ names ++ [directoryName key], Path.IsName name := fun name member =>
    isName name (List.mem_append_left _ member)
  rw [directory, path, Path.steps_ofNames (by simp) isName, Path.steps_ofNames (by simp) isName',
    Disk.start, Disk.start, Path.isAbsolute_ofNames (by simp) isName,
    Path.isAbsolute_ofNames (by simp) isName']
  exact ⟨rfl, rfl⟩

end Cache

end HdlAlign
