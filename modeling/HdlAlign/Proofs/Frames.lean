import HdlAlign.Proofs.Footer
import HdlAlign.Proofs.Positions

/-! What the frame of a port list is: where its header ends, where its footer begins, and on which
lines of the text its own lines stand. -/

namespace HdlAlign.Ports

theorem forall₂_placeCommas {R : Line → Line → Prop} (refl : ∀ line, R line line)
    (changed : ∀ line column value, R (line.withField column value) line) (endOfLine : Bool)
    (lines : List Line) : List.Forall₂ R (placeCommas endOfLine lines) lines := by
  have behind (lines : List Line) : List.Forall₂ R (commasBehind lines) lines := by
    induction lines with
    | nil => exact .nil
    | cons line rest ih =>
        refine .cons ?_ ih
        split
        · exact changed ..
        · exact refl line
  have before (seen : Bool) (lines : List Line) :
      List.Forall₂ R (commasBefore seen lines) lines := by
    induction lines generalizing seen with
    | nil => exact .nil
    | cons line rest ih =>
        refine .cons ?_ (ih _)
        split
        · exact changed ..
        · exact refl line
  rw [placeCommas]
  split
  · exact behind lines
  · exact before false lines

end HdlAlign.Ports

namespace HdlAlign.Block

open Text Utf8 Pattern Statement

/-! The header -/

/-- What the head of a module looks like: blanks, the keyword, a blank behind it, and a part of one
line up to an opening parenthesis. -/
def IsHead (head : Text) : Prop :=
  ∃ margin word space line, head = margin ++ (word ++ space :: (line ++ ofString "(")) ∧
    (∀ byte ∈ margin, isIndent byte) ∧
    (word = ofString "module" ∨ word = ofString "macromodule") ∧ isSpace space ∧ newline ∉ line

theorem cutFront_lead (text : Text) :
    ∃ margin macroWord rest,
      cutFront (run isIndent >> Pattern.optional (literal "macro")) text =
        (margin ++ macroWord, rest) ∧
      (∀ byte ∈ margin, isIndent byte) ∧ (macroWord = [] ∨ macroWord = ofString "macro") := by
  refine ⟨text.takeWhile isIndent,
    (((literal "macro") (text.dropWhile isIndent)).getD ([], text.dropWhile isIndent)).1, _, rfl,
    fun byte member => List.mem_takeWhile_imp member, ?_⟩
  cases read : (literal "macro") (text.dropWhile isIndent) with
  | none => exact .inl rfl
  | some found => exact .inr (literal_eq_some_iff.mp read).1

theorem moduleHead_sound {text head rest : Text} (found : moduleHead text = some (head, rest)) :
    IsHead head ∧ ('(' : UInt8) ∉ rest.takeWhile (· != newline) := by
  obtain ⟨margin, macroWord, rest, lead, indent, isMacro⟩ := cutFront_lead text
  unfold moduleHead at found
  rw [lead] at found
  dsimp only at found
  split at found
  · cases found
  · next word tail read =>
      split at found
      · cases found
      · next line cut =>
          cases found
          obtain ⟨before, broke, rfl⟩ := Option.map_eq_some_iff.mp cut
          obtain ⟨behind, split, last⟩ := beforeLast?_split broke
          obtain ⟨_, middle, _, first, second, rfl⟩ := andThen_eq_some_iff.mp read
          obtain ⟨rfl, -⟩ := literal_eq_some_iff.mp first
          obtain ⟨space, blank, rfl, rfl⟩ := one_eq_some_iff.mp second
          have opening : ofString "(" = [('(' : UInt8)] := by decide
          have whole := List.takeWhile_append_dropWhile (p := (· != newline)) (l := tail)
          have single : newline ∉ before ++ ('(' : UInt8) :: behind := fun member => by
            rw [← split] at member
            simpa using List.mem_takeWhile_imp member
          have keyword : macroWord ++ ofString "module" = ofString "module" ∨
              macroWord ++ ofString "module" = ofString "macromodule" := by
            rcases isMacro with rfl | rfl
            · exact .inl rfl
            · exact .inr (by decide)
          refine ⟨⟨margin, macroWord ++ ofString "module", space, before, ?_, indent, keyword, blank,
            fun member => single (List.mem_append_left _ member)⟩, ?_⟩
          · simp only [List.append_assoc, List.singleton_append]
          · have behindHead : tail.drop (before ++ ofString "(").length =
                behind ++ tail.dropWhile (· != newline) := by
              conv => lhs; rw [← whole, split, opening]
              simp
            have ends : (tail.dropWhile (· != newline)).takeWhile (· != newline) = [] := by
              have stopped := List.head?_dropWhile_not (· != newline) tail
              cases others : tail.dropWhile (· != newline) with
              | nil => rfl
              | cons byte others' =>
                  rw [others] at stopped
                  simpa using stopped
            rw [behindHead, List.takeWhile_append_of_pos fun byte member => by
              simpa using fun same : byte = newline => single (by simp [← same, member]), ends,
              List.append_nil]
            exact last

theorem cutFront_lead_of_word {margin word : Text} (indent : ∀ byte ∈ margin, isIndent byte)
    (isWord : word = ofString "module" ∨ word = ofString "macromodule") (tail : Text) :
    ∃ front, cutFront (run isIndent >> Pattern.optional (literal "macro")) (margin ++ (word ++ tail)) =
      (front, ofString "module" ++ tail) := by
  have indented (text : Text) : run isIndent (margin ++ (ofString "m" ++ text)) =
      some (margin, ofString "m" ++ text) := by
    refine run_eq_some_iff.mpr ⟨?_, ?_⟩
    · rw [List.takeWhile_append_of_pos indent]
      exact List.append_nil margin
    · rw [List.dropWhile_append_of_pos indent]
      rfl
  have result {part : Text} (read : (run isIndent >> Pattern.optional (literal "macro"))
      (margin ++ (word ++ tail)) = some (part, ofString "module" ++ tail)) :
      cutFront (run isIndent >> Pattern.optional (literal "macro")) (margin ++ (word ++ tail)) =
        (part, ofString "module" ++ tail) := by rw [cutFront, read, Option.getD_some]
  rcases isWord with rfl | rfl
  · exact ⟨_, result (andThen_eq_some_iff.mpr ⟨margin, _, [], indented (ofString "odule" ++ tail),
      optional_eq_some_iff.mpr (.inr ⟨rfl, rfl, rfl⟩), rfl⟩)⟩
  · exact ⟨_, result (andThen_eq_some_iff.mpr ⟨margin, _, ofString "macro",
      indented (ofString "acromodule" ++ tail),
      optional_eq_some_iff.mpr (.inl (literal_eq_some_iff.mpr ⟨rfl, rfl⟩)), rfl⟩)⟩

theorem moduleHead_complete {head : Text} (isHead : IsHead head) (rest : Text) :
    moduleHead (head ++ rest) ≠ none := by
  obtain ⟨margin, word, space, line, rfl, indent, isWord, blank, single⟩ := isHead
  have opening : ofString "(" = [('(' : UInt8)] := by decide
  let tail : Text := line ++ ofString "(" ++ rest
  obtain ⟨front, lead⟩ := cutFront_lead_of_word indent isWord (space :: tail)
  have wordRead : (literal "module" >> one isSpace) (ofString "module" ++ space :: tail) =
      some (ofString "module" ++ [space], tail) :=
    andThen_eq_some_iff.mpr ⟨_, _, _, literal_eq_some_iff.mpr ⟨rfl, rfl⟩,
      one_eq_some_iff.mpr ⟨space, blank, rfl, rfl⟩, rfl⟩
  have opens : ('(' : UInt8) ∈ tail.takeWhile (· != newline) := by
    have inLine : ∀ byte ∈ line ++ ofString "(", (byte != newline) = true := by
      intro byte member
      rcases List.mem_append.mp member with inside | last
      · simpa using fun same : byte = newline => single (same ▸ inside)
      · rw [opening, List.mem_singleton] at last
        rw [last]
        rfl
    rw [List.takeWhile_append_of_pos inLine, opening]
    simp
  have cut : toLastParenthesis? (tail.takeWhile (· != newline)) ≠ none := by
    simpa [toLastParenthesis?] using beforeLast?_ne_none opens
  have whole : margin ++ (word ++ space :: (line ++ ofString "(")) ++ rest =
      margin ++ (word ++ space :: tail) := by simp [tail]
  rw [whole]
  unfold moduleHead
  rw [lead]
  dsimp only
  rw [wordRead]
  dsimp only
  split
  · next none => exact absurd none cut
  · exact Option.some_ne_none _

def Begins (lineStart : Bool) (before : Text) : Prop :=
  before.getLast?.elim (lineStart = true) (· = newline)

theorem begins_true {before : Text} : Begins true before ↔ AtLineStart before := by
  rw [Begins, AtLineStart]
  cases before.getLast? <;> simp

theorem begins_cons {lineStart : Bool} {byte : UInt8} {before : Text} :
    Begins lineStart (byte :: before) ↔ Begins (byte = newline) before := by
  rw [Begins, Begins, List.getLast?_cons]
  cases before.getLast? <;> simp

theorem splitHeader?_leftmost {lineStart : Bool} {text header rest : Text}
    (found : splitHeader? lineStart text = some (header, rest)) :
    ∃ before head, header = before ++ head ∧ Begins lineStart before ∧
      moduleHead (head ++ rest) = some (head, rest) ∧
      ∀ front tail, text = front ++ tail → Begins lineStart front → moduleHead tail ≠ none →
        before.length ≤ front.length := by
  induction text generalizing lineStart header with
  | nil => cases found
  | cons byte text ih =>
      rw [splitHeader?] at found
      split at found
      · next cut head =>
          cases found
          split at head
          · next starts =>
              refine ⟨[], header, rfl, starts, ?_, fun _ _ _ _ _ => Nat.zero_le _⟩
              rwa [← (moduleHead_split head).1]
          · cases head
      · next none =>
          obtain ⟨⟨header', rest'⟩, inner, same⟩ := Option.map_eq_some_iff.mp found
          cases same
          obtain ⟨before, head, rfl, begins, read, leftmost⟩ := ih inner
          refine ⟨byte :: before, head, rfl, begins_cons.mpr begins, read,
            fun front tail split starts isHead => ?_⟩
          cases front with
          | nil =>
              have starts : lineStart = true := starts
              rw [if_pos starts, split] at none
              exact absurd none isHead
          | cons other front =>
              obtain ⟨rfl, behind⟩ := List.cons.inj split
              exact Nat.succ_le_succ (leftmost front tail behind (begins_cons.mp starts) isHead)

/-- A text cut behind the leftmost head of a module.  The head ends with the last parenthesis that
opens on its last line. -/
structure Headed (text header rest : Text) : Prop where
  whole : text = header ++ rest
  head : ∃ before head, header = before ++ head ∧ AtLineStart before ∧ IsHead head ∧
    ∀ front other behind, text = front ++ other ++ behind → AtLineStart front → IsHead other →
      before.length ≤ front.length
  last : ('(' : UInt8) ∉ rest.takeWhile (· != newline)

theorem splitHeader?_headed {text header rest : Text}
    (found : splitHeader? true text = some (header, rest)) : Headed text header rest := by
  obtain ⟨before, head, rfl, begins, read, leftmost⟩ := splitHeader?_leftmost found
  obtain ⟨isHead, last⟩ := moduleHead_sound read
  refine ⟨(splitHeader?_split found).1, ⟨before, head, rfl, begins_true.mp begins, isHead,
    fun front other behind split starts isHead => ?_⟩, last⟩
  rw [List.append_assoc] at split
  exact leftmost front _ split (begins_true.mpr starts) (moduleHead_complete isHead behind)

/-! The footer -/

def IsClosing (text : Text) : Prop :=
  ∃ blanks rest : Text, text = (')' : UInt8) :: (blanks ++ (';' : UInt8) :: rest) ∧
    ∀ byte ∈ blanks, isSpace byte

theorem closes_iff {text : Text} : closes text ↔ IsClosing text := by
  have semicolon : ofString ";" = [(';' : UInt8)] := by decide
  have parenthesis : ofString ")" = [(')' : UInt8)] := by decide
  rw [closes, matchesFront_iff]
  constructor
  · rintro ⟨part, rest, read⟩
    obtain ⟨left, middle, right, first, second, -⟩ := andThen_eq_some_iff.mp read
    obtain ⟨blanks, behind, last, spaces, ends, -⟩ := andThen_eq_some_iff.mp second
    obtain ⟨-, rfl⟩ := literal_eq_some_iff.mp first
    obtain ⟨-, rfl⟩ := literal_eq_some_iff.mp ends
    obtain ⟨rfl, drop⟩ := run_eq_some_iff.mp spaces
    refine ⟨middle.takeWhile isSpace, rest, ?_, fun byte member => List.mem_takeWhile_imp member⟩
    conv => lhs; rw [← List.takeWhile_append_dropWhile (p := isSpace) (l := middle), drop]
    rw [semicolon, parenthesis]
    rfl
  · rintro ⟨blanks, rest, rfl, spaces⟩
    refine ⟨_, rest, andThen_eq_some_iff.mpr ⟨_, blanks ++ (';' : UInt8) :: rest, _,
      literal_eq_some_iff.mpr ⟨rfl, by rw [parenthesis]; rfl⟩, andThen_eq_some_iff.mpr
        ⟨blanks, (';' : UInt8) :: rest, _, run_eq_some_iff.mpr ⟨?_, ?_⟩,
          literal_eq_some_iff.mpr ⟨rfl, by rw [semicolon]; rfl⟩, rfl⟩, rfl⟩⟩
    · rw [List.takeWhile_append_of_pos spaces]
      simp [show isSpace ';' = false from rfl]
    · rw [List.dropWhile_append_of_pos spaces]
      simp [show isSpace ';' = false from rfl]

/-- The last closing of a list in the text behind its header. -/
structure IsLastClosing (closing : Text) : Prop where
  closes : IsClosing closing
  last : ∀ later, later <:+ closing → IsClosing later → later = closing

/-- How the text behind a header falls into a port list and its footer.  Lines are counted behind the
header, so the first one begins at its parenthesis. -/
inductive Closed : (behind rest footer : Text) → Prop
  | never {rest : Text} (unclosed : ∀ later, later <:+ rest → ¬ IsClosing later) :
      Closed rest rest []
  /-- Nothing but white space stands in front of the last closing on its line. -/
  | alone {rest margin closing : Text} (last : IsLastClosing closing) (starts : AtLineStart rest)
      (white : isBlank margin) (single : newline ∉ margin) :
      Closed (rest ++ (margin ++ closing)) rest (margin ++ closing)
  | shared {rest closing : Text} (last : IsLastClosing closing)
      (visible : isBlank (afterLast newline rest) = false) :
      Closed (rest ++ closing) rest closing

theorem splitBody_closed (behind : Text) :
    Closed behind (splitBody behind).1 (splitBody behind).2 := by
  rw [splitBody]
  cases found : splitFooter? behind with
  | none =>
      refine .never fun later suffix isClosing => ?_
      have closing := closes_iff.mpr isClosing
      rw [splitFooter?_none found later suffix] at closing
      cases closing
  | some cut =>
      obtain ⟨rest, footer⟩ := cut
      obtain ⟨rfl, closing⟩ := splitFooter?_split found
      have last : IsLastClosing footer := ⟨closes_iff.mp closing, fun later suffix isClosing =>
        splitFooter?_last found later suffix (closes_iff.mpr isClosing)⟩
      dsimp only
      split
      · next white =>
          obtain ⟨before, split, start⟩ := afterLast_split newline rest
          have single : newline ∉ afterLast newline rest := fun member => by
            simpa using List.mem_takeWhile_imp (List.mem_reverse.mp member)
          generalize afterLast newline rest = margin at white split single
          subst split
          have starts : AtLineStart before := by
            rcases start with rfl | last
            · simp [AtLineStart]
            · simp [AtLineStart, last]
          have front : (before ++ margin).take ((before ++ margin).length - margin.length) =
              before := by simp
          rw [front, List.append_assoc]
          exact .alone last starts white single
      · next visible => exact .shared last (by simpa using visible)

theorem frame?_headed {text : Text} {frame : Frame} (found : frame? text = some frame) :
    Headed text frame.header (frame.body ++ frame.footer) := by
  obtain ⟨⟨header, rest⟩, cut, rfl⟩ := Option.map_eq_some_iff.mp found
  show Headed text header ((splitBody rest).1 ++ (splitBody rest).2)
  rw [← (splitBody_split rest).1]
  exact splitHeader?_headed cut

theorem frame?_closed {text : Text} {frame : Frame} (found : frame? text = some frame) :
    Closed (frame.body ++ frame.footer) frame.body frame.footer := by
  obtain ⟨⟨header, rest⟩, -, rfl⟩ := Option.map_eq_some_iff.mp found
  show Closed ((splitBody rest).1 ++ (splitBody rest).2) (splitBody rest).1 (splitBody rest).2
  rw [← (splitBody_split rest).1]
  exact splitBody_closed rest

/-! The lines of the list -/

theorem isEmptyLine_classifyPort (index : Nat) (line : Text) :
    (classifyPort index line).isEmptyLine = isBlank (Ports.stripSeparator line) := by
  rcases classifyPort_cases index line with ⟨blank, read⟩ | ⟨visible, -, read⟩ | ⟨visible, -, read⟩
  · rw [read, blank]
    rfl
  · rw [read, visible]
    rfl
  · rw [read, visible]
    cases line with
    | nil => cases visible
    | cons byte line => rfl

theorem trimEmptyLines_ends (lines : List Line) :
    (∀ line ∈ (trimEmptyLines lines).head?, line.isEmptyLine = false) ∧
      ∀ line ∈ (trimEmptyLines lines).getLast?, line.isEmptyLine = false := by
  have stops (lines : List Line) :
      ∀ line ∈ (lines.dropWhile Line.isEmptyLine).head?, line.isEmptyLine = false := by
    intro line first
    have stopped := List.head?_dropWhile_not Line.isEmptyLine lines
    rw [first] at stopped
    exact stopped
  refine ⟨fun line first => stops lines line ?_, fun line last => ?_⟩
  · obtain ⟨tail, split⟩ :
        trimEmptyLines lines <+: lines.dropWhile Line.isEmptyLine := by
      rw [trimEmptyLines, ← List.reverse_suffix, List.reverse_reverse]
      exact List.dropWhile_suffix _
    rw [← split, List.head?_append, first]
    rfl
  · rw [trimEmptyLines, List.getLast?_reverse] at last
    exact stops _ line last

/-- The lines of a list from the first to the last that show something without their separators. -/
structure Trimmed (entries kept : List (Nat × Text)) : Prop where
  split : ∃ front back, entries = front ++ (kept ++ back) ∧
    ∀ entry ∈ front ++ back, isBlank (Ports.stripSeparator entry.2)
  first : ∀ entry ∈ kept.head?, isBlank (Ports.stripSeparator entry.2) = false
  last : ∀ entry ∈ kept.getLast?, isBlank (Ports.stripSeparator entry.2) = false

theorem portLines_trimmed (options : Options) (frame : Frame) :
    ∃ kept, Trimmed (numbered options.condense frame.firstLine frame.list) kept ∧
      portLines options frame = kept.map fun entry => classifyPort entry.1 entry.2 := by
  have ends := trimEmptyLines_ends ((numbered options.condense frame.firstLine frame.list).map
    fun entry => classifyPort entry.1 entry.2)
  obtain ⟨front, back, split, frontEmpty, backEmpty⟩ := trimEmptyLines_split
    ((numbered options.condense frame.firstLine frame.list).map fun entry =>
      classifyPort entry.1 entry.2)
  obtain ⟨early, behind, whole, rfl, laid⟩ := List.map_eq_append_iff.mp split
  obtain ⟨kept, late, rfl, same, rfl⟩ := List.map_eq_append_iff.mp laid
  rw [← same] at ends
  refine ⟨kept, ⟨⟨early, late, whole, fun entry member => ?_⟩, fun entry first => ?_,
    fun entry last => ?_⟩, same.symm⟩
  · rw [← isEmptyLine_classifyPort entry.1]
    rcases List.mem_append.mp member with inside | inside
    · exact frontEmpty _ (List.mem_map_of_mem inside)
    · exact backEmpty _ (List.mem_map_of_mem inside)
  · rw [← isEmptyLine_classifyPort entry.1]
    exact ends.1 _ (by rw [List.head?_map, first]; rfl)
  · rw [← isEmptyLine_classifyPort entry.1]
    exact ends.2 _ (by rw [List.getLast?_map, last]; rfl)

/-- A laid out line, and the line of the list it is made of: it has its number, and its text if it is
passed through with one. -/
structure MadeOf (line : Line) (entry : Nat × Text) : Prop where
  source : line.source = entry.1
  verbatim : ∀ text source, line = .verbatim text source → text ≠ [] → text = entry.2

theorem laidOutPorts_madeOf {options : Options} {frame : Frame} {kept : List (Nat × Text)}
    (same : portLines options frame = kept.map fun entry => classifyPort entry.1 entry.2) :
    List.Forall₂ MadeOf (laidOutPorts options frame) kept := by
  have placed := Ports.forall₂_placeCommas (R := fun new old => new.source = old.source ∧
      ∀ text source, new = .verbatim text source → old = .verbatim text source)
    (fun line => ⟨rfl, fun _ _ same => same⟩)
    (fun line column value => ⟨line.source_withField column value,
      fun _ _ same => Line.withField_eq_verbatim_iff.mp same⟩)
    options.endOfLine (Range.alignColumn Port.vectorColumn (portLines options frame))
  rw [Range.alignColumn, same, List.map_map, List.forall₂_map_right_iff] at placed
  rw [laidOutPorts, Range.alignColumn, same, List.map_map]
  refine placed.imp fun line entry laid => ⟨?_, fun text source verbatim shown => ?_⟩
  · rw [laid.1, Function.comp_apply, Range.source_layoutLine, source_classifyPort]
  · have passed : classifyPort entry.1 entry.2 = .verbatim text source := by
      have old := laid.2 text source verbatim
      rw [Function.comp_apply, Range.layoutLine] at old
      split at old
      · exact Line.withField_eq_verbatim_iff.mp old
      · exact old
    rcases classifyPort_cases entry.1 entry.2 with ⟨-, read⟩ | ⟨-, -, read⟩ | ⟨-, -, read⟩
    · rw [read] at passed
      cases passed
      exact absurd rfl shown
    · rw [read] at passed
      cases passed
    · rw [read] at passed
      cases passed
      rfl

/-- A list without a newline at its very start, and the number of the line on which it begins. -/
inductive ListFrom (header : Text) : (rest list : Text) → (first : Nat) → Prop
  | below (list : Text) : ListFrom header (newline :: list) list (header.count newline + 1)
  | beside {list : Text} (other : list.head? ≠ some newline) :
      ListFrom header list list (header.count newline)

theorem Frame.listFrom (frame : Frame) :
    ListFrom frame.header frame.body frame.list frame.firstLine := by
  rcases body_cases frame with ⟨body, first⟩ | ⟨body, first⟩
  · rw [body, first]
    exact .below _
  · have other : frame.list.head? ≠ some newline := by
      intro begins
      rw [Frame.firstLine, body, if_pos begins] at first
      omega
    rw [body, first]
    exact .beside other

theorem standsOn_of_numbered {header rest list : Text} {first : Nat}
    (from_ : ListFrom header rest list first) {condense : Bool} {entry : Nat × Text}
    (member : entry ∈ numbered condense first list) (footer : Text) :
    StandsOn (header ++ rest ++ footer) entry.1 entry.2 := by
  obtain ⟨⟨line, index⟩, listed, rfl⟩ := List.mem_map.mp (List.mem_filter.mp member).1
  obtain ⟨bound, found⟩ := List.mk_mem_zipIdx_iff_le_and_getElem?_sub.mp listed
  obtain ⟨offset, rfl⟩ := Nat.exists_eq_add_of_le bound
  rw [Nat.add_sub_cancel_left] at found
  cases from_ with
  | below =>
      have stands := standsOn_of_getElem?_lines found (header ++ [newline]) footer
      rw [List.count_append, List.count_singleton_self] at stands
      simpa using stands
  | beside => exact standsOn_of_getElem?_lines found header footer

/-- What becomes of a block that is read as a port list.  `rest` is what stands between the header
and the footer, and `lines` are the lines that are laid out. -/
structure Framed (options : Options) (text header rest footer : Text) (lines : List Line) :
    Prop where
  headed : Headed (splitFinalNewline text).1 header (rest ++ footer)
  closed : Closed (rest ++ footer) rest footer
  output : format options text = unlines ([header] ++
    (if lines.isEmpty then [] else [Batch.render ⟨lines, portIndent⟩]) ++
    (if footer.isEmpty then [] else [footer])) ++ (splitFinalNewline text).2
  verbatim : (align options text).verbatim = untouched lines
  body : ∃ list first kept, ListFrom header rest list first ∧
    Trimmed (numbered options.condense first list) kept ∧ List.Forall₂ MadeOf lines kept ∧
    ∀ entry ∈ kept, StandsOn text entry.1 entry.2

/-- A port list is framed by what stands in front of it and behind it, and every line that is laid
out has the number of the input line on which it stands. -/
theorem ports_framed {options : Options} {text : Text} (mode : (align options text).mode = .ports) :
    ∃ header rest footer lines, Framed options text header rest footer lines := by
  have visible : isBlank (splitFinalNewline text).1 = false := by
    rcases align_cases options text with ⟨-, same⟩ | ⟨-, visible, -⟩ | ⟨visible, -⟩
    · rw [same] at mode
      cases mode
    · exact visible
    · exact visible
  obtain ⟨frame, found, same⟩ := align_ports mode
  have verbatim : (align options text).verbatim = untouched (laidOutPorts options frame) := by
    rw [align]
    dsimp only
    rw [visible, if_neg Bool.false_ne_true, alignBody, found]
    rfl
  obtain ⟨kept, trimmed, laid⟩ := portLines_trimmed options frame
  obtain ⟨front, back, whole, -⟩ := trimmed.split
  refine ⟨frame.header, frame.body, frame.footer, laidOutPorts options frame, frame?_headed found,
    frame?_closed found, same, verbatim, _, _, kept, frame.listFrom, trimmed,
    laidOutPorts_madeOf laid, fun entry member => ?_⟩
  have listed : entry ∈ front ++ (kept ++ back) :=
    List.mem_append_right _ (List.mem_append_left _ member)
  rw [← whole] at listed
  have stands :=
    standsOn_of_numbered frame.listFrom listed (frame.footer ++ (splitFinalNewline text).2)
  rwa [List.append_assoc, ← List.append_assoc frame.body, ← List.append_assoc,
    ← (frame?_headed found).whole, splitFinalNewline_append] at stands

theorem ports_framed_directives :
    let text := ofString "module m ( input a,\x0A`ifdef X\x0A  input b,\x0A`endif\x0A  input c );\x0A"
    (align {} text).mode = .ports ∧ ∃ header rest footer lines,
      Framed {} text header rest footer lines ∧ untouched lines = [1, 3] := by
  intro text
  have mode : (align {} text).mode = .ports := by decide +kernel
  obtain ⟨header, rest, footer, lines, framed⟩ := ports_framed mode
  refine ⟨mode, header, rest, footer, lines, framed, framed.verbatim.symm.trans ?_⟩
  decide +kernel

end HdlAlign.Block
