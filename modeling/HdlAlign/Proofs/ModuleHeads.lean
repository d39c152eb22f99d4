import HdlAlign.Proofs.Frames
import HdlAlign.Proofs.Normal
import HdlAlign.Proofs.Rereading

/-! Where the head of a module begins.  The keyword stands in front of its line, and the parenthesis
behind it on the same line, or on the next one if nothing follows the keyword on its own.  A text is
free of heads exactly if no line of it begins one in front of its next line, and a line that is a
declaration never does. -/

namespace HdlAlign.Text

theorem takeWhile_trim {word rest : Text} (black : ∀ byte ∈ word, isBlack byte)
    (letters : ∀ byte ∈ word, isWord byte) (ends : ∀ byte ∈ rest.head?, isWord byte = false)
    (some : word ≠ []) : (trim (word ++ rest)).takeWhile isWord = word := by
  obtain ⟨more, begins⟩ := isPrefix_trim (List.prefix_append word rest) black
  obtain ⟨tail, split⟩ : ∃ tail, word ++ rest = trim (word ++ rest) ++ tail := by
    obtain ⟨byte, word, rfl⟩ := List.exists_cons_of_ne_nil some
    have first := black byte (by simp)
    rw [isBlack, Bool.and_eq_true, Bool.not_eq_true'] at first
    obtain ⟨white, -, split⟩ := trimEnd_split (byte :: (word ++ rest))
    exact ⟨white, by rw [trim, List.cons_append, trimStart_of_isAscii first.1 first.2, ← split]⟩
  rw [← begins, List.append_assoc, List.append_cancel_left_eq] at split
  rw [← begins, List.takeWhile_append_of_pos letters]
  cases more with
  | nil => exact List.append_nil word
  | cons byte more =>
      rw [List.takeWhile_cons_of_neg (by simp [ends byte (by simp [split])]), List.append_nil]

end HdlAlign.Text

namespace HdlAlign.Block

open Text Pattern Statement

inductive IsOpening : Text → Prop
  | intro {margin word : Text} (indent : ∀ byte ∈ margin, isIndent byte)
      (isWord : word = ofString "module" ∨ word = ofString "macromodule") :
      IsOpening (margin ++ word)

inductive Opens : (line next : Text) → Prop
  | alone {opening next : Text} (isOpening : IsOpening opening) (opens : ('(' : UInt8) ∈ next) :
      Opens opening next
  | spaced {opening rest next : Text} {space : UInt8} (isOpening : IsOpening opening)
      (isSpace : isSpace space) (opens : ('(' : UInt8) ∈ rest) :
      Opens (opening ++ space :: rest) next

theorem IsOpening.not_mem {opening : Text} (isOpening : IsOpening opening) {byte : UInt8}
    (other : isWord byte = false) (notIndent : isIndent byte = false) : byte ∉ opening := by
  have letters : ∀ word ∈ [ofString "module", ofString "macromodule"],
      ∀ byte ∈ word, isWord byte := by
    decide +kernel
  cases isOpening with
  | intro indent isKeyword =>
      intro member
      rcases List.mem_append.mp member with inside | inside
      · rw [indent byte inside] at notIndent
        cases notIndent
      · rw [letters _ (by simpa using isKeyword) byte inside] at other
        cases other

theorem IsOpening.single {opening : Text} (isOpening : IsOpening opening) : newline ∉ opening :=
  isOpening.not_mem rfl rfl

theorem isHead_of_isOpening {opening front : Text} {space : UInt8} (isOpening : IsOpening opening)
    (blank : isSpace space) (single : newline ∉ front) :
    IsHead (opening ++ space :: (front ++ ofString "(")) := by
  cases isOpening with
  | @intro margin word indent isWord =>
      exact ⟨margin, word, space, front, List.append_assoc _ _ _, indent, isWord, blank, single⟩

theorem moduleHead_ne_none_iff {text : Text} :
    moduleHead text ≠ none ↔ ∃ opening space rest, text = opening ++ space :: rest ∧
      IsOpening opening ∧ isSpace space ∧ ('(' : UInt8) ∈ rest.takeWhile (· != newline) := by
  have parenthesis : ofString "(" = [('(' : UInt8)] := by decide
  constructor
  · intro some
    obtain ⟨⟨head, rest⟩, found⟩ := Option.ne_none_iff_exists'.mp some
    obtain ⟨⟨margin, word, space, line, rfl, indent, isWord, blank, single⟩, -⟩ :=
      moduleHead_sound found
    refine ⟨margin ++ word, space, line ++ ofString "(" ++ rest, ?_, .intro indent isWord, blank,
      ?_⟩
    · rw [(moduleHead_split found).1]
      simp
    · rw [List.append_assoc, List.takeWhile_append_of_pos fun byte member => by
        simpa using ne_of_mem_of_not_mem member single, parenthesis]
      exact List.mem_append_right _ List.mem_cons_self
  · rintro ⟨opening, space, rest, rfl, isOpening, blank, opens⟩
    obtain ⟨front, behind, split, -⟩ := List.eq_append_cons_of_mem opens
    have single : newline ∉ front := fun member => by
      have kept : newline ∈ rest.takeWhile (· != newline) := split ▸ List.mem_append_left _ member
      simpa using List.mem_takeWhile_imp kept
    have whole := List.takeWhile_append_dropWhile (p := (· != newline)) (l := rest)
    rw [split] at whole
    have head : opening ++ space :: rest = opening ++ space :: (front ++ ofString "(") ++
        (behind ++ rest.dropWhile (· != newline)) := by
      conv => lhs; rw [← whole]
      simp [parenthesis]
    rw [head]
    exact moduleHead_complete (isHead_of_isOpening isOpening blank single) _

theorem takeWhile_line {line : Text} (single : newline ∉ line) (back : Text) :
    (line ++ newline :: back).takeWhile (· != newline) = line := by
  rw [List.takeWhile_append_of_pos fun byte member => by
    simpa using ne_of_mem_of_not_mem member single]
  simp

theorem takeWhile_unlines {line : Text} (single : newline ∉ line) (lines : List Text) :
    (unlines (line :: lines)).takeWhile (· != newline) = line := by
  cases lines with
  | nil =>
      rw [show unlines [line] = line from List.append_nil line, List.takeWhile_eq_self_iff]
      exact fun byte member => by simpa using ne_of_mem_of_not_mem member single
  | cons next lines => rw [unlines_cons (by simp), takeWhile_line single]

theorem moduleHead_unlines_ne_none_iff {line : Text} {lines : List Text} (single : newline ∉ line)
    (others : ∀ line ∈ lines, newline ∉ line) :
    moduleHead (unlines (line :: lines)) ≠ none ↔ Opens line (lines.headD []) := by
  rw [moduleHead_ne_none_iff]
  cases lines with
  | nil =>
      have whole : unlines [line] = line := List.append_nil line
      rw [whole]
      constructor
      · rintro ⟨opening, space, rest, rfl, isOpening, blank, opens⟩
        exact .spaced isOpening blank (List.takeWhile_subset _ opens)
      · intro opens
        cases opens with
        | alone _ opens => cases opens
        | @spaced opening rest _ space isOpening blank opens =>
            refine ⟨opening, space, rest, rfl, isOpening, blank, ?_⟩
            rwa [List.takeWhile_eq_self_iff.mpr fun byte member => by
              simpa using ne_of_mem_of_not_mem (by simp [member]) single]
  | cons next lines =>
      have first := takeWhile_unlines (others next (by simp)) lines
      rw [unlines_cons (by simp)]
      generalize unlines (next :: lines) = back at first
      constructor
      · rintro ⟨opening, space, rest, split, isOpening, blank, opens⟩
        rcases List.append_eq_append_iff.mp split with ⟨more, same, behind⟩ | ⟨more, rfl, behind⟩
        · -- The line ends in front of the blank, which therefore is its newline.
          cases more with
          | nil =>
              cases behind
              rw [first] at opens
              rw [← List.append_nil line, ← same]
              exact .alone isOpening opens
          | cons byte more =>
              cases behind
              exact absurd (by simp [same]) isOpening.single
        · cases more with
          | nil =>
              cases behind
              rw [first] at opens
              rw [List.append_nil]
              exact .alone isOpening opens
          | cons byte more =>
              rw [List.cons_append] at behind
              obtain ⟨rfl, rfl⟩ := List.cons.inj behind
              rw [takeWhile_line fun member => single (by simp [member])] at opens
              exact .spaced isOpening blank opens
      · intro opens
        cases opens with
        | alone isOpening opens => exact ⟨line, newline, back, rfl, isOpening, rfl, first ▸ opens⟩
        | @spaced opening rest _ space isOpening blank opens =>
            refine ⟨opening, space, rest ++ newline :: back, by simp, isOpening, blank, ?_⟩
            rwa [takeWhile_line fun member => single (by simp [member])]

/-! A text without a head -/

theorem splitHeader?_true_eq_none_iff {text : Text} :
    splitHeader? true text = none ↔ moduleHead text = none ∧ splitHeader? false text = none := by
  cases text with
  | nil => exact iff_of_true rfl ⟨by decide, rfl⟩
  | cons byte text =>
      rw [splitHeader?, splitHeader?, if_pos rfl, if_neg Bool.false_ne_true]
      cases moduleHead (byte :: text) <;> simp

theorem splitHeader?_line {line : Text} (single : newline ∉ line) :
    splitHeader? false line = none ∧ ∀ back,
      splitHeader? false (line ++ newline :: back) = none ↔ splitHeader? true back = none := by
  induction line with
  | nil => exact ⟨rfl, fun back => by simp [splitHeader?]⟩
  | cons byte line ih =>
      rw [List.mem_cons, not_or] at single
      have inside : decide (byte = newline) = false := decide_eq_false (Ne.symm single.1)
      obtain ⟨alone, behind⟩ := ih single.2
      refine ⟨?_, fun back => ?_⟩
      · rw [splitHeader?, if_neg Bool.false_ne_true, inside, alone]
        rfl
      · rw [List.cons_append, splitHeader?, if_neg Bool.false_ne_true, inside]
        dsimp only
        rw [Option.map_eq_none_iff, behind]

theorem not_opens_nil (next : Text) : ¬ Opens [] next := by
  intro opens
  generalize same : ([] : Text) = line at opens
  cases opens with
  | alone isOpening =>
      cases isOpening with
      | intro _ isWord =>
          rw [(List.append_eq_nil_iff.mp same.symm).2] at isWord
          revert isWord
          decide
  | spaced => simp at same

theorem splitHeader?_unlines_eq_none_iff {lines : List Text}
    (single : ∀ line ∈ lines, newline ∉ line) :
    splitHeader? true (unlines lines) = none ↔
      (lines ++ [[]]).IsChain fun line next => ¬ Opens line next := by
  induction lines with
  | nil => exact iff_of_true rfl (.singleton _)
  | cons line lines ih =>
      obtain ⟨here, others⟩ := List.forall_mem_cons.mp single
      have head := not_iff_not.mpr (moduleHead_unlines_ne_none_iff here others)
      rw [not_ne_iff] at head
      rw [splitHeader?_true_eq_none_iff, head]
      cases lines with
      | nil =>
          have whole : unlines [line] = line := List.append_nil line
          simp [whole, (splitHeader?_line here).1]
      | cons next lines =>
          rw [unlines_cons (by simp), (splitHeader?_line here).2, ih others]
          simp

theorem frame?_unlines_eq_none_iff {lines : List Text} (single : ∀ line ∈ lines, newline ∉ line) :
    frame? (unlines lines) = none ↔ (lines ++ [[]]).IsChain fun line next => ¬ Opens line next := by
  rw [← splitHeader?_unlines_eq_none_iff single, frame?, Option.map_eq_none_iff]

theorem frame?_eq_none_iff {text : Text} :
    frame? text = none ↔ (text.lines ++ [[]]).IsChain fun line next => ¬ Opens line next := by
  rw [← frame?_unlines_eq_none_iff fun _ => single_of_mem_lines, unlines_lines]

theorem frame?_splitFinalNewline {text : Text} :
    frame? (splitFinalNewline text).1 = none ↔ frame? text = none := by
  rw [frame?_eq_none_iff, frame?_eq_none_iff]
  conv => rhs; rw [← splitFinalNewline_append text]
  rcases splitFinalNewline_final text with final | final
  · rw [final, List.append_nil]
  · rw [final, lines_append_newline]
    have last : lines [] = [[]] := rfl
    rw [last, List.append_assoc, List.isChain_append, List.isChain_append]
    simp [not_opens_nil]

/-! Declarations begin no head. -/

theorem isStatement_of_isOpening {opening rest : Text} (isOpening : IsOpening opening)
    (ends : ∀ byte ∈ rest.head?, isSpace byte) :
    Grammar.declaration.isStatement (opening ++ rest) = false := by
  have words : ∀ word ∈ [ofString "module", ofString "macromodule"], word ≠ [] ∧
      controlWords.contains word ∧ ∀ byte ∈ word, isBlack byte ∧ isWord byte := by
    decide +kernel
  cases isOpening with
  | @intro margin word indent isKeyword =>
      obtain ⟨some, control, bytes⟩ := words word (by simpa using isKeyword)
      have white : White margin := .of_isSpace fun byte member =>
        Line.isSpace_of_isIndent (indent byte member)
      have first : (trim (word ++ rest)).takeWhile isWord = word :=
        takeWhile_trim (fun byte member => (bytes byte member).1)
          (fun byte member => (bytes byte member).2)
          (fun byte member => isWord_of_isSpace (ends byte member)) some
      have trimmed : trim (margin ++ word ++ rest) = trim (word ++ rest) := by
        rw [List.append_assoc, trim, white.trimStart_append, ← trim]
      have foreign : Declaration.isForeign (trim (word ++ rest)) := by
        rw [Declaration.isForeign, keyword_matchesFront, first, control, Bool.or_true]
      rw [Grammar.isStatement, trimmed, Declaration.isStatement, foreign]
      simp

theorem not_opens_of_isAligned {line : Text}
    (aligned : (Grammar.declaration.classify line 0).isAligned) (next : Text) :
    ¬ Opens line next := by
  intro opens
  obtain ⟨opening, rest, split, isOpening, ends⟩ : ∃ opening rest, line = opening ++ rest ∧
      IsOpening opening ∧ ∀ byte ∈ rest.head?, isSpace byte := by
    cases opens with
    | alone isOpening => exact ⟨line, [], by simp, isOpening, nofun⟩
    | spaced isOpening blank => exact ⟨_, _, rfl, isOpening, by simpa using blank⟩
  have statement := (classify_of_isAligned aligned).2.1
  have whole := Declaration.splitComment_append line
  have begins := Declaration.splitComment_comment line
  generalize (splitComment line).1 = code at whole statement
  generalize (splitComment line).2 = comment at whole begins
  rw [split] at whole
  rcases List.append_eq_append_iff.mp whole with ⟨more, rfl, rfl⟩ | ⟨more, rfl, rfl⟩
  · cases more with
    | nil =>
        rw [List.append_nil] at isOpening
        rw [← List.append_nil code, isStatement_of_isOpening isOpening (by simp)] at statement
        cases statement
    | cons byte more =>
        -- A comment would begin inside the keyword.
        have slash : byte = '/' := by
          rcases begins with none | begins
          · simp at none
          · have marks : ofString "//" = [('/' : UInt8), '/'] := by decide
            rw [startsWith, marks] at begins
            exact (beq_iff_eq.mp (Bool.and_eq_true_iff.mp begins).1).symm
        have inside : ('/' : UInt8) ∈ code ++ byte :: more := by simp [slash]
        exact isOpening.not_mem rfl rfl inside
  · have ends : ∀ byte ∈ more.head?, isSpace byte := fun byte first => ends byte (by
      cases more with
      | nil => cases first
      | cons other more => exact first)
    rw [isStatement_of_isOpening isOpening ends] at statement
    cases statement

theorem Opens.mono {line next other : Text} (opens : Opens line next)
    (more : ('(' : UInt8) ∈ next → ('(' : UInt8) ∈ other) : Opens line other := by
  cases opens with
  | alone isOpening inNext => exact .alone isOpening (more inNext)
  | spaced isOpening blank inLine => exact .spaced isOpening blank inLine

theorem frame?_unlines_map {lines : List Text} {print : Text → Text}
    (single : ∀ line ∈ lines, newline ∉ line) (printed : ∀ line ∈ lines, newline ∉ print line)
    (kept : ∀ line ∈ lines, print line = line ∨ ∀ next, ¬ Opens (print line) next)
    (opens : ∀ line ∈ lines, ('(' : UInt8) ∈ print line → ('(' : UInt8) ∈ line)
    (blank : print [] = []) (free : frame? (unlines lines) = none) :
    frame? (unlines (lines.map print)) = none := by
  rw [frame?_unlines_eq_none_iff single] at free
  have last : lines.map print ++ [[]] = (lines ++ [[]]).map print := by
    rw [List.map_append, List.map_singleton, blank]
  rw [frame?_unlines_eq_none_iff (List.forall_mem_map.mpr printed), last, List.isChain_map]
  refine free.imp_of_mem_imp fun line next member memberNext absent opened => ?_
  have keptHere : print line = line ∨ ∀ next, ¬ Opens (print line) next := by
    rcases List.mem_append.mp member with inside | last
    · exact kept line inside
    · exact .inl (by rw [List.mem_singleton.mp last, blank])
  have opensNext : ('(' : UInt8) ∈ print next → ('(' : UInt8) ∈ next := by
    rcases List.mem_append.mp memberNext with inside | last
    · exact opens next inside
    · rw [List.mem_singleton.mp last, blank]
      exact id
  rcases keptHere with same | never
  · rw [same] at opened
    exact absent (opened.mono opensNext)
  · exact never _ opened

end HdlAlign.Block
