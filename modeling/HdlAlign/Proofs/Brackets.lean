import HdlAlign.Proofs.LineStructure
import HdlAlign.Proofs.Rereading

/-! What is read as a dimension list.  The tokens of a text are those that the rules of its lexer
give, and the parser reads exactly the texts that are bracket pairs with blanks around them. -/

namespace HdlAlign.Range

open Text

def Unmarked (text : Text) : Prop := ∀ byte ∈ text, Token.ofByte? byte = none

theorem unmarked_of_spaces {gap : Text} (spaces : Spaces gap) : Unmarked gap := by
  have blank : ∀ byte, isSpace byte → Token.ofByte? byte = none := forall_byte (by decide +kernel)
  exact fun byte member => blank byte (spaces byte member)

theorem Unmarked.nil : Unmarked [] := fun _ member => by cases member

theorem Unmarked.append {left right : Text} (h : Unmarked left) (h' : Unmarked right) :
    Unmarked (left ++ right) :=
  fun byte member => (List.mem_append.mp member).elim (h byte) (h' byte)

def AtMark (text : Text) : Prop := ∀ byte ∈ text.head?, Token.ofByte? byte ≠ none

theorem scan_append {gap front : Text} (unmarked : Unmarked front) (text : Text) :
    scan gap (front ++ text) = scan (gap ++ front) text := by
  induction front generalizing gap with
  | nil => simp
  | cons byte front ih =>
      rw [List.cons_append, scan, unmarked byte (by simp)]
      simp only
      rw [ih fun other member => unmarked other (by simp [member]), List.append_assoc]
      rfl

theorem scan_mark {byte : UInt8} {mark : Token} (read : Token.ofByte? byte = some mark)
    (gap rest : Text) : scan gap (byte :: rest) = indexTokens gap ++ mark :: scan [] rest := by
  rw [scan, read]

theorem indexTokens_of_spaces {gap : Text} (spaces : Spaces gap) : indexTokens gap = [] := by
  rw [indexTokens, trimSpaces_of_spaces spaces]
  rfl

theorem scan_atMark {rest : Text} (stop : AtMark rest) (gap : Text) :
    scan gap rest = indexTokens gap ++ scan [] rest := by
  cases rest with
  | nil => rw [scan, scan, indexTokens_of_spaces .nil, List.append_nil]
  | cons byte rest =>
      obtain ⟨mark, read⟩ := Option.ne_none_iff_exists'.mp (stop byte rfl)
      rw [scan_mark read, scan_mark read, indexTokens_of_spaces .nil, List.nil_append]

theorem scan_spaces {lead : Text} (spaces : Spaces lead) (text : Text) :
    scan [] (lead ++ text) = scan [] text := by
  have trimmed (gap : Text) : indexTokens (lead ++ gap) = indexTokens gap := by
    rw [indexTokens, trimSpaces, spaces.dropWhile_append, ← trimSpaces, ← indexTokens]
  have behind (gap : Text) : scan (lead ++ gap) text = scan gap text := by
    induction text generalizing gap with
    | nil => exact trimmed gap
    | cons byte text ih => rw [scan, scan, trimmed, List.append_assoc, ih]
  rw [scan_append (unmarked_of_spaces spaces), List.nil_append, ← List.append_nil lead, behind]

/-! The rules of the lexer. -/

/-- What an index expression can be: some text without marks that has a blank at neither end. -/
structure IsIndexText (text : Text) : Prop where
  nonempty : text ≠ []
  unmarked : Unmarked text
  starts : Starts text
  ends : Ends text

structure LongestIndex (part text : Text) : Prop where
  index : IsIndexText part
  begins : part <+: text
  longest : ∀ other, IsIndexText other → other <+: text → other.length ≤ part.length

/-- The tokens of a text.  Blanks are left out wherever a token can begin; brackets and colons are
tokens of their own; any other byte begins the longest index expression that stands there. -/
inductive Lexes : Text → List Token → Prop
  | blanks {gap : Text} (spaces : Spaces gap) : Lexes gap []
  | mark {gap rest : Text} {byte : UInt8} {mark : Token} {tokens : List Token}
      (spaces : Spaces gap) (read : Token.ofByte? byte = some mark) (behind : Lexes rest tokens) :
      Lexes (gap ++ byte :: rest) (mark :: tokens)
  | index {gap part rest : Text} {tokens : List Token} (spaces : Spaces gap)
      (longest : LongestIndex part (part ++ rest)) (behind : Lexes rest tokens) :
      Lexes (gap ++ (part ++ rest)) (.index part :: tokens)

theorem AtMark.isPrefix {front part rest : Text} (stop : AtMark rest) (unmarked : Unmarked part)
    (begins : part <+: front ++ rest) : part <+: front := by
  obtain ⟨behind, whole⟩ := begins
  rcases List.append_eq_append_iff.mp whole with ⟨more, same, -⟩ | ⟨more, same, inside⟩
  · exact ⟨more, same.symm⟩
  · cases more with
    | nil => exact ⟨[], by simpa using same⟩
    | cons byte more => exact absurd (unmarked byte (by simp [same])) (stop byte (by simp [inside]))

theorem IsIndexText.longest {part gap rest : Text} (index : IsIndexText part) (spaces : Spaces gap)
    (stop : AtMark rest) : LongestIndex part (part ++ (gap ++ rest)) := by
  refine ⟨index, List.prefix_append _ _, fun other otherIndex begins => ?_⟩
  rw [← List.append_assoc] at begins
  obtain ⟨behind, whole⟩ := stop.isPrefix otherIndex.unmarked begins
  rcases List.append_eq_append_iff.mp whole with ⟨more, same, -⟩ | ⟨more, same, inside⟩
  · rw [same, List.length_append]
    exact Nat.le_add_right _ _
  · -- What it has beyond the part is blank, and it ends with no blank.
    cases last : more.getLast? with
    | none => simp [same, List.getLast?_eq_none_iff.mp last]
    | some byte =>
        have space := spaces byte (by simp [inside, List.mem_of_getLast? last])
        have visible := otherIndex.ends byte (by simp [same, last])
        rw [space] at visible
        cases visible

theorem LongestIndex.stop {part rest : Text} (longest : LongestIndex part (part ++ rest)) :
    ∃ gap behind, rest = gap ++ behind ∧ Spaces gap ∧ AtMark behind := by
  let isPart : UInt8 → Bool := fun byte => (Token.ofByte? byte).isNone
  have split : rest = rest.takeWhile isPart ++ rest.dropWhile isPart :=
    List.takeWhile_append_dropWhile.symm
  have unmarked : Unmarked (rest.takeWhile isPart) := fun byte member => by
    simpa [isPart] using List.mem_takeWhile_imp member
  refine ⟨_, _, split, ?_, fun byte first none => ?_⟩
  · obtain ⟨tail, tailSpaces, whole⟩ := dropTailWhile_split isSpace (rest.takeWhile isPart)
    generalize core : dropTailWhile isSpace (rest.takeWhile isPart) = more at whole
    rw [whole] at unmarked split ⊢
    have other : IsIndexText (part ++ more) := {
      nonempty := List.append_ne_nil_of_left_ne_nil longest.index.nonempty _
      unmarked := longest.index.unmarked.append fun byte member => unmarked byte (by simp [member])
      starts := longest.index.starts.append longest.index.nonempty more
      ends := longest.index.ends.append (core ▸ ends_dropTailWhile _) }
    have begins : part ++ more <+: part ++ rest := by
      rw [split]
      exact ⟨tail ++ rest.dropWhile isPart, by simp⟩
    have short := longest.longest _ other begins
    rw [List.length_append] at short
    have none : more = [] := List.length_eq_zero_iff.mp (by omega)
    rw [none]
    exact tailSpaces
  · have stopped := List.head?_dropWhile_not isPart rest
    rw [first] at stopped
    simp [isPart, none] at stopped

theorem lexes_indexTokens {gap rest : Text} {tokens : List Token} (unmarked : Unmarked gap)
    (stop : AtMark rest) (behind : ∀ tail, Spaces tail → Lexes (tail ++ rest) tokens) :
    Lexes (gap ++ rest) (indexTokens gap ++ tokens) := by
  obtain ⟨lead, tail, leadSpaces, tailSpaces, whole⟩ := exists_trimSpaces gap
  rw [indexTokens]
  split
  · next none =>
      rw [List.isEmpty_iff.mp none, List.nil_append] at whole
      rw [whole]
      exact behind _ (leadSpaces.append tailSpaces)
  · next some =>
      have index : IsIndexText (trimSpaces gap) := {
        nonempty := fun none => some (List.isEmpty_iff.mpr none)
        unmarked := fun byte member => unmarked byte (trimSpaces_subset gap member)
        starts := starts_trimSpaces gap
        ends := ends_trimSpaces gap }
      have lexed := Lexes.index leadSpaces (index.longest tailSpaces stop) (behind tail tailSpaces)
      conv => lhs; rw [whole]
      simpa using lexed

theorem lexes_scan {gap : Text} (unmarked : Unmarked gap) (text : Text) :
    Lexes (gap ++ text) (scan gap text) := by
  induction text generalizing gap with
  | nil =>
      have ended : AtMark [] := fun _ first => by cases first
      have lexed := lexes_indexTokens unmarked ended fun tail spaces =>
        show Lexes (tail ++ []) [] by simpa using Lexes.blanks spaces
      simpa [scan] using lexed
  | cons byte text ih =>
      rw [scan]
      split
      · next mark read =>
          have marked : AtMark (byte :: text) := fun first same => by
            cases same
            simp [read]
          exact lexes_indexTokens unmarked marked fun tail spaces =>
            .mark spaces read (ih .nil)
      · next none =>
          have last : Unmarked [byte] := fun other member => by
            rw [List.mem_singleton.mp member, none]
          simpa using ih (unmarked.append last)

theorem scan_of_lexes {text : Text} {tokens : List Token} (lexes : Lexes text tokens) :
    scan [] text = tokens := by
  induction lexes with
  | @blanks gap spaces =>
      rw [← List.append_nil gap, scan_spaces spaces, scan, indexTokens_of_spaces .nil]
  | @mark gap rest byte mark tokens spaces read behind ih =>
      rw [scan_spaces spaces, scan_mark read, indexTokens_of_spaces .nil, ih, List.nil_append]
  | @index gap part rest tokens spaces longest behind ih =>
      obtain ⟨tail, next, rfl, tailSpaces, stop⟩ := longest.stop
      have index := longest.index
      have front : indexTokens (part ++ tail) = [.index part] := by
        rw [indexTokens, trimSpaces_append index.starts index.ends tailSpaces,
          if_neg (by simpa using index.nonempty)]
      rw [scan_spaces tailSpaces] at ih
      rw [scan_spaces spaces, scan_append index.unmarked,
        scan_append (unmarked_of_spaces tailSpaces), List.nil_append, scan_atMark stop, front, ih]
      rfl

/-- Scanning gives the tokens of the rules, and no others. -/
theorem scan_eq_iff {text : Text} {tokens : List Token} :
    scan [] text = tokens ↔ Lexes text tokens :=
  ⟨fun same => same ▸ lexes_scan .nil text, scan_of_lexes⟩

theorem Token.ofByte?_ne_index (byte : UInt8) (text : Text) :
    Token.ofByte? byte ≠ some (.index text) := by
  unfold Token.ofByte?
  split_ifs <;> simp

/-! Bracket pairs. -/

def indexToken (text : Text) : List Token := if text.isEmpty then [] else [.index text]

def Group.tokens (group : Group) : List Token :=
  .opening :: (indexToken group.left ++ .colon :: (indexToken group.right ++ [.closing]))

theorem groups?_tokens (groups : List Group) :
    groups? (groups.flatMap Group.tokens) = some groups := by
  induction groups with
  | nil => rfl
  | cons group groups ih =>
      obtain ⟨left, right⟩ := group
      rw [List.flatMap_cons, Group.tokens]
      cases left <;> cases right <;> simp [indexToken, groups?, ih]

theorem flatMap_tokens {text : Text} {tokens : List Token} {groups : List Group}
    (lexes : Lexes text tokens) (read : groups? tokens = some groups) :
    groups.flatMap Group.tokens = tokens := by
  let shown : Token → List Token := fun token =>
    match token with
    | .index text => indexToken text
    | mark => [mark]
  have whole := flatMap_groups? (f := shown) rfl read
  have same : tokens.flatMap shown = tokens := by
    clear read whole
    induction lexes with
    | blanks => rfl
    | @mark gap rest byte mark tokens spaces read behind ih =>
        rw [List.flatMap_cons, ih]
        cases mark with
        | index => exact absurd read (Token.ofByte?_ne_index byte _)
        | _ => rfl
    | @index gap part rest tokens spaces longest behind ih =>
        rw [List.flatMap_cons, ih]
        simp [shown, indexToken, longest.index.nonempty]
  rw [← same, whole]
  rfl

/-- Bracket pairs one after another, each with some text without marks on either side of its colon
and with blanks behind it. -/
inductive Pairs : List Group → Text → Prop
  | nil : Pairs [] []
  | cons {left right gap rest : Text} {pairs : List Group} (leftUnmarked : Unmarked left)
      (rightUnmarked : Unmarked right) (spaces : Spaces gap) (others : Pairs pairs rest) :
      Pairs (⟨left, right⟩ :: pairs)
        (('[' : UInt8) :: (left ++ (':' : UInt8) :: (right ++ (']' : UInt8) :: (gap ++ rest))))

def IsDimensionList (pairs : List Group) (field : Text) : Prop :=
  pairs ≠ [] ∧ ∃ lead rest, Spaces lead ∧ Pairs pairs rest ∧ field = lead ++ rest

def Group.trimmed (group : Group) : Group := ⟨trimSpaces group.left, trimSpaces group.right⟩

theorem Pairs.scan {pairs : List Group} {text : Text} (written : Pairs pairs text) :
    scan [] text = (pairs.map Group.trimmed).flatMap Group.tokens := by
  induction written with
  | nil => rfl
  | @cons left right gap rest pairs leftUnmarked rightUnmarked spaces others ih =>
      have opening : Token.ofByte? '[' = some .opening := rfl
      have colon : Token.ofByte? ':' = some .colon := rfl
      have closing : Token.ofByte? ']' = some .closing := rfl
      rw [scan_mark opening, indexTokens_of_spaces .nil, scan_append leftUnmarked, scan_mark colon,
        scan_append rightUnmarked, scan_mark closing, scan_spaces spaces, ih]
      simp [Group.tokens, Group.trimmed, indexTokens, indexToken]

theorem IsDimensionList.parse {pairs : List Group} {field : Text}
    (written : IsDimensionList pairs field) : parse field = .ok (pairs.map Group.trimmed) := by
  obtain ⟨some, lead, rest, spaces, list, rfl⟩ := written
  have visible : isBlank (lead ++ rest) = false := by
    cases list with
    | nil => exact absurd rfl some
    | cons =>
        exact isBlank_eq_false_of_mem (List.mem_append_right _ List.mem_cons_self) rfl
  rw [Range.parse, visible, scan_spaces spaces, list.scan, groups?_tokens]
  cases pairs with
  | nil => exact absurd rfl some
  | cons pair pairs => rfl

/-! From the tokens back to the text. -/

theorem Token.ofByte?_inj {first second : UInt8} {mark : Token}
    (h : Token.ofByte? first = some mark) (h' : Token.ofByte? second = some mark) :
    first = second := by
  have same := (text_mark h).2.symm.trans (text_mark h').2
  exact List.singleton_injective same

theorem Lexes.exists_mark {byte : UInt8} {mark : Token} (read : Token.ofByte? byte = some mark)
    {text : Text} {tokens : List Token} (lexes : Lexes text (mark :: tokens)) :
    ∃ gap rest, text = gap ++ byte :: rest ∧ Spaces gap ∧ Lexes rest tokens := by
  cases lexes with
  | mark spaces other behind =>
      rw [Token.ofByte?_inj read other]
      exact ⟨_, _, rfl, spaces, behind⟩
  | index spaces longest behind => exact absurd read (Token.ofByte?_ne_index byte _)

theorem Lexes.exists_side {byte : UInt8} {mark : Token} (read : Token.ofByte? byte = some mark)
    {index text : Text} {tokens : List Token}
    (lexes : Lexes text (indexToken index ++ mark :: tokens)) :
    ∃ side rest, text = side ++ byte :: rest ∧ Unmarked side ∧ trimSpaces side = index ∧
      Lexes rest tokens := by
  rw [indexToken] at lexes
  split at lexes
  · next none =>
      obtain ⟨gap, rest, rfl, spaces, behind⟩ := lexes.exists_mark read
      exact ⟨gap, rest, rfl, unmarked_of_spaces spaces,
        (trimSpaces_of_spaces spaces).trans (List.isEmpty_iff.mp none).symm, behind⟩
  · cases lexes with
    | mark _ other _ => exact absurd other (Token.ofByte?_ne_index _ _)
    | @index lead _ rest _ leadSpaces longest behind =>
        obtain ⟨tail, rest, rfl, tailSpaces, behind⟩ := behind.exists_mark read
        refine ⟨lead ++ (index ++ tail), rest, by simp, ?_, ?_, behind⟩
        · exact (unmarked_of_spaces leadSpaces).append
            (longest.index.unmarked.append (unmarked_of_spaces tailSpaces))
        · exact trimSpaces_core leadSpaces tailSpaces longest.index.starts longest.index.ends

theorem Lexes.exists_pairs {groups : List Group} {text : Text}
    (lexes : Lexes text (groups.flatMap Group.tokens)) :
    ∃ lead rest pairs, text = lead ++ rest ∧ Spaces lead ∧ Pairs pairs rest ∧
      pairs.map Group.trimmed = groups := by
  induction groups generalizing text with
  | nil =>
      cases lexes with
      | blanks spaces => exact ⟨text, [], [], by simp, spaces, .nil, rfl⟩
  | cons group groups ih =>
      simp only [List.flatMap_cons, Group.tokens, List.cons_append, List.append_assoc,
        List.nil_append] at lexes
      have opening : Token.ofByte? '[' = some .opening := rfl
      have colon : Token.ofByte? ':' = some .colon := rfl
      have closing : Token.ofByte? ']' = some .closing := rfl
      obtain ⟨lead, rest, rfl, leadSpaces, lexes⟩ := lexes.exists_mark opening
      obtain ⟨left, rest, rfl, leftUnmarked, leftSame, lexes⟩ := lexes.exists_side colon
      obtain ⟨right, rest, rfl, rightUnmarked, rightSame, lexes⟩ := lexes.exists_side closing
      obtain ⟨gap, rest, pairs, rfl, spaces, others, same⟩ := ih lexes
      refine ⟨lead, _, ⟨left, right⟩ :: pairs, rfl, leadSpaces,
        .cons leftUnmarked rightUnmarked spaces others, ?_⟩
      rw [List.map_cons, same, Group.trimmed, leftSame, rightSame]

theorem parse_eq_ok {field : Text} {groups : List Group} (read : parse field = .ok groups) :
    groups ≠ [] ∧ groups? (scan [] field) = some groups := by
  rw [parse] at read
  split at read
  · cases read
  · split at read
    · cases read
    · cases read
    · next other found =>
        cases read
        exact ⟨other, found⟩

theorem ne_nil_of_parse {field : Text} {groups : List Group} (read : parse field = .ok groups) :
    field ≠ [] := by
  rintro rfl
  cases read

theorem parse_eq_ok_iff {field : Text} {groups : List Group} :
    parse field = .ok groups ↔ ∃ pairs, IsDimensionList pairs field ∧
      pairs.map Group.trimmed = groups := by
  constructor
  · intro read
    obtain ⟨some, found⟩ := parse_eq_ok read
    have lexes : Lexes field (scan [] field) := scan_eq_iff.mp rfl
    have tokens := flatMap_tokens lexes found
    rw [← tokens] at lexes
    obtain ⟨lead, rest, pairs, rfl, spaces, written, same⟩ := lexes.exists_pairs
    refine ⟨pairs, ⟨fun none => some ?_, lead, rest, spaces, written, rfl⟩, same⟩
    rw [← same, none, List.map_nil]
  · rintro ⟨pairs, written, rfl⟩
    exact written.parse

/-- A text is read as a dimension list exactly if it is one or more bracket pairs with blanks around
them.  It has one group for each pair, whose index expressions are the texts of the pair without
the blanks around them. -/
theorem parse_dimensionList (field : Text) :
    (∀ tokens, scan [] field = tokens ↔ Lexes field tokens) ∧
      ((∃ groups, parse field = .ok groups) ↔ ∃ pairs, IsDimensionList pairs field) ∧
      ∀ pairs, IsDimensionList pairs field → ∃ groups, parse field = .ok groups ∧
        groups.length = pairs.length ∧
        indexes groups = pairs.flatMap fun pair => [trimSpaces pair.left, trimSpaces pair.right] := by
  refine ⟨fun tokens => scan_eq_iff, ⟨?_, ?_⟩, fun pairs written => ⟨_, written.parse, ?_, ?_⟩⟩
  · rintro ⟨groups, read⟩
    obtain ⟨pairs, written, -⟩ := parse_eq_ok_iff.mp read
    exact ⟨pairs, written⟩
  · rintro ⟨pairs, written⟩
    exact ⟨_, written.parse⟩
  · rw [List.length_map]
  · rw [indexes, List.flatMap_map]
    rfl

theorem parse_dimensionList_padded :
    let pairs : List Group := [⟨" A - 1 ", " 0"⟩, ⟨"7", ""⟩]
    IsDimensionList pairs " [ A - 1 : 0]  [7:]\t" ∧
      ∃ groups, parse " [ A - 1 : 0]  [7:]\t" = .ok groups ∧ groups.length = 2 ∧
        indexes groups = Text.literals ["A - 1", "0", "7", ""] := by
  have written : IsDimensionList [⟨" A - 1 ", " 0"⟩, ⟨"7", ""⟩] " [ A - 1 : 0]  [7:]\t" := by
    refine ⟨by simp, " ", "[ A - 1 : 0]  [7:]\t", by unfold Spaces; decide +kernel, ?_,
      by decide +kernel⟩
    have second := @Pairs.cons "7" "" "\t" [] [] (by unfold Unmarked; decide +kernel)
      (by unfold Unmarked; decide +kernel) (by unfold Spaces; decide +kernel) .nil
    exact @Pairs.cons " A - 1 " " 0" "  " _ _ (by unfold Unmarked; decide +kernel)
      (by unfold Unmarked; decide +kernel) (by unfold Spaces; decide +kernel) second
  exact ⟨written, (parse_dimensionList _).2.2 _ written⟩

end HdlAlign.Range
