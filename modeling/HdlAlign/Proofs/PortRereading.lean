import HdlAlign.Proofs.Punctuation
import HdlAlign.Proofs.Rereading

/-! A port entry is read again from its columns.  A bare list of identifiers stays one, unless a type
word is cut out of its first name. -/

namespace HdlAlign.Statement

open Pattern Text

/-! Lists of identifiers. -/

def isIdentifierByte (byte : UInt8) : Bool := isWord byte || byte == '$'

def Identifier (text : Text) : Prop :=
  ∃ first rest, text = first :: rest ∧ (isLetter first || first == '_') ∧
    ∀ byte ∈ rest, isIdentifierByte byte

inductive Continued : Text → Prop
  | nil : Continued []
  | cons {gap more name rest : Text} (gapSpaces : Spaces gap) (moreSpaces : Spaces more)
      (identifier : Identifier name) (continued : Continued rest) :
      Continued (gap ++ (',' : UInt8) :: (more ++ (name ++ rest)))

def Listed (text : Text) : Prop :=
  ∃ name rest, text = name ++ rest ∧ Identifier name ∧ Continued rest

theorem Identifier.forall_mem {name : Text} (identifier : Identifier name) :
    ∀ byte ∈ name, isIdentifierByte byte := by
  have first : ∀ byte : UInt8, (isLetter byte || byte == '_') → isIdentifierByte byte :=
    forall_byte (by decide +kernel)
  obtain ⟨byte, rest, rfl, start, others⟩ := identifier
  exact List.forall_mem_cons.mpr ⟨first byte start, others⟩

theorem visible_of_isIdentifierByte : ∀ {byte : UInt8}, isIdentifierByte byte →
    isSpace byte = false ∧ byte ≠ ',' :=
  @(forall_byte (by decide +kernel))

theorem isIdentifierByte_of_isWord {byte : UInt8} (word : isWord byte) : isIdentifierByte byte :=
  Bool.or_eq_true_iff.mpr (.inl word)

theorem not_isIdentifierByte_of_isSpace {byte : UInt8} (space : isSpace byte) :
    isIdentifierByte byte = false := by
  rw [← Bool.not_eq_true]
  intro inside
  rw [(visible_of_isIdentifierByte inside).1] at space
  cases space

theorem Continued.head {text : Text} (continued : Continued text) :
    ∀ byte ∈ text.head?, isIdentifierByte byte = false := by
  cases continued with
  | nil => exact fun _ member => by cases member
  | @cons gap more name rest gapSpaces =>
      cases gap with
      | nil => exact fun byte first => by cases first; rfl
      | cons byte gap =>
          intro other first
          cases first
          exact not_isIdentifierByte_of_isSpace (gapSpaces byte (by simp))

theorem identifier_append {name rest : Text} (identifier : Identifier name)
    (stops : ∀ byte ∈ rest.head?, isIdentifierByte byte = false) :
    Statement.identifier (name ++ rest) = some (name, rest) := by
  obtain ⟨first, others, rfl, start, all⟩ := identifier
  exact andThen_eq_some_iff.mpr ⟨[first], others ++ rest, others,
    one_eq_some_iff.mpr ⟨first, start, rfl, rfl⟩, run_append all stops, rfl⟩

theorem identifier_sound : Sound identifier := .andThen (.one _) (.run _)

theorem identifier_of_read {text part rest : Text} (read : identifier text = some (part, rest)) :
    Identifier part := by
  obtain ⟨left, middle, right, leftRead, rightRead, rfl⟩ := andThen_eq_some_iff.mp read
  obtain ⟨first, start, rfl, rfl⟩ := one_eq_some_iff.mp leftRead
  obtain ⟨rfl, -⟩ := run_eq_some_iff.mp rightRead
  exact ⟨first, _, rfl, start, fun byte member => List.mem_takeWhile_imp member⟩

def furtherIdentifier : Pattern := spaces >> literal "," >> spaces >> identifier

theorem furtherIdentifier_sound : Sound furtherIdentifier :=
  .andThen .spaces (.andThen (.literal _) (.andThen .spaces identifier_sound))

theorem furtherIdentifier_consumes : Consumes furtherIdentifier :=
  .andThen_right _ (.andThen_left (.literal (by decide)) _)

theorem comma_eq : ofString "," = [(',' : UInt8)] := by decide

theorem furtherIdentifier_append {gap more name rest : Text} (gapSpaces : Spaces gap)
    (moreSpaces : Spaces more) (identifier : Identifier name)
    (stops : ∀ byte ∈ rest.head?, isIdentifierByte byte = false) :
    furtherIdentifier (gap ++ (',' : UInt8) :: (more ++ (name ++ rest))) =
      some (gap ++ (',' : UInt8) :: (more ++ name), rest) := by
  have starts : Starts (name ++ rest) := by
    obtain ⟨first, others, rfl, -, -⟩ := id identifier
    intro byte head
    cases head
    exact (visible_of_isIdentifierByte (identifier.forall_mem first (by simp))).1
  have comma : Starts ((',' : UInt8) :: (more ++ (name ++ rest))) := fun byte head => by
    cases head
    rfl
  refine andThen_eq_some_iff.mpr ⟨gap, _, (',' : UInt8) :: (more ++ name), run_append gapSpaces comma,
    andThen_eq_some_iff.mpr ⟨[(',' : UInt8)], more ++ (name ++ rest), more ++ name,
      literal_eq_some_iff.mpr ⟨comma_eq.symm, by rw [comma_eq]; rfl⟩,
      andThen_eq_some_iff.mpr ⟨more, name ++ rest, name, run_append moreSpaces starts,
        identifier_append identifier stops, rfl⟩, rfl⟩, rfl⟩

theorem furtherIdentifier_of_read {text part rest : Text}
    (read : furtherIdentifier text = some (part, rest)) :
    ∃ gap more name, Spaces gap ∧ Spaces more ∧ Identifier name ∧
      text = gap ++ (',' : UInt8) :: (more ++ (name ++ rest)) := by
  have split := furtherIdentifier_sound _ _ _ read
  obtain ⟨gap, _, _, gapRead, listRead, rfl⟩ := andThen_eq_some_iff.mp read
  obtain ⟨comma, _, _, commaRead, itemRead, rfl⟩ := andThen_eq_some_iff.mp listRead
  obtain ⟨more, _, name, moreRead, nameRead, rfl⟩ := andThen_eq_some_iff.mp itemRead
  obtain ⟨rfl, -⟩ := literal_eq_some_iff.mp commaRead
  refine ⟨gap, more, name, spaces_of_read gapRead, spaces_of_read moreRead,
    identifier_of_read nameRead, ?_⟩
  rw [comma_eq] at split
  simpa using split

theorem many_of_continued {text : Text} (continued : Continued text) :
    many furtherIdentifier text = some (text, []) := by
  induction continued with
  | nil => rfl
  | @cons gap more name rest gapSpaces moreSpaces identifier continued ih =>
      have read := furtherIdentifier_append gapSpaces moreSpaces identifier continued.head
      have size : (gap ++ (',' : UInt8) :: (more ++ (name ++ rest))).length =
          (gap.length + more.length + name.length + rest.length) + 1 := by simp; omega
      rw [many, size, upTo_of_some read,
        upTo_eq_many furtherIdentifier_sound furtherIdentifier_consumes (by omega), ih]
      simp

theorem continued_of_upTo {n : Nat} {text part : Text}
    (read : upTo furtherIdentifier n text = some (part, [])) : Continued text := by
  induction n generalizing text part with
  | zero =>
      cases read
      exact .nil
  | succ n ih =>
      cases next : furtherIdentifier text with
      | none =>
          rw [upTo_of_none next] at read
          cases read
          exact .nil
      | some found =>
          rw [upTo_of_some next] at read
          obtain ⟨⟨others, tail⟩, inner, same⟩ := Option.map_eq_some_iff.mp read
          cases same
          obtain ⟨gap, between, name, gapSpaces, moreSpaces, identifier, rfl⟩ :=
            furtherIdentifier_of_read next
          exact .cons gapSpaces moreSpaces identifier (ih inner)

theorem identifierList_matchesFront_iff {text : Text} :
    identifierList.matchesFront text ↔ Listed text := by
  rw [matchesFront_iff]
  constructor
  · rintro ⟨part, rest, read⟩
    obtain ⟨name, middle, right, nameRead, read, -⟩ := andThen_eq_some_iff.mp read
    obtain ⟨others, tail, _, othersRead, endRead, -⟩ := andThen_eq_some_iff.mp read
    obtain ⟨rfl, -, -⟩ := atEnd_eq_some_iff.mp endRead
    exact ⟨name, middle, identifier_sound _ _ _ nameRead, identifier_of_read nameRead,
      continued_of_upTo othersRead⟩
  · rintro ⟨name, rest, rfl, identifier, continued⟩
    exact ⟨_, [], andThen_eq_some_iff.mpr ⟨name, rest, _,
      identifier_append identifier continued.head,
      andThen_eq_some_iff.mpr ⟨rest, [], [], many_of_continued continued, rfl, rfl⟩, rfl⟩⟩

/-! Writing a list in normal form leaves it a list. -/

theorem Identifier.visible {name : Text} (identifier : Identifier name) :
    ∀ byte ∈ name, isSpace byte = false ∧ byte ≠ ',' :=
  fun byte member => visible_of_isIdentifierByte (identifier.forall_mem byte member)

theorem Identifier.ne_nil {name : Text} (identifier : Identifier name) : name ≠ [] := by
  obtain ⟨first, rest, rfl, -⟩ := identifier
  exact List.cons_ne_nil first rest

theorem Identifier.starts_append {name : Text} (identifier : Identifier name) (rest : Text) :
    Starts (name ++ rest) := by
  obtain ⟨first, others, same⟩ := List.exists_cons_of_ne_nil identifier.ne_nil
  intro byte head
  rw [same] at head
  cases head
  exact (identifier.visible first (by simp [same])).1

theorem Identifier.ends {name : Text} (identifier : Identifier name) : Ends name :=
  fun byte last => (identifier.visible byte (List.mem_of_getLast? last)).1

theorem Continued.ends {text : Text} (continued : Continued text) : Ends text := by
  induction continued with
  | nil => exact .nil
  | @cons gap more name rest gapSpaces moreSpaces identifier continued ih =>
      have whole : gap ++ (',' : UInt8) :: (more ++ (name ++ rest)) =
          gap ++ (',' : UInt8) :: more ++ (name ++ rest) := by simp
      have nonempty : name ++ rest ≠ [] := List.append_ne_nil_of_left_ne_nil identifier.ne_nil rest
      intro byte last
      rw [whole, List.getLast?_append_of_ne_nil _ nonempty] at last
      exact identifier.ends.append ih byte last

theorem Listed.starts {text : Text} (listed : Listed text) : Starts text := by
  obtain ⟨name, rest, rfl, identifier, -⟩ := listed
  exact identifier.starts_append rest

theorem Listed.ends {text : Text} (listed : Listed text) : Ends text := by
  obtain ⟨name, rest, rfl, identifier, continued⟩ := listed
  exact identifier.ends.append continued.ends

theorem Continued.collapseRuns {text : Text} (continued : Continued text) :
    Continued (collapseRuns false text) := by
  induction continued with
  | nil => exact .nil
  | @cons gap more name rest gapSpaces moreSpaces identifier continued ih =>
      have comma : Starts ((',' : UInt8) :: (more ++ (name ++ rest))) := fun byte head => by
        cases head
        rfl
      have marked : Text.collapseRuns false ((',' : UInt8) :: (more ++ (name ++ rest))) =
          (',' : UInt8) :: Text.collapseRuns false (more ++ (name ++ rest)) := rfl
      rw [collapseRuns_append_of_starts comma, marked,
        collapseRuns_append_of_starts (identifier.starts_append rest),
        collapseRuns_append fun byte member => (identifier.visible byte member).1]
      exact .cons (gapSpaces.collapseRuns false) (moreSpaces.collapseRuns false) identifier ih

theorem spaceCommas_gap_comma {gap : Text} (spaces : Spaces gap) (absorbing : Bool) (rest : Text) :
    spaceCommas absorbing (gap ++ (',' : UInt8) :: rest) =
      (',' : UInt8) :: blank :: spaceCommas true rest := by
  induction gap with
  | nil => rfl
  | cons byte gap ih =>
      have space := spaces byte (by simp)
      have others : Spaces gap := fun other member => spaces other (by simp [member])
      have other : byte ≠ ',' := fun same => by rw [same] at space; cases space
      have follows : commaFollows (gap ++ (',' : UInt8) :: rest) = true := by
        rw [commaFollows, others.dropWhile_append]
        rfl
      rw [List.cons_append, spaceCommas, if_neg other, if_pos space, follows, Bool.or_true,
        if_pos rfl, ih others]

theorem spaceCommas_absorb {gap : Text} (spaces : Spaces gap) (rest : Text) :
    spaceCommas true (gap ++ rest) = spaceCommas true rest := by
  induction gap with
  | nil => rfl
  | cons byte gap ih =>
      have space := spaces byte (by simp)
      have other : byte ≠ ',' := fun same => by rw [same] at space; cases space
      rw [List.cons_append, spaceCommas, if_neg other, if_pos space, Bool.true_or, if_pos rfl,
        ih fun other member => spaces other (by simp [member])]

theorem spaceCommas_append {name : Text} (nonempty : name ≠ [])
    (visible : ∀ byte ∈ name, isSpace byte = false ∧ byte ≠ ',') (absorbing : Bool) (rest : Text) :
    spaceCommas absorbing (name ++ rest) = name ++ spaceCommas false rest := by
  induction name generalizing absorbing with
  | nil => exact absurd rfl nonempty
  | cons byte name ih =>
      obtain ⟨shown, other⟩ := visible byte (by simp)
      rw [List.cons_append, spaceCommas, if_neg other, if_neg (by simp [shown]), List.cons_append]
      by_cases empty : name = []
      · rw [empty]
        rfl
      · rw [ih empty fun other member => visible other (by simp [member])]

theorem Continued.spaceCommas {text : Text} (continued : Continued text) :
    Continued (spaceCommas false text) := by
  induction continued with
  | nil => exact .nil
  | @cons gap more name rest gapSpaces moreSpaces identifier continued ih =>
      rw [spaceCommas_gap_comma gapSpaces, spaceCommas_absorb moreSpaces,
        spaceCommas_append identifier.ne_nil identifier.visible]
      have single : Spaces [blank] := fun byte member => by rw [List.mem_singleton.mp member]; rfl
      exact .cons .nil single identifier ih

theorem normalizeList_normalize_core {text lead tail : Text} (plain : Plain text)
    (starts : Starts text) (ends : Ends text)
    (spacedEnds : Ends (spaceCommas false (collapseRuns false text)))
    (leadSpaces : Spaces lead) (tailSpaces : Spaces tail) :
    normalizeList (normalize (lead ++ (text ++ tail))) =
      spaceCommas false (collapseRuns false text) := by
  have tidy := tidy_normalize plain
  rw [normalize_alone plain starts ends] at tidy
  have spacedPlain := tidy.plain.within (spaceCommas_within false (collapseRuns false text))
  have spacedStarts := starts_spaceCommas false tidy.starts
  rw [normalize_core leadSpaces tailSpaces plain starts ends, normalizeList,
    trim_alone spacedPlain spacedStarts spacedEnds]

theorem Listed.normal {text lead tail : Text} (listed : Listed text) (plain : Plain text)
    (leadSpaces : Spaces lead) (tailSpaces : Spaces tail) :
    Listed (normalizeList (normalize (lead ++ (text ++ tail)))) := by
  have spaced : Listed (spaceCommas false (collapseRuns false text)) := by
    obtain ⟨name, rest, rfl, identifier, continued⟩ := listed
    rw [collapseRuns_append fun byte member => (identifier.visible byte member).1,
      spaceCommas_append identifier.ne_nil identifier.visible]
    exact ⟨name, _, rfl, identifier, continued.collapseRuns.spaceCommas⟩
  rwa [normalizeList_normalize_core plain listed.starts listed.ends spaced.ends leadSpaces tailSpaces]

theorem Continued.core {text : Text} (continued : Continued text) :
    ∃ gap core, text = gap ++ core ∧ Spaces gap ∧ Continued core ∧ Starts core := by
  cases continued with
  | nil => exact ⟨[], [], rfl, .nil, .nil, .nil⟩
  | @cons gap more name rest gapSpaces moreSpaces identifier continued =>
      refine ⟨gap, _, rfl, gapSpaces, .cons .nil moreSpaces identifier continued, ?_⟩
      exact fun byte head => by cases head; rfl

theorem Continued.normal {text tail : Text} (continued : Continued text) (plain : Plain text)
    (tailSpaces : Spaces tail) : Continued (normalizeList (normalize (text ++ tail))) := by
  obtain ⟨gap, core, rfl, gapSpaces, coreContinued, starts⟩ := continued.core
  have plainCore : Plain core := plain.subset (List.subset_append_right _ _)
  have spaced := coreContinued.collapseRuns.spaceCommas
  rwa [List.append_assoc, normalizeList_normalize_core plainCore starts coreContinued.ends
    spaced.ends gapSpaces tailSpaces]

/-! The columns of a port entry. -/

namespace Port

def nameColumns (text : Text) : List Text :=
  [normalize (cutFront Statement.vector text).1,
    normalizeList (normalize (cutFront Statement.vector text).2)]

def typeColumns (text : Text) : List Text :=
  normalize (cutFront portType text).1 :: nameColumns (cutFront portType text).2

def codeColumns (code : Text) : List Text :=
  [] :: normalize (cutFront Statement.direction code).1 ::
    typeColumns (cutFront Statement.direction code).2

theorem columns_eq {line : Text} (single : newline ∉ line) :
    (extract line).columns = codeColumns (splitComment line).1 ++ [(splitComment line).2] := by
  rw [extract_eq_cut single]
  simp only [columns, normal, cut, codeColumns, typeColumns, nameColumns, List.cons_append,
    List.nil_append]

theorem tidy_nameColumns {text : Text} (plain : Plain text) : ∀ field ∈ nameColumns text, Tidy field := by
  obtain ⟨plainVector, plainName⟩ := plain_cutFront vector_sound plain
  simp only [nameColumns, List.forall_mem_cons, List.not_mem_nil, false_implies, implies_true, and_true]
  exact ⟨tidy_normalize plainVector, tidy_normalizeList (tidy_normalize plainName)⟩

theorem tidy_typeColumns {text : Text} (plain : Plain text) : ∀ field ∈ typeColumns text, Tidy field := by
  obtain ⟨plainType, plainRest⟩ := plain_cutFront portType_sound plain
  exact List.forall_mem_cons.mpr ⟨tidy_normalize plainType, tidy_nameColumns plainRest⟩

theorem tidy_codeColumns {code : Text} (plain : Plain code) : ∀ field ∈ codeColumns code, Tidy field := by
  obtain ⟨plainDirection, plainRest⟩ := plain_cutFront direction_sound plain
  exact List.forall_mem_cons.mpr ⟨.nil, List.forall_mem_cons.mpr
    ⟨tidy_normalize plainDirection, tidy_typeColumns plainRest⟩⟩

inductive LoosenedName (text : Text) : List Text → Prop
  | intro {vector : Text} (moved : Loosened vector (cutFront Statement.vector text).1) :
      LoosenedName text [vector, normalizeList (normalize (cutFront Statement.vector text).2)]

inductive LoosenedType (text : Text) : List Text → Prop
  | intro {columns : List Text} (moved : LoosenedName (cutFront portType text).2 columns) :
      LoosenedType text (normalize (cutFront portType text).1 :: columns)

inductive LoosenedColumns (code : Text) : List Text → Prop
  | intro {columns : List Text}
      (moved : LoosenedType (cutFront Statement.direction code).2 columns) :
      LoosenedColumns code
        ([] :: normalize (cutFront Statement.direction code).1 :: columns)

theorem LoosenedType.refl {text : Text} (plain : Plain text) :
    LoosenedType text (typeColumns text) := by
  obtain ⟨-, plainName⟩ := plain_cutFront portType_sound plain
  obtain ⟨plainVector, -⟩ := plain_cutFront vector_sound plainName
  exact .intro (.intro (.normalize plainVector))

theorem LoosenedColumns.refl {code : Text} (plain : Plain code) :
    LoosenedColumns code (codeColumns code) := by
  obtain ⟨-, plainType⟩ := plain_cutFront direction_sound plain
  exact .intro (.refl plainType)

theorem LoosenedName.starts {text : Text} {columns : List Text} (plain : Plain text)
    (moved : LoosenedName text columns) : ∀ field ∈ columns, Starts field := by
  obtain ⟨-, plainName⟩ := plain_cutFront vector_sound plain
  cases moved with
  | intro moved =>
      simp only [List.forall_mem_cons, List.not_mem_nil, false_implies, implies_true, and_true]
      exact ⟨moved.starts, (tidy_normalizeList (tidy_normalize plainName)).starts⟩

theorem LoosenedType.starts {text : Text} {columns : List Text} (plain : Plain text)
    (moved : LoosenedType text columns) : ∀ field ∈ columns, Starts field := by
  obtain ⟨plainType, plainRest⟩ := plain_cutFront portType_sound plain
  cases moved with
  | intro moved =>
      exact List.forall_mem_cons.mpr ⟨(tidy_normalize plainType).starts, moved.starts plainRest⟩

theorem LoosenedName.squeeze {text : Text} {columns : List Text} (plain : Plain text)
    (moved : LoosenedName text columns) : (columns.map Text.squeeze).flatten = Text.squeeze text := by
  obtain ⟨-, plainName⟩ := plain_cutFront vector_sound plain
  cases moved with
  | intro moved =>
      simp only [List.map_cons, List.map_nil, List.flatten_cons, List.flatten_nil, List.append_nil,
        moved.squeeze, squeeze_normalizeList (tidy_normalize plainName).plain,
        squeeze_normalize plainName]
      rw [← squeeze_append, ← vector_sound.cutFront]

theorem LoosenedType.squeeze {text : Text} {columns : List Text} (plain : Plain text)
    (moved : LoosenedType text columns) : (columns.map Text.squeeze).flatten = Text.squeeze text := by
  obtain ⟨plainType, plainRest⟩ := plain_cutFront portType_sound plain
  cases moved with
  | intro moved =>
      rw [List.map_cons, List.flatten_cons, moved.squeeze plainRest, squeeze_normalize plainType,
        ← squeeze_append, ← portType_sound.cutFront]

theorem LoosenedColumns.squeeze {code : Text} {columns : List Text} (plain : Plain code)
    (moved : LoosenedColumns code columns) :
    (columns.map Text.squeeze).flatten = Text.squeeze code := by
  obtain ⟨plainDirection, plainRest⟩ := plain_cutFront direction_sound plain
  cases moved with
  | intro moved =>
      rw [List.map_cons, List.map_cons, List.flatten_cons, List.flatten_cons, squeeze_nil,
        List.nil_append, moved.squeeze plainRest, squeeze_normalize plainDirection,
        ← squeeze_append, ← direction_sound.cutFront]

theorem name_reread {text other : Text} {columns : List Text} (plain : Plain text)
    (moved : LoosenedName text columns) (laid : Laid columns other) :
    ahead other = ahead text ∧ nameColumns other = columns.map normalize := by
  obtain ⟨plainVector, plainName⟩ := plain_cutFront vector_sound plain
  have name := tidy_normalizeList (tidy_normalize plainName)
  cases moved with
  | intro moved =>
      have squeezed : squeeze other = squeeze text := by
        rw [laid.squeeze, LoosenedName.squeeze plain (.intro moved)]
      have starts : ∀ field ∈ [normalizeList (normalize (cutFront Statement.vector text).2)],
          Starts field := fun field member => by rw [List.mem_singleton.mp member]; exact name.starts
      have vector := vector_reread moved laid starts squeezed
      constructor
      · refine ahead_vector moved laid fun next behind => ?_
        rw [behind.ahead_eq name.starts (List.forall_mem_nil _),
          ahead_normalizeList_normalize plainName]
      · obtain ⟨lead, tail, whole, leadSpaces, tailSpaces⟩ := vector.rest.single
        rw [nameColumns, moved.normalize_laid vector.part, whole,
          normalizeList_normalize_field plainName leadSpaces tailSpaces]
        simp [(Laid.alone _).normalize_single name]

theorem portType_worded :
    Worded ((keyword typeWords >> Pattern.optional sign) <|> keyword signWords) :=
  (signed_worded typeWords_spelled).orElse (keyword_worded signWords_spelled)

theorem direction_worded : Worded (keyword directionWords) := keyword_worded (by decide +kernel)

theorem type_reread {text other : Text} {columns : List Text} (plain : Plain text)
    (moved : LoosenedType text columns) (laid : Laid columns other) :
    ahead other = ahead text ∧ typeColumns other = columns.map normalize := by
  obtain ⟨plainType, plainRest⟩ := plain_cutFront portType_sound plain
  cases moved with
  | @intro columns moved =>
      obtain ⟨front, type⟩ : ahead other = ahead text ∧
          Rereads portType (normalize (cutFront portType text).1) other columns :=
        portType_worded.reread plain laid (moved.starts plainRest)
          fun next behind => (name_reread plainRest moved behind).1
      obtain ⟨-, name⟩ := name_reread plainRest moved type.rest
      have tidy := tidy_normalize plainType
      rw [typeColumns, type.part.normalize_single tidy, name, List.map_cons,
        (Laid.alone _).normalize_single tidy]
      exact ⟨front, rfl⟩

theorem code_reread {code other : Text} {columns : List Text} (plain : Plain code)
    (moved : LoosenedColumns code columns) (laid : Laid columns other) :
    ahead other = ahead code ∧ codeColumns other = columns.map normalize := by
  obtain ⟨plainDirection, plainRest⟩ := plain_cutFront direction_sound plain
  cases moved with
  | @intro columns moved =>
      obtain ⟨front, direction⟩ : ahead other = ahead code ∧
          Rereads Statement.direction (normalize (cutFront Statement.direction code).1) other
            columns :=
        direction_worded.reread plain laid.of_nil (moved.starts plainRest)
          fun next behind => (type_reread plainRest moved behind).1
      obtain ⟨-, type⟩ := type_reread plainRest moved direction.rest
      have tidy := tidy_normalize plainDirection
      rw [codeColumns, direction.part.normalize_single tidy, type, List.map_cons, List.map_cons,
        (Laid.alone _).normalize_single tidy, normalize_of_spaces .nil]
      exact ⟨front, rfl⟩

/-! A bare list of identifiers. -/

end Port

theorem Continued.head_append {more tail : Text} (continued : Continued more)
    (tailSpaces : Spaces tail) : ∀ byte ∈ (more ++ tail).head?, isIdentifierByte byte = false := by
  intro byte first
  rw [List.head?_append, Option.mem_def, Option.or_eq_some_iff] at first
  rcases first with inside | ⟨-, behind⟩
  · exact continued.head byte inside
  · exact not_isIdentifierByte_of_isSpace (tailSpaces byte (List.mem_of_mem_head? behind))

theorem Continued.comma {more tail : Text} (continued : Continued more) (tailSpaces : Spaces tail) :
    ∀ byte ∈ (squeeze (more ++ tail)).head?, byte = ',' := by
  intro byte first
  cases continued with
  | nil =>
      rw [List.nil_append, squeeze_eq_nil_iff.mpr tailSpaces] at first
      cases first
  | cons gapSpaces =>
      rw [List.append_assoc, squeeze_append, squeeze_eq_nil_iff.mpr gapSpaces, List.nil_append,
        List.cons_append, squeeze_cons rfl] at first
      cases first
      rfl

theorem ahead_of_squeeze {text : Text} {byte : UInt8} (other : isWord byte = false)
    (first : ∀ found ∈ (squeeze text).head?, found = byte) : ahead text = [] := by
  rw [← squeeze_dropWhile, (starts_dropWhile text).head?_squeeze] at first
  rw [ahead]
  refine Stops.takeWhile fun found head => ?_
  rw [first found head, other]

theorem Identifier.of_isPrefix {name word : Text} (identifier : Identifier name) (some : word ≠ [])
    (begins : word <+: name) : Identifier word := by
  obtain ⟨rest, split⟩ := begins
  obtain ⟨first, others, rfl, start, all⟩ := identifier
  obtain ⟨byte, more, rfl⟩ := List.exists_cons_of_ne_nil some
  obtain ⟨rfl, rfl⟩ := List.cons.inj split
  exact ⟨byte, more, rfl, start, fun other member => all other (by simp [member])⟩

theorem typeWord_listed {name more words behind : Text} (identifier : Identifier name)
    (boundary : ∀ byte ∈ more.head?, isIdentifierByte byte = false) (none : ahead more = [])
    (read : ((keyword typeWords >> Pattern.optional sign) <|> keyword signWords) (name ++ more) =
      some (words, behind)) :
    words ≠ [] ∧ (∀ byte ∈ words, isWord byte) ∧ name ++ more = words ++ behind ∧ Stops behind := by
  rcases orElse_eq_some_iff.mp read with signed | ⟨-, single⟩
  · obtain ⟨word, listed, stops, ⟨rfl, split, -⟩ | ⟨gap, sign, nonempty, spaces, signListed, -, split⟩⟩ :=
      signed_cases signed
    · obtain ⟨some, all⟩ := typeWords_spelled words listed
      exact ⟨some, all, split, stops⟩
    · have inside : ∀ byte ∈ word, isIdentifierByte byte := fun byte member =>
        isIdentifierByte_of_isWord ((typeWords_spelled word listed).2 byte member)
      have gapStops : ∀ byte ∈ (gap ++ (sign ++ behind)).head?, isIdentifierByte byte = false := by
        obtain ⟨first, others, rfl⟩ := List.exists_cons_of_ne_nil nonempty
        intro byte head
        cases head
        exact not_isIdentifierByte_of_isSpace (spaces first (by simp))
      have here := run_append identifier.forall_mem boundary
      rw [split, run_append inside gapStops] at here
      cases here
      obtain ⟨signNonempty, signAll⟩ := signWords_spelled sign signListed
      obtain ⟨first, others, rfl⟩ := List.exists_cons_of_ne_nil signNonempty
      have starts := (tidy_of_isWord signAll).starts first rfl
      rw [ahead_spaces_append spaces, ahead, List.cons_append,
        List.dropWhile_cons_of_neg (by simp [starts]),
        List.takeWhile_cons_of_pos (signAll first (by simp))] at none
      cases none
  · have split := Sound.keyword _ _ _ _ single
    obtain ⟨listed, rfl, rfl⟩ := keyword_eq_some_iff.mp single
    obtain ⟨nonempty, all⟩ := signWords_spelled _ listed
    exact ⟨nonempty, all, split, stops_dropWhile _⟩

theorem portType_listed {lead list tail part rest : Text} (listed : Listed list)
    (leadSpaces : Spaces lead) (tailSpaces : Spaces tail)
    (read : portType (lead ++ (list ++ tail)) = some (part, rest)) :
    ∃ word more, Identifier word ∧ list = word ++ more ∧ normalize part = word ∧
      rest = (more ++ tail).dropWhile isSpace ∧
      (Continued more ∨ more.head? = some ('$' : UInt8)) := by
  obtain ⟨gap, middle, right, gapRead, innerRead, rfl⟩ := andThen_eq_some_iff.mp read
  obtain ⟨words, behind, blanks, wordsRead, blanksRead, rfl⟩ := andThen_eq_some_iff.mp innerRead
  have gapSpaces := spaces_of_read gapRead
  have blankSpaces := spaces_of_read blanksRead
  obtain ⟨-, rfl⟩ := run_eq_some_iff.mp gapRead
  obtain ⟨-, rfl⟩ := run_eq_some_iff.mp blanksRead
  obtain ⟨name, more, rfl, identifier, continued⟩ := listed
  have boundary := continued.head_append tailSpaces
  rw [leadSpaces.dropWhile_append, List.append_assoc,
    (identifier.starts_append (more ++ tail)).dropWhile] at wordsRead
  obtain ⟨some, all, split, stops⟩ := typeWord_listed identifier boundary
    (ahead_of_squeeze rfl (continued.comma tailSpaces)) wordsRead
  have normal : normalize (gap ++ (words ++ blanks)) = words :=
    (tidy_of_isWord all).normalize gapSpaces blankSpaces
  rcases List.append_eq_append_iff.mp split with ⟨extra, same, behindSplit⟩ | ⟨extra, same, behindSplit⟩
  · -- The word does not reach over the name.
    have none : extra = [] := by
      cases extra with
      | nil => rfl
      | cons byte extra =>
          have inside := isIdentifierByte_of_isWord (all byte (by simp [same]))
          rw [boundary byte (by rw [behindSplit]; rfl)] at inside
          cases inside
    rw [none, List.append_nil] at same
    rw [none, List.nil_append] at behindSplit
    exact ⟨name, more, identifier, rfl, by rw [normal, same], by rw [behindSplit], .inl continued⟩
  · refine ⟨words, extra ++ more, identifier.of_isPrefix some ⟨extra, same.symm⟩,
      by rw [same, List.append_assoc], normal, by rw [behindSplit, List.append_assoc], ?_⟩
    cases extra with
    | nil => exact .inl continued
    | cons byte extra =>
        -- A byte of a name that belongs to no word is a dollar.
        have inside := identifier.forall_mem byte (by simp [same])
        have outside := stops byte (by rw [behindSplit]; rfl)
        rw [isIdentifierByte, outside, Bool.false_or, beq_iff_eq] at inside
        exact .inr (by rw [inside]; rfl)

theorem direction_isSome (text : Text) :
    (direction text).isSome = (keyword directionWords).matchesFront (trimSpaces text) := by
  rw [keyword_matchesFront, takeWhile_trimSpaces, ahead, ← keyword_matchesFront, matchesFront,
    direction]
  simp only [andThen_def, andThen, spaces, run]
  cases keyword directionWords (text.dropWhile isSpace) <;> rfl

theorem vector_eq_none {text : Text} (other : (squeeze text).head? ≠ some ('[' : UInt8)) :
    vector text = none := by
  cases read : vector text with
  | none => rfl
  | some found =>
      obtain ⟨lead, tail, part, spaces⟩ := vector_head read
      refine absurd ?_ other
      rw [vector_sound _ _ _ read, part, squeeze_append, squeeze_append,
        squeeze_eq_nil_iff.mpr spaces, squeeze_cons rfl]
      rfl

theorem Listed.head_squeeze {lead list tail : Text} (listed : Listed list) (spaces : Spaces lead) :
    (squeeze (lead ++ (list ++ tail))).head? ≠ some ('[' : UInt8) := by
  obtain ⟨name, rest, rfl, identifier, -⟩ := listed
  obtain ⟨first, others, same⟩ := List.exists_cons_of_ne_nil identifier.ne_nil
  have inside := identifier.forall_mem first (by simp [same])
  rw [squeeze_append, squeeze_eq_nil_iff.mpr spaces, List.nil_append, same, List.cons_append,
    List.cons_append, squeeze_cons (visible_of_isIdentifierByte inside).1]
  rintro ⟨⟩
  exact absurd inside (by decide)

theorem Continued.spaces_append {gap text : Text} (continued : Continued text) (some : text ≠ [])
    (spaces : Spaces gap) : Continued (gap ++ text) := by
  cases continued with
  | nil => exact absurd rfl some
  | cons gapSpaces moreSpaces identifier continued =>
      rw [← List.append_assoc]
      exact .cons (spaces.append gapSpaces) moreSpaces identifier continued

theorem squeeze_dollar {more : Text} (dollar : more.head? = some ('$' : UInt8)) (tail : Text) :
    (squeeze (more ++ tail)).head? = some ('$' : UInt8) := by
  obtain ⟨rest, rfl⟩ := List.head?_eq_some_iff.mp dollar
  rw [List.cons_append, squeeze_cons rfl]
  rfl

namespace Port

theorem isStatement_iff (text : Text) :
    isStatement (trimSpaces text) ↔ (Statement.direction text).isSome ∨ Listed (trimSpaces text) := by
  rw [isStatement, Bool.or_eq_true, direction_isSome, identifierList_matchesFront_iff]

/-- A type without a direction, and behind it the rest of a name that it was cut out of. -/
def Severed (fields : List Text) : Prop :=
  fields.getD 1 [] = [] ∧ fields.getD 2 [] ≠ [] ∧ (fields.getD 4 []).head? = some ('$' : UInt8)

instance (fields : List Text) : Decidable (Severed fields) :=
  inferInstanceAs (Decidable (_ ∧ _))

theorem nameColumns_of_none {text : Text} (other : (squeeze text).head? ≠ some ('[' : UInt8)) :
    nameColumns text = [[], normalizeList (normalize text)] := by
  rw [nameColumns, cutFront, vector_eq_none other]
  rfl

theorem not_listed_of_severed {word next other : Text} (nonempty : word ≠ [])
    (type : normalize (cutFront portType other).1 = word)
    (front : other.dropWhile isSpace = word ++ next) (parted : Parted next)
    (dollar : (squeeze next).head? = some ('$' : UInt8)) : ¬ Listed (trimSpaces other) := by
  intro listed
  obtain ⟨lead, tail, leadSpaces, tailSpaces, whole⟩ := exists_trimSpaces other
  cases read : portType other with
  | none =>
      rw [cutFront, read] at type
      exact nonempty type.symm
  | some found =>
      rw [cutFront, read, Option.getD_some] at type
      rw [whole] at read
      obtain ⟨same, more, identifier, split, again, -, follows⟩ :=
        portType_listed listed leadSpaces tailSpaces read
      rw [type] at again
      have behind : next = more ++ tail := by
        rw [whole, leadSpaces.dropWhile_append, split, List.append_assoc,
          (identifier.starts_append (more ++ tail)).dropWhile, ← again] at front
        exact (List.append_cancel_left front).symm
      rw [behind] at dollar parted
      rcases follows with continued | first
      · exact absurd (continued.comma tailSpaces _ dollar) (by decide)
      · obtain ⟨rest, rfl⟩ := List.head?_eq_some_iff.mp first
        exact absurd (parted _ rfl) (by decide)

theorem unbracketed_of_listed {code : Text} (listed : Listed (trimSpaces code)) :
    (squeeze (cutFront portType code).2).head? ≠ some ('[' : UInt8) := by
  obtain ⟨lead, tail, leadSpaces, tailSpaces, whole⟩ := exists_trimSpaces code
  cases read : portType code with
  | none =>
      rw [cutFront, read, Option.getD_none, whole]
      exact listed.head_squeeze leadSpaces
  | some found =>
      rw [cutFront, read, Option.getD_some]
      rw [whole] at read
      obtain ⟨word, more, -, -, -, rest, follows⟩ :=
        portType_listed listed leadSpaces tailSpaces read
      rw [rest, squeeze_dropWhile]
      intro bracket
      rcases follows with continued | dollar
      · exact absurd (continued.comma tailSpaces _ bracket) (by decide)
      · rw [squeeze_dollar dollar] at bracket
        exact absurd bracket (by decide)

theorem LoosenedType.eq_of_listed {code : Text} {columns : List Text}
    (moved : LoosenedType code columns) (listed : Listed (trimSpaces code)) :
    columns = typeColumns code := by
  cases moved with
  | intro moved =>
      cases moved with
      | intro moved =>
          have missed := vector_eq_none (unbracketed_of_listed listed)
          have cut : cutFront Statement.vector (cutFront portType code).2 =
              ([], (cutFront portType code).2) := by
            conv => lhs; rw [cutFront, missed, Option.getD_none]
          rw [cut] at moved
          rw [typeColumns, nameColumns_of_none (unbracketed_of_listed listed), moved.eq_nil, cut]

theorem listed_reread_iff {code other : Text} (plain : Plain code)
    (laid : Laid (typeColumns code) other) (listed : Listed (trimSpaces code)) :
    Listed (trimSpaces other) ↔ ¬ Severed ([] :: [] :: typeColumns code) := by
  obtain ⟨lead, tail, leadSpaces, tailSpaces, whole⟩ := exists_trimSpaces code
  have plainList : Plain (trimSpaces code) := plain.subset (by
    conv => rhs; rw [whole]
    simp)
  have unbracketed := unbracketed_of_listed listed
  cases read : portType code with
  | none =>
      rw [cutFront, read, Option.getD_none] at unbracketed
      have columns : typeColumns code = [[], [], normalizeList (normalize code)] := by
        rw [typeColumns, cutFront, read, Option.getD_none, nameColumns_of_none unbracketed]
        rfl
      rw [columns] at laid ⊢
      refine iff_of_true ?_ fun severed => severed.2.1 rfl
      have normal := listed.normal plainList leadSpaces tailSpaces
      rw [← whole] at normal
      obtain ⟨front, back, rfl, frontSpaces, backSpaces⟩ := laid.of_nil.of_nil.single
      rwa [trimSpaces_core frontSpaces backSpaces normal.starts normal.ends]
  | some found =>
      rw [cutFront, read, Option.getD_some] at unbracketed
      rw [whole] at read
      obtain ⟨word, more, identifier, split, type, rest, follows⟩ :=
        portType_listed listed leadSpaces tailSpaces read
      have plainMore : Plain (more ++ tail) := plain.subset (by
        conv => rhs; rw [whole, split]
        simp)
      have columns : typeColumns code =
          [word, [], normalizeList (normalize (more ++ tail))] := by
        rw [typeColumns, cutFront, whole, read, Option.getD_some, nameColumns_of_none unbracketed, type,
          rest, normalize_dropWhile plainMore]
      have severed : Severed ([] :: [] :: typeColumns code) ↔
          (squeeze (more ++ tail)).head? = some ('$' : UInt8) := by
        rw [columns, ← head?_normalizeList_normalize plainMore]
        exact ⟨fun severed => severed.2.2, fun dollar => ⟨rfl, identifier.ne_nil, dollar⟩⟩
      have again := (type_reread plain (.refl plain) laid).2
      have tidyWord : Tidy word := tidy_typeColumns plain word (by simp [columns])
      rw [columns, typeColumns, List.map_cons, List.cons.injEq,
        (Laid.alone _).normalize_single tidyWord] at again
      rw [severed]
      rw [columns] at laid
      obtain ⟨next, front, parted, others⟩ := laid.dropWhile_eq identifier.ne_nil
        (fun byte head => (identifier.visible byte (List.mem_of_mem_head? head)).1)
      obtain ⟨gap, back, rfl, gapSpaces, backSpaces⟩ := others.of_nil.single
      rcases follows with continued | dollar
      · have normal : Continued (normalizeList (normalize (more ++ tail))) :=
          continued.normal (plainMore.subset (List.subset_append_left _ _)) tailSpaces
        refine iff_of_true ?_ fun dollar =>
          absurd (continued.comma tailSpaces _ dollar) (by decide)
        rw [← trimSpaces_dropWhile, front]
        generalize normalizeList (normalize (more ++ tail)) = name at normal
        by_cases empty : name = []
        · have wordStarts := identifier.starts_append []
          rw [List.append_nil] at wordStarts
          rw [empty, List.nil_append,
            trimSpaces_append wordStarts identifier.ends (gapSpaces.append backSpaces)]
          exact ⟨word, [], (List.append_nil word).symm, identifier, .nil⟩
        · have names : Listed (word ++ (gap ++ name)) :=
            ⟨word, gap ++ name, rfl, identifier, normal.spaces_append empty gapSpaces⟩
          have alone := trimSpaces_append names.starts names.ends backSpaces
          rw [List.append_assoc, List.append_assoc] at alone
          rwa [alone]
      · refine iff_of_false ?_ (not_not.mpr (squeeze_dollar dollar tail))
        refine not_listed_of_severed identifier.ne_nil again.1 front parted ?_
        have first := squeeze_dollar dollar tail
        rw [← head?_normalizeList_normalize plainMore] at first
        rw [squeeze_append, squeeze_eq_nil_iff.mpr gapSpaces, List.nil_append]
        exact squeeze_dollar first back

/-- A code that holds the columns of a port entry is a port entry, unless a name was severed. -/
theorem isStatement_reread_iff {code other : Text} {columns : List Text} (plain : Plain code)
    (moved : LoosenedColumns code columns) (laid : Laid columns other)
    (plainOther : Plain (other.dropWhile isSpace)) (statement : isStatement (trim code)) :
    isStatement (trim other) ↔ ¬ Severed columns := by
  obtain ⟨front, -⟩ := code_reread plain moved laid
  rw [plain.trim, isStatement_iff] at statement
  rw [trim_of_plain plainOther, isStatement_iff]
  have directions : (Statement.direction other).isSome = (Statement.direction code).isSome := by
    simp only [direction_isSome, keyword_matchesFront, takeWhile_trimSpaces, front]
  rw [directions]
  cases moved with
  | @intro columns moved =>
      cases read : Statement.direction code with
      | some found =>
          refine iff_of_true (.inl rfl) fun severed => ?_
          have none := (direction_worded.column_eq_nil_iff plain).mp severed.1
          rw [show (spaces >> keyword directionWords >> spaces) = Statement.direction from rfl,
            read] at none
          cases none
      | none =>
          have listed : Listed (trimSpaces code) := statement.resolve_left (by simp [read])
          have cut : cutFront Statement.direction code = ([], code) := by
            rw [cutFront, read, Option.getD_none]
          rw [cut] at moved laid ⊢
          rw [moved.eq_of_listed listed] at laid ⊢
          rw [Option.isSome_none, Bool.false_eq_true, false_or]
          exact listed_reread_iff plain laid.of_nil.of_nil listed

end Port

end HdlAlign.Statement
