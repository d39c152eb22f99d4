import HdlAlign.Proofs.Laid

/-! Patterns that read words.  The words that such a pattern has read are read again from their normal
form, wherever the same word comes next. -/

namespace HdlAlign.Pattern

open Text

theorem run_append {p : UInt8 → Bool} {part rest : Text} (inside : ∀ byte ∈ part, p byte)
    (stops : ∀ byte ∈ rest.head?, p byte = false) : run p (part ++ rest) = some (part, rest) := by
  refine run_eq_some_iff.mpr ⟨?_, ?_⟩
  · rw [List.takeWhile_append_of_pos inside]
    cases rest with
    | nil => simp
    | cons byte rest => simp [stops byte rfl]
  · rw [List.dropWhile_append_of_pos inside]
    cases rest with
    | nil => rfl
    | cons byte rest => simp [stops byte rfl]

theorem spaces_of_read {text gap rest : Text} (read : spaces text = some (gap, rest)) :
    Spaces gap := by
  obtain ⟨rfl, -⟩ := run_eq_some_iff.mp read
  exact fun byte member => List.mem_takeWhile_imp member

/-- A pattern that reads words: what it read, in normal form, it reads again if the text goes on with
the same word, and where it reads nothing it reads nothing behind the same word. -/
structure Worded (core : Pattern) : Prop where
  bounds : ∀ text part rest, Plain text → core text = some (part, rest) →
    part ≠ [] ∧ Plain part ∧ Starts part ∧ Ends part
  rereads : ∀ text part rest next, Plain text → core text = some (part, rest) → Parted next →
    ahead next = ahead rest → core (normalize part ++ next) = some (normalize part, next)
  front : ∀ text part rest next, Plain text → core text = some (part, rest) → Parted next →
    (normalize part ++ next).takeWhile isWord = text.takeWhile isWord
  misses : ∀ text other, other.takeWhile isWord = text.takeWhile isWord → core text = none →
    core other = none

def Spelled (words : List Text) : Prop := ∀ word ∈ words, word ≠ [] ∧ ∀ byte ∈ word, isWord byte

instance (words : List Text) : Decidable (Spelled words) :=
  inferInstanceAs (Decidable (∀ word ∈ words, _))

theorem keyword_append {words : List Text} (spelled : Spelled words) {word next : Text}
    (listed : word ∈ words) (stops : Stops next) :
    keyword words (word ++ next) = some (word, next) := by
  have whole : (word ++ next).takeWhile isWord = word := by
    rw [stops.takeWhile_append]
    exact List.takeWhile_eq_self_iff.mpr (spelled word listed).2
  have rest : (word ++ next).dropWhile isWord = next := by
    have split := List.takeWhile_append_dropWhile (p := isWord) (l := word ++ next)
    rw [whole] at split
    exact List.append_cancel_left split
  refine keyword_eq_some_iff.mpr ⟨?_, ?_, ?_⟩
  all_goals simp only [whole, rest]
  exact listed

theorem keyword_misses {words : List Text} {text other : Text}
    (same : other.takeWhile isWord = text.takeWhile isWord) (missed : keyword words text = none) :
    keyword words other = none := by
  rw [keyword] at missed ⊢
  rw [same]
  split at missed
  · cases missed
  · next absent => rw [if_neg absent]

theorem stops_dropWhile (text : Text) : Stops (text.dropWhile isWord) := by
  intro byte first
  have stopped := List.head?_dropWhile_not isWord text
  rw [first] at stopped
  simpa using stopped

theorem normalize_of_isWord {word : Text} (all : ∀ byte ∈ word, isWord byte) :
    normalize word = word := by
  have tidy := tidy_of_isWord all
  simpa using tidy.normalize .nil .nil

theorem keyword_worded {words : List Text} (spelled : Spelled words) : Worded (keyword words) := by
  constructor
  · intro text part rest _ read
    obtain ⟨listed, rfl, -⟩ := keyword_eq_some_iff.mp read
    have tidy := tidy_of_isWord (spelled _ listed).2
    exact ⟨(spelled _ listed).1, tidy.plain, tidy.starts, tidy.ends⟩
  · intro text part rest next _ read parted _
    obtain ⟨listed, rfl, -⟩ := keyword_eq_some_iff.mp read
    rw [normalize_of_isWord (spelled _ listed).2]
    exact keyword_append spelled listed parted.stops
  · intro text part rest next _ read parted
    obtain ⟨listed, rfl, -⟩ := keyword_eq_some_iff.mp read
    rw [normalize_of_isWord (spelled _ listed).2, parted.stops.takeWhile_append]
    exact List.takeWhile_eq_self_iff.mpr (spelled _ listed).2
  · exact fun text other => keyword_misses

theorem Worded.orElse {first second : Pattern} (h : Worded first) (h' : Worded second) :
    Worded (first <|> second) := by
  constructor
  · intro text part rest plain read
    rcases orElse_eq_some_iff.mp read with read | ⟨-, read⟩
    · exact h.bounds text part rest plain read
    · exact h'.bounds text part rest plain read
  · intro text part rest next plain read parted same
    rcases orElse_eq_some_iff.mp read with read | ⟨none, read⟩
    · exact orElse_eq_some_iff.mpr (.inl (h.rereads text part rest next plain read parted same))
    · have front := h'.front text part rest next plain read parted
      exact orElse_eq_some_iff.mpr (.inr ⟨h.misses text _ front none,
        h'.rereads text part rest next plain read parted same⟩)
  · intro text part rest next plain read parted
    rcases orElse_eq_some_iff.mp read with read | ⟨-, read⟩
    · exact h.front text part rest next plain read parted
    · exact h'.front text part rest next plain read parted
  · intro text other same none
    rw [orElse_def, Pattern.orElse, Option.or_eq_none_iff] at none ⊢
    exact ⟨h.misses text other same none.1, h'.misses text other same none.2⟩

theorem Worded.rereads_between {core : Pattern} (worded : Worded core) {text part rest : Text}
    (plain : Plain text) (read : (spaces >> core >> spaces) text = some (part, rest)) :
    Tidy (normalize part) ∧ normalize part ≠ [] ∧
      ∀ gap next, Spaces gap → Parted next → ahead next = ahead rest →
        (spaces >> core >> spaces) (gap ++ (normalize part ++ next)) =
            some (gap ++ (normalize part ++ next.takeWhile isSpace), next.dropWhile isSpace) ∧
          ahead (gap ++ (normalize part ++ next)) = ahead text := by
  obtain ⟨lead, middle, right, leadRead, innerRead, rfl⟩ := andThen_eq_some_iff.mp read
  obtain ⟨words, behind, tail, wordsRead, tailRead, rfl⟩ := andThen_eq_some_iff.mp innerRead
  obtain ⟨rfl, rfl⟩ := run_eq_some_iff.mp leadRead
  obtain ⟨rfl, rfl⟩ := run_eq_some_iff.mp tailRead
  have plainMiddle : Plain (text.dropWhile isSpace) := plain.subset (List.dropWhile_subset _)
  obtain ⟨nonempty, plainWords, starts, ends⟩ := worded.bounds _ _ _ plainMiddle wordsRead
  have normal {lead tail : Text} (leadSpaces : Spaces lead) (tailSpaces : Spaces tail) :=
    normalize_core leadSpaces tailSpaces plainWords starts ends
  have same : normalize (text.takeWhile isSpace ++ (words ++ behind.takeWhile isSpace)) =
      normalize words := by
    rw [normal (fun byte member => List.mem_takeWhile_imp member)
      fun byte member => List.mem_takeWhile_imp member]
    exact (normalize_alone plainWords starts ends).symm
  have tidy := tidy_normalize plainWords
  have some : normalize words ≠ [] := by
    intro empty
    have squeezed := squeeze_normalize plainWords
    rw [empty, squeeze_nil, eq_comm, squeeze_eq_nil_iff] at squeezed
    obtain ⟨byte, rest, rfl⟩ := List.exists_cons_of_ne_nil nonempty
    have visible := starts byte rfl
    rw [squeezed byte (by simp)] at visible
    cases visible
  refine ⟨by rwa [same], by rwa [same], fun gap next gapSpaces parted aheadSame => ?_⟩
  have aheadBehind : ahead next = ahead behind := by
    rw [aheadSame, ahead, ahead, (starts_dropWhile behind).dropWhile]
  have wordsAgain := worded.rereads _ _ _ next plainMiddle wordsRead parted aheadBehind
  have front := worded.front _ _ _ next plainMiddle wordsRead parted
  have startsNext : Starts (normalize words ++ next) := by
    intro byte first
    cases words' : normalize words with
    | nil => exact absurd words' some
    | cons other rest =>
        rw [words'] at first tidy
        exact tidy.starts byte first
  have frontNone : (normalize words ++ next).takeWhile isSpace = [] := by
    cases whole : normalize words ++ next with
    | nil => rfl
    | cons byte rest => simp [startsNext byte (by rw [whole]; rfl)]
  rw [same]
  refine ⟨andThen_eq_some_iff.mpr ⟨gap, normalize words ++ next, _, run_eq_some_iff.mpr ⟨?_, ?_⟩,
    andThen_eq_some_iff.mpr ⟨_, _, _, wordsAgain, run_eq_some_iff.mpr ⟨rfl, rfl⟩, rfl⟩, rfl⟩, ?_⟩
  · rw [List.takeWhile_append_of_pos gapSpaces, frontNone, List.append_nil]
  · rw [gapSpaces.dropWhile_append, startsNext.dropWhile]
  · rw [ahead_spaces_append gapSpaces, ahead, startsNext.dropWhile, front, ahead]

theorem Worded.misses_between {core : Pattern} (worded : Worded core) {text other : Text}
    (missed : (spaces >> core >> spaces) text = none) (same : ahead other = ahead text) :
    (spaces >> core >> spaces) other = none := by
  have inner (text : Text) : (spaces >> core >> spaces) text = none ↔
      core (text.dropWhile isSpace) = none := by
    simp only [andThen_def, Pattern.andThen, spaces, run]
    cases core (text.dropWhile isSpace) <;> simp
  rw [inner] at missed ⊢
  exact worded.misses _ _ same missed

theorem Worded.column_eq_nil_iff {core : Pattern} (worded : Worded core) {text : Text}
    (plain : Plain text) :
    normalize ((spaces >> core >> spaces).cutFront text).1 = [] ↔
      (spaces >> core >> spaces) text = none := by
  cases read : (spaces >> core >> spaces) text with
  | none =>
      rw [cutFront, read]
      exact iff_of_true rfl rfl
  | some found =>
      rw [cutFront, read]
      obtain ⟨-, nonempty, -⟩ := worded.rereads_between plain read
      exact iff_of_false nonempty (Option.some_ne_none found)

/-- A field is read again from the front of a text, and the other fields are left. -/
structure Rereads (p : Pattern) (field text : Text) (fields : List Text) : Prop where
  part : Laid [field] (p.cutFront text).1
  rest : Laid fields (p.cutFront text).2

theorem Worded.reread {core : Pattern} (worded : Worded core) {text other : Text}
    {fields : List Text} (plain : Plain text)
    (laid : Laid (normalize ((spaces >> core >> spaces).cutFront text).1 :: fields) other)
    (starts : ∀ field ∈ fields, Starts field)
    (same : ∀ next, Laid fields next →
      ahead next = ahead ((spaces >> core >> spaces).cutFront text).2) :
    ahead other = ahead text ∧ Rereads (spaces >> core >> spaces)
      (normalize ((spaces >> core >> spaces).cutFront text).1) other fields := by
  cases read : (spaces >> core >> spaces) text with
  | none =>
      have cut : (spaces >> core >> spaces).cutFront text = ([], text) := by
        rw [cutFront, read, Option.getD_none]
      rw [cut] at laid same
      have behind := Laid.of_nil laid
      have missed := worded.misses_between read (same other behind)
      have cutOther : (spaces >> core >> spaces).cutFront other = ([], other) := by
        rw [cutFront, missed, Option.getD_none]
      rw [cut]
      exact ⟨same other behind, by rw [cutOther]; exact .alone [], by rwa [cutOther]⟩
  | some found =>
      have cut : (spaces >> core >> spaces).cutFront text = found := by
        rw [cutFront, read, Option.getD_some]
      rw [cut] at laid same
      obtain ⟨tidy, nonempty, again⟩ := worded.rereads_between plain read
      cases laid with
      | @cons gap _ next _ gapSpaces parted laid =>
          obtain ⟨readAgain, front⟩ := again gap next gapSpaces (parted nonempty) (same next laid)
          have cutOther : (spaces >> core >> spaces).cutFront (gap ++ (normalize found.1 ++ next)) =
              (gap ++ (normalize found.1 ++ next.takeWhile isSpace), next.dropWhile isSpace) := by
            rw [cutFront, readAgain, Option.getD_some]
          rw [cut]
          refine ⟨front, ?_, ?_⟩
          · rw [cutOther]
            exact .between gapSpaces fun byte member => List.mem_takeWhile_imp member
          · rw [cutOther]
            exact laid.dropWhile starts

end HdlAlign.Pattern

namespace HdlAlign.Statement

open Pattern Text

theorem signWords_spelled : Spelled signWords := by decide +kernel

theorem declarationWords_spelled : Spelled (typeWords ++ [assignWord]) := by decide +kernel

theorem typeWords_spelled : Spelled typeWords :=
  fun word listed => declarationWords_spelled word (List.mem_append_left _ listed)

theorem sign_of_ahead {text part rest : Text} (read : sign text = some (part, rest)) :
    ∃ gap word, gap ≠ [] ∧ Spaces gap ∧ word ∈ signWords ∧ part = gap ++ word ∧
      text = gap ++ (word ++ rest) ∧ Stops rest := by
  obtain ⟨gap, middle, word, gapRead, wordRead, rfl⟩ := andThen_eq_some_iff.mp read
  obtain ⟨first, others, run, firstRead, runRead, rfl⟩ := andThen_eq_some_iff.mp gapRead
  obtain ⟨byte, space, rfl, rfl⟩ := one_eq_some_iff.mp firstRead
  have split := sign_sound _ _ _ read
  obtain ⟨rfl, -⟩ := run_eq_some_iff.mp runRead
  obtain ⟨listed, rfl, rfl⟩ := keyword_eq_some_iff.mp wordRead
  refine ⟨_, _, by simp, ?_, listed, rfl, by simpa using split, stops_dropWhile middle⟩
  intro other member
  rcases List.mem_append.mp member with inside | inside
  · rw [List.mem_singleton.mp inside]
    exact space
  · exact List.mem_takeWhile_imp inside

theorem sign_eq_none_of_ahead {text : Text} (other : ahead text ∉ signWords) : sign text = none := by
  cases read : sign text with
  | none => rfl
  | some found =>
      obtain ⟨gap, word, -, spaces, listed, -, split, stops⟩ := sign_of_ahead read
      obtain ⟨nonempty, all⟩ := signWords_spelled word listed
      have tidy := tidy_of_isWord all
      refine absurd ?_ other
      rw [split, ahead_spaces_append spaces, ahead, List.dropWhile_append, tidy.starts.dropWhile]
      rw [if_neg (by simpa using nonempty), stops.takeWhile_append,
        List.takeWhile_eq_self_iff.mpr all]
      exact listed

theorem ahead_of_sign_eq_none {text : Text} (stops : Stops text) (missed : sign text = none) :
    ahead text ∉ signWords := by
  intro listed
  cases text with
  | nil => exact absurd listed (by decide)
  | cons byte rest =>
      by_cases space : isSpace byte
      · have read : sign (byte :: rest) = some
            (byte :: rest.takeWhile isSpace ++ (rest.dropWhile isSpace).takeWhile isWord,
              (rest.dropWhile isSpace).dropWhile isWord) := by
          refine andThen_eq_some_iff.mpr ⟨byte :: rest.takeWhile isSpace, rest.dropWhile isSpace, _,
            andThen_eq_some_iff.mpr ⟨[byte], rest, _, one_eq_some_iff.mpr ⟨byte, space, rfl, rfl⟩,
              run_eq_some_iff.mpr ⟨rfl, rfl⟩, rfl⟩,
            keyword_eq_some_iff.mpr ⟨?_, rfl, rfl⟩, rfl⟩
          rwa [ahead, List.dropWhile_cons_of_pos space] at listed
        rw [missed] at read
        cases read
      · rw [ahead, List.dropWhile_cons_of_neg space, stops.takeWhile] at listed
        exact absurd listed (by decide)

theorem sign_append {word next : Text} (listed : word ∈ signWords) (stops : Stops next) :
    sign (blank :: (word ++ next)) = some (blank :: word, next) := by
  obtain ⟨nonempty, all⟩ := signWords_spelled word listed
  have starts := (tidy_of_isWord all).starts
  have none : (word ++ next).takeWhile isSpace = [] ∧ (word ++ next).dropWhile isSpace = word ++ next := by
    cases word with
    | nil => exact absurd rfl nonempty
    | cons byte word => simp [starts byte rfl]
  refine andThen_eq_some_iff.mpr ⟨[blank], word ++ next, word,
    andThen_eq_some_iff.mpr ⟨[blank], word ++ next, [], rfl, run_eq_some_iff.mpr none, rfl⟩,
    keyword_append signWords_spelled listed stops, rfl⟩

theorem signed_cases {words : List Text} {text part rest : Text}
    (read : (keyword words >> Pattern.optional sign) text = some (part, rest)) :
    ∃ word ∈ words, Stops rest ∧
      ((part = word ∧ text = word ++ rest ∧ ahead rest ∉ signWords) ∨
        ∃ gap sign, gap ≠ [] ∧ Spaces gap ∧ sign ∈ signWords ∧ part = word ++ (gap ++ sign) ∧
          text = word ++ (gap ++ (sign ++ rest))) := by
  obtain ⟨word, middle, more, wordRead, signRead, rfl⟩ := andThen_eq_some_iff.mp read
  have split := Sound.keyword words _ _ _ wordRead
  obtain ⟨listed, rfl, rfl⟩ := keyword_eq_some_iff.mp wordRead
  rcases optional_eq_some_iff.mp signRead with found | ⟨missed, rfl, rfl⟩
  · obtain ⟨gap, sign, nonempty, spaces, signListed, rfl, tail, stops⟩ := sign_of_ahead found
    exact ⟨_, listed, stops, .inr ⟨gap, sign, nonempty, spaces, signListed, rfl, by rwa [← tail]⟩⟩
  · have stops := stops_dropWhile text
    exact ⟨_, listed, stops, .inl ⟨by simp, split, ahead_of_sign_eq_none stops missed⟩⟩

theorem normalize_signed {word gap sign : Text} (wordNonempty : word ≠ [])
    (wordAll : ∀ byte ∈ word, isWord byte) (nonempty : gap ≠ []) (spaces : Spaces gap)
    (plain : Plain gap) (signListed : sign ∈ signWords) :
    Plain (word ++ (gap ++ sign)) ∧ Starts (word ++ (gap ++ sign)) ∧ Ends (word ++ (gap ++ sign)) ∧
      normalize (word ++ (gap ++ sign)) = word ++ (blank :: sign) := by
  obtain ⟨signNonempty, signAll⟩ := signWords_spelled sign signListed
  have tidyWord := tidy_of_isWord wordAll
  have tidySign := tidy_of_isWord signAll
  have whole : Plain (word ++ (gap ++ sign)) := tidyWord.plain.append (plain.append tidySign.plain)
  have starts : Starts (word ++ (gap ++ sign)) := by
    cases word with
    | nil => exact absurd rfl wordNonempty
    | cons first rest => exact tidyWord.starts
  have ends : Ends (word ++ (gap ++ sign)) := by
    intro byte last
    obtain ⟨other, found⟩ := Option.isSome_iff_exists.mp (List.getLast?_isSome.mpr signNonempty)
    rw [← List.append_assoc, List.getLast?_append, found] at last
    cases last
    exact tidySign.ends _ found
  have visible : ∀ byte ∈ word, isSpace byte = false := fun byte member => by
    by_contra space
    have other := isWord_of_isSpace (show isSpace byte by simpa using space)
    rw [wordAll byte member] at other
    cases other
  refine ⟨whole, starts, ends, ?_⟩
  rw [normalize_alone whole starts ends, collapseRuns_append visible,
    collapseRuns_gap _ nonempty spaces plain tidySign.starts,
    tidySign.sparse.collapseRuns]

theorem signed_worded {words : List Text} (spelled : Spelled words) :
    Worded (keyword words >> Pattern.optional sign) := by
  constructor
  · intro text part rest plain read
    obtain ⟨word, listed, -, ⟨rfl, -, -⟩ | ⟨gap, sign, nonempty, spaces, signListed, rfl, split⟩⟩ :=
      signed_cases read
    · have tidy := tidy_of_isWord (spelled _ listed).2
      exact ⟨(spelled _ listed).1, tidy.plain, tidy.starts, tidy.ends⟩
    · have plainGap : Plain gap := plain.subset (by rw [split]; simp)
      obtain ⟨wordNonempty, wordAll⟩ := spelled word listed
      obtain ⟨whole, starts, ends, -⟩ :=
        normalize_signed wordNonempty wordAll nonempty spaces plainGap signListed
      exact ⟨by simp [wordNonempty], whole, starts, ends⟩
  · intro text part rest next plain read parted same
    obtain ⟨word, listed, -, ⟨rfl, -, absent⟩ | ⟨gap, sign, nonempty, spaces, signListed, rfl, split⟩⟩ :=
      signed_cases read
    · rw [normalize_of_isWord (spelled _ listed).2]
      refine andThen_eq_some_iff.mpr ⟨part, next, [],
        keyword_append spelled listed parted.stops, ?_, by simp⟩
      exact optional_eq_some_iff.mpr (.inr ⟨sign_eq_none_of_ahead (by rwa [same]), rfl, rfl⟩)
    · have plainGap : Plain gap := plain.subset (by rw [split]; simp)
      obtain ⟨wordNonempty, wordAll⟩ := spelled word listed
      obtain ⟨-, -, -, normal⟩ :=
        normalize_signed wordNonempty wordAll nonempty spaces plainGap signListed
      rw [normal]
      refine andThen_eq_some_iff.mpr ⟨word, blank :: (sign ++ next), blank :: sign, ?_,
        optional_eq_some_iff.mpr (.inl (sign_append signListed parted.stops)), rfl⟩
      rw [List.append_assoc, List.cons_append]
      exact keyword_append spelled listed fun byte first => by cases first; rfl
  · intro text part rest next plain read parted
    obtain ⟨word, listed, stops, ⟨rfl, split, -⟩ |
      ⟨gap, sign, nonempty, spaces, signListed, rfl, split⟩⟩ := signed_cases read
    · rw [normalize_of_isWord (spelled _ listed).2, parted.stops.takeWhile_append, split,
        stops.takeWhile_append]
    · have plainGap : Plain gap := plain.subset (by rw [split]; simp)
      obtain ⟨wordNonempty, wordAll⟩ := spelled word listed
      obtain ⟨-, -, -, normal⟩ :=
        normalize_signed wordNonempty wordAll nonempty spaces plainGap signListed
      have behind : Stops (gap ++ (sign ++ rest)) := by
        obtain ⟨byte, others, rfl⟩ := List.exists_cons_of_ne_nil nonempty
        intro first member
        cases member
        exact isWord_of_isSpace (spaces byte (by simp))
      have blankStops : Stops (blank :: sign ++ next) := fun byte first => by cases first; rfl
      rw [normal, List.append_assoc, blankStops.takeWhile_append, split,
        behind.takeWhile_append]
  · intro text other same missed
    have first (text : Text) : (keyword words >> Pattern.optional sign) text = none ↔
        keyword words text = none := by
      simp only [andThen_def, andThen, Pattern.optional]
      cases keyword words text <;> simp
    rw [first] at missed ⊢
    exact keyword_misses same missed

end HdlAlign.Statement
