import HdlAlign.Proofs.Worded

/-! Reading a rendered line again. -/

namespace HdlAlign.Text

theorem trim_of_plain {text : Text} (plain : Plain (text.dropWhile isSpace)) :
    trim text = trimSpaces text := by
  have front : Spaces (text.takeWhile isSpace) := fun byte member => List.mem_takeWhile_imp member
  have dropped : trim text = trim (text.dropWhile isSpace) := by
    conv => lhs; rw [← List.takeWhile_append_dropWhile (p := isSpace) (l := text)]
    rw [trim, front.white.trimStart_append, ← trim]
  rw [dropped, plain.trim, trimSpaces, (starts_dropWhile text).dropWhile]
  rfl

theorem Starts.append {text : Text} (starts : Starts text) (some : text ≠ []) (rest : Text) :
    Starts (text ++ rest) := by
  intro byte first
  rw [List.head?_append_of_ne_nil _ some] at first
  exact starts byte first

theorem trimSpaces_core {lead core tail : Text} (leadSpaces : Spaces lead) (tailSpaces : Spaces tail)
    (starts : Starts core) (ends : Ends core) : trimSpaces (lead ++ (core ++ tail)) = core := by
  rw [trimSpaces, leadSpaces.dropWhile_append]
  rcases List.eq_nil_or_concat core with rfl | ⟨init, byte, same⟩
  · rw [List.nil_append, List.dropWhile_eq_nil_iff.mpr tailSpaces]
    rfl
  · have starts' := starts.append (by simp [same]) tail
    rw [starts'.dropWhile, dropTailWhile_append_of_forall tailSpaces, same, List.concat_eq_append,
      dropTailWhile_append_cons (ends byte (by simp [same]))]
    rfl

theorem trimSpaces_append {core tail : Text} (starts : Starts core) (ends : Ends core)
    (spaces : Spaces tail) : trimSpaces (core ++ tail) = core := by
  simpa using @trimSpaces_core [] core tail .nil spaces starts ends

theorem trimSpaces_between {lead tail : Text} (leadSpaces : Spaces lead) (tailSpaces : Spaces tail)
    (text : Text) : trimSpaces (lead ++ (text ++ tail)) = trimSpaces text := by
  obtain ⟨front, back, frontSpaces, backSpaces, whole⟩ := exists_trimSpaces text
  have split : lead ++ (text ++ tail) = (lead ++ front) ++ (trimSpaces text ++ (back ++ tail)) := by
    conv => lhs; rw [whole]
    simp
  rw [split]
  exact trimSpaces_core (leadSpaces.append frontSpaces) (backSpaces.append tailSpaces)
    (starts_trimSpaces text) (ends_trimSpaces text)

theorem trimSpaces_trimSpaces (text : Text) : trimSpaces (trimSpaces text) = trimSpaces text := by
  simpa using @trimSpaces_core [] _ [] .nil .nil (starts_trimSpaces text) (ends_trimSpaces text)

theorem trimSpaces_subset (text : Text) : trimSpaces text ⊆ text :=
  List.Subset.trans (dropTailWhile_subset _ _) (List.dropWhile_subset _)

theorem trimSpaces_of_spaces {gap : Text} (spaces : Spaces gap) : trimSpaces gap = [] := by
  simpa using @trimSpaces_core gap [] [] spaces .nil .nil .nil

theorem trimSpaces_collapseRuns (text : Text) :
    trimSpaces (collapseRuns false text) = collapseRuns false (trimSpaces text) := by
  obtain ⟨lead, tail, leadSpaces, tailSpaces, whole⟩ := exists_trimSpaces text
  by_cases none : trimSpaces text = []
  · rw [none] at whole ⊢
    rw [whole]
    exact trimSpaces_of_spaces ((leadSpaces.append tailSpaces).collapseRuns false)
  · have starts := starts_trimSpaces text
    have ends := ends_trimSpaces text
    have startsNew : Starts (collapseRuns false (trimSpaces text)) := by
      rw [starts_iff, spaceFollows_collapseRuns, ← starts_iff]
      exact starts
    conv_lhs => rw [whole, collapseRuns_append_of_starts (starts.append none tail),
      collapseRuns_append_of_ends ends none]
    exact trimSpaces_core (leadSpaces.collapseRuns false) (tailSpaces.collapseRuns false) startsNew
      (ends_collapseRuns false ends)

theorem trimSpaces_dropWhile (text : Text) : trimSpaces (text.dropWhile isSpace) = trimSpaces text := by
  rw [trimSpaces, (starts_dropWhile text).dropWhile, trimSpaces]

theorem normalize_dropWhile {text : Text} (plain : Plain text) :
    normalize (text.dropWhile isSpace) = normalize text := by
  rw [normalize, (plain.subset (List.dropWhile_subset _)).trim, trimSpaces_dropWhile, ← plain.trim,
    ← normalize]

theorem trimSpaces_isPrefix (text : Text) : trimSpaces text <+: text.dropWhile isSpace :=
  dropTailWhile_isPrefix _ _

theorem isPrefix_trimSpaces {front text : Text} {byte : UInt8} (visible : isSpace byte = false)
    (begins : front ++ [byte] <+: text.dropWhile isSpace) : front ++ [byte] <+: trimSpaces text := by
  obtain ⟨rest, split⟩ := begins
  rw [trimSpaces, ← split, List.append_assoc]
  exact ⟨dropTailWhile isSpace rest, by
    rw [List.append_assoc]
    exact (dropTailWhile_append_cons visible front rest).symm⟩

theorem ahead_trimSpaces (text : Text) : ahead (trimSpaces text) = ahead text := by
  obtain ⟨tail, spaces, split⟩ := dropTailWhile_split isSpace (text.dropWhile isSpace)
  rw [ahead, (starts_trimSpaces text).dropWhile, ahead]
  conv => rhs; rw [split]
  rw [takeWhile_append_spaces (fun _ => isWord_of_isSpace) _ spaces]
  rfl

theorem takeWhile_trimSpaces (text : Text) : (trimSpaces text).takeWhile isWord = ahead text := by
  rw [← ahead_trimSpaces, ahead, (starts_trimSpaces text).dropWhile]

theorem normalizeList_normalize_field {text : Text} (plain : Plain text) {lead tail : Text}
    (leadSpaces : Spaces lead) (tailSpaces : Spaces tail) :
    normalizeList (normalize (lead ++ (normalizeList (normalize text) ++ tail))) =
      normalizeList (normalize text) := by
  have tidy := tidy_normalize plain
  rw [(tidy_normalizeList tidy).normalize leadSpaces tailSpaces, normalizeList_normalizeList tidy]

theorem ahead_normalizeList_normalize {text : Text} (plain : Plain text) :
    ahead (normalizeList (normalize text)) = ahead text := by
  have starts := (tidy_normalizeList (tidy_normalize plain)).starts
  rw [ahead, starts.dropWhile, takeWhile_normal (fun _ => isWord_of_isSpace) (by decide) plain, ahead]

theorem Starts.head?_squeeze {text : Text} (starts : Starts text) :
    (squeeze text).head? = text.head? := by
  cases text with
  | nil => rfl
  | cons byte rest => rw [squeeze_cons (starts byte rfl)]; rfl

theorem head?_normalizeList_normalize {text : Text} (plain : Plain text) :
    (normalizeList (normalize text)).head? = (squeeze text).head? := by
  have tidy := tidy_normalize plain
  rw [← (tidy_normalizeList tidy).starts.head?_squeeze, squeeze_normalizeList tidy.plain,
    squeeze_normalize plain]

theorem Starts.eq_nil {text : Text} (starts : Starts text) (spaces : Spaces text) : text = [] := by
  rw [← starts.dropWhile, List.dropWhile_eq_nil_iff.mpr spaces]

/-- A text in which blanks have moved; none stands at its ends. -/
structure Loosened (new old : Text) : Prop where
  plain : Plain new
  starts : Starts new
  ends : Ends new
  squeeze : Text.squeeze new = Text.squeeze old

namespace Loosened

theorem eq_nil {new : Text} (loosened : Loosened new []) : new = [] :=
  loosened.starts.eq_nil (squeeze_eq_nil_iff.mp loosened.squeeze)

theorem of_tidy {text : Text} (tidy : Tidy text) : Loosened text text :=
  ⟨tidy.plain, tidy.starts, tidy.ends, rfl⟩

theorem of_normalize {new old : Text} (loosened : Loosened new (normalize old)) (plain : Plain old) :
    Loosened new old :=
  ⟨loosened.plain, loosened.starts, loosened.ends, by rw [loosened.squeeze, squeeze_normalize plain]⟩

theorem normalize {text : Text} (plain : Plain text) : Loosened (Text.normalize text) text :=
  (of_tidy (tidy_normalize plain)).of_normalize plain

theorem normalize_laid {new old text : Text} (loosened : Loosened new old) (laid : Laid [new] text) :
    Text.normalize text = Text.normalize new := by
  obtain ⟨lead, tail, rfl, leadSpaces, tailSpaces⟩ := laid.single
  rw [normalize_core leadSpaces tailSpaces loosened.plain loosened.starts loosened.ends,
    normalize_alone loosened.plain loosened.starts loosened.ends]

end Loosened

theorem ahead_append_spaces {tail : Text} (spaces : Spaces tail) (text : Text) :
    ahead (text ++ tail) = ahead text := by
  refine ahead_append (fun byte first => ?_) ?_ text
  · exact isWord_of_isSpace (spaces byte (List.mem_of_mem_head? first))
  · rw [ahead, List.dropWhile_eq_nil_iff.mpr spaces]
    rfl

theorem ahead_append_mark {text : Text} (starts : Starts text) (stops : Stops text) (front : Text) :
    ahead (front ++ text) = ahead front :=
  ahead_append stops (by rw [ahead, starts.dropWhile, stops.takeWhile]) front

theorem normalize_of_spaces {text : Text} (spaces : Spaces text) : normalize text = [] := by
  simpa using Tidy.nil.normalize spaces .nil

end HdlAlign.Text

namespace HdlAlign.Statement

open Pattern Text

theorem keyword_matchesFront (words : List Text) (text : Text) :
    (keyword words).matchesFront text = words.contains (text.takeWhile isWord) := by
  rw [matchesFront, keyword]
  split
  · next listed => rw [listed]; rfl
  · next absent => rw [Bool.eq_false_iff.mpr absent]; rfl

theorem plain_cutFront {p : Pattern} (sound : Sound p) {text : Text} (plain : Plain text) :
    Plain (p.cutFront text).1 ∧ Plain (p.cutFront text).2 := by
  rw [sound.cutFront text] at plain
  exact ⟨plain.subset (List.subset_append_left _ _), plain.subset (List.subset_append_right _ _)⟩

theorem vector_stops {text part rest : Text} (read : vector text = some (part, rest)) :
    Starts rest := by
  obtain ⟨lead, middle, right, leadRead, arrayRead, -⟩ := andThen_eq_some_iff.mp read
  obtain ⟨-, rfl⟩ := run_eq_some_iff.mp leadRead
  exact array_blind.stops _ _ _ (starts_dropWhile text) arrayRead

theorem vector_head {text part rest : Text} (read : vector text = some (part, rest)) :
    ∃ lead tail, part = lead ++ ('[' : UInt8) :: tail ∧ Spaces lead := by
  obtain ⟨lead, middle, right, leadRead, arrayRead, rfl⟩ := andThen_eq_some_iff.mp read
  obtain ⟨rfl, -⟩ := run_eq_some_iff.mp leadRead
  obtain ⟨tail, rfl⟩ := Declaration.array_head arrayRead
  exact ⟨_, tail, rfl, fun byte member => List.mem_takeWhile_imp member⟩

theorem ahead_vector {text next vector : Text} {fields : List Text}
    (loosened : Loosened vector (Statement.vector.cutFront text).1)
    (laid : Laid (vector :: fields) next)
    (same : ∀ other, Laid fields other →
      ahead other = ahead (Statement.vector.cutFront text).2) :
    ahead next = ahead text := by
  cases read : Statement.vector text with
  | none =>
      have cut : Statement.vector.cutFront text = ([], text) := by
        rw [cutFront, read, Option.getD_none]
      rw [cut] at loosened same
      rw [loosened.eq_nil] at laid
      exact same next laid.of_nil
  | some found =>
      have cut : Statement.vector.cutFront text = found := by rw [cutFront, read, Option.getD_some]
      have split := vector_sound text found.1 found.2 read
      obtain ⟨lead, tail, part, spaces⟩ := vector_head read
      rw [cut] at loosened
      have first : vector.head? = some ('[' : UInt8) := by
        rw [← loosened.starts.head?_squeeze, loosened.squeeze, part, squeeze_append,
          squeeze_eq_nil_iff.mpr spaces, squeeze_cons rfl]
        rfl
      obtain ⟨others, same⟩ := List.head?_eq_some_iff.mp first
      rw [laid.ahead_cons (by simp [same]) loosened.starts, same, split, part, List.append_assoc,
        ahead_spaces_append spaces]
      rfl

theorem squeezeRead_vector {text other : Text} (same : squeeze other = squeeze text) :
    squeezeRead (vector.cutFront other) = squeezeRead (vector.cutFront text) := by
  rw [← cutFront_vector_squeeze, ← cutFront_vector_squeeze, same]

theorem vector_reread {text other vector : Text} {fields : List Text}
    (loosened : Loosened vector (Statement.vector.cutFront text).1)
    (laid : Laid (vector :: fields) other)
    (starts : ∀ field ∈ fields, Starts field) (same : squeeze other = squeeze text) :
    Rereads Statement.vector vector other fields := by
  have squeezed : squeeze (Statement.vector.cutFront other).1 =
      squeeze (Statement.vector.cutFront text).1 := congrArg Prod.fst (squeezeRead_vector same)
  cases read : Statement.vector other with
  | none =>
      have cut : Statement.vector.cutFront other = ([], other) := by
        rw [cutFront, read, Option.getD_none]
      rw [cut, squeeze_nil, ← loosened.squeeze] at squeezed
      have none := loosened.starts.eq_nil (squeeze_eq_nil_iff.mp squeezed.symm)
      rw [none] at laid ⊢
      exact ⟨by rw [cut]; exact .alone [], by rw [cut]; exact laid.of_nil⟩
  | some found =>
      have cut : Statement.vector.cutFront other = found := by rw [cutFront, read, Option.getD_some]
      have split := vector_sound other found.1 found.2 read
      have stops : Starts found.2 := vector_stops read
      rw [cut] at squeezed
      cases laid with
      | @cons gap _ rest _ gapSpaces parted laid =>
          have front : squeeze found.1 = squeeze (gap ++ vector) := by
            rw [squeeze_append, squeeze_eq_nil_iff.mpr gapSpaces, loosened.squeeze, squeezed,
              List.nil_append]
          rw [← List.append_assoc] at split
          obtain ⟨more, moreSpaces, part, tail⟩ := exists_of_squeeze_eq split.symm front stops
          refine ⟨?_, ?_⟩
          · rw [cut, part, List.append_assoc]
            exact .between gapSpaces moreSpaces
          · have dropped := laid.dropWhile starts
            rwa [tail, moreSpaces.dropWhile_append, stops.dropWhile, ← cut] at dropped

end HdlAlign.Statement
