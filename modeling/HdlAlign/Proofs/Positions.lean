import HdlAlign.Proofs.Untouched

/-! Where the lines of a text stand in it. -/

namespace HdlAlign.Text

/-- A line begins behind this part of a text. -/
def AtLineStart (before : Text) : Prop := ∀ byte ∈ before.getLast?, byte = newline

def AtLineEnd (after : Text) : Prop := ∀ byte ∈ after.head?, byte = newline

theorem atLineStart_of_count {before : Text} (start : AtLineStart before)
    (none : before.count newline = 0) : before = [] := by
  cases last : before.getLast? with
  | none => exact List.getLast?_eq_none_iff.mp last
  | some byte =>
      rw [start byte last] at last
      exact absurd (List.mem_of_getLast? last) (List.count_eq_zero.mp none)

theorem atLineStart_cons {byte : UInt8} {before : Text} (start : AtLineStart before)
    (same : before = [] → byte = newline) : AtLineStart (byte :: before) := by
  intro last isLast
  cases behind : before.getLast? with
  | none =>
      have none := List.getLast?_eq_none_iff.mp behind
      subst none
      cases isLast
      exact same rfl
  | some other =>
      rw [List.getLast?_cons, behind, Option.getD_some] at isLast
      cases isLast
      exact start last behind

structure WholeLine (text before line after : Text) : Prop where
  split : text = before ++ line ++ after
  start : AtLineStart before
  stop : AtLineEnd after
  single : newline ∉ line

theorem split_of_getElem?_lines {text line : Text} {number : Nat}
    (found : text.lines[number]? = some line) :
    ∃ before after, text = before ++ line ++ after ∧ before.count newline = number ∧
      AtLineStart before ∧ AtLineEnd after := by
  induction text generalizing number line with
  | nil =>
      cases number with
      | zero =>
          cases found
          exact ⟨[], [], rfl, rfl, by simp [AtLineStart], by simp [AtLineEnd]⟩
      | succ number => cases found
  | cons byte text ih =>
      rw [lines, splitOn] at found
      by_cases isNewline : byte = newline
      · subst isNewline
        rw [if_pos rfl] at found
        cases number with
        | zero =>
            cases found
            exact ⟨[], newline :: text, rfl, rfl, by simp [AtLineStart], by simp [AtLineEnd]⟩
        | succ number =>
            obtain ⟨before, after, whole, count, start, stop⟩ := ih found
            refine ⟨newline :: before, after, congrArg _ whole, ?_,
              atLineStart_cons start fun _ => rfl, stop⟩
            rw [List.count_cons_self, count]
      · rw [if_neg isNewline] at found
        cases pieces : splitOn newline text with
        | nil => exact absurd pieces (splitOn_ne_nil _ _)
        | cons piece others =>
            rw [pieces] at found
            cases number with
            | zero =>
                cases found
                obtain ⟨before, after, whole, count, start, stop⟩ :=
                  @ih piece 0 (by rw [lines, pieces]; rfl)
                obtain rfl := atLineStart_of_count start count
                exact ⟨[], after, congrArg _ whole, rfl, by simp [AtLineStart], stop⟩
            | succ number =>
                obtain ⟨before, after, whole, count, start, stop⟩ :=
                  @ih line (number + 1) (by rw [lines, pieces]; exact found)
                refine ⟨byte :: before, after, congrArg _ whole, ?_,
                  atLineStart_cons start fun none => ?_, stop⟩
                · rw [List.count_cons_of_ne isNewline, count]
                · rw [none] at count
                  cases count

theorem wholeLine_of_getElem?_lines {text line : Text} {number : Nat}
    (found : text.lines[number]? = some line) :
    ∃ before after, WholeLine text before line after ∧ before.count newline = number := by
  obtain ⟨before, after, split, count, start, stop⟩ := split_of_getElem?_lines found
  exact ⟨before, after, ⟨split, start, stop, single_of_mem_lines (List.mem_of_getElem? found)⟩, count⟩

theorem getElem?_lines_of_split (before : Text) {part : Text} (single : newline ∉ part)
    (after : Text) :
    ∃ left right, (before ++ part ++ after).lines[before.count newline]? =
      some (left ++ part ++ right) := by
  obtain ⟨front, last, first, back, beforeLines, behindLines, whole⟩ :=
    lines_append before (part ++ after)
  obtain ⟨front', last', first', back', partLines, -, behindLines'⟩ := lines_append part after
  rw [lines_of_single single] at partLines
  obtain ⟨rfl, same⟩ : front' = [] ∧ [last'] = [part] := by
    simpa using List.append_eq_singleton_iff.mp partLines.symm
  cases same
  have count := length_lines before
  rw [beforeLines, List.length_append, List.length_singleton] at count
  rw [behindLines'] at behindLines
  cases behindLines
  refine ⟨last, first', ?_⟩
  rw [List.append_assoc, whole, List.getElem?_append_right (by omega),
    show before.count newline - front.length = 0 by omega, List.append_assoc]
  rfl

/-- A part of one line of a text: the line has the given number, counted from 0. -/
structure StandsOn (text : Text) (number : Nat) (part : Text) : Prop where
  place : ∃ before after, text = before ++ part ++ after ∧ before.count newline = number
  line : ∃ left right, text.lines[number]? = some (left ++ part ++ right)

theorem StandsOn.of_place {text before part after : Text} {number : Nat} (single : newline ∉ part)
    (whole : text = before ++ part ++ after) (count : before.count newline = number) :
    StandsOn text number part := by
  subst whole count
  exact ⟨⟨before, after, rfl, rfl⟩, getElem?_lines_of_split before single after⟩

theorem standsOn_of_getElem?_lines {middle line : Text} {number : Nat}
    (found : middle.lines[number]? = some line) (front back : Text) :
    StandsOn (front ++ middle ++ back) (front.count newline + number) line := by
  obtain ⟨before, after, whole, count⟩ := wholeLine_of_getElem?_lines found
  refine .of_place whole.single (?_ : _ = (front ++ before) ++ line ++ (after ++ back)) ?_
  · rw [whole.split]
    simp only [List.append_assoc]
  · rw [List.count_append, count]

theorem atLineStart_iff {before : Text} :
    AtLineStart before ↔ before = [] ∨ ∃ front, before = front ++ [newline] := by
  constructor
  · intro start
    cases last : before.getLast? with
    | none => exact .inl (List.getLast?_eq_none_iff.mp last)
    | some byte =>
        rw [start byte last] at last
        exact .inr (List.getLast?_eq_some_iff.mp last)
  · rintro (rfl | ⟨front, rfl⟩) <;> simp [AtLineStart]

theorem atLineEnd_iff {after : Text} :
    AtLineEnd after ↔ after = [] ∨ ∃ back, after = newline :: back := by
  cases after <;> simp [AtLineEnd, eq_comm]

theorem AtLineStart.append {front before : Text} (outer : AtLineStart front)
    (inner : AtLineStart before) : AtLineStart (front ++ before) := by
  intro byte last
  rw [List.getLast?_append] at last
  cases behind : before.getLast? with
  | none =>
      rw [behind] at last
      exact outer byte last
  | some other =>
      rw [behind] at last
      cases last
      exact inner byte behind

namespace WholeLine

variable {text before line after : Text}

theorem getElem?_lines (whole : WholeLine text before line after) :
    text.lines[before.count newline]? = some line := by
  have alone : ∃ others, lines (line ++ after) = line :: others := by
    rcases atLineEnd_iff.mp whole.stop with rfl | ⟨back, rfl⟩
    · exact ⟨[], by rw [List.append_nil, lines_of_single whole.single]⟩
    · exact ⟨lines back, by rw [lines_append_newline, lines_of_single whole.single]; rfl⟩
  obtain ⟨others, behind⟩ := alone
  rw [whole.split, List.append_assoc]
  rcases atLineStart_iff.mp whole.start with rfl | ⟨front, rfl⟩
  · rw [List.nil_append, behind]
    rfl
  · have count : (front ++ [newline]).count newline = (lines front).length := by
      rw [length_lines, List.count_append]
      rfl
    rw [List.append_assoc, List.singleton_append, lines_append_newline, behind, count,
      List.getElem?_append_right (Nat.le_refl _), Nat.sub_self]
    rfl

theorem mem_lines (whole : WholeLine text before line after) : line ∈ text.lines :=
  List.mem_of_getElem? whole.getElem?_lines

theorem not_atLineStart (whole : WholeLine text before line []) (some : line ≠ []) :
    ¬ AtLineStart text := by
  obtain ⟨front, last, rfl⟩ := (List.eq_nil_or_concat' line).resolve_left some
  intro ended
  refine whole.single ?_
  rw [ended last (by rw [whole.split]; simp)]
  simp

theorem within {part : Text} (whole : WholeLine part before line after) (some : line ≠ [])
    {front back : Text} (start : AtLineStart front)
    (ended : back ≠ [] → AtLineStart (front ++ part)) :
    WholeLine (front ++ part ++ back) (front ++ before) line (after ++ back) where
  split := by
    rw [whole.split]
    simp only [List.append_assoc]
  start := start.append whole.start
  stop := by
    rcases atLineEnd_iff.mp whole.stop with rfl | ⟨behind, rfl⟩
    · by_cases none : back = []
      · simp [none, AtLineEnd]
      · have open_ : WholeLine (front ++ part) (front ++ before) line [] :=
          ⟨by rw [whole.split]; simp only [List.append_assoc], start.append whole.start, whole.stop,
            whole.single⟩
        exact absurd (ended none) (open_.not_atLineStart some)
    · simp [AtLineEnd]
  single := whole.single

end WholeLine

end HdlAlign.Text
