import HdlAlign.Proofs.LineSpans

/-! Selecting lines of a file and putting text in their place, against the list of its lines. -/

namespace HdlAlign.Text

def extendFirst (byte : UInt8) : List Text → List Text
  | [] => [[byte]]
  | line :: others => (byte :: line) :: others

/-- The lines of a text with their newlines.  A last line without a newline counts if it holds
something. -/
def wholeLines : Text → List Text
  | [] => []
  | byte :: rest =>
    if byte = newline then [byte] :: wholeLines rest else extendFirst byte (wholeLines rest)

theorem flatten_extendFirst (byte : UInt8) (lines : List Text) :
    (extendFirst byte lines).flatten = byte :: lines.flatten := by
  cases lines <;> rfl

theorem length_extendFirst (byte : UInt8) (lines : List Text) :
    (extendFirst byte lines).length = max lines.length 1 := by
  cases lines <;> simp [extendFirst]

theorem flatten_wholeLines (text : Text) : (wholeLines text).flatten = text := by
  induction text with
  | nil => rfl
  | cons byte rest ih =>
      rw [wholeLines]
      split
      · rw [List.flatten_cons, ih, List.singleton_append]
      · rw [flatten_extendFirst, ih]

theorem wholeLines_eq_nil_iff {text : Text} : wholeLines text = [] ↔ text = [] := by
  constructor
  · intro none
    rw [← flatten_wholeLines text, none, List.flatten_nil]
  · rintro rfl
    rfl

inductive IsWholeLine : Text → Prop
  | ended {body : Text} (single : newline ∉ body) : IsWholeLine (body ++ [newline])
  | last {body : Text} (single : newline ∉ body) (filled : body ≠ []) : IsWholeLine body

theorem IsWholeLine.cons {byte : UInt8} (other : byte ≠ newline) {line : Text}
    (whole : IsWholeLine line) : IsWholeLine (byte :: line) := by
  cases whole with
  | @ended body single => exact @IsWholeLine.ended (byte :: body) (by simp [other.symm, single])
  | last single filled => exact .last (by simp [other.symm, single]) (by simp)

theorem isWholeLine_of_mem {text : Text} : ∀ line ∈ wholeLines text, IsWholeLine line := by
  induction text with
  | nil => exact fun line member => by cases member
  | cons byte rest ih =>
      rw [wholeLines]
      split
      · next isNewline =>
          exact List.forall_mem_cons.mpr ⟨isNewline ▸ @IsWholeLine.ended [] List.not_mem_nil, ih⟩
      · next other =>
          cases lines : wholeLines rest with
          | nil => exact List.forall_mem_singleton.mpr (.last (by simpa using Ne.symm other) (by simp))
          | cons line others =>
              rw [lines] at ih
              obtain ⟨first, others⟩ := List.forall_mem_cons.mp ih
              exact List.forall_mem_cons.mpr ⟨first.cons other, others⟩

theorem ended_of_mem_dropLast {text : Text} :
    ∀ line ∈ (wholeLines text).dropLast, line.getLast? = some newline := by
  induction text with
  | nil => exact fun line member => by cases member
  | cons byte rest ih =>
      rw [wholeLines]
      cases lines : wholeLines rest with
      | nil =>
          split <;> exact fun line member => by cases member
      | cons line others =>
          rw [lines] at ih
          split
          · next isNewline =>
              rw [List.dropLast_cons_cons]
              exact List.forall_mem_cons.mpr ⟨by rw [isNewline]; rfl, ih⟩
          · cases others with
            | nil => exact fun line member => by cases member
            | cons next others =>
                rw [List.dropLast_cons_cons] at ih
                obtain ⟨first, more⟩ := List.forall_mem_cons.mp ih
                refine List.forall_mem_cons.mpr ⟨?_, more⟩
                rw [List.getLast?_cons, first]
                rfl

structure AreLines (lines : List Text) (text : Text) : Prop where
  flatten : lines.flatten = text
  whole : ∀ line ∈ lines, IsWholeLine line
  ended : ∀ line ∈ lines.dropLast, line.getLast? = some newline

theorem areLines_wholeLines (text : Text) : AreLines (wholeLines text) text :=
  ⟨flatten_wholeLines text, isWholeLine_of_mem, ended_of_mem_dropLast⟩

theorem takeLines_eq (n : Nat) (text : Text) : takeLines n text = ((wholeLines text).take n).flatten := by
  induction text generalizing n with
  | nil => cases n <;> rfl
  | cons byte rest ih =>
      cases n with
      | zero => rfl
      | succ n =>
          rw [takeLines, wholeLines]
          split
          · rw [List.take_succ_cons, List.flatten_cons, ← ih, List.singleton_append]
          · rw [ih]
            cases wholeLines rest with
            | nil => simp [extendFirst]
            | cons line others => rfl

theorem dropLines_eq (n : Nat) (text : Text) : dropLines n text = ((wholeLines text).drop n).flatten := by
  have split : takeLines n text ++ dropLines n text =
      takeLines n text ++ ((wholeLines text).drop n).flatten := by
    rw [takeLines_append_dropLines, takeLines_eq, ← List.flatten_append, List.take_append_drop,
      flatten_wholeLines]
  exact List.append_cancel_left split

theorem length_wholeLines (text : Text) :
    (wholeLines text).length = text.count newline +
      match text.getLast? with
      | none => 0
      | some byte => if byte = newline then 0 else 1 := by
  induction text with
  | nil => rfl
  | cons byte rest ih =>
      rw [wholeLines]
      cases rest with
      | nil => by_cases isNewline : byte = newline <;> simp [wholeLines, extendFirst, isNewline]
      | cons next more =>
          have some : 1 ≤ (wholeLines (next :: more)).length :=
            List.length_pos_iff.mpr (wholeLines_eq_nil_iff.not.mpr (by simp))
          rw [List.getLast?_cons_cons]
          split
          · next isNewline =>
              rw [isNewline, List.count_cons_self, List.length_cons, ih]
              omega
          · next other =>
              rw [List.count_cons_of_ne other, length_extendFirst, Nat.max_eq_left some, ih]

end HdlAlign.Text

namespace HdlAlign

open Text

namespace LineRange

def stop (range : LineRange) (count : Nat) : Nat :=
  if range.last = 0 then count else min range.last.toNat count

def pick (range : LineRange) (lines : List Text) : List Text :=
  (lines.take (range.stop lines.length)).drop (range.first - 1).toNat

theorem pick_append {range : LineRange} {lines : List Text}
    (ordered : (range.first - 1).toNat ≤ range.stop lines.length) :
    lines.take (range.first - 1).toNat ++ range.pick lines ++ lines.drop (range.stop lines.length) =
      lines := by
  have front : lines.take (range.first - 1).toNat =
      (lines.take (range.stop lines.length)).take (range.first - 1).toNat := by
    rw [List.take_take, Nat.min_eq_left ordered]
  rw [pick, front, List.take_append_drop, List.take_append_drop]

theorem before_eq (range : LineRange) (text : Text) :
    range.before text = (text.wholeLines.take (range.first - 1).toNat).flatten := by
  rw [before, takeLines_eq]

theorem behind_eq (range : LineRange) (text : Text) :
    range.behind text = (text.wholeLines.drop (range.stop text.wholeLines.length)).flatten := by
  rw [behind, stop, dropLines_eq]
  split
  · rw [List.drop_length, List.flatten_nil]
  · rcases Nat.le_total range.last.toNat text.wholeLines.length with inside | beyond
    · rw [Nat.min_eq_left inside]
    · rw [Nat.min_eq_right beyond, List.drop_length, List.drop_of_length_le beyond]

end LineRange

namespace SourceFile

variable {file : SourceFile} {range : LineRange}

theorem length_lines (small : file.content.length ≤ 0x100000000) :
    file.content.wholeLines.length = file.lineCount := by
  rw [length_wholeLines, ← length_newlinesFrom 0, ← newlines_eq small]
  rfl

theorem select_eq_error_iff :
    (∃ reason, file.select range = .error reason) ↔ range.isZero = false ∧
      ¬(1 ≤ range.first ∧ range.first ≤ file.lineCount ∧
        (range.last = 0 ∨ range.first ≤ range.last)) := by
  rw [select]
  split
  · next zero =>
      refine iff_of_false ?_ fun h => by simp [zero] at h
      rintro ⟨reason, failed⟩
      cases failed
  · next other =>
      rw [Bool.not_eq_true] at other
      rw [and_iff_right other]
      split
      · next outside =>
          refine iff_of_true ⟨_, rfl⟩ fun h => ?_
          simp only [Bool.or_eq_true, decide_eq_true_eq] at outside
          omega
      · next inside =>
          simp only [Bool.or_eq_true, decide_eq_true_eq, not_or, Int.not_lt] at inside
          have last := file.lastLine_eq_or range
          split
          · next inverted =>
              refine iff_of_true ⟨_, rfl⟩ fun h => ?_
              omega
          · next ordered =>
              refine iff_of_false ?_ fun h => h ⟨inside.1, inside.2, ?_⟩
              · rintro ⟨reason, failed⟩
                cases failed
              · omega

section

variable (small : file.content.length ≤ 0x100000000) {selection : Selection}
  (selected : file.select range = .ok selection)

include selected

theorem range_of_select : range.isZero ∨ 1 ≤ range.first ∧ range.first ≤ file.lineCount ∧
    (range.last = 0 ∨ range.first ≤ range.last) := by
  by_contra outside
  rw [not_or, Bool.not_eq_true] at outside
  obtain ⟨reason, failed⟩ := select_eq_error_iff.mpr outside
  rw [selected] at failed
  cases failed

include small

theorem offsets_of_select : selection.start = (range.before file.content).length ∧
    selection.stop ≤ file.content.length := by
  rw [select] at selected
  split at selected
  · next zero =>
      cases selected
      rw [LineRange.isZero, Bool.and_eq_true, beq_iff_eq, beq_iff_eq] at zero
      refine ⟨?_, Nat.le_refl _⟩
      rw [LineRange.before, zero.1, show ((0 : Int) - 1).toNat = 0 from rfl, takeLines_zero]
      rfl
  · split at selected
    · cases selected
    · next inside =>
        split at selected
        · cases selected
        · next ordered =>
            cases selected
            simp only [Bool.or_eq_true, decide_eq_true_eq, not_or, Int.not_lt] at inside ordered
            exact ⟨lineStart_eq small inside.1 inside.2, file.lineEnd_le _⟩

theorem take_start_of_select :
    file.content.take selection.start = (file.content.wholeLines.take (range.first - 1).toNat).flatten := by
  rw [(offsets_of_select small selected).1, LineRange.before, take_length_takeLines, takeLines_eq]

theorem block_of_select : selection.block = (range.pick file.content.wholeLines).flatten := by
  have ordered : (range.first - 1).toNat ≤ range.stop file.content.wholeLines.length := by
    have reached := range_of_select selected
    rw [LineRange.isZero, Bool.and_eq_true, beq_iff_eq, beq_iff_eq, ← length_lines small] at reached
    rw [LineRange.stop]
    split <;> omega
  have whole := content_of_select small selected
  rw [range.before_eq, range.behind_eq] at whole
  have parts := congrArg List.flatten (LineRange.pick_append ordered)
  rw [flatten_wholeLines, List.flatten_append, List.flatten_append] at parts
  exact (List.append_cancel_left (List.append_cancel_right (parts.trans whole))).symm

theorem splice?_of_select (text : Text) :
    file.splice? selection.start selection.stop text =
      some (file.content.take selection.start ++ text ++ file.content.drop selection.stop) := by
  have inside := (offsets_of_select small selected).2
  have ordered := (slice_of_select small selected).1
  rw [splice?, if_pos (by simp; omega)]
  rfl

end

/-- A selection of a file and a range: its block, its offsets, and what is put in its place. -/
structure Exact (file : SourceFile) (range : LineRange) (selection : Selection) : Prop where
  picked : selection.block = (range.pick file.content.wholeLines).flatten
  all : range.isZero → selection.block = file.content
  ordered : selection.start ≤ selection.stop
  inside : selection.stop ≤ file.content.length
  sliced : selection.block = file.slice selection.start selection.stop
  front : file.content.take selection.start =
    (file.content.wholeLines.take (range.first - 1).toNat).flatten
  spliced : ∀ text, file.splice? selection.start selection.stop text =
    some (file.content.take selection.start ++ text ++ file.content.drop selection.stop)
  back : file.splice? selection.start selection.stop selection.block = some file.content

/-- Selecting lines and putting text in their place is exact. -/
theorem select_exact (small : file.content.length ≤ 0x100000000) (range : LineRange) :
    AreLines file.content.wholeLines file.content ∧
    file.content.wholeLines.length = file.lineCount ∧
    ((∃ reason, file.select range = .error reason) ↔ range.isZero = false ∧
      ¬(1 ≤ range.first ∧ range.first ≤ file.lineCount ∧
        (range.last = 0 ∨ range.first ≤ range.last))) ∧
    ∀ selection, file.select range = .ok selection → file.Exact range selection := by
  refine ⟨areLines_wholeLines _, length_lines small, select_eq_error_iff,
    fun selection selected => ?_⟩
  obtain ⟨ordered, sliced⟩ := slice_of_select small selected
  constructor
  case picked => exact block_of_select small selected
  case all =>
    intro zero
    rw [select, if_pos zero] at selected
    cases selected
    rfl
  case ordered => exact ordered
  case inside => exact (offsets_of_select small selected).2
  case sliced => exact sliced
  case front => exact take_start_of_select small selected
  case spliced => exact splice?_of_select small selected
  case back =>
    rw [splice?_of_select small selected]
    exact congrArg some
      ((splice_of_select small selected _).trans (content_of_select small selected).symm)

theorem select_exact_clamped :
    let file : SourceFile := { id := 1, path := "t.v", content := "a;\n\nb;\nc;" }
    let selection : Selection := ⟨"\nb;\nc;", 3, 9⟩
    file.select ⟨2, 9⟩ = .ok selection ∧ file.Exact ⟨2, 9⟩ selection :=
  ⟨rfl, (select_exact (by decide) _).2.2.2 _ rfl⟩

end SourceFile

end HdlAlign
