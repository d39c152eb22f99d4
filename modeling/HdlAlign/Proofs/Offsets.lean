import HdlAlign.Proofs.NumberedLines
import HdlAlign.Source.FileSet

/-! Offsets in a file, and the lines and columns at which they stand: each tells the other. -/

namespace HdlAlign

open Text

namespace Text

theorem newline_not_mem_takeWhile (text : Text) : newline ∉ text.takeWhile (· != newline) :=
  fun member => by simpa using List.mem_takeWhile_imp member

theorem exists_append_afterLast (text : Text) :
    ∃ before, text = before ++ afterLast newline text ∧ AtLineStart before ∧
      newline ∉ afterLast newline text := by
  refine ⟨(text.reverse.dropWhile (· != newline)).reverse, ?_, ?_, ?_⟩
  · rw [afterLast, ← List.reverse_append, List.takeWhile_append_dropWhile, List.reverse_reverse]
  · intro byte last
    rw [List.getLast?_reverse] at last
    have stops := List.head?_dropWhile_not (· != newline) text.reverse
    rw [Option.mem_def.mp last] at stops
    simpa using stops
  · rw [afterLast, List.mem_reverse]
    exact newline_not_mem_takeWhile _

theorem exists_append_atLineEnd (text : Text) :
    ∃ line after, text = line ++ after ∧ AtLineEnd after ∧ newline ∉ line := by
  refine ⟨_, text.dropWhile (· != newline), List.takeWhile_append_dropWhile.symm, ?_,
    newline_not_mem_takeWhile text⟩
  intro byte first
  have stops := List.head?_dropWhile_not (· != newline) text
  rw [Option.mem_def.mp first] at stops
  simpa using stops

theorem exists_wholeLine_of_append (front back : Text) :
    ∃ before line after, WholeLine (front ++ back) before line after ∧
      front = before ++ afterLast newline front ∧ afterLast newline front <+: line ∧
      front.count newline = before.count newline := by
  obtain ⟨before, cut, start, single⟩ := exists_append_afterLast front
  obtain ⟨rest, after, behind, stop, single'⟩ := exists_append_atLineEnd back
  refine ⟨before, afterLast newline front ++ rest, after, ⟨?_, start, stop, ?_⟩, cut,
    List.prefix_append _ _, ?_⟩
  · rw [← List.append_assoc, ← cut, List.append_assoc, ← behind]
  · simp [single, single']
  · conv => lhs; rw [cut, List.count_append, List.count_eq_zero.mpr single, Nat.add_zero]

end Text

/-- The order in which positions are read: by lines, and on a line by columns. -/
def Position.Before (position other : Position) : Prop :=
  position.line < other.line ∨ position.line = other.line ∧ position.column < other.column

namespace SourceFile

variable {file : SourceFile} {before line after : Text}

theorem takeWhile_newlines (whole : WholeLine file.content before line after) {inside : Nat}
    (within : inside ≤ line.length) (told : before.length + inside ≤ 0x100000000) :
    file.newlines.takeWhile (· < before.length + inside) = newlinesFrom 0 before := by
  rw [file.takeWhile_newlines_eq told, whole.split, List.append_assoc, List.take_length_add_append,
    List.take_append_of_le_length within, newlinesFrom_append,
    newlinesFrom_of_single _ fun member => whole.single (List.mem_of_mem_take member),
    List.append_nil]

theorem getLast?_newlinesFrom (start : AtLineStart before) :
    before = [] ∧ (newlinesFrom 0 before).getLast? = none ∨
      ∃ place, before.length = place + 1 ∧ (newlinesFrom 0 before).getLast? = some place := by
  rcases atLineStart_iff.mp start with rfl | ⟨front, rfl⟩
  · exact .inl ⟨rfl, rfl⟩
  · have last : newlinesFrom 0 (front ++ [newline]) = newlinesFrom 0 front ++ [front.length] := by
      rw [newlinesFrom_append, Nat.zero_add]
      rfl
    refine .inr ⟨front.length, List.length_append, ?_⟩
    rw [last, List.getLast?_concat]

theorem position_of_wholeLine (whole : WholeLine file.content before line after) {inside : Nat}
    (within : inside ≤ line.length) (small : before.length + inside < 0x100000000) :
    file.position (before.length + inside).toUInt32 =
      ⟨(before.count newline).toUInt32 + 1, inside.toUInt32 + 1⟩ := by
  have offset : (before.length + inside).toUInt32.toNat = before.length + inside :=
    UInt32.toNat_ofNat_of_lt' small
  have column : (before.length + inside).toUInt32 - UInt32.ofNat before.length = inside.toUInt32 := by
    rw [Nat.add_comm, Nat.toUInt32_eq, Nat.toUInt32_eq, UInt32.ofNat_add, UInt32.add_sub_cancel]
  rw [position, offset, takeWhile_newlines whole within small.le, length_newlinesFrom]
  rcases getLast?_newlinesFrom whole.start with ⟨rfl, none⟩ | ⟨place, length, last⟩
  · rw [none, ← column]
    rfl
  · rw [last, ← column, length, UInt32.ofNat_add]
    rfl

/-- A position that stands for an offset: the newlines in front give the line, and the bytes behind
the last of them the column.  A newline belongs to the line that it ends. -/
structure Marks (file : SourceFile) (offset : Nat) (position : Position) : Prop where
  line : position.line.toNat = (file.content.take offset).count newline + 1
  column : position.column.toNat = (afterLast newline (file.content.take offset)).length + 1
  reached : file.lineStart position.line.toNat + (position.column.toNat - 1) = offset
  ended : file.content[offset]? = some newline → ∃ line,
    file.content.lines[position.line.toNat - 1]? = some line ∧
      position.column.toNat - 1 = line.length

theorem exists_place {offset : Nat} (inside : offset ≤ file.content.length) :
    ∃ before line after, WholeLine file.content before line after ∧
      offset = before.length + (afterLast newline (file.content.take offset)).length ∧
      (afterLast newline (file.content.take offset)).length ≤ line.length ∧
      (file.content.take offset).count newline = before.count newline := by
  obtain ⟨before, line, after, whole, cut, begun, count⟩ :=
    exists_wholeLine_of_append (file.content.take offset) (file.content.drop offset)
  rw [List.take_append_drop] at whole
  refine ⟨before, line, after, whole, ?_, begun.length_le, count⟩
  have length := congrArg List.length cut
  rwa [List.length_append, List.length_take, Nat.min_eq_left inside] at length

theorem toNat_toUInt32_add_one {n : Nat} (small : n < 0xFFFFFFFF) :
    (n.toUInt32 + 1).toNat = n + 1 := by
  rw [Nat.toUInt32_eq, UInt32.toNat_add, UInt32.toNat_ofNat_of_lt' (by show _ < 0x100000000; omega)]
  exact Nat.mod_eq_of_lt (by show n + 1 < 0x100000000; omega)

/-- The line and column of an offset as numbers.  The bound keeps them from wrapping around. -/
theorem toNat_position (small : file.content.length < 0xFFFFFFFF)
    (whole : WholeLine file.content before line after) {inside : Nat} (within : inside ≤ line.length) :
    (file.position (before.length + inside).toUInt32).line.toNat = before.count newline + 1 ∧
      (file.position (before.length + inside).toUInt32).column.toNat = inside + 1 := by
  have length := congrArg List.length whole.split
  rw [List.length_append, List.length_append] at length
  have few : before.count newline ≤ before.length := List.count_le_length
  rw [position_of_wholeLine whole within (by omega)]
  exact ⟨toNat_toUInt32_add_one (by omega), toNat_toUInt32_add_one (by omega)⟩

theorem marks_position (small : file.content.length < 0xFFFFFFFF) {offset : Nat}
    (inside : offset ≤ file.content.length) : file.Marks offset (file.position offset.toUInt32) := by
  obtain ⟨before, line, after, whole, split, within, count⟩ := exists_place inside
  generalize placed : (afterLast newline (file.content.take offset)).length = column at split within
  obtain ⟨number, place⟩ := toNat_position small whole within
  rw [← split] at number place
  constructor
  case line => rw [number, count]
  case column => rw [place, placed]
  case reached =>
    have start := lineStart_of_wholeLine (by omega) whole
    rw [number, place, Nat.cast_succ, start]
    exact split.symm
  case ended =>
    intro isNewline
    refine ⟨line, by rw [number]; exact whole.getElem?_lines, ?_⟩
    rw [place, Nat.add_sub_cancel]
    -- Inside the line there is no newline, so that this offset is the end of it.
    refine Nat.le_antisymm within (Nat.le_of_not_lt fun early => whole.single ?_)
    rw [whole.split, split, List.append_assoc, List.getElem?_append_right (Nat.le_add_right _ _),
      Nat.add_sub_cancel_left, List.getElem?_append_left early] at isNewline
    exact List.mem_of_getElem? isNewline

theorem before_of_marks {offset other : Nat} {position next : Position}
    (marks : file.Marks offset position) (marks' : file.Marks other next) (earlier : offset < other) :
    position.Before next := by
  have lines : position.line.toNat ≤ next.line.toNat := by
    rw [marks.line, marks'.line]
    exact Nat.succ_le_succ
      ((List.take_prefix_take_left (Nat.le_of_lt earlier)).sublist.count_le newline)
  rw [Position.Before, UInt32.lt_iff_toNat_lt, UInt32.lt_iff_toNat_lt]
  rcases Nat.lt_or_eq_of_le lines with less | same
  · exact .inl less
  · have reached := marks.reached
    have reached' := marks'.reached
    rw [same] at reached
    exact .inr ⟨UInt32.toNat_inj.mp same, by omega⟩

end SourceFile

namespace FileSet

open SourceFile

variable {set : FileSet} {file : SourceFile}

theorem resolve_eq (found : set.get? file.id = some file) (start stop : UInt32) :
    set.resolve ⟨file.id, start, stop⟩ = (file.position start, file.position stop) := by
  rw [resolve, found]

/-- What the positions of a file of a set have to do with its offsets: they are in bijection with
them, in the same order, and a line begins in the first column. -/
structure Resolves (set : FileSet) (file : SourceFile) : Prop where
  marks : ∀ start stop : Nat, start ≤ file.content.length → stop ≤ file.content.length →
    file.Marks start (set.resolve ⟨file.id, start.toUInt32, stop.toUInt32⟩).1 ∧
      file.Marks stop (set.resolve ⟨file.id, start.toUInt32, stop.toUInt32⟩).2
  injective : ∀ start stop : Nat, start ≤ file.content.length → stop ≤ file.content.length →
    (set.resolve ⟨file.id, start.toUInt32, stop.toUInt32⟩).1 =
      (set.resolve ⟨file.id, start.toUInt32, stop.toUInt32⟩).2 → start = stop
  increasing : ∀ start stop : Nat, start < stop → stop ≤ file.content.length →
    (set.resolve ⟨file.id, start.toUInt32, stop.toUInt32⟩).1.Before
      (set.resolve ⟨file.id, start.toUInt32, stop.toUInt32⟩).2
  onto : ∀ (number : Nat) (line : Text) (column : Nat), file.content.lines[number]? = some line →
    column ≤ line.length → ∃ offset ≤ file.content.length,
      (set.resolve ⟨file.id, offset.toUInt32, offset.toUInt32⟩).1.line.toNat = number + 1 ∧
        (set.resolve ⟨file.id, offset.toUInt32, offset.toUInt32⟩).1.column.toNat = column + 1
  lines : ∀ number : Nat, 1 ≤ number → number ≤ file.lineCount →
    (set.resolve (file.lineSpan number)).1.line.toNat = number ∧
      (set.resolve (file.lineSpan number)).1.column = 1

theorem resolve_bijective (found : set.get? file.id = some file)
    (small : file.content.length < 0xFFFFFFFF) :
    set.Resolves file where
  marks start stop inside inside' := by
    rw [resolve_eq found]
    exact ⟨marks_position small inside, marks_position small inside'⟩
  injective start stop inside inside' same := by
    rw [resolve_eq found] at same
    have marks := marks_position small inside
    rw [show file.position _ = file.position _ from same] at marks
    exact marks.reached.symm.trans (marks_position small inside').reached
  increasing start stop earlier inside := by
    rw [resolve_eq found]
    exact before_of_marks (marks_position small (Nat.le_trans (Nat.le_of_lt earlier) inside))
      (marks_position small inside) earlier
  onto number line column listed within := by
    obtain ⟨before, after, whole, rfl⟩ := wholeLine_of_getElem?_lines listed
    have length := congrArg List.length whole.split
    rw [List.length_append, List.length_append] at length
    refine ⟨before.length + column, by omega, ?_⟩
    rw [resolve_eq found]
    exact toNat_position small whole within
  lines number first last := by
    have small' : file.content.length < 0x100000000 := by omega
    have first' : 1 ≤ (number : Int) := by omega
    have last' : (number : Int) ≤ file.lineCount := by omega
    obtain ⟨before, after, whole, same⟩ := exists_wholeLine small'.le first' last'
    obtain ⟨span, -, -⟩ := lineSpan_of_counted first' last' small'
    have start := lineStart_of_wholeLine small'.le whole
    rw [same] at start
    obtain ⟨line, column⟩ := toNat_position small whole (Nat.zero_le _)
    rw [span, resolve_eq found, start]
    exact ⟨line.trans (by omega), UInt32.toNat_inj.mp column⟩

/-- A file in which a line is empty and the last one has no newline. -/
theorem resolve_bijective_open :
    let set := (({} : FileSet).addVirtual "t.v" "ab\n\ncd").1
    let file : SourceFile := { id := 1, path := "t.v", content := "ab\n\ncd", marks := 1 }
    set.resolve ⟨1, 2, 5⟩ = (⟨1, 3⟩, ⟨3, 2⟩) ∧ set.Resolves file :=
  ⟨by decide, resolve_bijective rfl (by decide)⟩

end FileSet

end HdlAlign
