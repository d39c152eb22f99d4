import HdlAlign.Proofs.LineSpans

/-! The lines of a file by their numbers: joined, they are its content. -/

namespace HdlAlign.SourceFile

open Text

def numberedLines (file : SourceFile) : List Text :=
  (List.range file.lineCount).map fun place : Nat => file.line (place + 1)

def finalNewline (text : Text) : Text :=
  if text.getLast? = some newline then [newline] else []

variable {file : SourceFile} {number : Int}

section

variable (small : file.content.length ≤ 0x100000000)

include small

theorem lineCount_eq :
    file.lineCount = file.content.count newline +
      match file.content.getLast? with
      | none => 0
      | some byte => if byte = newline then 0 else 1 := by
  cases last : file.content.getLast? <;>
    simp only [lineCount, newlines_eq small, length_newlinesFrom, last]

theorem getElem?_lines {place : Nat} (counted : place < file.lineCount) :
    file.content.lines[place]? = some (file.line (place + 1)) := by
  have few := file.lineCount_le
  rw [newlines_eq small, length_newlinesFrom] at few
  have inside : place < file.content.lines.length := by
    rw [length_lines]
    omega
  have found := List.getElem?_eq_getElem inside
  obtain ⟨before, after, whole, rfl⟩ := wholeLine_of_getElem?_lines found
  rw [found, line_of_wholeLine small whole counted]

theorem exists_wholeLine (first : 1 ≤ number) (last : number ≤ file.lineCount) :
    ∃ before after, WholeLine file.content before (file.line number) after ∧
      (before.count newline : Int) + 1 = number := by
  obtain ⟨place, rfl⟩ : ∃ place : Nat, (place : Int) + 1 = number := ⟨(number - 1).toNat, by omega⟩
  obtain ⟨before, after, whole, rfl⟩ :=
    wholeLine_of_getElem?_lines (getElem?_lines small (by omega : place < file.lineCount))
  exact ⟨before, after, whole, rfl⟩

theorem numberedLines_eq :
    file.numberedLines = file.content.lines.take file.lineCount := by
  refine List.ext_getElem? fun place => ?_
  rw [numberedLines, List.getElem?_map, List.getElem?_take]
  split
  · next counted =>
      rw [List.getElem?_range counted, getElem?_lines small counted]
      rfl
  · next beyond =>
      rw [List.getElem?_eq_none (by rw [List.length_range]; omega)]
      rfl

theorem unlines_numberedLines :
    unlines file.numberedLines ++ finalNewline file.content = file.content := by
  have count := lineCount_eq small
  rw [numberedLines_eq small, finalNewline]
  cases last : file.content.getLast? with
  | none =>
      rw [List.getLast?_eq_none_iff] at last
      rw [last] at count ⊢
      rw [count]
      rfl
  | some byte =>
      rw [last] at count
      by_cases ended : byte = newline
      · subst ended
        obtain ⟨body, split⟩ := List.getLast?_eq_some_iff.mp last
        have all : file.lineCount = (lines body).length := by
          rw [count, split, length_lines, List.count_append]
          rfl
        rw [if_pos rfl, split, lines_append_newline, all, List.take_left, unlines_lines]
      · have all : file.lineCount = file.content.lines.length := by
          rw [count, length_lines]
          simp [ended]
        rw [if_neg (by simpa using ended), all, List.take_length, unlines_lines, List.append_nil]

omit small in
theorem line_of_not_counted (outside : number < 1 ∨ file.lineCount < number) :
    file.line number = [] := by
  rw [line, if_pos (by simpa using outside)]

theorem newline_not_mem_line (number : Int) : newline ∉ file.line number := by
  by_cases counted : 1 ≤ number ∧ number ≤ file.lineCount
  · obtain ⟨before, after, whole, -⟩ := exists_wholeLine small counted.1 counted.2
    exact whole.single
  · rw [line_of_not_counted (by omega)]
    exact List.not_mem_nil

end

/-! Spans -/

theorem lineSpan_of_counted (first : 1 ≤ number) (last : number ≤ file.lineCount)
    (small : file.content.length < 0x100000000) :
    file.lineSpan number =
        ⟨file.id, (file.lineStart number).toUInt32, (file.lineStop number).toUInt32⟩ ∧
      file.lineStart number ≤ file.lineStop number ∧
      file.lineStop number ≤ file.content.length := by
  obtain ⟨before, after, whole, rfl⟩ := exists_wholeLine small.le first last
  have inside := file.lineStart_add_length_le (before.count newline + 1)
  have start := lineStart_of_wholeLine small.le whole
  rw [start] at inside
  rw [lineSpan, lineStop_of_wholeLine small.le whole, start]
  exact ⟨if_pos (Nat.lt_of_le_of_lt inside small), Nat.le_add_right _ _, inside⟩

theorem lineSpan_offsets (first : 1 ≤ number) (last : number ≤ file.lineCount)
    (small : file.content.length < 0x100000000) :
    (file.lineSpan number).start.toNat = file.lineStart number ∧
      (file.lineSpan number).stop.toNat = file.lineStop number := by
  obtain ⟨span, ordered, inside⟩ := lineSpan_of_counted first last small
  rw [span]
  constructor <;> exact UInt32.toNat_ofNat_of_lt' (by show _ < 0x100000000; omega)

/-- What the lines of a file have to do with its content. -/
structure Partitioned (file : SourceFile) : Prop where
  joined : unlines file.numberedLines ++ finalNewline file.content = file.content
  single : ∀ number, newline ∉ file.line number
  spanned : ∀ number : Int, 1 ≤ number → number ≤ file.lineCount →
    (file.lineSpan number).file = file.id ∧
      (file.lineSpan number).start ≤ (file.lineSpan number).stop ∧
      (file.lineSpan number).stop.toNat ≤ file.content.length ∧
      file.slice (file.lineSpan number).start.toNat (file.lineSpan number).stop.toNat =
        file.line number
  apart : ∀ number : Int, 1 ≤ number → number < file.lineCount →
    (file.lineSpan (number + 1)).start.toNat = (file.lineSpan number).stop.toNat + 1 ∧
      file.content[(file.lineSpan number).stop.toNat]? = some newline
  outside : ∀ number : Int, number < 1 ∨ file.lineCount < number → file.line number = []

theorem lineStart_next (small : file.content.length ≤ 0x100000000) (first : 1 ≤ number)
    (more : number < file.lineCount) :
    file.lineStart (number + 1) = file.lineStop number + 1 ∧
      file.content[file.lineStop number]? = some newline := by
  have few := file.lineCount_le
  have ended : (number - 1).toNat < file.newlines.length := by omega
  refine ⟨?_, ?_⟩
  · rw [lineStart, if_neg (by omega), show (number + 1 - 2).toNat = (number - 1).toNat by omega,
      lineStop, List.getElem?_eq_getElem ended]
    rfl
  · obtain ⟨before, after, whole, rfl⟩ := exists_wholeLine small first (Int.le_of_lt more)
    rw [lineStop_of_wholeLine small whole]
    rcases atLineEnd_iff.mp whole.stop with rfl | ⟨back, rfl⟩
    · rw [newlines_eq small, length_newlinesFrom, whole.split] at ended
      simp only [List.count_append, List.count_eq_zero.mpr whole.single, List.count_nil] at ended
      omega
    · rw [whole.split, ← List.length_append, List.getElem?_append_right (Nat.le_refl _),
        Nat.sub_self]
      rfl

/-- The lines of a file partition its content. -/
theorem lines_partitioned (small : file.content.length < 0x100000000) : file.Partitioned where
  joined := unlines_numberedLines small.le
  single := newline_not_mem_line small.le
  spanned number first last := by
    obtain ⟨span, ordered, inside⟩ := lineSpan_of_counted first last small
    obtain ⟨start, stop⟩ := lineSpan_offsets first last small
    refine ⟨by rw [span], ?_, by rw [stop]; exact inside, ?_⟩
    · rw [UInt32.le_iff_toNat_le, start, stop]
      exact ordered
    · rw [start, stop, line, if_neg (by simp; omega)]
  apart number first more := by
    rw [(lineSpan_offsets (by omega) (by omega) small).1,
      (lineSpan_offsets first (Int.le_of_lt more) small).2]
    exact lineStart_next small.le first more
  outside _ := line_of_not_counted

/-- The last line has no newline. -/
theorem lines_partitioned_open :
    let file : SourceFile := { id := 1, path := "t.v", content := "a;\n\nb" }
    file.numberedLines = [Text.ofString "a;", Text.ofString "", Text.ofString "b"] ∧
      file.Partitioned :=
  ⟨by decide, lines_partitioned (by decide)⟩

end HdlAlign.SourceFile
