import HdlAlign.Proofs.Columns

/-! Texts and their lines. -/

namespace HdlAlign.Text

open Utf8

theorem splitOn_eq (sep : UInt8) (text : Text) : splitOn sep text = List.splitOn sep text := by
  induction text with
  | nil => rfl
  | cons byte text ih =>
      rw [splitOn, List.splitOn_cons_eq_if_modifyHead, ih]
      by_cases same : byte = sep
      · simp [same]
      · have other : (byte == sep) = false := by simpa using same
        rw [if_neg same, other]
        cases pieces : List.splitOn sep text with
        | nil => exact absurd pieces (List.splitOn_ne_nil sep text)
        | cons piece others => rfl

theorem unlines_lines (text : Text) : unlines (lines text) = text := by
  rw [lines, splitOn_eq]
  exact List.intercalate_splitOn newline

theorem lines_unlines {pieces : List Text} (nonempty : pieces ≠ [])
    (single : ∀ piece ∈ pieces, newline ∉ piece) : lines (unlines pieces) = pieces := by
  rw [lines, splitOn_eq]
  exact List.splitOn_intercalate newline single nonempty

theorem splitOn_append_cons (sep : UInt8) (left right : Text) :
    splitOn sep (left ++ sep :: right) = splitOn sep left ++ splitOn sep right := by
  simp only [splitOn_eq]
  exact List.splitOn_append_cons_self left right

theorem lines_append_newline (left right : Text) :
    lines (left ++ newline :: right) = lines left ++ lines right :=
  splitOn_append_cons newline left right

theorem exists_last_of_mem {byte : UInt8} {text : Text} (member : byte ∈ text) :
    ∃ front rest, text = front ++ byte :: rest ∧ byte ∉ rest := by
  obtain ⟨rest, front, split, absent⟩ := List.eq_append_cons_of_mem (List.mem_reverse.mpr member)
  refine ⟨front.reverse, rest.reverse, ?_, fun inside => absent (List.mem_reverse.mp inside)⟩
  simpa using congrArg List.reverse split

theorem afterLast_append {byte : UInt8} {front back : Text} (ends : front.getLast? = some byte)
    (absent : byte ∉ back) : afterLast byte (front ++ back) = back := by
  obtain ⟨init, rfl⟩ := List.getLast?_eq_some_iff.mp ends
  have all : ∀ other ∈ back.reverse, (other != byte) = true := fun other member => by
    simpa using ne_of_mem_of_not_mem (List.mem_reverse.mp member) absent
  rw [afterLast, List.reverse_append, List.takeWhile_append_of_pos all]
  simp

theorem not_mem_of_mem_splitOn {sep : UInt8} {text piece : Text}
    (member : piece ∈ splitOn sep text) : sep ∉ piece := by
  induction text generalizing piece with
  | nil =>
      rw [List.mem_singleton.mp member]
      exact List.not_mem_nil
  | cons byte text ih =>
      rw [splitOn] at member
      split at member
      · rcases List.mem_cons.mp member with rfl | later
        · exact List.not_mem_nil
        · exact ih later
      · next other =>
          split at member
          · next none => exact absurd none (splitOn_ne_nil sep text)
          · next first others split =>
              rcases List.mem_cons.mp member with rfl | later
              · have rest : sep ∉ first := ih (by rw [split]; simp)
                simp [Ne.symm other, rest]
              · exact ih (by rw [split]; simp [later])

theorem single_of_mem_lines {text line : Text} (member : line ∈ lines text) : newline ∉ line :=
  not_mem_of_mem_splitOn member

theorem unlines_cons {piece : Text} {pieces : List Text} (more : pieces ≠ []) :
    unlines (piece :: pieces) = piece ++ newline :: unlines pieces := by
  rw [unlines, join, List.intercalate_cons_of_ne_nil more]
  simp [unlines, join]

theorem solid_unlines (pieces : List Text) : solid (unlines pieces) = pieces.flatMap solid := by
  induction pieces with
  | nil => rfl
  | cons piece pieces ih =>
      by_cases last : pieces = []
      · simp [last, unlines, join]
      · rw [unlines_cons last, solid_append (.cons_right _ _ rfl),
          solid_cons_of_isSpace isSpace_newline, ih, List.flatMap_cons]

theorem solid_lines (text : Text) : solid text = (lines text).flatMap solid := by
  rw [← solid_unlines, unlines_lines]

theorem isValid_of_mem_lines {text line : Text} (valid : isValid text)
    (member : line ∈ lines text) : isValid line := by
  rw [isValid_iff_solid] at valid ⊢
  intro scalar inside
  refine valid scalar ?_
  rw [solid_lines]
  exact List.mem_flatMap.mpr ⟨line, member, inside⟩

end HdlAlign.Text
