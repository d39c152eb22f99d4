import HdlAlign.Proofs.Assignments

/-! A run of visible bytes that no rewrite looks for stays in one piece wherever white space is moved,
and the same characters stand in front of it and behind. -/

namespace HdlAlign.Text

open Utf8

def Keeps (run old new : Text) : Prop :=
  ∀ left right, old = left ++ (run ++ right) →
    ∃ before behind, new = before ++ (run ++ behind) ∧ solid before = solid left ∧
      solid behind = solid right

theorem isBlack_iff {byte : UInt8} : isBlack byte ↔ isAscii byte ∧ isWhite1 byte = false := by
  rw [isBlack, Bool.and_eq_true, Bool.not_eq_true']

theorem solid_append_of_black {front : Text} (black : ∀ byte ∈ front, isBlack byte) (text : Text) :
    solid (front ++ text) = solid front ++ solid text :=
  solid_append (.inl fun byte last => (isBlack_iff.mp (black byte (List.mem_of_getLast? last))).1)

theorem eq_nil_of_black {text : Text} (black : ∀ byte ∈ text, isBlack byte) (white : White text) :
    text = [] :=
  List.eq_nil_iff_forall_not_mem.mpr fun byte member =>
    white.not_mem_of_isBlack (black byte member) member

namespace Keeps

variable {run : Text}

theorem refl (text : Text) : Keeps run text text :=
  fun left right split => ⟨left, right, split, rfl, rfl⟩

theorem trans {first second third : Text} (h : Keeps run first second) (h' : Keeps run second third) :
    Keeps run first third := by
  intro left right split
  obtain ⟨before, behind, split, front, back⟩ := h left right split
  obtain ⟨before, behind, split, front', back'⟩ := h' before behind split
  exact ⟨before, behind, split, front'.trans front, back'.trans back⟩

theorem drop_front {front old new : Text} (black : ∀ byte ∈ front, isBlack byte)
    (h : Keeps run (front ++ old) (front ++ new)) : Keeps run old new := by
  rintro left right rfl
  obtain ⟨before, behind, split, shown, back⟩ := h (front ++ left) right (List.append_assoc ..).symm
  rw [solid_append_of_black black] at shown
  rcases List.append_eq_append_iff.mp split with ⟨more, rfl, rest⟩ | ⟨more, rfl, rest⟩
  · rw [solid_append_of_black black] at shown
    exact ⟨more, behind, rest, List.append_cancel_left shown, back⟩
  · obtain ⟨blackBefore, blackMore⟩ := List.forall_mem_append.mp black
    rw [solid_append_of_black blackBefore, List.append_assoc] at shown
    obtain ⟨whiteMore, whiteLeft⟩ := List.append_eq_nil_iff.mp (List.self_eq_append_right.mp shown)
    obtain rfl : more = [] := eq_nil_of_black blackMore whiteMore
    exact ⟨[], behind, rest.symm, whiteLeft.symm, back⟩

theorem terminated {old new : Text} (nonempty : run ≠ []) (open_ : (';' : UInt8) ∉ run)
    (h : Keeps run old new) {gap : Text} (white : White gap) :
    Keeps run (old ++ Assignment.terminator) (new ++ gap ++ Assignment.terminator) := by
  intro left right split
  obtain ⟨rest, rfl⟩ : ∃ rest, right = rest ++ Assignment.terminator := by
    rcases List.eq_nil_or_concat' right with rfl | ⟨rest, last, rfl⟩
    · have ends := congrArg List.getLast? split
      rw [Assignment.getLast?_append_terminator, List.append_nil,
        List.getLast?_append_of_ne_nil _ nonempty] at ends
      exact absurd (List.mem_of_getLast? ends.symm) open_
    · rw [← List.append_assoc, ← List.append_assoc] at split
      exact ⟨rest, congrArg (rest ++ ·) (List.append_inj_right' split rfl).symm⟩
  rw [← List.append_assoc, ← List.append_assoc, List.append_assoc left] at split
  obtain ⟨before, behind, rfl, front, back⟩ := h left rest (List.append_cancel_right split)
  refine ⟨before, behind ++ gap ++ Assignment.terminator, by simp, front, ?_⟩
  rw [Assignment.solid_append_terminator, Assignment.solid_append_terminator,
    white.solid_append_right, back]

end Keeps

section

variable {run : Text} (nonempty : run ≠ []) (black : ∀ byte ∈ run, isBlack byte)

include nonempty black

theorem trim_append_run (left right : Text) :
    trim (left ++ (run ++ right)) = trimStart left ++ (run ++ trimEnd right) := by
  have start : trimStart (left ++ (run ++ right)) = trimStart left ++ (run ++ right) := by
    obtain ⟨first, rest, rfl⟩ := List.exists_cons_of_ne_nil nonempty
    have shown := isBlack_iff.mp (black first (List.mem_cons_self ..))
    exact trimStart_append_byte shown.1 shown.2 left (rest ++ right)
  obtain ⟨front, last, rfl⟩ := (List.eq_nil_or_concat' run).resolve_left nonempty
  have shown := isBlack_iff.mp (black last (List.mem_append_right front (List.mem_singleton_self last)))
  have finish := trimEnd_append_byte shown.1 shown.2 (trimStart left ++ front) right
  rw [trim, start]
  simpa using finish

theorem keeps_trim (text : Text) : Keeps run text (trim text) := by
  rintro left right rfl
  exact ⟨_, _, trim_append_run nonempty black left right, solid_trimStart left, solid_trimEnd right⟩

theorem keeps_collapseRuns (text : Text) : Keeps run text (collapseRuns false text) := by
  have visible : ∀ byte ∈ run, isSpace byte = false := fun byte member =>
    isSpace_of_isBlack (black byte member)
  rintro left right rfl
  have starts : Starts (run ++ right) := by
    obtain ⟨first, rest, rfl⟩ := List.exists_cons_of_ne_nil nonempty
    exact fun byte head => visible byte (by cases head; exact List.mem_cons_self ..)
  exact ⟨collapseRuns false left, collapseRuns false right,
    by rw [collapseRuns_append_of_starts starts, collapseRuns_append visible],
    (collapseRuns_respaced false left).solid_eq, (collapseRuns_respaced false right).solid_eq⟩

theorem keeps_normalize (text : Text) : Keeps run text (normalize text) :=
  (keeps_trim nonempty black text).trans (keeps_collapseRuns nonempty black (trim text))

end

end HdlAlign.Text

namespace HdlAlign.Assignment

open Text

/-- A run that no rewrite of an assignment looks for, and that ends no statement. -/
structure IsRun (run : Text) : Prop where
  nonempty : run ≠ []
  inert : ∀ byte ∈ run, isInert byte
  black : ∀ byte ∈ run, isBlack byte
  open_ : (';' : UInt8) ∉ run

namespace IsRun

variable {run : Text} (isRun : IsRun run)

include isRun

theorem keeps_respace (text : Text) : Keeps run text (respace text) := by
  rintro left right rfl
  refine ⟨respace left, respace right, ?_, solid_respace left, solid_respace right⟩
  obtain ⟨first, rest, rfl⟩ := List.exists_cons_of_ne_nil isRun.nonempty
  obtain ⟨inert, others⟩ := List.forall_mem_cons.mp isRun.inert
  rw [List.cons_append, respace_append_inert inert, respace_append others]
  rfl

theorem keeps_spaceOperators (text : Text) : Keeps run text (spaceOperators text) :=
  (isRun.keeps_respace text).trans (keeps_trim isRun.nonempty isRun.black (respace text))

end IsRun

def shownValue (value : Assignment) (widths : Widths) : Text :=
  if value.terminated then value.value.padRight (widths.value + 1) ++ terminator else value.value

theorem render_eq (value : Assignment) (widths : Widths) :
    render value widths = value.opening widths ++ value.shownValue widths := by
  rw [render, opening, shownValue]
  cases value.terminated <;> simp

theorem IsRun.keeps_shownValue {run : Text} (isRun : IsRun run) {field : Text} {value : Assignment}
    (read : parse? field = some value) {rest : Text}
    (kept : Keeps run (value.operator ++ rest) field) (widths : Widths) :
    Keeps run rest (value.shownValue widths) := by
  obtain ⟨op, behind, found, rfl⟩ := parse?_eq_some_iff.mp read
  obtain ⟨member, split⟩ := operator?_eq_some_iff.mp found
  obtain ⟨nonempty, -, black, open_⟩ := id isRun
  have blackOperator : ∀ byte ∈ op, isBlack byte := fun byte inside =>
    (black_of_mem_operators op member byte inside).1
  have trimmed := kept.trans (keeps_trim nonempty black field)
  have spaced := isRun.keeps_spaceOperators behind
  rw [shownValue]
  cases terminated : (splitTerminator field).1 with
  | false =>
      obtain ⟨same, -⟩ := splitTerminator_eq_false_iff.mp (Prod.ext terminated split)
      rw [← same] at trimmed
      exact (trimmed.drop_front blackOperator).trans spaced
  | true =>
      obtain ⟨body, ends⟩ : ∃ body, trim field = body ++ terminator := by
        by_contra none
        have closed := splitTerminator_eq_false_iff.mpr ⟨rfl, not_exists.mp none⟩
        rw [closed] at terminated
        cases terminated
      rw [splitTerminator_terminated ends] at split
      have inner := (keeps_trim nonempty black body).terminated nonempty open_ .nil
      rw [← ends, List.append_nil, show trim body = op ++ behind from split, List.append_assoc] at inner
      exact ((trimmed.trans inner).drop_front blackOperator).trans
        (spaced.terminated nonempty open_ (.blanks _))

end HdlAlign.Assignment
