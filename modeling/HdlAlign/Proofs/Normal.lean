import HdlAlign.Proofs.Declarations
import HdlAlign.Proofs.Plain

/-! What the columns of a statement hold is in normal form, and begins like the text it was cut
from. -/

namespace HdlAlign.Text

open Utf8

def isBlack (byte : UInt8) : Bool := isAscii byte && !isWhite1 byte

theorem isSpace_of_isBlack : ∀ {byte : UInt8}, isBlack byte → isSpace byte = false :=
  @(forall_byte (by decide +kernel))

theorem White.not_mem_of_isBlack {text : Text} (white : White text) {byte : UInt8}
    (black : isBlack byte) : byte ∉ text := by
  rw [isBlack, Bool.and_eq_true, Bool.not_eq_true'] at black
  rw [mem_iff_mem_solid black.1 black.2, white]
  exact List.not_mem_nil

theorem isPrefix_trim {front text : Text} (begins : front <+: text)
    (black : ∀ byte ∈ front, isBlack byte) : front <+: trim text := by
  cases front with
  | nil => exact List.nil_prefix
  | cons byte front =>
      obtain ⟨rest, rfl⟩ := begins
      have first := black byte (by simp)
      rw [isBlack, Bool.and_eq_true, Bool.not_eq_true'] at first
      rw [trim, List.cons_append, trimStart_of_isAscii first.1 first.2]
      obtain ⟨white, isWhite, split⟩ := trimEnd_split (byte :: (front ++ rest))
      rcases List.append_eq_append_iff.mp (show (byte :: front) ++ rest = _ from split) with
        ⟨more, whole, -⟩ | ⟨tail, whole, inside⟩
      · exact ⟨more, whole.symm⟩
      · cases tail with
        | nil => exact ⟨[], by simpa using whole⟩
        | cons other tail =>
            have blackOther := black other (by rw [whole]; simp)
            exact absurd (by rw [inside]; simp) (isWhite.not_mem_of_isBlack blackOther)

theorem isPrefix_collapseRuns {front text : Text} (begins : front <+: text)
    (black : ∀ byte ∈ front, isBlack byte) : front <+: collapseRuns false text := by
  obtain ⟨rest, rfl⟩ := begins
  induction front with
  | nil => exact List.nil_prefix
  | cons byte front ih =>
      have visible := isSpace_of_isBlack (black byte (by simp))
      rw [List.cons_append, collapseRuns, if_neg (by simp [visible])]
      exact List.cons_prefix_cons.mpr ⟨rfl, ih fun other member => black other (by simp [member])⟩

theorem isPrefix_normalize {front text : Text} (begins : front <+: text)
    (black : ∀ byte ∈ front, isBlack byte) : front <+: normalize text :=
  isPrefix_collapseRuns (isPrefix_trim begins black) black

end HdlAlign.Text

namespace HdlAlign.Assignment

open Text

theorem black_of_mem_operators : ∀ op ∈ operators, ∀ byte ∈ op, isBlack byte ∧ byte ≠ ';' := by
  decide +kernel

theorem isPrefix_splitTerminator {op field : Text} (member : op ∈ operators)
    (begins : op <+: field) : op <+: (splitTerminator field).2 := by
  have black : ∀ byte ∈ op, isBlack byte := fun byte inside =>
    (black_of_mem_operators op member byte inside).1
  have trimmed := isPrefix_trim begins black
  rw [splitTerminator]
  cases dropped : dropTail? (ofString ";") (trim field) with
  | none => exact trimmed
  | some body =>
      have split : trim field = body ++ terminator := dropTail?_eq_some_iff.mp dropped
      rw [split] at trimmed
      obtain ⟨rest, whole⟩ := trimmed
      refine isPrefix_trim ?_ black
      rcases List.append_eq_append_iff.mp whole with ⟨more, same, -⟩ | ⟨tail, same, ends⟩
      · exact ⟨more, same.symm⟩
      · cases tail with
        | nil => exact ⟨[], by simpa using same⟩
        | cons byte tail =>
            -- The terminator would begin inside the operator.
            have semicolon : byte = ';' := by
              have single : terminator = [(';' : UInt8)] := by decide
              rw [single, List.cons_append, List.cons.injEq] at ends
              exact ends.1.symm
            exact absurd semicolon (black_of_mem_operators op member byte (by rw [same]; simp)).2

theorem cell_of_operator {op field : Text} (member : op ∈ operators) (begins : op <+: field) :
    ∃ value, parse? field = some value ∧ cell field = .assignment value := by
  obtain ⟨rest, split⟩ := isPrefix_splitTerminator member begins
  have read : parse? field = some ⟨op, spaceOperators rest, (splitTerminator field).1⟩ :=
    parse?_eq_some_iff.mpr ⟨op, rest, operator?_eq_some_iff.mpr ⟨member, split.symm⟩, rfl⟩
  have equals : ∀ op ∈ operators, ('=' : UInt8) ∈ op := by decide
  have inField : field.contains '=' :=
    List.contains_iff_mem.mpr (begins.subset (equals op member))
  exact ⟨_, read, by rw [cell, if_pos inField, read]⟩

/-- What the assignment column of a statement holds. -/
def IsCut (field : Text) : Prop :=
  (∃ op ∈ operators, op <+: field) ∨ field = terminator ∨ field = []

theorem IsCut.isField {field : Text} (cut : IsCut field) : IsField field := by
  have equals : ∀ op ∈ operators, ('=' : UInt8) ∈ op := by decide
  rcases cut with ⟨op, member, begins⟩ | terminator | none
  · exact .inl (begins.subset (equals op member))
  · exact .inr (.inl terminator)
  · exact .inr (.inr none)

end HdlAlign.Assignment

namespace HdlAlign.Statement.Declaration

open Text Assignment

theorem splitAssignment_isCut (code : Text) : IsCut (normalize (splitAssignment code).2) := by
  rw [splitAssignment]
  cases search : breakBefore? opensAssignment code with
  | none => exact .inr (.inr rfl)
  | some parts =>
      rcases Bool.or_eq_true_iff.mp (breakBefore?_split search).2 with operator | terminator
      · obtain ⟨⟨op, rest⟩, read⟩ := Option.isSome_iff_exists.mp operator
        obtain ⟨member, split⟩ := operator?_eq_some_iff.mp read
        refine .inl ⟨op, member, isPrefix_normalize ⟨rest, split.symm⟩ fun byte inside => ?_⟩
        exact (black_of_mem_operators op member byte inside).1
      · exact .inr (.inl (normalize_of_isTerminator terminator))

theorem assignment_cases {line : Text} (single : newline ∉ line) :
    (∃ op ∈ operators, op <+: (extract line).assignment) ∨
      (extract line).assignment = terminator ∨ (extract line).assignment = [] := by
  rw [extract_eq_cut single]
  simp only [Cut.declaration, cut_assignment]
  exact splitAssignment_isCut _

end HdlAlign.Statement.Declaration
