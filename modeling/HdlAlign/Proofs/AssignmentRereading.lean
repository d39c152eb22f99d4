import HdlAlign.Proofs.Normal
import HdlAlign.Proofs.Rereading

/-! An assignment is found behind whatever columns stand in front of it. -/

namespace HdlAlign.Text

theorem exists_of_getLast?_squeeze {text : Text} {byte : UInt8}
    (last : (squeeze text).getLast? = some byte) :
    ∃ init tail, text = init ++ byte :: tail ∧ Spaces tail := by
  induction text with
  | nil => cases last
  | cons first rest ih =>
      by_cases space : isSpace first
      · rw [squeeze_cons_of_isSpace space] at last
        obtain ⟨init, tail, rfl, spaces⟩ := ih last
        exact ⟨first :: init, tail, rfl, spaces⟩
      · rw [squeeze_cons (by simpa using space)] at last
        cases behind : squeeze rest with
        | nil =>
            rw [behind] at last
            cases last
            exact ⟨[], rest, rfl, squeeze_eq_nil_iff.mp behind⟩
        | cons next others =>
            rw [behind, List.getLast?_cons_cons, ← behind] at last
            obtain ⟨init, tail, rfl, spaces⟩ := ih last
            exact ⟨first :: init, tail, rfl, spaces⟩

end HdlAlign.Text

namespace HdlAlign.Statement

open Pattern Text Assignment

theorem opensAssignment_operator {op : Text} (member : op ∈ operators) (rest : Text) :
    opensAssignment (op ++ rest) := by
  rw [opensAssignment, operator?_append op member]
  rfl

theorem equals_mem_operators : ∀ op ∈ operators, ('=' : UInt8) ∈ op := by decide

theorem opensAssignment_equals (rest : Text) : opensAssignment (('=' : UInt8) :: rest) :=
  show opensAssignment ([('=' : UInt8)] ++ rest) from opensAssignment_operator (by decide) rest

theorem isTerminator_cons {tail : Text} (spaces : Spaces tail) :
    isTerminator ((';' : UInt8) :: tail) := by
  rw [isTerminator, Bool.and_eq_true, List.all_eq_true]
  exact ⟨rfl, spaces⟩

theorem opensAssignment_terminator {tail : Text} (spaces : Spaces tail) :
    opensAssignment ((';' : UInt8) :: tail) := by
  rw [opensAssignment, isTerminator_cons spaces, Bool.or_true]

theorem opensAssignment_cases {text : Text} (opens : opensAssignment text) :
    (∃ op ∈ operators, op <+: text) ∨ ∃ tail, text = (';' : UInt8) :: tail ∧ Spaces tail := by
  rcases Bool.or_eq_true_iff.mp opens with operator | terminator
  · obtain ⟨⟨op, rest⟩, read⟩ := Option.isSome_iff_exists.mp operator
    obtain ⟨member, split⟩ := operator?_eq_some_iff.mp read
    exact .inl ⟨op, member, rest, split.symm⟩
  · cases text with
    | nil => cases terminator
    | cons byte rest =>
        simp only [isTerminator, Bool.and_eq_true, beq_iff_eq, List.all_eq_true] at terminator
        exact .inr ⟨rest, by rw [terminator.1], terminator.2⟩

theorem starts_of_opensAssignment {text : Text} (opens : opensAssignment text) :
    text ≠ [] ∧ Starts text := by
  rcases opensAssignment_cases opens with ⟨op, member, rest, rfl⟩ | ⟨tail, rfl, -⟩
  · have black := black_of_mem_operators op member
    have some : op ≠ [] := List.ne_nil_of_mem (equals_mem_operators op member)
    obtain ⟨first, others, rfl⟩ := List.exists_cons_of_ne_nil some
    refine ⟨by simp, fun byte head => ?_⟩
    cases head
    exact isSpace_of_isBlack (black first (by simp)).1
  · exact ⟨by simp, fun byte head => by cases head; rfl⟩

theorem breakBefore?_opensAssignment_eq_none_iff {code : Text} :
    breakBefore? opensAssignment code = none ↔
      ('=' : UInt8) ∉ squeeze code ∧ (squeeze code).getLast? ≠ some (';' : UInt8) := by
  rw [breakBefore?_eq_none_iff, mem_squeeze rfl]
  constructor
  · intro misses
    refine ⟨fun member => ?_, fun last => ?_⟩
    · obtain ⟨front, back, split⟩ := List.append_of_mem member
      have missed := misses front _ split
      rw [opensAssignment_equals back] at missed
      cases missed
    · obtain ⟨init, tail, split, spaces⟩ := exists_of_getLast?_squeeze last
      have missed := misses init _ split
      rw [opensAssignment_terminator spaces] at missed
      cases missed
  · rintro ⟨equals, last⟩ front back rfl
    by_contra opens
    rcases opensAssignment_cases (by simpa using opens) with ⟨op, member, begins⟩ | ⟨tail, rfl, spaces⟩
    · exact equals (List.mem_append_right _ (begins.subset (equals_mem_operators op member)))
    · rw [squeeze_append, squeeze_cons rfl, squeeze_eq_nil_iff.mpr spaces, List.getLast?_append] at last
      exact last rfl

theorem equals_not_mem_before {code before rest : Text}
    (found : breakBefore? opensAssignment code = some (before, rest)) : ('=' : UInt8) ∉ before := by
  obtain ⟨-, -, misses⟩ := breakBefore?_eq_some_iff.mp found
  intro member
  obtain ⟨front, back, split⟩ := List.append_of_mem member
  have missed := misses front _ split (by simp)
  rw [List.cons_append, opensAssignment_equals] at missed
  cases missed

theorem breakBefore?_opensAssignment_append {front assignment : Text}
    (opens : opensAssignment assignment)
    (equals : ('=' : UInt8) ∉ front)
    (blank : front = [] ∨ ∃ byte ∈ front.getLast?, isSpace byte) :
    breakBefore? opensAssignment (front ++ assignment) = some (front, assignment) := by
  refine breakBefore?_eq_some_iff.mpr ⟨rfl, opens, fun before back split nonempty => ?_⟩
  obtain ⟨last, lastMember, space⟩ : ∃ byte ∈ back.getLast?, isSpace byte := by
    rcases blank with rfl | ⟨byte, last, space⟩
    · exact absurd (List.append_eq_nil_iff.mp split.symm).2 nonempty
    · rw [split, List.getLast?_append_of_ne_nil _ nonempty] at last
      exact ⟨byte, last, space⟩
  by_contra other
  rcases opensAssignment_cases (by simpa using other) with ⟨op, member, rest, whole⟩ | ⟨tail, whole, spaces⟩
  · rcases List.append_eq_append_iff.mp whole with ⟨more, same, -⟩ | ⟨more, same, -⟩
    · have inside : ('=' : UInt8) ∈ back := by
        rw [same]
        exact List.mem_append_left _ (equals_mem_operators op member)
      exact equals (by rw [split]; exact List.mem_append_right _ inside)
    · -- The blank in front of the assignment would stand in an operator.
      have inside : last ∈ op := by
        rw [same]
        exact List.mem_append_left _ (List.mem_of_getLast? lastMember)
      have visible := isSpace_of_isBlack (black_of_mem_operators op member last inside).1
      rw [space] at visible
      cases visible
  · obtain ⟨first, rest, rfl⟩ := List.exists_cons_of_ne_nil nonempty
    rw [List.cons_append, List.cons.injEq] at whole
    obtain ⟨some, starts⟩ := starts_of_opensAssignment opens
    obtain ⟨byte, others, rfl⟩ := List.exists_cons_of_ne_nil some
    have visible := starts byte rfl
    rw [spaces byte (by rw [← whole.2]; simp)] at visible
    cases visible

theorem plain_splitAssignment {code : Text} (plain : Plain code) :
    Plain (splitAssignment code).1 ∧ Plain (splitAssignment code).2 := by
  rw [← Declaration.splitAssignment_append code] at plain
  exact ⟨plain.subset (List.subset_append_left _ _), plain.subset (List.subset_append_right _ _)⟩

structure LoosenedAssignment (new old : Text) : Prop extends Loosened new old where
  operator : ∀ op ∈ operators, op <+: old → op <+: new

namespace LoosenedAssignment

theorem of_tidy {text : Text} (tidy : Tidy text) : LoosenedAssignment text text :=
  ⟨.of_tidy tidy, fun _ _ begins => begins⟩

theorem of_normalize {new old : Text} (loosened : LoosenedAssignment new (normalize old))
    (plain : Plain old) : LoosenedAssignment new old :=
  ⟨loosened.toLoosened.of_normalize plain, fun op member begins =>
    loosened.operator op member (isPrefix_normalize begins fun byte inside =>
      (black_of_mem_operators op member byte inside).1)⟩

theorem opens {new old tail : Text} (loosened : LoosenedAssignment new old)
    (opens : opensAssignment old) (spaces : Spaces tail) : opensAssignment (new ++ tail) := by
  rcases opensAssignment_cases opens with ⟨op, member, begins⟩ | ⟨others, rfl, otherSpaces⟩
  · obtain ⟨more, split⟩ := loosened.operator op member begins
    rw [← split, List.append_assoc]
    exact opensAssignment_operator member _
  · have same := loosened.squeeze
    rw [squeeze_cons rfl, squeeze_eq_nil_iff.mpr otherSpaces] at same
    have first := loosened.starts.head?_squeeze
    rw [same] at first
    obtain ⟨rest, rfl⟩ := List.head?_eq_some_iff.mp first.symm
    rw [squeeze_cons rfl, List.cons.injEq] at same
    exact opensAssignment_terminator ((squeeze_eq_nil_iff.mp same.2).append spaces)

end LoosenedAssignment

theorem splitAssignment_reread {code other assignment : Text} (fields : List Text)
    (loosened : LoosenedAssignment assignment (splitAssignment code).2)
    (laid : Laid (fields ++ [assignment]) other) (same : squeeze other = squeeze code) :
    Laid [assignment] (splitAssignment other).2 ∧ Laid fields (splitAssignment other).1 ∧
      squeeze (splitAssignment other).1 = squeeze (splitAssignment code).1 := by
  cases found : breakBefore? opensAssignment code with
  | none =>
      have absent := found
      rw [breakBefore?_opensAssignment_eq_none_iff, ← same,
        ← breakBefore?_opensAssignment_eq_none_iff] at absent
      simp only [splitAssignment, found, absent, Option.getD_none] at loosened ⊢
      obtain ⟨front, tail, rfl, inner, spaces, -⟩ := laid.last
      rw [loosened.eq_nil] at same ⊢
      exact ⟨.alone [], inner.append_spaces spaces, same⟩
  | some parts =>
      obtain ⟨before, rest⟩ := parts
      obtain ⟨rfl, opens⟩ := breakBefore?_split found
      simp only [splitAssignment, found, Option.getD_some] at loosened ⊢
      obtain ⟨front, tail, rfl, inner, spaces, blank⟩ := laid.last
      have head : squeeze front = squeeze before := by
        rw [squeeze_append, squeeze_append, loosened.squeeze, squeeze_eq_nil_iff.mpr spaces,
          List.append_nil, squeeze_append] at same
        exact List.append_cancel_right same
      have equals : ('=' : UInt8) ∉ front := by
        rw [← mem_squeeze rfl, head, mem_squeeze rfl]
        exact equals_not_mem_before found
      have opensField := loosened.opens opens spaces
      have some : assignment ≠ [] := by
        rintro rfl
        obtain ⟨nonempty, visible⟩ := starts_of_opensAssignment opensField
        exact nonempty (visible.eq_nil spaces)
      rw [breakBefore?_opensAssignment_append opensField equals (blank some loosened.starts)]
      exact ⟨.before spaces, inner, head⟩

end HdlAlign.Statement
