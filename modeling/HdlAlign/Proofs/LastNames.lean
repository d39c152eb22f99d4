import HdlAlign.Proofs.Paths
import HdlAlign.Proofs.Reframing
import HdlAlign.Proofs.Rendering

/-! The last name of a path, and the extension of this name. -/

namespace HdlAlign

namespace Text

theorem afterLast_of_not_mem {byte : UInt8} {text : Text} (absent : byte ∉ text) :
    afterLast byte text = text := by
  obtain ⟨before, split, rfl | ended⟩ := afterLast_split byte text
  · exact split.symm
  · refine absurd ?_ absent
    rw [split]
    exact List.mem_append_left _ (List.mem_of_getLast? ended)

theorem beforeLast?_append {byte : UInt8} (front : Text) {back : Text} (absent : byte ∉ back) :
    beforeLast? byte (front ++ byte :: back) = some front := by
  have skipped : ∀ other ∈ back.reverse, (other != byte) = true := fun other member => by
    simpa using ne_of_mem_of_not_mem (List.mem_reverse.mp member) absent
  rw [beforeLast?, List.reverse_append, List.reverse_cons, List.append_assoc,
    List.dropWhile_append_of_pos skipped]
  simp

end Text

namespace Path

theorem extension_cases (path : Text) : extension path = [] ∨
    ∃ rest, extension path = ('.' : UInt8) :: rest ∧ ('.' : UInt8) ∉ rest ∧ slash ∉ rest := by
  rw [extension]
  cases found : Text.beforeLast? '.' (Text.afterLast slash path) with
  | none => exact .inl rfl
  | some before =>
      obtain ⟨rest, split, last⟩ := Text.beforeLast?_split found
      refine .inr ⟨rest, ?_, last, fun inside => ?_⟩
      · rw [split]
        exact List.drop_left
      · refine Block.not_mem_afterLast slash path ?_
        rw [split]
        exact List.mem_append_right _ (List.mem_cons_of_mem _ inside)

theorem base_append {front name : Text} (ended : front = [] ∨ front.getLast? = some slash)
    (isName : IsName name) : base (front ++ name) = name := by
  have filled : (front ++ name).isEmpty = false := by simp [isName.1]
  have plain : Text.dropTailWhile (· == slash) (front ++ name) = front ++ name := by
    obtain ⟨init, last, rfl⟩ := (List.eq_nil_or_concat' name).resolve_left isName.1
    have other : (last == slash) = false := by
      simpa using fun same : last = slash => isName.2 (by simp [same])
    rw [← List.append_assoc, Text.dropTailWhile_append_cons (p := (· == slash)) other]
    rfl
  have behind : Text.afterLast slash (front ++ name) = name := by
    rcases ended with rfl | ended
    · exact Text.afterLast_of_not_mem isName.2
    · exact Text.afterLast_append ended isName.2
  rw [base, filled, plain, behind]
  cases name with
  | nil => exact absurd rfl isName.1
  | cons byte rest => rfl

theorem exists_join_concat (names : List Text) (name : Text) :
    ∃ front, Text.join [slash] (names ++ [name]) = front ++ name ∧
      (front = [] ∨ front.getLast? = some slash) := by
  by_cases none : names = []
  · exact ⟨[], by simp [none, Text.join, List.intercalate], .inl rfl⟩
  · exact ⟨Text.join [slash] names ++ [slash], by rw [join_concat none]; simp, .inr (by simp)⟩

theorem base_join {names : List Text} {name : Text} (isName : IsName name) :
    base (Text.join [slash] (names ++ [name])) = name := by
  obtain ⟨front, split, ended⟩ := exists_join_concat names name
  rw [split, base_append ended isName]

theorem base_ofNames_true {names : List Text} {name : Text} (isName : IsName name) :
    base (ofNames true (names ++ [name])) = name := by
  obtain ⟨front, split, ended⟩ := exists_join_concat names name
  rw [ofNames, if_pos rfl, split, ← List.cons_append]
  refine base_append (.inr ?_) isName
  rcases ended with rfl | ended
  · rfl
  · rw [List.getLast?_cons, ended]
    rfl

end Path

end HdlAlign
