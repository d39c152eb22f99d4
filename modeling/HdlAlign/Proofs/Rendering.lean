import HdlAlign.Proofs.PortLists
import HdlAlign.Proofs.Widths

/-! The layout of a statement writes no comment: two slashes stand side by side in a rendered line
only where the comment of the statement begins. -/

namespace HdlAlign.Text

theorem dropTailWhile_append_cons {p : UInt8 → Bool} {byte : UInt8} (stays : p byte = false)
    (front back : Text) :
    dropTailWhile p (front ++ byte :: back) = front ++ byte :: dropTailWhile p back := by
  rw [dropTailWhile, dropTailWhile, List.reverse_append, List.reverse_cons, List.append_assoc,
    List.dropWhile_append]
  split
  · next all =>
      rw [List.isEmpty_iff.mp all]
      simp [stays]
  · simp

theorem dropTailWhile_append_of_forall {p : UInt8 → Bool} {back : Text}
    (all : ∀ byte ∈ back, p byte) (front : Text) :
    dropTailWhile p (front ++ back) = dropTailWhile p front := by
  have none : back.reverse.dropWhile p = [] :=
    List.dropWhile_eq_nil_iff.mpr fun byte member => all byte (List.mem_reverse.mp member)
  rw [dropTailWhile, dropTailWhile, List.reverse_append, List.dropWhile_append, none]
  rfl

end HdlAlign.Text

namespace HdlAlign.Batch

open Text

theorem Roomy.append {front back : List Text} {anchors : List Nat}
    (roomy : Roomy (front ++ back) anchors) :
    Roomy front anchors ∧ Roomy back (anchors.drop front.length) := by
  induction front generalizing anchors with
  | nil => exact ⟨trivial, roomy⟩
  | cons field front ih =>
      cases anchors with
      | nil => exact roomy.elim
      | cons anchor anchors =>
          obtain ⟨first, second⟩ := ih roomy.2
          exact ⟨⟨roomy.1, first⟩, second⟩

theorem Roomy.padded_append {front back : List Text} {anchors : List Nat}
    (roomy : Roomy (front ++ back) anchors) :
    Line.padded (front ++ back) anchors =
      Line.padded front anchors ++ Line.padded back (anchors.drop front.length) := by
  induction front generalizing anchors with
  | nil => rfl
  | cons field front ih =>
      cases anchors with
      | nil => exact roomy.elim
      | cons anchor anchors =>
          rw [List.cons_append, Line.padded, Line.padded, ih roomy.2, List.append_assoc]
          rfl

theorem last_padRight {field : Text} {anchor : Nat} (room : field.width ≠ 0 → field.width < anchor) :
    ∀ byte ∈ (field.padRight anchor).getLast?, byte ≠ ('/' : UInt8) := by
  intro byte last same
  rw [padRight, blanks, List.getLast?_append, List.getLast?_replicate] at last
  split at last
  · next full =>
      have ends : field.getLast? = some byte := last
      have shown : 0 < field.width :=
        width_pos (List.mem_of_getLast? ends) (by rw [same]; rfl)
      have := room (by omega)
      omega
  · cases last
    exact absurd same (by decide)

theorem Roomy.calm_padded {fields : List Text} {anchors : List Nat} (roomy : Roomy fields anchors)
    (calm : ∀ field ∈ fields, Calm field) :
    Calm (Line.padded fields anchors) ∧
      ∀ byte ∈ (Line.padded fields anchors).getLast?, byte ≠ ('/' : UInt8) := by
  induction fields generalizing anchors with
  | nil => exact ⟨.nil, fun byte last => by cases last⟩
  | cons field fields ih =>
      cases anchors with
      | nil => exact roomy.elim
      | cons anchor anchors =>
          obtain ⟨rest, restLast⟩ := ih roomy.2 fun other member => calm other (by simp [member])
          have last := last_padRight roomy.1
          rw [Line.padded]
          refine ⟨(calm_padRight (calm field (by simp)) anchor).append_of_last rest last, ?_⟩
          intro byte ends
          rw [List.getLast?_append] at ends
          cases tail : (Line.padded fields anchors).getLast? with
          | none =>
              rw [tail] at ends
              exact last byte ends
          | some other =>
              rw [tail] at ends
              exact restLast byte (by rw [tail]; exact ends)

end HdlAlign.Batch

namespace HdlAlign.Line

open Text Batch

def renderedCode (front : List Text) (comment : Text) (anchors : List Nat) (indent : Text) : Text :=
  if comment.isEmpty then dropTailWhile isIndent (indent ++ padded front anchors)
  else indent ++ padded front anchors

theorem isIndent_blanks (n : Nat) : ∀ byte ∈ blanks n, isIndent byte := by
  intro byte member
  rw [List.eq_of_mem_replicate member]
  rfl

theorem slash : isIndent ('/' : UInt8) = false := rfl

theorem dropTailWhile_slashes (rest : Text) :
    dropTailWhile isIndent (('/' : UInt8) :: ('/' : UInt8) :: rest) =
      ('/' : UInt8) :: ('/' : UInt8) :: dropTailWhile isIndent rest :=
  dropTailWhile_append_cons slash [('/' : UInt8)] rest

theorem render_eq {front : List Text} {comment : Text} {anchors : List Nat} {indent : Text}
    (roomy : Roomy (front ++ [comment]) anchors)
    (begins : comment = [] ∨ comment.startsWith (ofString "//")) (source : Int) :
    (aligned (front ++ [comment]) source).render anchors indent =
      renderedCode front comment anchors indent ++ dropTailWhile isIndent comment := by
  have single : padded [comment] (anchors.drop front.length) =
      comment ++ blanks ((anchors.drop front.length).headD 0 - comment.width) := by
    have room := roomy.append.2
    generalize anchors.drop front.length = rest at room
    cases rest with
    | nil => exact room.elim
    | cons anchor others => simp [padded, padRight]
  rw [render_aligned, roomy.padded_append, single, ← List.append_assoc, ← List.append_assoc,
    dropTailWhile_append_of_forall (isIndent_blanks _), renderedCode]
  rcases begins with rfl | begins
  · simp [dropTailWhile]
  · obtain ⟨rest, rfl⟩ := startsWith_slashes.mp begins
    rw [dropTailWhile_append_cons rfl, if_neg (by simp)]
    exact congrArg _ (dropTailWhile_append_cons slash [] _).symm

theorem solid_renderedCode {front : List Text} {anchors : List Nat} (roomy : Roomy front anchors)
    (comment : Text) {indent : Text} (margin : White indent) :
    solid (renderedCode front comment anchors indent) = (front.map solid).flatten := by
  rw [renderedCode]
  split
  · rw [solid_dropTailWhile, margin.solid_append_left, roomy.solid_padded]
  · rw [margin.solid_append_left, roomy.solid_padded]

theorem splitComment_render {front : List Text} {comment : Text} {anchors : List Nat}
    {indent : Text} (roomy : Roomy (front ++ [comment]) anchors)
    (calm : ∀ field ∈ front, Calm field)
    (begins : comment = [] ∨ comment.startsWith (ofString "//"))
    (margin : ∀ byte ∈ indent, isIndent byte) (source : Int) :
    splitComment ((aligned (front ++ [comment]) source).render anchors indent) =
      (renderedCode front comment anchors indent, dropTailWhile isIndent comment) := by
  obtain ⟨inside, last⟩ := roomy.append.1.calm_padded calm
  have plain : ∀ byte ∈ indent, byte ≠ ('/' : UInt8) := fun byte member =>
    not_slash_of_isSpace (isSpace_of_isIndent (margin byte member))
  have code : Calm (indent ++ padded front anchors) :=
    (Calm.of_forall_ne plain).append_of_last inside fun byte ends =>
      plain byte (List.mem_of_getLast? ends)
  have codeLast : ∀ byte ∈ (indent ++ padded front anchors).getLast?, byte ≠ ('/' : UInt8) := by
    intro byte ends
    rw [List.getLast?_append] at ends
    cases tail : (padded front anchors).getLast? with
    | none =>
        rw [tail] at ends
        exact plain byte (List.mem_of_getLast? ends)
    | some other =>
        rw [tail] at ends
        exact last byte (by rw [tail]; exact ends)
  rw [render_eq roomy begins source]
  rcases begins with rfl | begins
  · have front : Calm (renderedCode front [] anchors indent) := by
      obtain ⟨tail, -, split⟩ := dropTailWhile_split isIndent (indent ++ padded front anchors)
      rw [split] at code
      exact code.left
    exact splitComment_of_calm front (.inl rfl) (.inl rfl)
  · obtain ⟨rest, rfl⟩ := startsWith_slashes.mp begins
    rw [dropTailWhile_slashes]
    exact splitComment_of_calm code (.inr (startsWith_slashes.mpr ⟨_, rfl⟩)) (.inr codeLast)

end HdlAlign.Line
