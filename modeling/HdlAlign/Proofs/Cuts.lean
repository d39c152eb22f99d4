import HdlAlign.Assignment.Basic
import HdlAlign.Proofs.Patterns
import HdlAlign.Proofs.Respacing
import HdlAlign.Statement.Declaration

/-! Where the patterns of a declaration cut a line.  Every cut has a byte of ASCII on one side, so
that no character is torn apart. -/

namespace HdlAlign.Pattern

open Text Utf8

/-- Every part that the pattern reads ends with a byte of ASCII, if it is not empty. -/
def EndsInAscii (p : Pattern) : Prop :=
  ∀ text part rest, p text = some (part, rest) → ∀ byte ∈ part.getLast?, isAscii byte

namespace EndsInAscii

theorem run {p : UInt8 → Bool} (ascii : ∀ byte, p byte → isAscii byte) : EndsInAscii (run p) := by
  intro text part rest read byte last
  obtain ⟨rfl, -⟩ := run_eq_some_iff.mp read
  exact ascii byte (List.all_eq_true.mp List.all_takeWhile byte (List.mem_of_getLast? last))

theorem literal {affix : Text} (ascii : ∀ byte ∈ affix, isAscii byte) :
    EndsInAscii (literal affix) := by
  intro text part rest read byte last
  obtain ⟨rfl, -⟩ := literal_eq_some_iff.mp read
  exact ascii byte (List.mem_of_getLast? last)

theorem isAscii_of_isWord : ∀ byte : UInt8, isWord byte → isAscii byte :=
  forall_byte (by decide +kernel)

theorem keyword (words : List Text) : EndsInAscii (keyword words) := by
  intro text part rest read byte last
  obtain ⟨-, rfl, -⟩ := keyword_eq_some_iff.mp read
  exact isAscii_of_isWord byte
    (List.all_eq_true.mp List.all_takeWhile byte (List.mem_of_getLast? last))

theorem andThen {first second : Pattern} (h : EndsInAscii first) (h' : EndsInAscii second) :
    EndsInAscii (first >> second) := by
  intro text part rest read byte last
  obtain ⟨left, middle, right, leftRead, rightRead, rfl⟩ := andThen_eq_some_iff.mp read
  rw [List.getLast?_append, Option.mem_def, Option.or_eq_some_iff] at last
  rcases last with last | ⟨-, last⟩
  · exact h' _ _ _ rightRead byte last
  · exact h _ _ _ leftRead byte last

theorem andThen_of_consumes (first : Pattern) {second : Pattern} (consumes : Consumes second)
    (h : EndsInAscii second) : EndsInAscii (first >> second) := by
  intro text part rest read byte last
  obtain ⟨left, middle, right, -, rightRead, rfl⟩ := andThen_eq_some_iff.mp read
  rw [List.getLast?_append, Option.mem_def, Option.or_eq_some_iff] at last
  rcases last with last | ⟨absent, -⟩
  · exact h _ _ _ rightRead byte last
  · exact absurd (List.getLast?_eq_none_iff.mp absent) (consumes _ _ _ rightRead)

theorem orElse {first second : Pattern} (h : EndsInAscii first) (h' : EndsInAscii second) :
    EndsInAscii (first <|> second) := by
  intro text part rest read
  rcases orElse_eq_some_iff.mp read with read | ⟨-, read⟩
  · exact h _ _ _ read
  · exact h' _ _ _ read

theorem optional {p : Pattern} (h : EndsInAscii p) : EndsInAscii (optional p) := by
  intro text part rest read byte last
  rcases optional_eq_some_iff.mp read with read | ⟨-, rfl, -⟩
  · exact h _ _ _ read byte last
  · cases last

theorem many {p : Pattern} (h : EndsInAscii p) : EndsInAscii (many p) := by
  have bounded (n : Nat) : EndsInAscii (upTo p n) := by
    induction n with
    | zero => exact optional fun _ _ _ read => by cases read
    | succ n ih => exact optional (andThen h ih)
  exact fun text => bounded text.length text

theorem spaces : EndsInAscii spaces := run fun _ => isAscii_of_isSpace

theorem one {p : UInt8 → Bool} (ascii : ∀ byte, p byte → isAscii byte) : EndsInAscii (one p) := by
  intro text part rest read byte last
  obtain ⟨first, holds, rfl, -⟩ := one_eq_some_iff.mp read
  cases last
  exact ascii first holds

end EndsInAscii

theorem EndsInAscii.seam {p : Pattern} (h : EndsInAscii p) (text rest : Text) :
    Seam (p.cutFront text).1 rest := by
  cases read : p text with
  | none => simp [cutFront, read]
  | some found =>
      refine .inl ?_
      simpa [cutFront, read] using h text found.1 found.2 read

end HdlAlign.Pattern

namespace HdlAlign.Assignment

open Text

def compoundOperators : List Text :=
  Text.literals ["<<=", ">>=", "-=", "+=", "*=", "/=", "%=", "&=", "|=", "^="]

def operators : List Text := Text.literals ["<=", "="] ++ compoundOperators

theorem mem_operators {op : Text} :
    op ∈ operators ↔ op = Text.ofString "<=" ∨ op = Text.ofString "=" ∨ op ∈ compoundOperators := by
  simp [operators, literals]

theorem operator?_append : ∀ op ∈ operators, ∀ rest, operator? (op ++ rest) = some (op, rest) := by
  intro op member rest
  simp only [operators, compoundOperators, literals, List.map_cons, List.map_nil,
    List.cons_append, List.nil_append, List.mem_cons, List.not_mem_nil, or_false] at member
  rcases member with rfl | rfl | rfl | rfl | rfl | rfl | rfl | rfl | rfl | rfl | rfl | rfl <;>
    rcases rest with _ | ⟨a, _ | ⟨b, rest⟩⟩ <;> rfl

theorem pair_mem_operators {byte : UInt8} (mark : isOperatorByte byte) :
    [byte, ('=' : UInt8)] ∈ operators := by
  simp only [isOperatorByte, Bool.or_eq_true, beq_iff_eq] at mark
  rcases mark with ((((((rfl | rfl) | rfl) | rfl) | rfl) | rfl) | rfl) | rfl <;> decide

theorem operator?_eq_some_iff {text op rest : Text} :
    operator? text = some (op, rest) ↔ op ∈ operators ∧ text = op ++ rest := by
  constructor
  · intro h
    have pair (byte : UInt8) (first : byte == '<' || isOperatorByte byte) :
        [byte, ('=' : UInt8)] ∈ operators := by
      rcases Bool.or_eq_true_iff.mp first with less | mark
      · rw [eq_of_beq less]
        decide
      · exact pair_mem_operators mark
    have single : [('=' : UInt8)] ∈ operators := by decide
    unfold operator? at h
    split at h
    · split at h
      · next a b c tail shift =>
          cases h
          simp only [Bool.and_eq_true, Bool.or_eq_true, beq_iff_eq] at shift
          obtain ⟨⟨rfl, rfl⟩ | ⟨rfl, rfl⟩, rfl⟩ := shift
          · exact ⟨by decide, rfl⟩
          · exact ⟨by decide, rfl⟩
      · split at h
        · next two => 
          cases h
          simp only [Bool.and_eq_true, beq_iff_eq] at two
          obtain ⟨two, rfl⟩ := two
          exact ⟨pair _ two, rfl⟩
        · split at h
          · next same =>
            cases h
            cases eq_of_beq same
            exact ⟨single, rfl⟩
          · cases h
    · split at h
      · next two => 
          cases h
          simp only [Bool.and_eq_true, beq_iff_eq] at two
          obtain ⟨two, rfl⟩ := two
          exact ⟨pair _ two, rfl⟩
      · split at h
        · next same =>
            cases h
            cases eq_of_beq same
            exact ⟨single, rfl⟩
        · cases h
    · split at h
      · next same =>
            cases h
            cases eq_of_beq same
            exact ⟨single, rfl⟩
      · cases h
    · cases h
  · rintro ⟨member, rfl⟩
    exact operator?_append op member rest

end HdlAlign.Assignment

namespace HdlAlign.Statement

open Pattern Text Utf8 Assignment

theorem sign_endsInAscii : EndsInAscii sign :=
  .andThen (.andThen (.one fun _ => isAscii_of_isSpace) .spaces) (.keyword _)

theorem declarationType_endsInAscii : EndsInAscii declarationType :=
  .andThen .spaces (.andThen (.keyword _) (.andThen (.optional sign_endsInAscii) .spaces))

theorem dimension_endsInAscii : EndsInAscii dimension := by
  have closing : EndsInAscii (Pattern.literal "]" >> Pattern.spaces) :=
    .andThen (.literal (by decide)) .spaces
  have consumes : Consumes (Pattern.literal "]" >> Pattern.spaces) :=
    .andThen_left (.literal (by decide)) _
  refine .andThen_of_consumes _ (.andThen_right _ (.andThen_right _ (.andThen_right _ consumes))) ?_
  refine .andThen_of_consumes _ (.andThen_right _ (.andThen_right _ consumes)) ?_
  refine .andThen_of_consumes _ (.andThen_right _ consumes) ?_
  exact .andThen_of_consumes _ consumes closing

theorem array_endsInAscii : EndsInAscii array :=
  .andThen dimension_endsInAscii (.many dimension_endsInAscii)

theorem vector_endsInAscii : EndsInAscii vector :=
  .andThen .spaces array_endsInAscii

theorem sign_sound : Sound sign := .andThen .spaces1 (.keyword _)

theorem declarationType_sound : Sound declarationType :=
  .andThen .spaces (.andThen (.keyword _) (.andThen (.optional sign_sound) .spaces))

theorem dimension_sound : Sound dimension :=
  .andThen (.literal _) (.andThen (.run _) (.andThen (.literal _) (.andThen (.run _)
    (.andThen (.literal _) .spaces))))

theorem array_sound : Sound array := .many1 dimension_sound

theorem vector_sound : Sound vector := .andThen .spaces array_sound

theorem operator_matches (text : Text) :
    ((literal "<=").matchesFront text || ((compoundOperator >> literal "=").matchesFront text ||
      (literal "=").matchesFront text)) = (operator? text).isSome := by
  rw [Bool.eq_iff_iff, Bool.or_eq_true, Bool.or_eq_true, matchesFront_iff, matchesFront_iff,
    matchesFront_iff, Option.isSome_iff_exists, Prod.exists]
  constructor
  · rintro (⟨part, rest, read⟩ | ⟨part, rest, read⟩ | ⟨part, rest, read⟩)
    · obtain ⟨rfl, rfl⟩ := literal_eq_some_iff.mp read
      exact ⟨_, rest, operator?_append _ (by decide) rest⟩
    · obtain ⟨left, middle, right, leftRead, rightRead, rfl⟩ := andThen_eq_some_iff.mp read
      obtain ⟨rfl, rfl⟩ := literal_eq_some_iff.mp rightRead
      rcases orElse_eq_some_iff.mp leftRead with read | ⟨-, read⟩
      · obtain ⟨rfl, rfl⟩ := literal_eq_some_iff.mp read
        exact ⟨_, rest, operator?_append (ofString "<<=") (by decide) rest⟩
      rcases orElse_eq_some_iff.mp read with read | ⟨-, read⟩
      · obtain ⟨rfl, rfl⟩ := literal_eq_some_iff.mp read
        exact ⟨_, rest, operator?_append (ofString ">>=") (by decide) rest⟩
      · obtain ⟨byte, mark, rfl, rfl⟩ := one_eq_some_iff.mp read
        exact ⟨_, rest, operator?_append _ (pair_mem_operators mark) rest⟩
    · obtain ⟨rfl, rfl⟩ := literal_eq_some_iff.mp read
      exact ⟨_, rest, operator?_append _ (by decide) rest⟩
  · rintro ⟨op, rest, read⟩
    obtain ⟨member, rfl⟩ := operator?_eq_some_iff.mp read
    rcases mem_operators.mp member with rfl | rfl | member
    · exact .inl ⟨_, rest, rfl⟩
    · exact .inr (.inr ⟨_, rest, rfl⟩)
    · refine .inr (.inl ⟨op, rest, ?_⟩)
      simp only [compoundOperators, literals, List.map_cons, List.map_nil, List.mem_cons,
        List.not_mem_nil, or_false] at member
      rcases member with rfl | rfl | rfl | rfl | rfl | rfl | rfl | rfl | rfl | rfl <;> rfl

def isTerminator : Text → Bool
  | [] => false
  | byte :: rest => byte == ';' && rest.all isSpace

theorem terminator_eq (text : Text) :
    (literal ";" >> spaces >> atEnd) text = if isTerminator text then some (text, []) else none := by
  have semicolon : ofString ";" = [(';' : UInt8)] := by decide
  cases text with
  | nil => rfl
  | cons byte rest =>
      simp only [andThen_def, andThen, literal, semicolon, dropHead?, spaces, run, isTerminator]
      by_cases same : byte = ';'
      · subst same
        by_cases blank : rest.all isSpace
        · have all := List.all_eq_true.mp blank
          simp [blank, List.dropWhile_eq_nil_iff.mpr all, List.takeWhile_eq_self_iff.mpr all, atEnd]
        · have some : rest.dropWhile isSpace ≠ [] := fun none =>
            blank (List.all_eq_true.mpr (List.dropWhile_eq_nil_iff.mp none))
          obtain ⟨first, others, split⟩ := List.exists_cons_of_ne_nil some
          simp [blank, split, atEnd]
      · simp [same, Ne.symm same]

theorem compoundOperator_sound : Sound compoundOperator :=
  .orElse (.literal _) (.orElse (.literal _) (.one _))

theorem assignment_eq {text : Text} (single : newline ∉ text) :
    assignment text =
      if (operator? text).isSome || isTerminator text then some (text, []) else none := by
  rw [← operator_matches, assignment, ← andThen_assoc]
  simp only [orElse_def, orElse, andThen_toLineEnd (.literal _) single,
    andThen_toLineEnd (.andThen compoundOperator_sound (.literal _)) single, terminator_eq]
  cases (literal "<=").matchesFront text <;> cases (compoundOperator >> literal "=").matchesFront text <;>
   cases (literal "=").matchesFront text <;> cases isTerminator text <;> rfl

end HdlAlign.Statement
