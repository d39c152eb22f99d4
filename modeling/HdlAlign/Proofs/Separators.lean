import HdlAlign.Proofs.Conservation
import HdlAlign.Proofs.Rendering

/-! The commas between the entries of a port list.  Ports are stripped of theirs and get new ones by
counting ports; all other lines keep their own. -/

namespace HdlAlign.Text

open Utf8

theorem code_of_comma {n : Nat} (comma : Char.ofNat n = ',') : n = 0x2C := by
  by_cases valid : n.isValidChar
  · have code : (Char.ofNat n).toNat = n := by simp [Char.ofNat, valid, Char.toNat, Char.ofNatAux]
    rw [comma] at code
    exact code.symm
  · have zero : Char.ofNat n = Char.ofNat 0 := by
      rw [Char.ofNat, dif_neg valid]
      rfl
    rw [zero] at comma
    exact absurd comma (by decide)

theorem bytes_of_comma {text tail : Text} {scalar : Scalar}
    (found : sequence? text = some (scalar, tail)) (comma : scalar.char = ',') :
    scalar.bytes = ofString "," := by
  rcases sequence?_cases found with ⟨a, lead, rfl⟩ | ⟨a, b, lead, second, rfl⟩ |
    ⟨a, b, c, lead, second, third, rfl⟩ | ⟨a, b, c, d, lead, second, third, fourth, rfl⟩
  · have only : a = (',' : UInt8) := UInt8.toNat_inj.mp (code_of_comma comma)
    rw [only]
    rfl
  · have leadBounds := (announced_iff a).2.1.mp lead
    have bounds := (isContinuation_iff b).mp second
    have code := code_of_comma comma
    simp [code2, payload] at code
    omega
  · have leadBounds := (announced_iff a).2.2.1.mp lead
    have bounds := (isSecond_iff a b).mp second
    have code := code_of_comma comma
    simp [code3, payload] at code
    omega
  · have leadBounds := (announced_iff a).2.2.2.mp lead
    have bounds := (isSecond_iff a b).mp second
    have code := code_of_comma comma
    simp [code4, payload] at code
    omega

theorem comma_of_isCommaScalar {text : Text} {scalar : Scalar} (member : scalar ∈ solid text)
    (comma : isCommaScalar scalar) : scalar = ⟨',', ofString ","⟩ := by
  have char : scalar.char = ',' := by simpa [isCommaScalar] using comma
  have listed : scalar ∈ scalars text := (List.mem_filter.mp member).1
  clear member
  suffices bytes : scalar.bytes = ofString "," by
    rw [← char, ← bytes]
  induction text using sequence_induction with
  | nil => cases listed
  | whole text first tail found ih =>
      rw [scalars_of_sequence? found] at listed
      rcases List.mem_cons.mp listed with rfl | later
      · exact bytes_of_comma found char
      · exact ih later
  | loose a rest absent ih =>
      rw [scalars_of_no_sequence absent] at listed
      rcases List.mem_cons.mp listed with rfl | later
      · exact absurd (show replacement = ',' from char) (by decide)
      · exact ih later

theorem first_of_trimmed {text : Text} (trimmed : trimStart text = text) {scalar : Scalar}
    {rest : List Scalar} (chars : solid text = scalar :: rest) :
    ∃ tail, text = scalar.bytes ++ tail ∧
      (sequence? text = some (scalar, tail) ∨ scalar.char = replacement) := by
  cases text with
  | nil => cases chars
  | cons a others =>
      cases found : sequence? (a :: others) with
      | none =>
          have shown : (!isWhiteChar (illFormed a).char) = true :=
            show (!isWhiteChar replacement) = true by decide
          rw [solid, scalars_of_no_sequence found, List.filter_cons, if_pos shown] at chars
          cases chars
          exact ⟨others, rfl, .inr rfl⟩
      | some first =>
          obtain ⟨head, tail⟩ := first
          obtain ⟨split, nonempty⟩ := sequence?_bytes found
          rw [solid, scalars_of_sequence? found, List.filter_cons] at chars
          split at chars
          · cases chars
            exact ⟨tail, split, .inl rfl⟩
          · next white =>
              have unit := whiteUnit_of_sequence? found (by simpa using white)
              rw [split, unit.trimStart_append] at trimmed
              have shorter := length_trimStart_le tail
              rw [trimmed, List.length_append] at shorter
              have := List.length_pos_iff.mpr nonempty
              omega

def dropComma : List Scalar → List Scalar
  | [] => []
  | scalar :: rest => if isCommaScalar scalar then rest else scalar :: rest

theorem solid_comma_cons (text : Text) :
    ∃ comma, isCommaScalar comma ∧ solid (ofString "," ++ text) = comma :: solid text :=
  ⟨⟨',', [(',' : UInt8)]⟩, rfl, solid_cons isAscii_comma text⟩

theorem solid_trimHead_comma {text : Text} (trimmed : trimStart text = text) :
    solid (trimHead (ofString ",") text) = dropComma (solid text) := by
  rw [trimHead]
  cases dropped : dropHead? (ofString ",") text with
  | some rest =>
      obtain ⟨comma, is, chars⟩ := solid_comma_cons rest
      rw [Option.getD_some, dropHead?_eq_some_iff.mp dropped, chars, dropComma, if_pos is]
  | none =>
      rw [Option.getD_none]
      cases chars : solid text with
      | nil => rfl
      | cons scalar rest =>
          rw [dropComma, if_neg]
          intro comma
          have char : scalar.char = ',' := by simpa [isCommaScalar] using comma
          obtain ⟨tail, split, found | replaced⟩ := first_of_trimmed trimmed chars
          · rw [bytes_of_comma found char] at split
            rw [dropHead?_eq_some_iff.mpr split] at dropped
            cases dropped
          · rw [replaced] at char
            exact absurd char (by decide)

theorem last_of_trimmed {text : Text} (trimmed : trimEnd text = text) {scalar : Scalar}
    {rest : List Scalar} (chars : (solid text).reverse = scalar :: rest)
    (comma : isCommaScalar scalar) : ∃ front, text = front ++ ofString "," := by
  have last : (solid text).getLast? = some scalar := by
    rw [← List.head?_reverse, chars]
    rfl
  have inText {part : Text} (ends : (solid part).getLast? = some scalar) : (',' : UInt8) ∈ part := by
    have member := List.mem_of_getLast? ends
    rw [comma_of_isCommaScalar member comma] at member
    exact (mem_iff_mem_solid isAscii_comma rfl part).mpr member
  obtain ⟨front, behind, whole, absent⟩ := exists_last_of_mem (inText last)
  have white : White behind := by
    cases visible : (solid behind).getLast? with
    | none => exact List.getLast?_eq_none_iff.mp visible
    | some other =>
        rw [whole, solid_append (.cons_right _ _ isAscii_comma), solid_cons isAscii_comma,
          List.getLast?_append, List.getLast?_append, visible] at last
        cases last
        exact absurd (inText visible) absent
  refine ⟨front, ?_⟩
  rw [← trimmed, whole, List.append_cons, white.trimEnd_append]
  exact trimEnd_of_isAscii isAscii_comma rfl _

theorem solid_trimTail_comma {text : Text} (trimmed : trimEnd text = text) :
    solid (trimTail (ofString ",") text) = (dropComma (solid text).reverse).reverse := by
  rw [trimTail]
  cases dropped : dropTail? (ofString ",") text with
  | some rest =>
      have split := Assignment.dropTail?_eq_some_iff.mp dropped
      have seam : Seam rest (ofString ",") := .cons_right rest [] rfl
      obtain ⟨comma, is, chars⟩ := solid_comma_cons []
      rw [List.append_nil, solid_nil] at chars
      rw [Option.getD_some, split, solid_append seam, chars, List.reverse_append]
      simp [dropComma, is]
  | none =>
      rw [Option.getD_none]
      cases chars : (solid text).reverse with
      | nil => simp [dropComma, List.reverse_eq_nil_iff.mp chars]
      | cons scalar rest =>
          rw [dropComma, if_neg, ← chars, List.reverse_reverse]
          intro comma
          obtain ⟨front, split⟩ := last_of_trimmed trimmed chars comma
          rw [Assignment.dropTail?_eq_some_iff.mpr split] at dropped
          cases dropped

/-! Counting the commas at an end. -/

def commasAhead (chars : List Scalar) : Nat := (chars.takeWhile isCommaScalar).length

theorem commasAhead_dropComma (chars : List Scalar) :
    commasAhead (dropComma chars) = commasAhead chars - 1 := by
  cases chars with
  | nil => rfl
  | cons scalar rest =>
      rw [dropComma, commasAhead, commasAhead, List.takeWhile_cons]
      by_cases comma : isCommaScalar scalar
      · simp [comma]
      · simp [comma]

theorem commasAhead_append {front : List Scalar} (other : ∃ scalar ∈ front, ¬isCommaScalar scalar)
    (back : List Scalar) : commasAhead (front ++ back) = commasAhead front := by
  obtain ⟨scalar, member, black⟩ := other
  rw [commasAhead, commasAhead, List.takeWhile_append, if_neg]
  intro whole
  have all : front.takeWhile isCommaScalar = front :=
    (List.takeWhile_prefix _).eq_of_length whole
  rw [← all] at member
  exact black (List.mem_takeWhile_imp member)

theorem dropComma_subset (chars : List Scalar) : dropComma chars ⊆ chars := by
  cases chars with
  | nil => exact fun _ member => member
  | cons scalar rest =>
      rw [dropComma]
      split
      · exact List.subset_cons_self ..
      · exact fun _ member => member

theorem commasAhead_reverse_dropComma {chars : List Scalar}
    (other : ∃ scalar ∈ dropComma chars, ¬isCommaScalar scalar) :
    commasAhead (dropComma chars).reverse = commasAhead chars.reverse := by
  cases chars with
  | nil => rfl
  | cons scalar rest =>
      rw [dropComma] at other ⊢
      split at other
      · next comma =>
          obtain ⟨inner, member, black⟩ := other
          rw [if_pos comma, List.reverse_cons,
            commasAhead_append ⟨inner, List.mem_reverse.mpr member, black⟩]
      · next black => rw [if_neg black]

end HdlAlign.Text

namespace HdlAlign.Ports

open Text Utf8 Statement.Declaration

def commasInFront (line : Text) : Nat := commasAhead (solid (splitComment line).1)

def commasAtEnd (line : Text) : Nat := commasAhead (solid (splitComment line).1).reverse

def commasBetween (first second : Text) : Nat := commasAtEnd first + commasInFront second

theorem solid_strippedCode (code : Text) :
    solid (strippedCode code) = (dropComma (dropComma (solid code)).reverse).reverse := by
  rw [strippedCode, solid_trim, comma, solid_trimTail_comma (trimEnd_trim _), solid_trim,
    solid_trimHead_comma (trimStart_trim _), solid_trim]

theorem commasAhead_strippedCode {code : Text}
    (other : ∃ scalar ∈ solid (strippedCode code), ¬isCommaScalar scalar) :
    commasAhead (solid (strippedCode code)) = commasAhead (solid code) - 1 ∧
      commasAhead (solid (strippedCode code)).reverse = commasAhead (solid code).reverse - 1 := by
  rw [solid_strippedCode] at other ⊢
  have inner : ∃ scalar ∈ dropComma (dropComma (solid code)).reverse, ¬isCommaScalar scalar := by
    simpa using other
  have outer : ∃ scalar ∈ dropComma (solid code), ¬isCommaScalar scalar := by
    obtain ⟨scalar, member, black⟩ := inner
    exact ⟨scalar, List.mem_reverse.mp (dropComma_subset _ member), black⟩
  constructor
  · rw [commasAhead_reverse_dropComma inner, List.reverse_reverse, commasAhead_dropComma]
  · rw [List.reverse_reverse, commasAhead_dropComma, commasAhead_reverse_dropComma outer]

theorem calm_trimHead {text : Text} (calm : Calm text) (affix : Text) :
    Calm (trimHead affix text) := by
  rw [trimHead]
  cases dropped : dropHead? affix text with
  | none => exact calm
  | some rest =>
      rw [dropHead?_eq_some_iff.mp dropped] at calm
      exact calm.right

theorem calm_trimTail {text : Text} (calm : Calm text) (affix : Text) :
    Calm (trimTail affix text) := by
  rw [trimTail]
  cases dropped : dropTail? affix text with
  | none => exact calm
  | some rest =>
      rw [Assignment.dropTail?_eq_some_iff.mp dropped] at calm
      exact calm.left

theorem calm_strippedCode {code : Text} (calm : Calm code) : Calm (strippedCode code) :=
  calm_trim (calm_trimTail (calm_trim (calm_trimHead (calm_trim calm) _)) _)

theorem splitComment_stripSeparator_gap (line : Text) :
    ∃ gap, (∀ byte ∈ gap, byte = Text.blank) ∧ splitComment (stripSeparator line) =
      (indentation (splitComment line).1 ++ (strippedCode (splitComment line).1 ++ gap),
        (splitComment line).2) := by
  have plain : ∀ byte ∈ indentation (splitComment line).1, byte ≠ ('/' : UInt8) :=
    fun byte member => not_slash_of_isSpace (Line.isSpace_of_isIndent (List.mem_takeWhile_imp member))
  have margin := Calm.of_forall_ne plain
  have calm := calm_strippedCode (calm_splitComment line)
  rw [stripSeparator_eq]
  generalize indentation (splitComment line).1 = indent at plain margin
  generalize strippedCode (splitComment line).1 = code at calm
  have begins := splitComment_comment line
  generalize (splitComment line).2 = comment at begins
  have marginLast : ∀ byte ∈ indent.getLast?, byte ≠ ('/' : UInt8) :=
    fun byte last => plain byte (List.mem_of_getLast? last)
  rw [spacedComment]
  split
  · next joined =>
      refine ⟨[], List.forall_mem_nil _, ?_⟩
      rw [List.append_nil, ← List.append_assoc]
      refine splitComment_of_calm (margin.append_of_last calm marginLast) begins ?_
      rcases Bool.or_eq_true_iff.mp joined with none | none
      · exact .inl (List.isEmpty_iff.mp none)
      · rw [List.isEmpty_iff.mp none, List.append_nil]
        exact .inr marginLast
  · refine ⟨[Text.blank], fun byte member => List.mem_singleton.mp member, ?_⟩
    rw [List.append_cons code, ← List.append_assoc]
    have spaced : Calm (code ++ [Text.blank]) :=
      calm.append_of_head (.cons (by decide) .nil) (by simp; decide)
    refine splitComment_of_calm (margin.append_of_last spaced marginLast) begins (.inr ?_)
    intro byte last
    rw [← List.append_assoc, List.getLast?_concat] at last
    cases last
    decide

theorem splitComment_stripSeparator (line : Text) :
    ∃ code, splitComment (stripSeparator line) = (code, (splitComment line).2) ∧
      solid code = solid (strippedCode (splitComment line).1) := by
  obtain ⟨gap, blanks, split⟩ := splitComment_stripSeparator_gap line
  have white : White gap := .of_isSpace fun byte member => by
    rw [blanks byte member]
    exact isSpace_blank
  exact ⟨_, split, by rw [(Block.indentation_blank _).1.solid_append_left, white.solid_append_right]⟩

end HdlAlign.Ports
