import HdlAlign.Proofs.Groups
import HdlAlign.Proofs.RoundTrip

/-! The commas that the layout gives a port are taken off again. -/

namespace HdlAlign.Text

theorem Ends.getLast?_squeeze {text : Text} (ends : Ends text) :
    (squeeze text).getLast? = text.getLast? := by
  rcases List.eq_nil_or_concat text with rfl | ⟨init, byte, same⟩
  · rfl
  · rw [List.concat_eq_append] at same
    have visible := ends byte (by simp [same])
    rw [same, squeeze_append, squeeze_cons visible]
    simp

end HdlAlign.Text

namespace HdlAlign.Ports

open Text Utf8 Statement

theorem comma_single : comma = [(',' : UInt8)] := comma_eq

theorem trimHead_comma_append (rest : Text) : trimHead comma (comma ++ rest) = rest := by
  rw [trimHead, dropHead?_eq_some_iff.mpr rfl]
  rfl

theorem trimHead_comma_of_head {text : Text} (other : text.head? ≠ some (',' : UInt8)) :
    trimHead comma text = text := by
  rw [trimHead, comma_single]
  cases dropped : dropHead? [(',' : UInt8)] text with
  | none => rfl
  | some rest =>
      rw [dropHead?_eq_some_iff.mp dropped] at other
      exact absurd rfl other

theorem trimTail_append_comma (front : Text) : trimTail comma (front ++ comma) = front := by
  rw [trimTail, Assignment.dropTail?_eq_some_iff.mpr rfl]
  rfl

theorem trimTail_comma_of_last {text : Text} (other : text.getLast? ≠ some (',' : UInt8)) :
    trimTail comma text = text := by
  rw [trimTail, comma_single]
  cases dropped : dropTail? [(',' : UInt8)] text with
  | none => rfl
  | some rest =>
      rw [Assignment.dropTail?_eq_some_iff.mp dropped] at other
      exact absurd (by simp) other

structure Enclosed (code : Text) : Prop where
  visible : squeeze code ≠ []
  first : (squeeze code).head? ≠ some (',' : UInt8)
  last : (squeeze code).getLast? ≠ some (',' : UInt8)

theorem Enclosed.trimHead {code : Text} (enclosed : Enclosed code) (behind : Bool) :
    trimHead comma (trimSpaces (code ++ separator behind)) = trimSpaces (code ++ separator behind) := by
  refine trimHead_comma_of_head ?_
  rw [← (starts_trimSpaces _).head?_squeeze, squeeze_trimSpaces, squeeze_append,
    List.head?_append_of_ne_nil _ enclosed.visible]
  exact enclosed.first

theorem Enclosed.trimTail {code : Text} (enclosed : Enclosed code) :
    trimTail comma (trimSpaces code) = trimSpaces code := by
  refine trimTail_comma_of_last ?_
  rw [← (ends_trimSpaces _).getLast?_squeeze, squeeze_trimSpaces]
  exact enclosed.last

theorem trim_trimHead_separator {code : Text} (enclosed : Enclosed code) {before behind : Bool}
    (plain : Plain (code ++ separator behind)) :
    trim (Text.trimHead comma (trimSpaces (separator before ++ (code ++ separator behind)))) =
      trimSpaces (code ++ separator behind) := by
  cases before with
  | false =>
      rw [separator, if_neg Bool.false_ne_true, List.nil_append, enclosed.trimHead, Plain.trim,
        trimSpaces_trimSpaces]
      exact plain.subset (trimSpaces_subset _)
  | true =>
      generalize code ++ separator behind = inner at plain ⊢
      have marked : trimSpaces (comma ++ inner) = comma ++ dropTailWhile isSpace inner := by
        rw [comma_single]
        exact dropTailWhile_append_cons rfl [] inner
      obtain ⟨tail, tailSpaces, split⟩ := dropTailWhile_split isSpace inner
      rw [separator, if_pos rfl, marked, trimHead_comma_append,
        (plain.subset (dropTailWhile_subset _ _)).trim]
      conv => rhs; rw [split]
      exact (trimSpaces_between .nil tailSpaces _).symm

theorem trim_trimTail_separator {code : Text} (enclosed : Enclosed code) {behind : Bool}
    (plain : Plain (code ++ separator behind)) :
    trim (Text.trimTail comma (trimSpaces (code ++ separator behind))) = trimSpaces code := by
  cases behind with
  | false =>
      rw [separator, if_neg Bool.false_ne_true, List.append_nil] at plain ⊢
      rw [enclosed.trimTail, (plain.subset (trimSpaces_subset _)).trim, trimSpaces_trimSpaces]
  | true =>
      obtain ⟨lead, tail, leadSpaces, tailSpaces, whole⟩ := exists_trimSpaces code
      have some : trimSpaces code ≠ [] := fun none =>
        enclosed.visible (by rw [← squeeze_trimSpaces, none]; rfl)
      have starts := (starts_trimSpaces code).append some (tail ++ comma)
      have ends : Ends (trimSpaces code ++ (tail ++ comma)) := by
        intro byte last
        rw [comma_single, ← List.append_assoc, List.getLast?_concat] at last
        cases last
        rfl
      have marked : trimSpaces (code ++ comma) = trimSpaces code ++ tail ++ comma := by
        conv => lhs; rw [whole]
        simpa using trimSpaces_core leadSpaces .nil starts ends
      have inner : Plain (trimSpaces code ++ tail) := plain.subset fun byte member => by
        rw [whole]
        simp only [List.mem_append] at member ⊢
        tauto
      rw [separator, if_pos rfl, marked, trimTail_append_comma, inner.trim]
      exact trimSpaces_append (starts_trimSpaces code) (ends_trimSpaces code) tailSpaces

theorem strippedCode_between {lead code tail : Text} {before behind : Bool} (enclosed : Enclosed code)
    (leadSpaces : Spaces lead) (tailSpaces : Spaces tail)
    (plain : Plain (lead ++ (separator before ++ (code ++ separator behind) ++ tail))) :
    strippedCode (lead ++ (separator before ++ (code ++ separator behind) ++ tail)) =
      trimSpaces code := by
  have inner : Plain (code ++ separator behind) := plain.subset fun byte member => by
    simp only [List.mem_append] at member ⊢
    tauto
  rw [strippedCode, plain.trim, trimSpaces_between leadSpaces tailSpaces,
    trim_trimHead_separator enclosed inner, trim_trimTail_separator enclosed inner]

def Doubled (code : Text) : Prop :=
  ∃ before gap after, Spaces gap ∧ code = before ++ (',' : UInt8) :: (gap ++ (',' : UInt8) :: after)

theorem doubled_iff {code : Text} :
    Doubled code ↔ [(',' : UInt8), (',' : UInt8)] <:+: squeeze code := by
  constructor
  · rintro ⟨before, gap, after, spaces, rfl⟩
    refine ⟨squeeze before, squeeze after, ?_⟩
    simp [squeeze_append, squeeze_cons (show isSpace (',' : UInt8) = false from rfl),
      squeeze_eq_nil_iff.mpr spaces]
  · rintro ⟨front, back, same⟩
    rw [List.append_assoc, eq_comm, squeeze, List.filter_eq_append_iff] at same
    obtain ⟨before, rest, rfl, -, same⟩ := same
    obtain ⟨gap, rest, rfl, -, -, same⟩ := List.filter_eq_cons_iff.mp same
    obtain ⟨between, after, rfl, spaces, -, -⟩ := List.filter_eq_cons_iff.mp same
    exact ⟨before ++ gap, between, after, fun byte member => by simpa using spaces byte member, by simp⟩

instance (code : Text) : Decidable (Doubled code) := decidable_of_iff _ doubled_iff.symm

theorem length_takeWhile_comma {bytes : Text}
    (once : ¬ [(',' : UInt8), (',' : UInt8)] <:+: bytes) :
    (bytes.takeWhile (· == (',' : UInt8))).length ≤ 1 := by
  cases bytes with
  | nil => simp
  | cons first rest =>
      cases rest with
      | nil => exact (List.takeWhile_prefix _).length_le
      | cons second rest =>
          by_cases both : first = ',' ∧ second = ','
          · exact absurd ⟨[], rest, by simp [both]⟩ once
          · rw [not_and_or] at both
            rcases both with other | other
            · simp [other]
            · rw [List.takeWhile_cons]
              split <;> simp [other]

theorem commasAhead_map (bytes : Text) :
    commasAhead (bytes.map scalarOf) = (bytes.takeWhile (· == (',' : UInt8))).length := by
  have same : ∀ byte, isCommaScalar (scalarOf byte) = (byte == (',' : UInt8)) :=
    forall_byte (by decide +kernel)
  rw [commasAhead, List.takeWhile_map, List.length_map]
  exact congrArg (fun p => (bytes.takeWhile p).length) (funext same)

theorem commasAhead_le_one {code : Text} (plain : Plain code) (once : ¬ Doubled code) :
    commasAhead (solid code) ≤ 1 ∧ commasAhead (solid code).reverse ≤ 1 := by
  rw [doubled_iff] at once
  rw [plain.solid, ← List.map_reverse, commasAhead_map, commasAhead_map]
  refine ⟨length_takeWhile_comma once, length_takeWhile_comma fun twice => once ?_⟩
  rw [← List.reverse_infix, List.reverse_reverse] at twice
  exact twice

theorem Enclosed.of_squeeze_eq {new old : Text} (enclosed : Enclosed old)
    (same : squeeze new = squeeze old) : Enclosed new :=
  ⟨by rw [same]; exact enclosed.visible, by rw [same]; exact enclosed.first,
    by rw [same]; exact enclosed.last⟩

theorem enclosed_strippedCode {code : Text} (plain : Plain code) (once : ¬ Doubled code)
    (other : ∃ scalar ∈ solid (strippedCode code), ¬isCommaScalar scalar) :
    Enclosed (strippedCode code) := by
  obtain ⟨ahead, behind⟩ := commasAhead_le_one plain once
  obtain ⟨front, back⟩ := commasAhead_strippedCode other
  have plainStripped := plain.subset (strippedCode_subset code)
  have none {bytes : Text} (length : (bytes.takeWhile (· == (',' : UInt8))).length = 0) :
      bytes.head? ≠ some (',' : UInt8) := by
    cases bytes with
    | nil => exact nofun
    | cons byte rest =>
        rintro ⟨⟩
        simp at length
  rw [plainStripped.solid, commasAhead_map] at front
  rw [plainStripped.solid, ← List.map_reverse, commasAhead_map] at back
  refine ⟨fun empty => ?_, none (by omega), ?_⟩
  · obtain ⟨scalar, member, -⟩ := other
    rw [plainStripped.solid, empty] at member
    cases member
  · rw [← List.head?_reverse]
    exact none (by omega)

/-- A line of a port list whose commas stand between ports. -/
structure IsSeparated (line : Text) : Prop where
  once : ¬ Doubled (splitComment line).1
  accompanied : trim (splitComment line).1 ≠ comma

theorem trimSpaces_of_squeeze {text : Text} {byte : UInt8} (same : squeeze text = [byte]) :
    trimSpaces text = [byte] := by
  have starts := starts_trimSpaces text
  have ends := ends_trimSpaces text
  rw [← squeeze_trimSpaces] at same
  generalize trimSpaces text = core at same starts ends
  cases core with
  | nil => cases same
  | cons first rest =>
      rw [squeeze_cons (starts first rfl), List.cons.injEq] at same
      have spaces : Spaces rest := squeeze_eq_nil_iff.mp same.2
      rcases List.eq_nil_or_concat rest with rfl | ⟨init, last, rfl⟩
      · rw [same.1]
      · have visible := ends last (by simp [List.getLast?_cons])
        rw [spaces last (by simp)] at visible
        cases visible

theorem isBlank_of_erased {line : Text} (plain : Plain line) (separated : IsSeparated line)
    (erased : isBlank (stripSeparator line)) : isBlank line := by
  have commas : ∀ byte ∈ squeeze line, byte = (',' : UInt8) := by
    have comma : ∀ byte, isCommaScalar (scalarOf byte) → byte = (',' : UInt8) :=
      forall_byte (by decide +kernel)
    have none : bare line = [] := by
      rw [← bare_stripSeparator, bare, isBlank_iff_white.mp erased]
      rfl
    rw [bare, plain.solid, List.filter_eq_nil_iff, List.forall_mem_map] at none
    exact fun byte member => comma byte (by simpa using none byte member)
  have comment : (splitComment line).2 = [] := by
    refine (Declaration.splitComment_comment line).resolve_right fun begins => ?_
    obtain ⟨rest, split⟩ := startsWith_slashes.mp begins
    have member : ('/' : UInt8) ∈ line := by
      rw [← Declaration.splitComment_append line, split]
      simp
    exact absurd (commas _ ((mem_squeeze rfl).mpr member)) (by decide)
  have code : (splitComment line).1 = line := by
    conv => rhs; rw [← Declaration.splitComment_append line, comment, List.append_nil]
  obtain ⟨once, accompanied⟩ := separated
  rw [code, doubled_iff] at once
  rw [code, plain.trim, comma_single] at accompanied
  have short := length_takeWhile_comma once
  rw [List.takeWhile_eq_self_iff.mpr fun byte member => by simp [commas byte member]] at short
  -- It shows commas only: not two in a row, and not one alone.
  refine isBlank_iff_white.mpr (Spaces.white (squeeze_eq_nil_iff.mp ?_))
  cases shown : squeeze line with
  | nil => rfl
  | cons first rest =>
      rw [shown] at short commas
      have alone : rest = [] := List.eq_nil_of_length_eq_zero (by simpa using short)
      rw [commas first (by simp), alone] at shown
      exact absurd (trimSpaces_of_squeeze shown) accompanied

end HdlAlign.Ports
