import HdlAlign.Proofs.Characters

/-! Characters are encoded as the sequences that they are read from. -/

namespace HdlAlign.Utf8

/-! What is read from a well-formed sequence. -/

section

variable {a b c d : UInt8} (rest : Text)

theorem sequence?_one (lead : a.toNat < 0x80) :
    sequence? (a :: rest) = some (⟨Char.ofNat a.toNat, [a]⟩, rest) := by
  rw [sequence?.eq_def]
  simp [(announced_iff a).1.mpr lead]

theorem sequence?_two (lead : 0xC2 ≤ a.toNat ∧ a.toNat < 0xE0) (second : isContinuation b) :
    sequence? (a :: b :: rest) = some (⟨Char.ofNat (code2 a b), [a, b]⟩, rest) := by
  rw [sequence?.eq_def]
  simp [(announced_iff a).2.1.mpr lead, second]

theorem sequence?_three (lead : 0xE0 ≤ a.toNat ∧ a.toNat < 0xF0) (second : isSecond a b)
    (third : isContinuation c) :
    sequence? (a :: b :: c :: rest) = some (⟨Char.ofNat (code3 a b c), [a, b, c]⟩, rest) := by
  rw [sequence?.eq_def]
  simp [(announced_iff a).2.2.1.mpr lead, second, third]

theorem sequence?_four (lead : 0xF0 ≤ a.toNat ∧ a.toNat < 0xF5) (second : isSecond a b)
    (third : isContinuation c) (fourth : isContinuation d) :
    sequence? (a :: b :: c :: d :: rest) =
      some (⟨Char.ofNat (code4 a b c d), [a, b, c, d]⟩, rest) := by
  rw [sequence?.eq_def]
  simp [(announced_iff a).2.2.2.mpr lead, second, third, fourth]

end

theorem sequence?_encodeChar (c : Char) (rest : Text) :
    sequence? (encodeChar c ++ rest) = some (⟨c, encodeChar c⟩, rest) := by
  have bounds : c.toNat < 0xD800 ∨ 0xDFFF < c.toNat ∧ c.toNat < 0x110000 := c.valid
  have code {n : Nat} (same : n = c.toNat) : Char.ofNat n = c := by rw [same, Char.ofNat_toNat]
  have number : c.val.toNat = c.toNat := rfl
  rw [encodeChar, String.utf8EncodeChar, number]
  split
  · rw [List.singleton_append, sequence?_one, code]
    · simp; omega
    · simp; omega
  · split
    · rw [List.cons_append, List.singleton_append, sequence?_two, code]
      · simp [code2, payload]; omega
      · simp; omega
      · simp [isContinuation_iff]; omega
    · split
      · rw [List.cons_append, List.cons_append, List.singleton_append, sequence?_three, code]
        · simp [code3, payload]; omega
        · simp; omega
        · simp [isSecond_iff]; omega
        · simp [isContinuation_iff]; omega
      · rw [List.cons_append, List.cons_append, List.cons_append, List.singleton_append,
          sequence?_four, code]
        · simp [code4, payload]; omega
        · simp; omega
        · simp [isSecond_iff]; omega
        · simp [isContinuation_iff]; omega
        · simp [isContinuation_iff]; omega

/-! Encoding what was read. -/

theorem toNat_ofNat {n : Nat} (valid : n < 0xD800 ∨ 0xDFFF < n ∧ n < 0x110000) :
    (Char.ofNat n).toNat = n := by
  have valid : n.isValidChar := valid
  simp [Char.ofNat, valid, Char.toNat, Char.ofNatAux]

theorem byte_eq {n : Nat} {byte : UInt8} (same : n = byte.toNat) : UInt8.ofNat n = byte := by
  rw [same, UInt8.ofNat_toNat]

section

variable {a b c d : UInt8}

theorem encodeChar_one (lead : a.toNat < 0x80) : encodeChar (Char.ofNat a.toNat) = [a] := by
  have code : (Char.ofNat a.toNat).val.toNat = a.toNat := toNat_ofNat (by omega)
  rw [encodeChar, String.utf8EncodeChar, code, if_pos (by omega), byte_eq rfl]

theorem encodeChar_two (lead : 0xC2 ≤ a.toNat ∧ a.toNat < 0xE0) (second : isContinuation b) :
    encodeChar (Char.ofNat (code2 a b)) = [a, b] := by
  rw [isContinuation_iff] at second
  have number : code2 a b = (a.toNat - 0xC0) * 64 + (b.toNat - 0x80) := by
    simp [code2, payload]
    omega
  have code : (Char.ofNat (code2 a b)).val.toNat = code2 a b := toNat_ofNat (by omega)
  rw [encodeChar, String.utf8EncodeChar, code, if_neg (by omega), if_pos (by omega),
    @byte_eq _ a (by omega), @byte_eq _ b (by omega)]

theorem encodeChar_three (lead : 0xE0 ≤ a.toNat ∧ a.toNat < 0xF0) (second : isSecond a b)
    (third : isContinuation c) : encodeChar (Char.ofNat (code3 a b c)) = [a, b, c] := by
  rw [isSecond_iff] at second
  rw [isContinuation_iff] at third
  have number : code3 a b c =
      (a.toNat - 0xE0) * 4096 + (b.toNat - 0x80) * 64 + (c.toNat - 0x80) := by
    simp [code3, payload]
    omega
  have code : (Char.ofNat (code3 a b c)).val.toNat = code3 a b c := toNat_ofNat (by omega)
  rw [encodeChar, String.utf8EncodeChar, code, if_neg (by omega), if_neg (by omega),
    if_pos (by omega), @byte_eq _ a (by omega), @byte_eq _ b (by omega),
    @byte_eq _ c (by omega)]

theorem encodeChar_four (lead : 0xF0 ≤ a.toNat ∧ a.toNat < 0xF5) (second : isSecond a b)
    (third : isContinuation c) (fourth : isContinuation d) :
    encodeChar (Char.ofNat (code4 a b c d)) = [a, b, c, d] := by
  rw [isSecond_iff] at second
  rw [isContinuation_iff] at third fourth
  have number : code4 a b c d = (a.toNat - 0xF0) * 262144 + (b.toNat - 0x80) * 4096 +
      (c.toNat - 0x80) * 64 + (d.toNat - 0x80) := by
    simp [code4, payload]
    omega
  have code : (Char.ofNat (code4 a b c d)).val.toNat = code4 a b c d := toNat_ofNat (by omega)
  rw [encodeChar, String.utf8EncodeChar, code, if_neg (by omega), if_neg (by omega),
    if_neg (by omega), @byte_eq _ a (by omega), @byte_eq _ b (by omega),
    @byte_eq _ c (by omega), @byte_eq _ d (by omega)]

end

theorem encodeChar_of_sequence? {text tail : Text} {scalar : Scalar}
    (found : sequence? text = some (scalar, tail)) : encodeChar scalar.char = scalar.bytes := by
  rcases sequence?_cases found with ⟨a, lead, rfl⟩ | ⟨a, b, lead, second, rfl⟩ |
    ⟨a, b, c, lead, second, third, rfl⟩ | ⟨a, b, c, d, lead, second, third, fourth, rfl⟩
  · exact encodeChar_one ((announced_iff a).1.mp lead)
  · exact encodeChar_two ((announced_iff a).2.1.mp lead) second
  · exact encodeChar_three ((announced_iff a).2.2.1.mp lead) second third
  · exact encodeChar_four ((announced_iff a).2.2.2.mp lead) second third fourth

/-! Whole texts. -/

theorem not_isIllFormed_of_sequence? {text tail : Text} {scalar : Scalar}
    (found : sequence? text = some (scalar, tail)) : scalar.isIllFormed = false := by
  rcases sequence?_cases found with ⟨a, lead, rfl⟩ | ⟨a, b, lead, second, rfl⟩ |
    ⟨a, b, c, lead, second, third, rfl⟩ | ⟨a, b, c, d, lead, second, third, fourth, rfl⟩
  · have small := (announced_iff a).1.mp lead
    have code : (Char.ofNat a.toNat).toNat = a.toNat := toNat_ofNat (by omega)
    have other : Char.ofNat a.toNat ≠ replacement := by
      intro same
      rw [same] at code
      exact absurd (code ▸ small) (by decide)
    simp [Scalar.isIllFormed, other]
  · simp [Scalar.isIllFormed]
  · simp [Scalar.isIllFormed]
  · simp [Scalar.isIllFormed]

theorem encode_cons (c : Char) (cs : List Char) : encode (c :: cs) = encodeChar c ++ encode cs := rfl

theorem scalars_encode_cons (c : Char) (cs : List Char) :
    scalars (encode (c :: cs)) = ⟨c, encodeChar c⟩ :: scalars (encode cs) := by
  rw [encode_cons]
  exact scalars_of_sequence? (sequence?_encodeChar c (encode cs))

theorem chars_encode (cs : List Char) : chars (encode cs) = cs := by
  induction cs with
  | nil => rfl
  | cons c cs ih =>
      rw [chars, scalars_encode_cons, List.map_cons]
      exact congrArg (c :: ·) ih

theorem isValid_encode (cs : List Char) : isValid (encode cs) := by
  induction cs with
  | nil => rfl
  | cons c cs ih =>
      rw [isValid, scalars_encode_cons, List.all_cons,
        not_isIllFormed_of_sequence? (sequence?_encodeChar c [])]
      exact ih

theorem encode_chars {text : Text} (valid : isValid text) : encode (chars text) = text := by
  induction text using sequence_induction with
  | nil => rfl
  | whole text scalar tail found ih =>
      rw [isValid, scalars_of_sequence? found, List.all_cons, Bool.and_eq_true] at valid
      rw [chars, scalars_of_sequence? found, List.map_cons, encode_cons,
        encodeChar_of_sequence? found, (sequence?_bytes found).1]
      exact congrArg (scalar.bytes ++ ·) (ih valid.2)
  | loose a rest absent ih =>
      rw [isValid, scalars_of_no_sequence absent, List.all_cons, Bool.and_eq_true] at valid
      exact absurd valid.1 (by simp [illFormed, Scalar.isIllFormed])

theorem eq_encode_of_isValid {text : Text} (valid : isValid text) : ∃ cs, text = encode cs :=
  ⟨chars text, (encode_chars valid).symm⟩

theorem encodeChar_eq_of_mem {c : Char} {byte : UInt8} (member : byte ∈ encodeChar c)
    (ascii : byte.toNat < 0x80) : c = Char.ofNat byte.toNat := by
  have number : c.val.toNat = c.toNat := rfl
  rw [encodeChar, String.utf8EncodeChar, number] at member
  split at member
  · have same : byte.toNat = c.toNat := by
      rw [List.mem_singleton.mp member]
      simp
      omega
    rw [same, Char.ofNat_toNat]
  · exfalso
    split at member
    · simp only [List.mem_cons, List.not_mem_nil, or_false] at member
      rcases member with rfl | rfl <;> simp at ascii <;> omega
    · split at member
      · simp only [List.mem_cons, List.not_mem_nil, or_false] at member
        rcases member with rfl | rfl | rfl <;> simp at ascii <;> omega
      · simp only [List.mem_cons, List.not_mem_nil, or_false] at member
        rcases member with rfl | rfl | rfl | rfl <;> simp at ascii <;> omega

end HdlAlign.Utf8
