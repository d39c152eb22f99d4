import HdlAlign.Text.Blank
import HdlAlign.Text.Utf8
import Mathlib

/-! The characters of a text, and those of them that are white space.  A text may be cut without
touching a character wherever a byte of ASCII stands at the cut. -/

namespace HdlAlign.Utf8

/-! Bytes by their numbers. -/

theorem announced_iff (lead : UInt8) :
    (announced lead = 1 ↔ lead.toNat < 0x80) ∧
    (announced lead = 2 ↔ 0xC2 ≤ lead.toNat ∧ lead.toNat < 0xE0) ∧
    (announced lead = 3 ↔ 0xE0 ≤ lead.toNat ∧ lead.toNat < 0xF0) ∧
    (announced lead = 4 ↔ 0xF0 ≤ lead.toNat ∧ lead.toNat < 0xF5) := by
  simp only [announced, UInt8.lt_iff_toNat_lt]
  grind

theorem isContinuation_iff (byte : UInt8) :
    isContinuation byte ↔ 0x80 ≤ byte.toNat ∧ byte.toNat ≤ 0xBF := by
  simp [isContinuation, UInt8.le_iff_toNat_le]

theorem isSecond_iff (lead byte : UInt8) :
    isSecond lead byte ↔ 0x80 ≤ byte.toNat ∧ byte.toNat ≤ 0xBF ∧
      (lead.toNat = 0xE0 → 0xA0 ≤ byte.toNat) ∧ (lead.toNat = 0xED → byte.toNat ≤ 0x9F) ∧
      (lead.toNat = 0xF0 → 0x90 ≤ byte.toNat) ∧ (lead.toNat = 0xF4 → byte.toNat ≤ 0x8F) := by
  have bounds : secondBounds lead =
      if lead.toNat = 0xE0 then (0xA0, 0xBF) else if lead.toNat = 0xED then (0x80, 0x9F)
      else if lead.toNat = 0xF0 then (0x90, 0xBF) else if lead.toNat = 0xF4 then (0x80, 0x8F)
      else (0x80, 0xBF) := by
    simp only [secondBounds, ← UInt8.toNat_inj]
    rfl
  rw [isSecond, bounds]
  simp only [Bool.and_eq_true, decide_eq_true_eq, UInt8.le_iff_toNat_le]
  split_ifs <;> simp_all <;> omega

def sequence? : Text → Option (Scalar × Text)
  | [] => none
  | a :: rest =>
    match announced a, rest with
    | 1, rest => some (⟨Char.ofNat a.toNat, [a]⟩, rest)
    | 2, b :: tail =>
      if isContinuation b then some (⟨Char.ofNat (code2 a b), [a, b]⟩, tail) else none
    | 3, b :: c :: tail =>
      if isSecond a b && isContinuation c then
        some (⟨Char.ofNat (code3 a b c), [a, b, c]⟩, tail)
      else none
    | 4, b :: c :: d :: tail =>
      if isSecond a b && isContinuation c && isContinuation d then
        some (⟨Char.ofNat (code4 a b c d), [a, b, c, d]⟩, tail)
      else none
    | _, _ => none

theorem scalars_of_sequence? {text tail : Text} {scalar : Scalar}
    (found : sequence? text = some (scalar, tail)) :
    scalars text = scalar :: scalars tail := by
  unfold sequence? at found
  split at found
  · simp at found
  · split at found <;> simp_all [scalars.eq_def (_ :: _)]

theorem scalars_of_no_sequence {a : UInt8} {rest : Text}
    (absent : sequence? (a :: rest) = none) :
    scalars (a :: rest) = illFormed a :: scalars rest := by
  simp only [sequence?] at absent
  rw [scalars.eq_def]
  split at absent <;> simp_all
  split <;> simp_all
  all_goals split <;> simp_all [scalars]

theorem sequence?_bytes {text tail : Text} {scalar : Scalar}
    (found : sequence? text = some (scalar, tail)) :
    text = scalar.bytes ++ tail ∧ scalar.bytes ≠ [] := by
  unfold sequence? at found
  grind

theorem sequence?_cases {text tail : Text} {scalar : Scalar}
    (found : sequence? text = some (scalar, tail)) :
    (∃ a, announced a = 1 ∧ scalar = ⟨Char.ofNat a.toNat, [a]⟩) ∨
    (∃ a b, announced a = 2 ∧ isContinuation b ∧ scalar = ⟨Char.ofNat (code2 a b), [a, b]⟩) ∨
    (∃ a b c, announced a = 3 ∧ isSecond a b ∧ isContinuation c ∧
      scalar = ⟨Char.ofNat (code3 a b c), [a, b, c]⟩) ∨
    ∃ a b c d, announced a = 4 ∧ isSecond a b ∧ isContinuation c ∧ isContinuation d ∧
      scalar = ⟨Char.ofNat (code4 a b c d), [a, b, c, d]⟩ := by
  unfold sequence? at found
  split at found
  · cases found
  · split at found
    · next one =>
        cases found
        exact .inl ⟨_, one, rfl⟩
    · next two =>
        split at found
        · next second =>
            cases found
            exact .inr (.inl ⟨_, _, two, second, rfl⟩)
        · cases found
    · next three =>
        split at found
        · next others =>
            obtain ⟨second, third⟩ := Bool.and_eq_true_iff.mp others
            cases found
            exact .inr (.inr (.inl ⟨_, _, _, three, second, third, rfl⟩))
        · cases found
    · next four =>
        split at found
        · next others =>
            obtain ⟨⟨second, third⟩, fourth⟩ : (isSecond _ _ ∧ isContinuation _) ∧
                isContinuation _ := by simpa using others
            cases found
            exact .inr (.inr (.inr ⟨_, _, _, _, four, second, third, fourth, rfl⟩))
        · cases found
    · cases found

/-- A text is read one well-formed sequence or one loose byte at a time. -/
theorem sequence_induction {motive : Text → Prop} (nil : motive [])
    (whole : ∀ text scalar tail, sequence? text = some (scalar, tail) →
      motive tail → motive text)
    (loose : ∀ a rest, sequence? (a :: rest) = none → motive rest → motive (a :: rest))
    (text : Text) : motive text := by
  induction size : text.length using Nat.strongRecOn generalizing text with
  | _ n shorter =>
      cases text with
      | nil => exact nil
      | cons a rest =>
          cases found : sequence? (a :: rest) with
          | none =>
              refine loose a rest found (shorter rest.length ?_ rest rfl)
              simp only [List.length_cons] at size
              omega
          | some result =>
              obtain ⟨scalar, tail⟩ := result
              obtain ⟨split, nonempty⟩ := sequence?_bytes found
              refine whole _ scalar tail found (shorter tail.length ?_ tail rfl)
              have positive := List.length_pos_iff.mpr nonempty
              rw [← size, split, List.length_append]
              omega

theorem sequence?_append {left tail : Text} {scalar : Scalar}
    (found : sequence? left = some (scalar, tail)) (right : Text) :
    sequence? (left ++ right) = some (scalar, tail ++ right) := by
  unfold sequence? at found ⊢
  grind

theorem not_isSecond_of_not_isContinuation {lead byte : UInt8}
    (h : isContinuation byte = false) : isSecond lead byte = false := by
  simp only [isContinuation, isSecond, secondBounds] at *
  grind

theorem sequence?_append_none {a : UInt8} {rest right : Text}
    (absent : sequence? (a :: rest) = none)
    (boundary : ∀ byte ∈ right.head?, isContinuation byte = false) :
    sequence? (a :: (rest ++ right)) = none := by
  cases right with
  | nil => simpa using absent
  | cons byte right =>
      have breaks : isContinuation byte = false := boundary byte rfl
      have second : isSecond a byte = false := not_isSecond_of_not_isContinuation breaks
      simp only [sequence?] at absent ⊢
      rcases rest with _ | ⟨b, _ | ⟨c, _ | ⟨d, rest⟩⟩⟩ <;>
        simp only [List.cons_append, List.nil_append] at absent ⊢ <;> split <;> simp_all

/-! Cuts that no character reaches over. -/

def Seam (left right : Text) : Prop :=
  (∀ byte ∈ left.getLast?, Text.isAscii byte) ∨
    ∀ byte ∈ right.head?, isContinuation byte = false

theorem not_isContinuation_of_isAscii {byte : UInt8} (h : Text.isAscii byte) :
    isContinuation byte = false := by
  simp only [Text.isAscii, isContinuation] at *
  grind

theorem announced_of_isAscii {byte : UInt8} (h : Text.isAscii byte) : announced byte = 1 := by
  simp only [Text.isAscii, announced] at *
  grind

theorem announced_of_isContinuation {byte : UInt8} (h : isContinuation byte) :
    announced byte = 0 := by
  simp only [isContinuation, announced] at *
  grind

@[simp] theorem Seam.nil_left (right : Text) : Seam [] right :=
  .inl (by simp)

@[simp] theorem Seam.nil_right (left : Text) : Seam left [] :=
  .inr (by simp)

theorem Seam.cons_right {byte : UInt8} (left right : Text) (h : Text.isAscii byte) :
    Seam left (byte :: right) :=
  .inr (by simpa using not_isContinuation_of_isAscii h)

theorem Seam.append_right {left right : Text} (behind : Text) (nonempty : right ≠ [])
    (h : Seam left right) : Seam left (right ++ behind) := by
  refine h.imp_right fun begins byte member => begins byte ?_
  cases right with
  | nil => contradiction
  | cons first rest => exact member

theorem scalars_cons_of_isAscii {byte : UInt8} (h : Text.isAscii byte) (rest : Text) :
    scalars (byte :: rest) = ⟨Char.ofNat byte.toNat, [byte]⟩ :: scalars rest :=
  scalars_of_sequence? (by simp [sequence?, announced_of_isAscii h])

theorem scalars_append_of_head (left right : Text)
    (boundary : ∀ byte ∈ right.head?, isContinuation byte = false) :
    scalars (left ++ right) = scalars left ++ scalars right := by
  induction left using sequence_induction with
  | nil => simp [scalars]
  | whole text scalar tail found ih =>
      rw [scalars_of_sequence? found, scalars_of_sequence? (sequence?_append found right), ih,
        List.cons_append]
  | loose a rest absent ih =>
      rw [List.cons_append, scalars_of_no_sequence absent,
        scalars_of_no_sequence (sequence?_append_none absent boundary), ih, List.cons_append]

theorem Seam.scalars_append {left right : Text} (seam : Seam left right) :
    scalars (left ++ right) = scalars left ++ scalars right := by
  rcases seam with ends | begins
  · rcases List.eq_nil_or_concat left with rfl | ⟨front, byte, rfl⟩
    · simp [scalars]
    · have ascii : Text.isAscii byte := ends byte (by simp)
      have boundary : ∀ rest : Text,
          ∀ b ∈ (byte :: rest).head?, isContinuation b = false := by
        simpa using not_isContinuation_of_isAscii ascii
      rw [List.concat_eq_append, List.append_assoc, List.singleton_append,
        scalars_append_of_head front _ (boundary _), scalars_append_of_head front _ (boundary _),
        scalars_cons_of_isAscii ascii, scalars_cons_of_isAscii ascii]
      simp [scalars]
  · exact scalars_append_of_head left right begins

theorem isIllFormed_illFormed (byte : UInt8) : (illFormed byte).isIllFormed = true := by
  simp [illFormed, Scalar.isIllFormed]

theorem scalars_append_of_isValid {left : Text} (valid : isValid left) (right : Text) :
    scalars (left ++ right) = scalars left ++ scalars right := by
  induction left using sequence_induction with
  | nil => simp [scalars]
  | whole text scalar tail found ih =>
      rw [isValid, scalars_of_sequence? found, List.all_cons, Bool.and_eq_true] at valid
      rw [scalars_of_sequence? found, scalars_of_sequence? (sequence?_append found right),
        ih valid.2, List.cons_append]
  | loose a rest absent ih =>
      rw [isValid, scalars_of_no_sequence absent] at valid
      simp [isIllFormed_illFormed] at valid

end HdlAlign.Utf8

namespace HdlAlign.Text

open Utf8

/-! White space and what is left when it is deleted. -/

def isWhiteChar (c : Char) : Bool :=
  (0x09 ≤ c.toNat && c.toNat ≤ 0x0D) || c.toNat == 0x20 || c.toNat == 0x85 || c.toNat == 0xA0 ||
    c.toNat == 0x1680 || (0x2000 ≤ c.toNat && c.toNat ≤ 0x200A) || c.toNat == 0x2028 ||
    c.toNat == 0x2029 || c.toNat == 0x202F || c.toNat == 0x205F || c.toNat == 0x3000

/-- The characters of a text with all white space deleted. -/
def solid (text : Text) : List Scalar :=
  (scalars text).filter fun scalar => !isWhiteChar scalar.char

@[simp] theorem solid_nil : solid [] = [] := rfl

theorem solid_append {left right : Text} (seam : Seam left right) :
    solid (left ++ right) = solid left ++ solid right := by
  simp [solid, seam.scalars_append]

theorem solid_append_of_isValid {left : Text} (valid : isValid left) (right : Text) :
    solid (left ++ right) = solid left ++ solid right := by
  simp [solid, scalars_append_of_isValid valid]

theorem solid_cons {byte : UInt8} (ascii : isAscii byte) (rest : Text) :
    solid (byte :: rest) = solid [byte] ++ solid rest := by
  simp [solid, scalars_cons_of_isAscii ascii, List.filter_cons, scalars]
  split <;> rfl

def White (text : Text) : Prop := solid text = []

theorem White.nil : White [] := rfl

theorem White.isValid {text : Text} (white : White text) : Utf8.isValid text := by
  rw [White, solid, List.filter_eq_nil_iff] at white
  rw [Utf8.isValid, List.all_eq_true]
  intro scalar member
  have blank : isWhiteChar scalar.char = true := by simpa using white scalar member
  have other : scalar.char ≠ replacement := by
    intro same
    rw [same] at blank
    exact absurd blank (by decide)
  simp [Scalar.isIllFormed, other]

theorem White.head {text : Text} (white : White text) :
    ∀ byte ∈ text.head?, isContinuation byte = false := by
  cases text with
  | nil => simp
  | cons a rest =>
      have valid := white.isValid
      simp only [List.head?_cons, Option.mem_some, forall_eq']
      rw [← Bool.not_eq_true]
      intro continues
      have absent : sequence? (a :: rest) = none := by
        simp [sequence?, announced_of_isContinuation continues]
      rw [Utf8.isValid, scalars_of_no_sequence absent] at valid
      simp [isIllFormed_illFormed] at valid

theorem White.solid_append_left {white : Text} (h : White white) (text : Text) :
    solid (white ++ text) = solid text := by
  rw [solid_append_of_isValid h.isValid, h, List.nil_append]

theorem White.solid_append_right {white : Text} (h : White white) (text : Text) :
    solid (text ++ white) = solid text := by
  rw [solid_append (.inr h.head), h, List.append_nil]

theorem White.append {left right : Text} (first : White left) (second : White right) :
    White (left ++ right) := by
  rw [White, first.solid_append_left, second]

theorem forall_byte {P : UInt8 → Prop} (h : ∀ n : Fin 256, P (UInt8.ofNat n)) (byte : UInt8) :
    P byte := by
  have number := h ⟨byte.toNat, byte.toNat_lt⟩
  simpa using number

/-- Decides over the members of a list without carrying a proof along the list, so that evaluation
is quick. -/
instance decidableForallMem {α : Type*} (items : List α) (p : α → Prop) [DecidablePred p] :
    Decidable (∀ item ∈ items, p item) :=
  decidable_of_iff (items.all fun item => decide (p item)) (by
    simp only [List.all_eq_true, decide_eq_true_eq])

theorem White.of_isWhite1 {a : UInt8} (h : isWhite1 a) : White [a] := by
  have checked : ∀ byte : UInt8, isWhite1 byte = true → solid [byte] = [] :=
    forall_byte (by decide +kernel)
  exact checked a h

theorem White.of_isWhite2 {a b : UInt8} (h : isWhite2 a b) : White [a, b] := by
  simp only [isWhite2, Bool.and_eq_true, Bool.or_eq_true, beq_iff_eq] at h
  rcases h with ⟨rfl, rfl | rfl⟩
  · exact (by decide : solid [0xC2, 0x85] = [])
  · exact (by decide : solid [0xC2, 0xA0] = [])

theorem White.of_isWhite3 {a b c : UInt8} (h : isWhite3 a b c) : White [a, b, c] := by
  have checked : ∀ byte : UInt8, isWhite3 0xE2 0x80 byte = true → solid [0xE2, 0x80, byte] = [] :=
    forall_byte (by decide +kernel)
  simp only [isWhite3, Bool.and_eq_true, Bool.or_eq_true, beq_iff_eq] at h
  rcases h with ((⟨⟨rfl, rfl⟩, rfl⟩ | ⟨⟨rfl, rfl⟩, last⟩) | ⟨⟨rfl, rfl⟩, rfl⟩) | ⟨⟨rfl, rfl⟩, rfl⟩
  · exact (by decide : solid [0xE1, 0x9A, 0x80] = [])
  · refine checked c ?_
    simpa [isWhite3] using last
  · exact (by decide : solid [0xE2, 0x81, 0x9F] = [])
  · exact (by decide : solid [0xE3, 0x80, 0x80] = [])

/-! The other way round: the code points of white space, byte by byte. -/

theorem code_of_isWhiteChar {n : Nat} (white : isWhiteChar (Char.ofNat n)) :
    (0x09 ≤ n ∧ n ≤ 0x0D) ∨ n = 0x20 ∨ n = 0x85 ∨ n = 0xA0 ∨ n = 0x1680 ∨
      (0x2000 ≤ n ∧ n ≤ 0x200A) ∨ n = 0x2028 ∨ n = 0x2029 ∨ n = 0x202F ∨ n = 0x205F ∨
        n = 0x3000 := by
  by_cases valid : n.isValidChar
  · have code : (Char.ofNat n).toNat = n := by simp [Char.ofNat, valid, Char.toNat, Char.ofNatAux]
    simpa [isWhiteChar, code, or_assoc] using white
  · have zero : Char.ofNat n = Char.ofNat 0 := by
      rw [Char.ofNat, dif_neg valid]
      rfl
    rw [zero] at white
    exact absurd white (by decide)

theorem isWhite2_of_isWhiteChar {a b : UInt8} (lead : announced a = 2) (second : isContinuation b)
    (white : isWhiteChar (Char.ofNat (code2 a b))) : isWhite2 a b := by
  have leadBounds := (announced_iff a).2.1.mp lead
  have bounds := (isContinuation_iff b).mp second
  have codes := code_of_isWhiteChar white
  simp [code2, payload] at codes
  simp [isWhite2, ← UInt8.toNat_inj]
  omega

theorem isWhite3_of_isWhiteChar {a b c : UInt8} (lead : announced a = 3) (second : isSecond a b)
    (third : isContinuation c)
    (white : isWhiteChar (Char.ofNat (code3 a b c))) : isWhite3 a b c := by
  have leadBounds := (announced_iff a).2.2.1.mp lead
  have secondBounds := (isSecond_iff a b).mp second
  have thirdBounds := (isContinuation_iff c).mp third
  have code : code3 a b c =
      (a.toNat - 0xE0) * 4096 + (b.toNat - 0x80) * 64 + (c.toNat - 0x80) := by
    simp [code3, payload]
    omega
  have codes := code_of_isWhiteChar white
  rw [code] at codes
  have groups : (a.toNat = 0xE1 ∧ b.toNat = 0x9A ∧ c.toNat = 0x80) ∨
      (a.toNat = 0xE2 ∧ b.toNat = 0x80 ∧ ((0x80 ≤ c.toNat ∧ c.toNat ≤ 0x8A) ∨
        c.toNat = 0xA8 ∨ c.toNat = 0xA9 ∨ c.toNat = 0xAF)) ∨
      (a.toNat = 0xE2 ∧ b.toNat = 0x81 ∧ c.toNat = 0x9F) ∨
      (a.toNat = 0xE3 ∧ b.toNat = 0x80 ∧ c.toNat = 0x80) := by
    rcases codes with h | h | h | h | h | h | h | h | h | h | h
    · exact absurd h (by omega)
    · exact absurd h (by omega)
    · exact absurd h (by omega)
    · exact absurd h (by omega)
    · exact .inl ⟨by omega, by omega, by omega⟩
    · exact .inr (.inl ⟨by omega, by omega, .inl ⟨by omega, by omega⟩⟩)
    · exact .inr (.inl ⟨by omega, by omega, .inr (.inl (by omega))⟩)
    · exact .inr (.inl ⟨by omega, by omega, .inr (.inr (.inl (by omega)))⟩)
    · exact .inr (.inl ⟨by omega, by omega, .inr (.inr (.inr (by omega)))⟩)
    · exact .inr (.inr (.inl ⟨by omega, by omega, by omega⟩))
    · exact .inr (.inr (.inr ⟨by omega, by omega, by omega⟩))
  simpa [isWhite3, ← UInt8.toNat_inj, UInt8.le_iff_toNat_le, or_assoc, and_assoc] using groups

theorem not_isWhiteChar_code4 {a b c d : UInt8} (lead : announced a = 4) (second : isSecond a b) :
    isWhiteChar (Char.ofNat (code4 a b c d)) = false := by
  have leadBounds := (announced_iff a).2.2.2.mp lead
  have secondBounds := (isSecond_iff a b).mp second
  rw [← Bool.not_eq_true]
  intro white
  have codes := code_of_isWhiteChar white
  simp [code4, payload] at codes
  omega

theorem isWhite1_of_isWhiteChar {a : UInt8} (lead : announced a = 1)
    (white : isWhiteChar (Char.ofNat a.toNat)) : isWhite1 a := by
  have checked : ∀ byte : UInt8, announced byte = 1 → isWhiteChar (Char.ofNat byte.toNat) →
      isWhite1 byte := forall_byte (by decide +kernel)
  exact checked a lead white

end HdlAlign.Text

namespace HdlAlign.Utf8

open Text

theorem isValid_of_isAscii {text : Text} (ascii : ∀ byte ∈ text, isAscii byte) : isValid text := by
  induction text with
  | nil => rfl
  | cons byte text ih =>
      have first : isAscii byte := ascii byte (by simp)
      have single : ∀ byte : UInt8, isAscii byte →
          Scalar.isIllFormed ⟨Char.ofNat byte.toNat, [byte]⟩ = false := forall_byte (by decide +kernel)
      rw [isValid, scalars_cons_of_isAscii first, List.all_cons, single byte first]
      exact ih fun other member => ascii other (by simp [member])

end HdlAlign.Utf8
