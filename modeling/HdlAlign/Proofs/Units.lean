import HdlAlign.Proofs.Sequences
import HdlAlign.Source.Encoding

/-! UTF-16: characters come back from their units, and well-formed units from their characters. -/

namespace HdlAlign.Storage

variable (big : Bool)

/-! Units of two bytes -/

theorem bytesOf_pair (unit : Nat) : ∃ a b, bytesOf big unit = [a, b] := by
  cases big
  · exact ⟨_, _, rfl⟩
  · exact ⟨_, _, rfl⟩

theorem unitOf_bytesOf {unit : Nat} (small : unit < 0x10000) {a b : UInt8}
    (bytes : bytesOf big unit = [a, b]) : unitOf big a b = unit := by
  cases big
  · obtain ⟨rfl, rfl⟩ : unit.toUInt8 = a ∧ (unit / 256).toUInt8 = b := by simpa [bytesOf] using bytes
    simp [unitOf]
    omega
  · obtain ⟨rfl, rfl⟩ : (unit / 256).toUInt8 = a ∧ unit.toUInt8 = b := by simpa [bytesOf] using bytes
    simp [unitOf]
    omega

theorem unitOf_lt (a b : UInt8) : unitOf big a b < 0x10000 := by
  have first := a.toNat_lt
  have second := b.toNat_lt
  cases big <;> simp [unitOf] <;> omega

theorem bytesOf_unitOf (a b : UInt8) : bytesOf big (unitOf big a b) = [a, b] := by
  have first := a.toNat_lt
  have second := b.toNat_lt
  cases big
  · simp [bytesOf, unitOf, ← UInt8.toNat_inj]
    omega
  · simp [bytesOf, unitOf, ← UInt8.toNat_inj]
    omega

/-! Characters from their units -/

theorem decode16_single {a b : UInt8} (rest : Text) (whole : isSurrogate (unitOf big a b) = false) :
    decode16 big (a :: b :: rest) = Char.ofNat (unitOf big a b) :: decode16 big rest := by
  rcases rest with _ | ⟨c, _ | ⟨d, rest⟩⟩
  · simp [decode16, single, whole]
  · simp [decode16, single, whole]
  · simp [decode16, single, whole]

theorem decode16_pair {a b c d : UInt8} (rest : Text) (high : isHigh (unitOf big a b))
    (low : isLow (unitOf big c d)) :
    decode16 big (a :: b :: c :: d :: rest) =
      Char.ofNat (0x10000 + (unitOf big a b - 0xD800) * 0x400 + (unitOf big c d - 0xDC00)) ::
        decode16 big rest := by
  have surrogate : isSurrogate (unitOf big a b) := by
    simp [isHigh, isSurrogate] at high ⊢
    omega
  simp [decode16, pair, surrogate, high, low]

theorem encode16_of_lt {c : Char} (basic : c.toNat < 0x10000) :
    encode16 big c = bytesOf big c.toNat := by
  rw [encode16, if_pos basic]

theorem encode16_of_le {c : Char} (far : 0x10000 ≤ c.toNat) :
    encode16 big c = bytesOf big (0xD800 + (c.toNat - 0x10000) / 0x400) ++
      bytesOf big (0xDC00 + (c.toNat - 0x10000) % 0x400) := by
  rw [encode16, if_neg (Nat.not_lt.mpr far)]

theorem decode16_encode16 (c : Char) (rest : Text) :
    decode16 big (encode16 big c ++ rest) = c :: decode16 big rest := by
  have bounds : c.toNat < 0xD800 ∨ 0xDFFF < c.toNat ∧ c.toNat < 0x110000 := c.valid
  by_cases basic : c.toNat < 0x10000
  · obtain ⟨a, b, bytes⟩ := bytesOf_pair big c.toNat
    have unit := unitOf_bytesOf big basic bytes
    have whole : isSurrogate (unitOf big a b) = false := by
      simp [unit, isSurrogate]
      omega
    rw [encode16_of_lt big basic, bytes, List.cons_append, List.cons_append, List.nil_append,
      decode16_single big rest whole, unit, Char.ofNat_toNat]
  · obtain ⟨a, b, first⟩ := bytesOf_pair big (0xD800 + (c.toNat - 0x10000) / 0x400)
    obtain ⟨e, f, second⟩ := bytesOf_pair big (0xDC00 + (c.toNat - 0x10000) % 0x400)
    have high := unitOf_bytesOf big (by omega) first
    have low := unitOf_bytesOf big (by omega) second
    have code : 0x10000 + (unitOf big a b - 0xD800) * 0x400 + (unitOf big e f - 0xDC00) =
        c.toNat := by omega
    rw [encode16_of_le big (Nat.not_lt.mp basic), first, second]
    show decode16 big (a :: b :: e :: f :: rest) = _
    rw [decode16_pair big rest, code, Char.ofNat_toNat]
    · simp [high, isHigh]
      omega
    · simp [low, isLow]
      omega

theorem decode16_flatMap (cs : List Char) : decode16 big (cs.flatMap (encode16 big)) = cs := by
  induction cs with
  | nil => rfl
  | cons c cs ih => rw [List.flatMap_cons, decode16_encode16, ih]

/-! Units from their characters -/

/-- Well-formed UTF-16: whole units, the surrogates among them in pairs of a high and a low one. -/
inductive Paired (big : Bool) : Text → Prop
  | nil : Paired big []
  | single {a b : UInt8} {rest : Text} : isSurrogate (unitOf big a b) = false → Paired big rest →
      Paired big (a :: b :: rest)
  | pair {a b c d : UInt8} {rest : Text} : isHigh (unitOf big a b) → isLow (unitOf big c d) →
      Paired big rest → Paired big (a :: b :: c :: d :: rest)

theorem encode16_single {a b : UInt8} (whole : isSurrogate (unitOf big a b) = false) :
    encode16 big (Char.ofNat (unitOf big a b)) = [a, b] := by
  have small := unitOf_lt big a b
  have code : (Char.ofNat (unitOf big a b)).toNat = unitOf big a b := by
    apply Utf8.toNat_ofNat
    simp [isSurrogate] at whole
    omega
  rw [encode16_of_lt big (by omega), code, bytesOf_unitOf]

theorem encode16_pair {a b c d : UInt8} (high : isHigh (unitOf big a b))
    (low : isLow (unitOf big c d)) :
    encode16 big (Char.ofNat
      (0x10000 + (unitOf big a b - 0xD800) * 0x400 + (unitOf big c d - 0xDC00))) =
      [a, b, c, d] := by
  simp only [isHigh, isLow, Bool.and_eq_true, decide_eq_true_eq] at high low
  have code := @Utf8.toNat_ofNat
    (0x10000 + (unitOf big a b - 0xD800) * 0x400 + (unitOf big c d - 0xDC00)) (by omega)
  rw [encode16_of_le big (by omega), code,
    show 0xD800 + _ / 0x400 = unitOf big a b by omega,
    show 0xDC00 + _ % 0x400 = unitOf big c d by omega, bytesOf_unitOf, bytesOf_unitOf]
  rfl

theorem flatMap_decode16 {body : Text} (paired : Paired big body) :
    (decode16 big body).flatMap (encode16 big) = body := by
  induction paired with
  | nil => rfl
  | single whole _ ih =>
      rw [decode16_single big _ whole, List.flatMap_cons, encode16_single big whole, ih]
      rfl
  | pair high low _ ih =>
      rw [decode16_pair big _ high low, List.flatMap_cons, encode16_pair big high low, ih]
      rfl

end HdlAlign.Storage
