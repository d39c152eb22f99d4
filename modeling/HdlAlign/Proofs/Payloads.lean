import HdlAlign.Cache.Payload
import Mathlib

/-! Reading a payload gives back what was written. -/

namespace HdlAlign.Cache

/-! Numbers -/

theorem length_bytesOf (size n : Nat) : (bytesOf size n).length = size := by
  induction size generalizing n with
  | zero => rfl
  | succ size ih => rw [bytesOf, List.length_append, ih, List.length_singleton]

theorem numberOf_concat (bytes : Text) (byte : UInt8) :
    numberOf (bytes ++ [byte]) = numberOf bytes * 256 + byte.toNat := by
  rw [numberOf, List.foldl_append]
  rfl

theorem numberOf_bytesOf (size n : Nat) : numberOf (bytesOf size n) = n % 256 ^ size := by
  induction size generalizing n with
  | zero => exact (Nat.mod_one n).symm
  | succ size ih =>
      rw [bytesOf, numberOf_concat, ih, Nat.pow_succ, Nat.mul_comm (256 ^ size), Nat.mod_mul,
        Nat.add_comm, Nat.mul_comm 256]
      rfl

theorem take?_append {n : Nat} {bytes : Text} (length : bytes.length = n) (rest : Text) :
    take? n (bytes ++ rest) = some (bytes, rest) := by
  subst length
  rw [take?, if_neg (by rw [List.length_append]; omega), List.take_left, List.drop_left]

theorem number?_bytesOf {size n : Nat} (fits : n < 256 ^ size) (rest : Text) :
    number? size (bytesOf size n ++ rest) = some (n, rest) := by
  rw [number?, take?_append (length_bytesOf size n)]
  show some (numberOf (bytesOf size n), rest) = _
  rw [numberOf_bytesOf, Nat.mod_eq_of_lt fits]

def Narrow (n : Int) : Prop := -0x8000000000000000 ≤ n ∧ n < 0x8000000000000000

def low (bits : Nat) (n : Int) : Nat := (n.emod (Nat.pow 2 bits)).toNat

theorem low_eq (bits : Nat) (n : Int) : (low bits n : Int) = n % (2 ^ bits : Nat) :=
  Int.toNat_of_nonneg (Int.emod_nonneg n (Int.natCast_ne_zero.mpr (Nat.ne_of_gt (Nat.two_pow_pos bits))))

theorem low_lt (size : Nat) (n : Int) : low (8 * size) n < 256 ^ size := by
  have small : n % (2 ^ (8 * size) : Nat) < (2 ^ (8 * size) : Nat) :=
    Int.emod_lt_of_pos n (by exact_mod_cast Nat.two_pow_pos (8 * size))
  rw [← low_eq] at small
  rw [show 256 ^ size = 2 ^ (8 * size) from (Nat.pow_mul 2 8 size).symm]
  exact_mod_cast small

theorem low_of_nonneg {bits : Nat} {n : Int} (nonneg : 0 ≤ n) (small : n < (2 ^ bits : Nat)) :
    (low bits n : Int) = n :=
  (low_eq bits n).trans (Int.emod_eq_of_lt nonneg small)

theorem ofBits_low {bits : Nat} {n : Int} (least : -(2 ^ bits : Nat) ≤ 2 * n)
    (most : 2 * n < (2 ^ bits : Nat)) : ofBits bits (low bits n) = n := by
  have value := low_eq bits n
  rw [ofBits]
  show (if 2 * low bits n < 2 ^ bits then _ else (low bits n : Int) - (2 ^ bits : Nat)) = n
  by_cases nonneg : 0 ≤ n
  · rw [Int.emod_eq_of_lt nonneg (by omega)] at value
    rw [if_pos (by omega), value]
  · rw [← Int.add_emod_right, Int.emod_eq_of_lt (by omega) (by omega)] at value
    rw [if_neg (by omega), value]
    omega

theorem number?_low (size : Nat) (n : Int) (rest : Text) :
    number? size (bytesOf size (low (8 * size) n) ++ rest) = some (low (8 * size) n, rest) :=
  number?_bytesOf (low_lt size n) rest

theorem int?_mark {n : Int} (least : -32 ≤ n) (most : n < 128) (rest : Text) :
    int? (bytesOf 1 (low 8 n) ++ rest) = some (n, rest) := by
  have value := low_eq 8 n
  have mark : (low 8 n).toUInt8.toNat = low 8 n := by
    rw [Nat.toUInt8_eq, UInt8.toNat_ofNat']
    exact Nat.mod_eq_of_lt (low_lt 1 n)
  have plain : (low 8 n).toUInt8 < 0x80 ∨ 0xE0 ≤ (low 8 n).toUInt8 := by
    rw [UInt8.lt_iff_toNat_lt, UInt8.le_iff_toNat_le, mark]
    show low 8 n < 128 ∨ 224 ≤ low 8 n
    omega
  show int? ((low 8 n).toUInt8 :: rest) = _
  rw [int?, if_pos (by simpa using plain), mark, ofBits_low (by omega) (by omega)]

theorem int?_intBytes {n : Int} (narrow : Narrow n) (rest : Text) :
    int? (intBytes n ++ rest) = some (n, rest) := by
  obtain ⟨least, most⟩ := narrow
  have plain (size : Nat) (nonneg : 0 ≤ n) (small : n < (2 ^ (8 * size) : Nat)) :
      (number? size (bytesOf size (low (8 * size) n) ++ rest)).map
          (fun read => ((read.1 : Int), read.2)) = some (n, rest) := by
    rw [number?_low, Option.map_some, low_of_nonneg nonneg small]
  have signed (size : Nat) (least : -(2 ^ (8 * size) : Nat) ≤ 2 * n)
      (most : 2 * n < (2 ^ (8 * size) : Nat)) :
      (number? size (bytesOf size (low (8 * size) n) ++ rest)).map
          (fun read => (ofBits (8 * size) read.1, read.2)) = some (n, rest) := by
    rw [number?_low, Option.map_some, ofBits_low least most]
  simp only [intBytes]
  split
  · next nonneg =>
      split
      · next small => exact int?_mark (by omega) small rest
      · split
        · next small => exact plain 1 nonneg (by omega)
        · split
          · next small => exact plain 2 nonneg (by omega)
          · split
            · next small => exact plain 4 nonneg (by omega)
            · exact signed 8 (by omega) (by omega)
  · next negative =>
      split
      · next small => exact int?_mark small (by omega) rest
      · split
        · next small => exact signed 1 (by omega) (by omega)
        · split
          · next small => exact signed 2 (by omega) (by omega)
          · split
            · next small => exact signed 4 (by omega) (by omega)
            · exact signed 8 (by omega) (by omega)

theorem intBytes_ne_nil (n : Int) : intBytes n ≠ [] := by
  simp only [intBytes]
  repeat' split
  all_goals exact List.cons_ne_nil _ _

/-! Lengths -/

theorem toNat_add_ofNat {mark : UInt8} {n : Nat} (fits : mark.toNat + n < 256) :
    (mark + n.toUInt8).toNat = mark.toNat + n := by
  rw [UInt8.toNat_add, Nat.toUInt8_eq, UInt8.toNat_ofNat']
  omega

theorem textLength?_lengthBytes {n : Nat} (fits : n < 2 ^ 32) (rest : Text) :
    textLength? (lengthBytes 32 0xA0 0xD9 0xDA 0xDB n ++ rest) = some (n, rest) := by
  rw [lengthBytes]
  split
  · next short =>
      have mark : (0xA0 + n.toUInt8).toNat = 160 + n := toNat_add_ofNat (show 160 + n < 256 by omega)
      have inside : (0xA0 : UInt8) ≤ 0xA0 + n.toUInt8 ∧ 0xA0 + n.toUInt8 < (0xC0 : UInt8) := by
        rw [UInt8.lt_iff_toNat_lt, UInt8.le_iff_toNat_le, mark]
        show 160 ≤ 160 + n ∧ 160 + n < 192
        omega
      rw [List.singleton_append, textLength?, if_pos (by simpa using inside), mark,
        Nat.add_sub_cancel_left]
  · split
    · next small => exact number?_bytesOf (by simp at small; omega) rest
    · split
      · next medium => exact number?_bytesOf (by omega) rest
      · exact number?_bytesOf (by omega) rest

theorem arrayLength?_lengthBytes {n : Nat} (fits : n < 2 ^ 32) (rest : Text) :
    arrayLength? (lengthBytes 16 0x90 0 0xDC 0xDD n ++ rest) = some (some n, rest) := by
  rw [lengthBytes]
  split
  · next short =>
      have mark : (0x90 + n.toUInt8).toNat = 144 + n := toNat_add_ofNat (show 144 + n < 256 by omega)
      have inside : (0x90 : UInt8) ≤ 0x90 + n.toUInt8 ∧ 0x90 + n.toUInt8 < (0xA0 : UInt8) := by
        rw [UInt8.lt_iff_toNat_lt, UInt8.le_iff_toNat_le, mark]
        show 144 ≤ 144 + n ∧ 144 + n < 160
        omega
      rw [List.singleton_append, arrayLength?, if_pos (by simpa using inside), mark,
        Nat.add_sub_cancel_left]
  · have noMark : (decide (n < 256) && (0 : UInt8) != 0) = false := by simp
    rw [noMark, if_neg Bool.false_ne_true]
    have counted (size : Nat) (fits : n < 256 ^ size) :
        (number? size (bytesOf size n ++ rest)).map (fun read => (some read.1, read.2)) =
          some (some n, rest) := by
      rw [number?_bytesOf fits, Option.map_some]
    split
    · next medium => exact counted 2 (by omega)
    · exact counted 4 (by omega)

/-! Values of fields -/

theorem text?_textBytes {text : Text} (fits : text.length < 2 ^ 32) (rest : Text) :
    text? (textBytes text ++ rest) = some (text, rest) := by
  rw [text?, textBytes, List.append_assoc, textLength?_lengthBytes fits]
  exact take?_append rfl rest

theorem bool?_boolBytes (b : Bool) (rest : Text) : bool? (boolBytes b ++ rest) = some (b, rest) := by
  cases b <;> rfl

theorem length_le_flatMap_intBytes (ns : List Int) : ns.length ≤ (ns.flatMap intBytes).length := by
  induction ns with
  | nil => exact Nat.le_refl 0
  | cons n ns ih =>
      have nonempty := List.length_pos_iff.mpr (intBytes_ne_nil n)
      rw [List.flatMap_cons, List.length_append, List.length_cons]
      omega

theorem ints?_flatMap {ns : List Int} (narrow : ∀ n ∈ ns, Narrow n) (rest : Text) :
    ints? ns.length (ns.flatMap intBytes ++ rest) = some (ns, rest) := by
  induction ns with
  | nil => rfl
  | cons n ns ih =>
      have tail := ih fun m member => narrow m (List.mem_cons_of_mem n member)
      simp only [List.flatMap_cons, List.append_assoc, List.length_cons, ints?,
        int?_intBytes (narrow n List.mem_cons_self), tail, Option.bind_eq_bind, Option.bind_some]

/-- A list that the format can express. -/
def ListFits (list : Option (List Int)) : Prop :=
  ∀ ns, list = some ns → ns.length < 2 ^ 32 ∧ ∀ n ∈ ns, Narrow n

theorem list?_listBytes {list : Option (List Int)} (fits : ListFits list) (rest : Text) :
    list? (listBytes list ++ rest) = some (list, rest) := by
  cases list with
  | none => rfl
  | some ns =>
      obtain ⟨short, narrow⟩ := fits ns rfl
      rw [list?, listBytes, List.append_assoc, arrayLength?_lengthBytes short]
      have enough : ¬ (ns.flatMap intBytes ++ rest).length < ns.length := by
        have least := length_le_flatMap_intBytes ns
        rw [List.length_append]
        omega
      show (if (ns.flatMap intBytes ++ rest).length < ns.length then none else _) = _
      rw [if_neg enough, ints?_flatMap narrow]
      rfl

/-! Fields -/

namespace Payload

/-- A payload that the format can express: lengths have 32 bits, integers 64. -/
structure Fits (payload : Payload) : Prop where
  text : payload.text.length < 2 ^ 32
  verbatim : ListFits payload.verbatim
  count : Narrow payload.count

end Payload

namespace Field

def copy (source : Payload) (field : Field) (payload : Payload) : Payload :=
  match field with
  | schema => { payload with schema := source.schema }
  | text => { payload with text := source.text }
  | mode => { payload with mode := source.mode }
  | verbatim => { payload with verbatim := source.verbatim }
  | rangeMismatch => { payload with rangeMismatch := source.rangeMismatch }
  | count => { payload with count := source.count }

theorem foldl_copy (source payload : Payload) :
    all.foldl (fun payload field => field.copy source payload) payload = source := rfl

theorem int?_word {size : Nat} {mark : UInt8} {n : Nat} (fits : n < 256 ^ size) (rest : Text)
    (plain : ∀ bytes, int? (mark :: bytes) =
      (number? size bytes).map fun read => ((read.1 : Int), read.2)) :
    int? (mark :: bytesOf size n ++ rest) = some ((n : Int), rest) := by
  rw [List.cons_append, plain, number?_bytesOf fits, Option.map_some]

theorem decode?_encode (field : Field) {source : Payload} (fits : source.Fits) (payload : Payload)
    (rest : Text) :
    field.decode? payload (field.encode source ++ rest) = some (field.copy source payload, rest) := by
  cases field with
  | schema =>
      have word := @int?_word 2 0xCD _ source.schema.toNat_lt rest fun _ => rfl
      have same : (Int.emod source.schema.toNat 65536).toNat.toUInt16 = source.schema := by
        have value : Int.emod source.schema.toNat 65536 = source.schema.toNat :=
          Int.emod_eq_of_lt (Int.natCast_nonneg _) (Int.ofNat_lt.mpr source.schema.toNat_lt)
        rw [value, Int.toNat_natCast, Nat.toUInt16_eq, UInt16.ofNat_toNat]
      simp only [decode?, encode, word, copy, Option.map_some, same]
  | text => simp only [decode?, encode, text?_textBytes fits.text, copy, Option.map_some]
  | mode =>
      have word := @int?_word 1 0xCC _ source.mode.toNat_lt rest fun _ => rfl
      have same : (Int.emod source.mode.toNat 256).toNat.toUInt8 = source.mode := by
        have value : Int.emod source.mode.toNat 256 = source.mode.toNat :=
          Int.emod_eq_of_lt (Int.natCast_nonneg _) (Int.ofNat_lt.mpr source.mode.toNat_lt)
        rw [value, Int.toNat_natCast, Nat.toUInt8_eq, UInt8.ofNat_toNat]
      simp only [decode?, encode, word, copy, Option.map_some, same]
  | verbatim => simp only [decode?, encode, list?_listBytes fits.verbatim, copy, Option.map_some]
  | rangeMismatch => simp only [decode?, encode, bool?_boolBytes, copy, Option.map_some]
  | count => simp only [decode?, encode, int?_intBytes fits.count, copy, Option.map_some]

theorem find?_name (field : Field) : (all.find? fun other => other.name = field.name) = some field := by
  cases field <;> decide

theorem length_name (field : Field) : field.name.length < 2 ^ 32 := by
  cases field <;> decide

theorem decodeNamed?_flatMap {source : Payload} (fits : source.Fits) (payload : Payload)
    (fields : List Field) :
    decodeNamed? payload fields.length
        (fields.flatMap fun field => textBytes field.name ++ field.encode source) =
      some (fields.foldl (fun payload field => field.copy source payload) payload) := by
  induction fields generalizing payload with
  | nil => rfl
  | cons field fields ih =>
      simp only [List.flatMap_cons, List.append_assoc, List.length_cons, decodeNamed?,
        text?_textBytes field.length_name, find?_name, decode?_encode field fits,
        Option.bind_eq_bind, Option.bind_some, List.foldl_cons, ih]

end Field

theorem Payload.decode?_encode {payload : Payload} (fits : payload.Fits) :
    Payload.decode? payload.encode = some payload := by
  have named := Field.decodeNamed?_flatMap fits {} Field.all
  rw [Field.foldl_copy] at named
  exact named

end HdlAlign.Cache
