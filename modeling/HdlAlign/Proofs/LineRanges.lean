import HdlAlign.Proofs.Normal
import HdlAlign.Proofs.Spacing
import HdlAlign.Source.LineRange

/-! Which lines the text of a range names.  An end that is left out and an end of zero are the same
to the range, so that a written zero opens it. -/

namespace HdlAlign

open Text

namespace Numeral

def accumulate (n : Nat) (digit : UInt8) : Nat := n * 10 + (digit.toNat - 48)

def value (digits : Text) : Nat := digits.foldl accumulate 0

inductive Spells : Text → Int → Prop
  | bare {digits : Text} (some : digits ≠ []) (all : ∀ digit ∈ digits, isDigit digit) :
      Spells digits (value digits)
  | plus {digits : Text} (some : digits ≠ []) (all : ∀ digit ∈ digits, isDigit digit) :
      Spells (('+' : UInt8) :: digits) (value digits)
  | minus {digits : Text} (some : digits ≠ []) (all : ∀ digit ∈ digits, isDigit digit) :
      Spells (('-' : UInt8) :: digits) (-(value digits : Int))

theorem le_foldl_accumulate (text : Text) (start : Nat) : start ≤ text.foldl accumulate start := by
  induction text generalizing start with
  | nil => exact Nat.le_refl start
  | cons digit rest ih =>
      refine Nat.le_trans ?_ (ih (accumulate start digit))
      rw [accumulate]
      omega

theorem digits_eq {text : Text} (all : ∀ digit ∈ text, isDigit digit) {start : Nat}
    (fits : text.foldl accumulate start < 0x10000000000000000) :
    digits start text = .ok (text.foldl accumulate start) := by
  induction text generalizing start with
  | nil => rfl
  | cons digit rest ih =>
      obtain ⟨isDigit, others⟩ := List.forall_mem_cons.mp all
      have small := Nat.lt_of_le_of_lt (le_foldl_accumulate rest (accumulate start digit)) fits
      rw [digits, if_pos isDigit]
      exact (if_neg (Nat.not_le.mpr small)).trans (ih others fits)

theorem magnitude_eq {text : Text} (some : text ≠ []) (all : ∀ digit ∈ text, isDigit digit)
    (fits : value text < 0x10000000000000000) : magnitude text = .ok (value text) := by
  rw [magnitude, if_neg (by simpa using some)]
  exact digits_eq all fits

theorem integer_of_spells {text : Text} {n : Int} (spells : Spells text n)
    (least : -0x8000000000000000 ≤ n) (most : n < 0x8000000000000000) : integer text = .ok n := by
  cases spells with
  | bare some all =>
      obtain ⟨first, rest, rfl⟩ := List.exists_cons_of_ne_nil some
      have isDigit := all first List.mem_cons_self
      have unsigned : first ≠ '-' ∧ first ≠ '+' := by
        constructor <;> rintro rfl <;> exact absurd isDigit (by decide)
      rw [integer, if_neg unsigned.1, if_neg unsigned.2, magnitude_eq some all (by omega)]
      exact if_pos (by omega)
  | plus some all =>
      rw [integer, if_neg (by decide), if_pos rfl, magnitude_eq some all (by omega)]
      exact if_pos (by omega)
  | minus some all =>
      rw [integer, if_pos rfl, magnitude_eq some all (by omega)]
      exact if_pos (by omega)

theorem Spells.mem {text : Text} {n : Int} (spells : Spells text n) {byte : UInt8}
    (member : byte ∈ text) : byte = '+' ∨ byte = '-' ∨ isDigit byte := by
  cases spells with
  | bare _ all => exact .inr (.inr (all byte member))
  | plus _ all =>
      rcases List.mem_cons.mp member with sign | digit
      · exact .inl sign
      · exact .inr (.inr (all byte digit))
  | minus _ all =>
      rcases List.mem_cons.mp member with sign | digit
      · exact .inr (.inl sign)
      · exact .inr (.inr (all byte digit))

theorem Spells.ne_nil {text : Text} {n : Int} (spells : Spells text n) : text ≠ [] := by
  cases spells with
  | bare some _ => exact some
  | plus => exact List.cons_ne_nil _ _
  | minus => exact List.cons_ne_nil _ _

theorem Spells.black {text : Text} {n : Int} (spells : Spells text n) {byte : UInt8}
    (member : byte ∈ text) : isAscii byte ∧ isWhite1 byte = false ∧ byte ≠ ':' := by
  have facts : ∀ byte : UInt8, byte = '+' ∨ byte = '-' ∨ isDigit byte →
      isAscii byte ∧ isWhite1 byte = false ∧ byte ≠ ':' :=
    forall_byte (by decide +kernel)
  exact facts byte (spells.mem member)

structure Writes (text : Text) (n : Int) : Prop where
  framed : ∃ before numeral after, text = before ++ numeral ++ after ∧ White before ∧ White after ∧
    Spells numeral n
  least : -0x8000000000000000 ≤ n
  most : n < 0x8000000000000000

namespace Writes

variable {text : Text} {n : Int}

theorem spells_trim (writes : Writes text n) : Spells (trim text) n := by
  obtain ⟨before, numeral, after, rfl, whiteBefore, whiteAfter, spells⟩ := writes.framed
  have bare := @trim_between [] numeral [] (by simp [Spaces]) (by simp [Spaces])
    (fun byte first => ⟨(spells.black (List.mem_of_mem_head? first)).1,
      (spells.black (List.mem_of_mem_head? first)).2.1⟩)
    fun byte last => ⟨(spells.black (List.mem_of_getLast? last)).1,
      (spells.black (List.mem_of_getLast? last)).2.1⟩
  rw [List.append_nil, List.nil_append] at bare
  rwa [whiteAfter.trim_append_right, whiteBefore.trim_append_left, bare]

theorem integer_trim (writes : Writes text n) : integer (trim text) = .ok n :=
  integer_of_spells writes.spells_trim writes.least writes.most

theorem colon_not_mem (writes : Writes text n) : (':' : UInt8) ∉ text := by
  obtain ⟨before, numeral, after, rfl, whiteBefore, whiteAfter, spells⟩ := writes.framed
  have black : isBlack (':' : UInt8) := by decide
  simp only [List.mem_append, not_or]
  exact ⟨⟨whiteBefore.not_mem_of_isBlack black, fun member => (spells.black member).2.2 rfl⟩,
    whiteAfter.not_mem_of_isBlack black⟩

end Writes

end Numeral

namespace Text

theorem trim_trimStart (text : Text) : trim (trimStart text) = trim text := by
  rw [trim, trimStart_trimStart, ← trim]

theorem trim_trimEnd (text : Text) : trim (trimEnd text) = trim text := by
  obtain ⟨white, isWhite, split⟩ := trimEnd_split text
  conv => rhs; rw [split, isWhite.trim_append_right]

theorem breakOn?_byte {byte : UInt8} {left : Text} (absent : byte ∉ left) (right : Text) :
    breakOn? [byte] (left ++ byte :: right) = some (left, byte :: right) := by
  induction left with
  | nil => simp [breakOn?, breakBefore?, startsWith]
  | cons first left ih =>
      obtain ⟨other, later⟩ := List.ne_and_not_mem_of_not_mem_cons absent
      have rest : breakBefore? (·.startsWith [byte]) (left ++ byte :: right) = _ := ih later
      rw [List.cons_append, breakOn?, breakBefore?, if_neg (by simp [startsWith, other]), rest]
      rfl

theorem breakOn?_byte_eq_none {byte : UInt8} {text : Text} (absent : byte ∉ text) :
    breakOn? [byte] text = none := by
  refine breakBefore?_eq_none_iff.mpr fun front back split => ?_
  rw [← Bool.not_eq_true, startsWith, List.isPrefixOf_iff_prefix]
  rintro ⟨rest, rfl⟩
  exact absent (by rw [split]; simp)

end Text

namespace LineRange

open Numeral

variable {first last white : Text} {a b : Int}

theorem isOrdered_iff : isOrdered ⟨a, b⟩ ↔ 1 ≤ a ∧ (a ≤ b ∨ b = 0) := by
  simp only [isOrdered, Bool.and_eq_true, Bool.or_eq_true, decide_eq_true_eq, beq_iff_eq]
  omega

theorem parse_colon (single : (':' : UInt8) ∉ first) (last : Text) :
    parse (first ++ (':' : UInt8) :: last) =
      (do
        let whole := trim (first ++ (':' : UInt8) :: last)
        let a ← readEnd whole (trimStart first) 1
        let b ← readEnd whole (trimEnd last) 0
        if isOrdered ⟨a, b⟩ then .ok ⟨a, b⟩ else .error (.unordered whole)) := by
  have ascii : isAscii (':' : UInt8) := by decide
  have cut : trim (first ++ (':' : UInt8) :: last) = trimStart first ++ (':' : UInt8) :: trimEnd last :=
    trim_append_byte ascii (by decide) first last
  have absent : (':' : UInt8) ∉ trimStart first := by
    obtain ⟨white, -, split⟩ := trimStart_split first
    rw [split] at single
    exact fun member => single (List.mem_append_right _ member)
  have ends : cutColon (trim (first ++ (':' : UInt8) :: last)) = (trimStart first, some (trimEnd last)) := by
    have found : breakOn? ":" (trimStart first ++ (':' : UInt8) :: trimEnd last) =
        some (trimStart first, (':' : UInt8) :: trimEnd last) := breakOn?_byte absent _
    rw [cutColon, cut, found]
    rfl
  have filled : (trim (first ++ (':' : UInt8) :: last)).isEmpty = false := by
    rw [cut]
    simp
  rw [parse]
  dsimp only
  rw [filled, ends]
  rfl

theorem readEnd_of_white (isWhite : White white) (whole : Text) (default : Int) :
    readEnd whole (trimStart white) default = .ok default ∧
      readEnd whole (trimEnd white) default = .ok default := by
  have finish : trimEnd white = [] := isWhite.trimEnd_append []
  rw [isWhite.trimStart, finish]
  exact ⟨rfl, rfl⟩

theorem readEnd_of_writes (writes : Writes first a) (whole : Text) (default : Int) :
    readEnd whole (trimStart first) default = .ok a ∧
      readEnd whole (trimEnd first) default = .ok a := by
  have shown {part : Text} (same : trim part = trim first) : readEnd whole part default = .ok a := by
    have filled : part ≠ [] := by
      rintro rfl
      exact writes.spells_trim.ne_nil same.symm
    rw [readEnd, if_neg (by simpa using filled), same, writes.integer_trim]
  exact ⟨shown (trim_trimStart first), shown (trim_trimEnd first)⟩

theorem parse_single (writes : Writes first a) :
    parse first = if isOrdered ⟨a, a⟩ then .ok ⟨a, a⟩ else .error (.unordered (trim first)) := by
  have absent : (':' : UInt8) ∉ trim first := fun member =>
    writes.colon_not_mem (trim_subset first member)
  have filled : trim first ≠ [] := writes.spells_trim.ne_nil
  have alone : cutColon (trim first) = (trim first, none) := by
    have none : breakOn? ":" (trim first) = none := breakOn?_byte_eq_none absent
    rw [cutColon, none]
  have number : readEnd (trim first) (trim first) 1 = .ok a := by
    rw [readEnd, if_neg (by simpa using filled), trim_trim, writes.integer_trim]
  rw [parse]
  dsimp only
  rw [if_neg (by simpa using filled), alone]
  dsimp only
  rw [number]
  rfl

theorem readEnd_eq_error {whole part : Text} {default : Int} {reason : RangeError}
    (failed : readEnd whole part default = .error reason) :
    ∃ number fault, reason = .notNumber whole number fault := by
  rw [readEnd] at failed
  split at failed
  · cases failed
  · split at failed
    · cases failed
    · next fault _ =>
        cases failed
        exact ⟨_, fault, rfl⟩

theorem message_of_parse {text : Text} {reason : RangeError} (failed : parse text = .error reason) :
    ∃ detail, reason.message = "bad line range " ++ quote (trim text) ++ detail := by
  have unordered {a b : Int} (failed : (if isOrdered ⟨a, b⟩ then .ok ⟨a, b⟩
      else .error (.unordered (trim text)) : Except RangeError LineRange) = .error reason) :
      ∃ detail, reason.message = "bad line range " ++ quote (trim text) ++ detail := by
    split at failed
    · cases failed
    · cases failed
      exact ⟨[], (List.append_nil _).symm⟩
  have notNumber {part : Text} {default : Int}
      (failed : readEnd (trim text) part default = .error reason) :
      ∃ detail, reason.message = "bad line range " ++ quote (trim text) ++ detail := by
    obtain ⟨number, fault, rfl⟩ := readEnd_eq_error failed
    refine ⟨": strconv.Atoi: parsing " ++ quote number ++ ": " ++ fault.message, ?_⟩
    simp [RangeError.message]
  rw [parse] at failed
  dsimp only at failed
  split at failed
  · cases failed
  · generalize cutColon (trim text) = ends at failed
    obtain ⟨left, right⟩ := ends
    dsimp only at failed
    cases first : readEnd (trim text) left 1 with
    | error other =>
        rw [first] at failed
        cases failed
        exact notNumber first
    | ok a =>
        rw [first] at failed
        cases right with
        | none => exact unordered failed
        | some right =>
            cases last : readEnd (trim text) right 0 with
            | error other =>
                simp only [last] at failed
                cases failed
                exact notNumber last
            | ok b =>
                simp only [last] at failed
                exact unordered failed

/-- What a range of two written ends is read as, of one end where the other is left out, and of a
single line.  A last line of zero is taken for one that is left out. -/
theorem parse_exact (left : Writes first a) (right : Writes last b) (isWhite : White white) :
    parse (first ++ (':' : UInt8) :: last) =
        (if 1 ≤ a ∧ (a ≤ b ∨ b = 0) then .ok ⟨a, b⟩
        else .error (.unordered (trim (first ++ (':' : UInt8) :: last)))) ∧
      parse (first ++ (':' : UInt8) :: white) =
        (if 1 ≤ a then .ok ⟨a, 0⟩
        else .error (.unordered (trim (first ++ (':' : UInt8) :: white)))) ∧
      parse (white ++ (':' : UInt8) :: last) =
        (if 1 ≤ b ∨ b = 0 then .ok ⟨1, b⟩
        else .error (.unordered (trim (white ++ (':' : UInt8) :: last)))) ∧
      parse first = (if 1 ≤ a then .ok ⟨a, a⟩ else .error (.unordered (trim first))) ∧
      ∀ text reason, parse text = .error reason →
        ∃ detail, reason.message = "bad line range " ++ quote (trim text) ++ detail := by
  have black : isBlack (':' : UInt8) := by decide
  refine ⟨?_, ?_, ?_, ?_, fun text reason => message_of_parse⟩
  · rw [parse_colon left.colon_not_mem]
    simp only [(readEnd_of_writes left _ _).1, (readEnd_of_writes right _ _).2]
    exact if_congr isOrdered_iff rfl rfl
  · rw [parse_colon left.colon_not_mem]
    simp only [(readEnd_of_writes left _ _).1, (readEnd_of_white isWhite _ _).2]
    exact if_congr (isOrdered_iff.trans (by simp)) rfl rfl
  · rw [parse_colon (isWhite.not_mem_of_isBlack black)]
    simp only [(readEnd_of_white isWhite _ _).1, (readEnd_of_writes right _ _).2]
    exact if_congr (isOrdered_iff.trans (by simp)) rfl rfl
  · rw [parse_single left]
    exact if_congr (isOrdered_iff.trans (by simp)) rfl rfl

theorem writes_digit {before after : Text} (whiteBefore : White before) (whiteAfter : White after)
    {digit : UInt8} (isDigit : isDigit digit) :
    Writes (before ++ [digit] ++ after) (digit.toNat - 48 : Nat) := by
  have small := digit.toNat_lt
  refine ⟨⟨before, [digit], after, rfl, whiteBefore, whiteAfter, ?_⟩, by omega, by omega⟩
  have spells := Spells.bare (List.cons_ne_nil digit []) (List.forall_mem_singleton.mpr isDigit)
  rwa [value, List.foldl_cons, accumulate, Nat.zero_mul, Nat.zero_add] at spells

/-- A last line in front of the first one, with blanks around both numbers. -/
theorem parse_exact_blanks :
    parse " 7 : 3\t" = .error (.unordered "7 : 3") ∧ parse " 7 : " = .ok ⟨7, 0⟩ ∧
      parse " : 3\t" = .ok ⟨1, 3⟩ ∧ parse " 7 " = .ok ⟨7, 7⟩ := by
  have space : White [0x20] := .of_isWhite1 rfl
  have tab : White [0x09] := .of_isWhite1 rfl
  obtain ⟨both, opened, begun, single, -⟩ := parse_exact
    (writes_digit space space (show isDigit 0x37 from rfl))
    (writes_digit space tab (show isDigit 0x33 from rfl)) space
  exact ⟨both, opened, begun, single⟩

/-- An end of zero is written, and the range is open. -/
theorem zero_end_accepted :
    Writes "3" 3 ∧ Writes "0" 0 ∧ ¬(1 ≤ (3 : Int) ∧ (3 : Int) ≤ 0) ∧
      parse ("3" ++ (':' : UInt8) :: "0") = .ok ⟨3, 0⟩ :=
  ⟨writes_digit .nil .nil (show isDigit 0x33 from rfl),
    writes_digit .nil .nil (show isDigit 0x30 from rfl), by decide, rfl⟩

end LineRange

end HdlAlign
