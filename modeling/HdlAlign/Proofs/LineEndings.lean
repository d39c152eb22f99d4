import HdlAlign.Source.Encoding

/-! Line endings: which texts come back from their plain form. -/

namespace HdlAlign

namespace Text

def takeLines : Nat → Text → Text
  | 0, _ => []
  | _ + 1, [] => []
  | n + 1, byte :: rest =>
    byte :: if byte = newline then takeLines n rest else takeLines (n + 1) rest

def dropLines : Nat → Text → Text
  | 0, text => text
  | _ + 1, [] => []
  | n + 1, byte :: rest => if byte = newline then dropLines n rest else dropLines (n + 1) rest

theorem takeLines_zero (text : Text) : takeLines 0 text = [] := by
  rw [takeLines]

theorem dropLines_zero (text : Text) : dropLines 0 text = text := by
  rw [dropLines]

theorem takeLines_append_dropLines (n : Nat) (text : Text) :
    takeLines n text ++ dropLines n text = text := by
  induction text generalizing n with
  | nil => cases n <;> rfl
  | cons byte rest ih =>
      cases n with
      | zero => rfl
      | succ n =>
          rw [takeLines, dropLines]
          split
          · rw [List.cons_append, ih]
          · rw [List.cons_append, ih]

end Text

open Text

/-! Carriage returns before newlines -/

theorem dropReturns_cons {byte : UInt8} {text : Text}
    (apart : byte = 0x0D → text.head? ≠ some newline) :
    dropReturns (byte :: text) = byte :: dropReturns text := by
  cases text with
  | nil => rfl
  | cons next rest =>
      rw [dropReturns, if_neg]
      simpa using apart

theorem dropReturns_return (text : Text) :
    dropReturns (0x0D :: newline :: text) = newline :: dropReturns text := rfl

theorem returnsInduction {motive : Text → Prop} (nil : motive [])
    (pair : ∀ text, motive text → motive (0x0D :: newline :: text))
    (single : ∀ byte text, (byte = 0x0D → text.head? ≠ some newline) → motive text →
      motive (byte :: text)) (text : Text) : motive text := by
  induction text using dropReturns.induct with
  | case1 => exact nil
  | case2 byte => exact single byte [] (fun _ => by simp) nil
  | case3 a b rest both ih =>
      rw [Bool.and_eq_true, decide_eq_true_eq, decide_eq_true_eq] at both
      obtain ⟨rfl, rfl⟩ := both
      exact pair rest ih
  | case4 a b rest notBoth ih =>
      refine single a (b :: rest) (fun isReturn isNewline => notBoth ?_) ih
      rw [Bool.and_eq_true, decide_eq_true_eq, decide_eq_true_eq]
      exact ⟨isReturn, Option.some.inj isNewline⟩

theorem head?_takeLines (n : Nat) (text : Text) : (takeLines (n + 1) text).head? = text.head? := by
  cases text <;> rfl

theorem dropReturns_takeLines (n : Nat) (text : Text) :
    dropReturns (takeLines n text) = takeLines n (dropReturns text) := by
  induction text using returnsInduction generalizing n with
  | nil => cases n <;> rfl
  | pair text ih =>
      cases n with
      | zero => rfl
      | succ n =>
          show dropReturns (0x0D :: newline :: takeLines n text) = _
          rw [dropReturns_return, dropReturns_return, ih]
          rfl
  | single byte text apart ih =>
      cases n with
      | zero => rw [takeLines_zero, takeLines_zero, dropReturns]
      | succ n =>
          rw [dropReturns_cons apart, takeLines, takeLines]
          split
          · next isNewline =>
              rw [dropReturns_cons fun isReturn => absurd (isNewline.symm.trans isReturn) (by decide),
                ih]
          · rw [dropReturns_cons fun isReturn => head?_takeLines n text ▸ apart isReturn, ih]

theorem dropReturns_dropLines (n : Nat) (text : Text) :
    dropReturns (dropLines n text) = dropLines n (dropReturns text) := by
  induction text using returnsInduction generalizing n with
  | nil => cases n <;> rfl
  | pair text ih =>
      cases n with
      | zero => rw [dropLines_zero, dropLines_zero]
      | succ n => exact ih n
  | single byte text apart ih =>
      cases n with
      | zero => rw [dropLines_zero, dropLines_zero]
      | succ n =>
          rw [dropReturns_cons apart, dropLines, dropLines]
          split
          · exact ih n
          · exact ih (n + 1)

theorem hasReturns_cons {byte : UInt8} {text : Text} (without : hasReturns (byte :: text) = false) :
    (byte = 0x0D → text.head? ≠ some newline) ∧ hasReturns text = false := by
  cases text with
  | nil => exact ⟨fun _ => by simp, rfl⟩
  | cons next rest =>
      rw [hasReturns, Bool.or_eq_false_iff] at without
      simpa using without

theorem dropReturns_of_not_hasReturns {text : Text} (without : hasReturns text = false) :
    dropReturns text = text := by
  induction text with
  | nil => rfl
  | cons byte rest ih =>
      obtain ⟨apart, without⟩ := hasReturns_cons without
      rw [dropReturns_cons apart, ih without]

/-- Every newline follows a carriage return; `behind` tells that one stands in front of the
text. -/
def Returned : (behind : Bool) → Text → Prop
  | _, [] => True
  | behind, byte :: rest => (byte = newline → behind = true) ∧ Returned (byte == 0x0D) rest

instance decidableReturned : (behind : Bool) → (text : Text) → Decidable (Returned behind text)
  | _, [] => .isTrue trivial
  | behind, byte :: rest =>
    have := decidableReturned (byte == 0x0D) rest
    inferInstanceAs (Decidable ((byte = newline → behind = true) ∧ Returned (byte == 0x0D) rest))

namespace Returned

theorem left {behind : Bool} {text more : Text} (returned : Returned behind (text ++ more)) :
    Returned behind text := by
  induction text generalizing behind with
  | nil => trivial
  | cons byte rest ih => exact ⟨returned.1, ih returned.2⟩

theorem right {behind : Bool} {text more : Text} (returned : Returned behind (text ++ more)) :
    Returned true more := by
  induction text generalizing behind with
  | nil =>
      cases more with
      | nil => trivial
      | cons byte rest => exact ⟨fun _ => rfl, returned.2⟩
  | cons byte rest ih => exact ih returned.2

end Returned

theorem restoreReturns_cons (byte : UInt8) (text : Text) :
    restoreReturns (byte :: text) =
      (if byte = newline then [0x0D, byte] else [byte]) ++ restoreReturns text := rfl

theorem restoreReturns_append (text more : Text) :
    restoreReturns (text ++ more) = restoreReturns text ++ restoreReturns more :=
  List.flatMap_append

theorem returned_restoreReturns (behind : Bool) (text : Text) :
    Returned behind (restoreReturns text) := by
  induction text generalizing behind with
  | nil => trivial
  | cons byte rest ih =>
      rw [restoreReturns_cons]
      split
      · next isNewline =>
          exact ⟨fun isNewline => absurd isNewline (by decide), fun _ => rfl, ih _⟩
      · next other => exact ⟨fun isNewline => absurd isNewline other, ih _⟩

/-- A text gets back the carriage returns that were taken from it, if all its newlines had one. -/
theorem restoreReturns_dropReturns {text : Text} (returned : Returned false text) :
    restoreReturns (dropReturns text) = text := by
  induction text using returnsInduction with
  | nil => rfl
  | pair text ih =>
      rw [dropReturns_return, restoreReturns_cons, if_pos rfl, ih (returned.2.2)]
      rfl
  | single byte text apart ih =>
      have other : byte ≠ newline := fun isNewline => Bool.false_ne_true (returned.1 isNewline)
      have rest : Returned false text := by
        by_cases isReturn : byte = 0x0D
        · cases text with
          | nil => trivial
          | cons next text =>
              refine ⟨fun isNewline => absurd ?_ (apart isReturn), returned.2.2⟩
              rw [isNewline, List.head?_cons]
        · have notReturn : (byte == 0x0D) = false := beq_eq_false_iff_ne.mpr isReturn
          exact notReturn ▸ returned.2
      rw [dropReturns_cons apart, restoreReturns_cons, if_neg other, ih rest, List.singleton_append]

theorem restoreReturns_dropReturns_behind {text : Text} (returned : Returned true text) :
    ∃ front, restoreReturns (dropReturns text) = front ++ text := by
  cases text with
  | nil => exact ⟨[], rfl⟩
  | cons byte rest =>
      by_cases isNewline : byte = newline
      · subst isNewline
        refine ⟨[0x0D], ?_⟩
        rw [dropReturns_cons (fun isReturn => absurd isReturn (by decide)), restoreReturns_cons,
          if_pos rfl, restoreReturns_dropReturns returned.2]
        rfl
      · exact ⟨[], restoreReturns_dropReturns
          ⟨fun is => absurd is isNewline, returned.2⟩⟩

end HdlAlign
