import HdlAlign.Proofs.Widths

/-! Printable ASCII.  Every byte of a plain text is a character of its own and takes one column, and
the space is its only white space. -/

namespace HdlAlign.Text

open Utf8

def isPlain (byte : UInt8) : Bool := 0x20 ≤ byte && byte ≤ 0x7E

def Plain (text : Text) : Prop := ∀ byte ∈ text, isPlain byte

instance (text : Text) : Decidable (Plain text) :=
  inferInstanceAs (Decidable (∀ byte ∈ text, _))

theorem isAscii_of_isPlain : ∀ {byte : UInt8}, isPlain byte → isAscii byte :=
  @(forall_byte (by decide +kernel))

theorem blank_of_isPlain : ∀ {byte : UInt8}, isPlain byte →
    isSpace byte = (byte == blank) ∧ isIndent byte = (byte == blank) ∧
      isWhite1 byte = (byte == blank) :=
  @(forall_byte (by decide +kernel))

namespace Plain

theorem nil : Plain [] := fun _ member => by cases member

theorem append {left right : Text} (h : Plain left) (h' : Plain right) : Plain (left ++ right) :=
  fun byte member => (List.mem_append.mp member).elim (h byte) (h' byte)

theorem subset {new old : Text} (plain : Plain old) (sub : new ⊆ old) : Plain new :=
  fun byte member => plain byte (sub member)

theorem within {new old : Text} (plain : Plain old) (within : Within new old) : Plain new := by
  intro byte member
  rcases within byte member with inside | rfl
  · exact plain byte inside
  · rfl

theorem isValid {text : Text} (plain : Plain text) : Utf8.isValid text :=
  isValid_of_isAscii fun byte member => isAscii_of_isPlain (plain byte member)

theorem units {text : Text} (plain : Plain text) :
    Text.units text = text.map fun byte => ⟨[byte], some .other⟩ := by
  have facts : ∀ byte : UInt8, isPlain byte →
      byte < 0x80 ∧ Unicode.BreakClass.ofAscii byte.toNat = .other :=
    forall_byte (by decide +kernel)
  induction text with
  | nil => rfl
  | cons byte text ih =>
      obtain ⟨small, cls⟩ := facts byte (plain byte (by simp))
      rw [Text.units.eq_def]
      simp only [small, if_true, cls, List.map_cons]
      rw [ih fun other member => plain other (by simp [member])]

theorem gather (cluster text : Text) :
    Text.gather cluster (.first .other) (text.map fun byte => ⟨[byte], some .other⟩) =
      cluster :: text.map fun byte => [byte] := by
  have stops : ClusterState.continues (.first .other) .other = false := rfl
  induction text generalizing cluster with
  | nil => rfl
  | cons byte text ih =>
      rw [List.map_cons, Text.gather]
      simp [stops, ih]

theorem clusters {text : Text} (plain : Plain text) :
    Text.clusters text = text.map fun byte => [byte] := by
  rw [Text.clusters, plain.units]
  cases text with
  | nil => rfl
  | cons byte text => exact gather [byte] text

theorem width {text : Text} (plain : Plain text) : text.width = text.length := by
  have one : ∀ byte : UInt8, isPlain byte → clusterWidth [byte] = 1 :=
    forall_byte (by decide +kernel)
  rw [Text.width, plain.clusters]
  induction text with
  | nil => rfl
  | cons byte text ih =>
      rw [List.map_cons, List.foldr_cons, one byte (plain byte (by simp)),
        ih fun other member => plain other (by simp [member]), List.length_cons, Nat.add_comm]

theorem length_padLeft {text : Text} (plain : Plain text) {columns : Nat}
    (fits : text.length ≤ columns) : (text.padLeft columns).length = columns := by
  rw [padLeft, plain.width, List.length_append, blanks, List.length_replicate]
  omega

theorem length_padRight {text : Text} (plain : Plain text) {columns : Nat}
    (fits : text.length ≤ columns) : (text.padRight columns).length = columns := by
  rw [padRight, plain.width, List.length_append, blanks, List.length_replicate]
  omega

end Plain

end HdlAlign.Text

namespace HdlAlign.Batch

open Text

theorem Roomy.length_padded {fields : List Text} {anchors : List Nat}
    (roomy : Roomy fields anchors) (plain : ∀ field ∈ fields, Plain field) :
    (Line.padded fields anchors).length = (anchors.take fields.length).sum := by
  induction fields generalizing anchors with
  | nil => rfl
  | cons field fields ih =>
      cases anchors with
      | nil => exact roomy.elim
      | cons anchor anchors =>
          have first := plain field (by simp)
          have fits : field.length ≤ anchor := by
            have room := roomy.1
            rw [first.width] at room
            omega
          rw [Line.padded, List.length_append, first.length_padRight fits,
            ih roomy.2 fun other member => plain other (by simp [member])]
          simp

end HdlAlign.Batch
