import HdlAlign.Proofs.Dimensions
import HdlAlign.Proofs.Justified
import HdlAlign.Proofs.PortRereading

/-! Dimension lists are read again from a column that was lined up, also when what was printed there
is normalized. -/

namespace HdlAlign.Text

open Utf8

def scalarOf (byte : UInt8) : Scalar := ⟨Char.ofNat byte.toNat, [byte]⟩

theorem scalarOf_injective : Function.Injective scalarOf := fun _ _ same =>
  List.singleton_injective (congrArg Scalar.bytes same)

theorem Plain.solid {text : Text} (plain : Plain text) :
    solid text = (squeeze text).map scalarOf := by
  have shown : ∀ byte, isPlain byte → isSpace byte = false → Text.solid [byte] = [scalarOf byte] :=
    forall_byte (by decide +kernel)
  induction text with
  | nil => rfl
  | cons byte rest ih =>
      have first := plain byte (by simp)
      have behind := ih fun other member => plain other (by simp [member])
      by_cases space : isSpace byte
      · rw [solid_cons_of_isSpace space, squeeze_cons_of_isSpace space, behind]
      · have visible : isSpace byte = false := by simpa using space
        rw [squeeze_cons visible, List.map_cons, ← behind, solid_cons (isAscii_of_isPlain first),
          shown byte first visible]
        rfl

theorem squeeze_of_solid_eq {new old : Text} (plain : Plain new) (plainOld : Plain old)
    (same : Text.solid new = Text.solid old) : squeeze new = squeeze old := by
  rw [plain.solid, plainOld.solid] at same
  exact scalarOf_injective.list_map same

end HdlAlign.Text

namespace HdlAlign.Range

open Text Statement

theorem ends_render (groups : List Group) (widths : List GroupWidth) :
    Ends (render groups widths) := by
  induction groups generalizing widths with
  | nil => exact .nil
  | cons group groups ih =>
      cases widths with
      | nil => exact .nil
      | cons width widths =>
          have bracket : Ends (renderGroup group width) := fun byte last => by
            rw [getLast?_renderGroup] at last
            cases last
            rfl
          rw [render_cons]
          exact bracket.append (ih widths)

section

variable {field : Text} {groups : List Group} (read : parse field = .ok groups)
  {widths : List GroupWidth} (wide : groups.length ≤ widths.length)

include read wide

theorem loosened_render (plain : Plain field) : Loosened (render groups widths) field := by
  obtain ⟨same, -, -⟩ := moved_groups read
  have written := pairs_render (bounds_of_parse read) wide
  have plainNew := plain_render plain read widths
  refine ⟨plainNew, written.starts, ends_render groups widths, squeeze_of_solid_eq plainNew plain ?_⟩
  rw [solid_render wide, same]

theorem parse_normalize_render (tidy : Tidy field) :
    parse (normalize (render groups widths)) = .ok groups := by
  have collapsed : groups.map Group.collapsed = groups := by
    have again := parse_normalize read
    have same : normalize field = field := by simpa using tidy.normalize .nil .nil
    rw [same, read] at again
    exact (Except.ok.inj again).symm
  rw [parse_normalize (parse_render read wide), collapsed]

end

end HdlAlign.Range
