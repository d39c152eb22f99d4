import HdlAlign.Proofs.Columns

/-! What a text shows on a terminal takes a column, so fields that show something are set apart. -/

namespace HdlAlign.Text

open Utf8

theorem flatMap_units (text : Text) : (units text).flatMap Stretch.bytes = text := by
  fun_induction units text with
  | case1 => rfl
  | _ => simp_all [Stretch.loose, Stretch.truncated]

def TruncatedLast : List Stretch → Prop
  | [] => True
  | stretch :: rest => (stretch.breakClass = none → rest = []) ∧ TruncatedLast rest

theorem units_truncatedLast (text : Text) : TruncatedLast (units text) := by
  fun_induction units text with
  | case1 => trivial
  | _ => simp_all [TruncatedLast, Stretch.loose, Stretch.truncated]

theorem flatten_gather (cluster : Text) (state : ClusterState) {stretches : List Stretch}
    (last : TruncatedLast stretches) :
    (gather cluster state stretches).flatten = cluster ++ stretches.flatMap Stretch.bytes := by
  fun_induction gather cluster state stretches with
  | case1 => simp
  | case2 cluster state unit rest truncated => simp [last.1 truncated]
  | case3 cluster state unit rest cls found goesOn ih => simp [ih last.2]
  | case4 cluster state unit rest cls found stops ih => simp [ih last.2]

theorem flatten_clusters (text : Text) : (clusters text).flatten = text := by
  have whole := flatMap_units text
  have last := units_truncatedLast text
  rw [clusters]
  cases read : units text with
  | nil =>
      rw [read] at whole
      exact whole
  | cons unit rest =>
      rw [read] at whole last
      rw [flatten_gather _ _ last.2]
      exact whole

def isPrinted (byte : UInt8) : Bool := 0x20 < byte && byte < 0x7F

theorem clusterWidth_pos {cluster : Text} {byte : UInt8} (member : byte ∈ cluster)
    (printed : isPrinted byte) : 0 < clusterWidth cluster := by
  have facts : ∀ byte : UInt8, isPrinted byte → isAscii byte ∧ isWhite1 byte = false ∧
      Unicode.columns (Char.ofNat byte.toNat).toNat ≠ 0 := forall_byte (by decide +kernel)
  obtain ⟨ascii, black, shows⟩ := facts byte printed
  have scalar := (List.mem_filter.mp ((mem_iff_mem_solid ascii black cluster).mp member)).1
  have listed : Unicode.columns (Char.ofNat byte.toNat).toNat ∈
      (Utf8.chars cluster).map fun c => Unicode.columns c.toNat :=
    List.mem_map.mpr ⟨_, List.mem_map.mpr ⟨_, scalar, rfl⟩, rfl⟩
  rw [clusterWidth]
  cases search : ((Utf8.chars cluster).map fun c => Unicode.columns c.toNat).find? (· != 0) with
  | none =>
      have zero := List.find?_eq_none.mp search _ listed
      simp [shows] at zero
  | some first =>
      have nonzero := List.find?_some search
      simp only [bne_iff_ne] at nonzero
      exact Nat.pos_of_ne_zero nonzero

theorem width_pos {text : Text} {byte : UInt8} (member : byte ∈ text) (printed : isPrinted byte) :
    0 < text.width := by
  have inside : byte ∈ (clusters text).flatten := by
    rw [flatten_clusters]
    exact member
  obtain ⟨cluster, listed, inCluster⟩ := List.mem_flatten.mp inside
  rw [width]
  generalize clusters text = all at listed
  induction all with
  | nil => cases listed
  | cons first rest ih =>
      rw [List.foldr_cons]
      rcases List.mem_cons.mp listed with rfl | later
      · exact Nat.lt_of_lt_of_le (clusterWidth_pos inCluster printed) (Nat.le_add_right _ _)
      · exact Nat.lt_of_lt_of_le (ih later) (Nat.le_add_left _ _)

theorem isValid_of_clusterWidth {cluster : Text} (hidden : clusterWidth cluster = 0) :
    isValid cluster := by
  have columns : Unicode.columns replacement.toNat ≠ 0 := by decide +kernel
  rw [isValid, List.all_eq_true]
  intro scalar member
  have other : scalar.char ≠ replacement := by
    intro same
    rw [clusterWidth] at hidden
    cases search : ((Utf8.chars cluster).map fun c => Unicode.columns c.toNat).find? (· != 0) with
    | none =>
        have listed : Unicode.columns scalar.char.toNat ∈
            (Utf8.chars cluster).map fun c => Unicode.columns c.toNat :=
          List.mem_map.mpr ⟨_, List.mem_map.mpr ⟨_, member, rfl⟩, rfl⟩
        have zero := List.find?_eq_none.mp search _ listed
        rw [same] at zero
        simp [columns] at zero
    | some first =>
        have nonzero := List.find?_some search
        rw [search, Option.getD_some] at hidden
        simp [hidden] at nonzero
  simp [Scalar.isIllFormed, other]

theorem isValid_of_width {text : Text} (hidden : text.width = 0) : isValid text := by
  rw [← flatten_clusters text]
  rw [width] at hidden
  generalize clusters text = all at hidden
  induction all with
  | nil => rfl
  | cons first rest ih =>
      rw [List.foldr_cons] at hidden
      have firstValid : isValid first := isValid_of_clusterWidth (by omega)
      have restValid := ih (by omega)
      rw [isValid, List.all_eq_true] at firstValid restValid ⊢
      intro scalar member
      rw [List.flatten_cons, scalars_append_of_isValid (List.all_eq_true.mpr firstValid)] at member
      exact (List.mem_append.mp member).elim (firstValid scalar) (restValid scalar)

end HdlAlign.Text

namespace HdlAlign.Batch

open Text

/-- Every field that shows something has a column to itself and a blank behind it. -/
def Roomy : List Text → List Nat → Prop
  | [], _ => True
  | _ :: _, [] => False
  | field :: fields, anchor :: anchors =>
    (field.width ≠ 0 → field.width < anchor) ∧ Roomy fields anchors

theorem roomy_widen_self (anchors : List Nat) (fields : List Text) :
    Roomy fields (widen anchors fields) := by
  fun_induction widen anchors fields with
  | case1 => trivial
  | case2 field fields ih =>
      refine ⟨fun shown => ?_, ih⟩
      simp [demand, shown]
  | case3 anchor anchors field fields ih =>
      refine ⟨fun shown => ?_, ih⟩
      have asked : demand field = field.width + 1 := by simp [demand, shown]
      omega

theorem Roomy.widen {fields : List Text} {anchors : List Nat} (roomy : Roomy fields anchors)
    (others : List Text) : Roomy fields (widen anchors others) := by
  fun_induction Batch.widen anchors others generalizing fields with
  | case1 => exact roomy
  | case2 field others ih =>
      cases fields with
      | nil => trivial
      | cons first fields => exact roomy.elim
  | case3 anchor anchors field others ih =>
      cases fields with
      | nil => trivial
      | cons first fields =>
          refine ⟨fun shown => ?_, ih roomy.2⟩
          have room := roomy.1 shown
          omega

theorem roomy_foldl {lines : List Line} {fields : List Text} {start : List Nat}
    (roomy : Roomy fields start) :
    Roomy fields (lines.foldl (fun widths line =>
      match line with
      | .aligned fields _ => Batch.widen widths fields
      | .verbatim _ _ => widths) start) := by
  induction lines generalizing start with
  | nil => exact roomy
  | cons line lines ih =>
      cases line with
      | aligned others source => exact ih (roomy.widen others)
      | verbatim text source => exact ih roomy

theorem roomy_anchors {lines : List Line} {fields : List Text} {source : Int}
    (member : Line.aligned fields source ∈ lines) : Roomy fields (anchors lines) := by
  rw [anchors]
  generalize ([] : List Nat) = start
  induction lines generalizing start with
  | nil => cases member
  | cons line lines ih =>
      rw [List.foldl_cons]
      rcases List.mem_cons.mp member with rfl | later
      · exact roomy_foldl (roomy_widen_self start fields)
      · exact ih later _

theorem seam_padRight {field : Text} {anchor : Nat} (room : field.width ≠ 0 → field.width < anchor)
    (rest : Text) : solid (field.padRight anchor ++ rest) = solid field ++ solid rest := by
  by_cases hidden : field.width = 0
  · have valid : Utf8.isValid (field.padRight anchor) :=
      Utf8.isValid_of_solid_eq (solid_padRight field anchor) (isValid_of_width hidden)
    rw [solid_append_of_isValid valid, solid_padRight]
  · have blankLast : Utf8.Seam (field.padRight anchor) rest := by
      refine .inl fun byte last => ?_
      have gap : anchor - field.width ≠ 0 := by
        have := room hidden
        omega
      rw [padRight, blanks, List.getLast?_append, List.getLast?_replicate, if_neg gap] at last
      cases last
      rfl
    rw [solid_append blankLast, solid_padRight]

theorem Roomy.solid_padded {fields : List Text} {anchors : List Nat} (roomy : Roomy fields anchors) :
    solid (Line.padded fields anchors) = (fields.map solid).flatten := by
  induction fields generalizing anchors with
  | nil => rfl
  | cons field fields ih =>
      cases anchors with
      | nil => exact roomy.elim
      | cons anchor anchors =>
          rw [Line.padded, seam_padRight roomy.1, ih roomy.2, List.map_cons, List.flatten_cons]

end HdlAlign.Batch
