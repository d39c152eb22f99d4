import HdlAlign.Proofs.Cuts

/-! A line with a declaration, cut into its parts.  The parts stand in the line in another order than
in the columns: the name may go on behind the array. -/

namespace HdlAlign.Text

theorem breakBefore?_eq_some_iff {q : Text → Bool} {text before rest : Text} :
    breakBefore? q text = some (before, rest) ↔
      text = before ++ rest ∧ q rest ∧
        ∀ front back, before = front ++ back → back ≠ [] → q (back ++ rest) = false := by
  induction text generalizing before with
  | nil =>
      rw [breakBefore?]
      constructor
      · intro found
        split at found
        · next holds =>
            cases found
            exact ⟨rfl, holds, fun front back split nonempty =>
              absurd (List.append_eq_nil_iff.mp split.symm).2 nonempty⟩
        · cases found
      · rintro ⟨split, holds, -⟩
        obtain ⟨rfl, rfl⟩ := List.append_eq_nil_iff.mp split.symm
        rw [if_pos holds]
  | cons byte text ih =>
      rw [breakBefore?]
      by_cases here : q (byte :: text)
      · rw [if_pos here]
        constructor
        · intro found
          cases found
          exact ⟨rfl, here, fun front back split nonempty =>
            absurd (List.append_eq_nil_iff.mp split.symm).2 nonempty⟩
        · rintro ⟨split, holds, misses⟩
          cases before with
          | nil => rw [split]; rfl
          | cons first before =>
              have missed := misses [] (first :: before) rfl (by simp)
              rw [← split, here] at missed
              cases missed
      · rw [if_neg here, Option.map_eq_some_iff]
        constructor
        · rintro ⟨⟨inner, tail⟩, found, same⟩
          cases same
          obtain ⟨rfl, holds, misses⟩ := ih.mp found
          refine ⟨rfl, holds, fun front back split nonempty => ?_⟩
          cases front with
          | nil =>
              cases split
              simpa using here
          | cons first front =>
              cases split
              exact misses front back rfl nonempty
        · rintro ⟨split, holds, misses⟩
          cases before with
          | nil =>
              rw [List.nil_append] at split
              rw [split] at here
              exact absurd holds here
          | cons first before =>
              cases split
              refine ⟨(before, rest), ih.mpr ⟨rfl, holds, fun front back split nonempty => ?_⟩, rfl⟩
              exact misses (byte :: front) back (by rw [split]; rfl) nonempty

theorem breakBefore?_eq_none_iff {q : Text → Bool} {text : Text} :
    breakBefore? q text = none ↔ ∀ front back, text = front ++ back → q back = false := by
  induction text with
  | nil =>
      rw [breakBefore?]
      constructor
      · intro none front back split
        obtain ⟨-, rfl⟩ := List.append_eq_nil_iff.mp split.symm
        by_cases holds : q []
        · simp [holds] at none
        · simpa using holds
      · intro misses
        simp [misses [] [] rfl]
  | cons byte text ih =>
      rw [breakBefore?]
      constructor
      · intro none front back split
        split at none
        · cases none
        · next here =>
            cases front with
            | nil =>
                cases split
                simpa using here
            | cons first front =>
                cases split
                exact ih.mp (Option.map_eq_none_iff.mp none) front back rfl
      · intro misses
        have here : ¬ q (byte :: text) := by simp [misses [] (byte :: text) rfl]
        rw [if_neg here, Option.map_eq_none_iff]
        exact ih.mpr fun front back split => misses (byte :: front) back (by rw [split]; rfl)

theorem breakBefore?_split {q : Text → Bool} {text before rest : Text}
    (found : breakBefore? q text = some (before, rest)) : text = before ++ rest ∧ q rest := by
  obtain ⟨split, holds, -⟩ := breakBefore?_eq_some_iff.mp found
  exact ⟨split, holds⟩

end HdlAlign.Text

namespace HdlAlign.Pattern
open Text

theorem find_split {p : Pattern} (sound : Sound p) {text : Text} {found : Found}
    (h : p.find text = some found) : text = found.before ++ (found.part ++ found.after) := by
  obtain ⟨rest, rfl, read, -⟩ := find_eq_some_iff.mp h
  rw [← sound _ _ _ read]

theorem find_eq_breakBefore? {p : Pattern} {opens : Text → Bool}
    (takes : ∀ text, newline ∉ text → p text = if opens text then some (text, []) else none)
    {text : Text} (single : newline ∉ text) :
    p.find text = (breakBefore? opens text).map fun (before, rest) => ⟨before, rest, []⟩ := by
  induction text with
  | nil =>
      rw [find, breakBefore?, takes [] single]
      split <;> rfl
  | cons byte text ih =>
      rw [find, breakBefore?, takes _ single]
      by_cases holds : opens (byte :: text)
      · simp [holds]
      · rw [if_neg holds, if_neg holds, ih fun member => single (List.mem_cons_of_mem _ member)]
        simp only [Option.map_map]
        rfl

theorem cutFirst_eq_breakBefore? {p : Pattern} {opens : Text → Bool}
    (takes : ∀ text, newline ∉ text → p text = if opens text then some (text, []) else none)
    {text : Text} (single : newline ∉ text) :
    p.cutFirst text = ((breakBefore? opens text).getD (text, [])).swap := by
  rw [cutFirst, find_eq_breakBefore? takes single]
  cases breakBefore? opens text with
  | none => rfl
  | some found => simp [Prod.swap]

end HdlAlign.Pattern

namespace HdlAlign.Statement

open Pattern Text Utf8 Assignment

theorem literal_matchesFront (affix text : Text) :
    (literal affix).matchesFront text = text.startsWith affix := by
  rw [Bool.eq_iff_iff, matchesFront_iff, startsWith, List.isPrefixOf_iff_prefix]
  constructor
  · rintro ⟨part, rest, read⟩
    exact ⟨rest, (literal_eq_some_iff.mp read).2.symm⟩
  · rintro ⟨rest, rfl⟩
    exact ⟨affix, rest, literal_eq_some_iff.mpr ⟨rfl, rfl⟩⟩

theorem cutFirst_comment {line : Text} (single : newline ∉ line) :
    comment.cutFirst line = (splitComment line).swap :=
  cutFirst_eq_breakBefore? (fun text single => by
    rw [comment, andThen_toLineEnd (.literal _) single, literal_matchesFront]) single

def opensAssignment (text : Text) : Bool := (operator? text).isSome || isTerminator text

def splitAssignment (code : Text) : Text × Text :=
  (breakBefore? opensAssignment code).getD (code, [])

theorem cutFirst_assignment {code : Text} (single : newline ∉ code) :
    assignment.cutFirst code = (splitAssignment code).swap :=
  cutFirst_eq_breakBefore? (fun _ single => assignment_eq single) single

namespace Declaration

/-- The parts of a line as they stand in it, from left to right.  The name is what stands in front
of the array and behind it. -/
structure Cut where
  type : Text
  vector : Text
  front : Text
  array : Text
  behind : Text
  assignment : Text
  comment : Text
  deriving DecidableEq

def cut (line : Text) : Cut :=
  let (code, comment) := splitComment line
  let (type, code) := cutFront declarationType code
  let (code, assignment) := splitAssignment code
  let storage := isStorage (normalize type)
  let (vector, code) := cutIf storage (cutFront Statement.vector) code
  match if storage then Statement.array.find code else none with
  | some found => ⟨type, vector, found.before, found.part, found.after, assignment, comment⟩
  | none => ⟨type, vector, code, [], [], assignment, comment⟩

theorem cut_assignment (line : Text) : (cut line).assignment =
    (splitAssignment (cutFront declarationType (splitComment line).1).2).2 := by
  unfold cut
  dsimp only
  split <;> rfl

theorem cut_comment (line : Text) : (cut line).comment = (splitComment line).2 := by
  unfold cut
  dsimp only
  split <;> rfl

namespace Cut

def declaration (c : Cut) : Declaration where
  type := normalize c.type
  vector := normalize c.vector
  name := normalizeList (normalize (c.front ++ c.behind))
  array := normalize c.array
  assignment := normalize c.assignment
  comment := c.comment

def text (c : Cut) : Text :=
  c.type ++ (c.vector ++ (c.front ++ (c.array ++ (c.behind ++ (c.assignment ++ c.comment)))))

end Cut

theorem seam_of_startsWith {affix rest : Text} (left : Text) (nonempty : affix ≠ [])
    (ascii : ∀ byte ∈ affix.head?, isAscii byte) (begins : rest.startsWith affix) :
    Seam left rest := by
  rw [startsWith, List.isPrefixOf_iff_prefix] at begins
  obtain ⟨tail, rfl⟩ := begins
  cases affix with
  | nil => contradiction
  | cons byte affix => exact .cons_right left _ (ascii byte rfl)

theorem splitComment_append (line : Text) :
    (splitComment line).1 ++ (splitComment line).2 = line := by
  rw [splitComment, breakOn?]
  cases found : breakBefore? (fun x => x.startsWith (ofString "//")) line with
  | none => simp
  | some parts => exact (breakBefore?_split found).1.symm

theorem splitComment_comment (line : Text) :
    (splitComment line).2 = [] ∨ (splitComment line).2.startsWith (ofString "//") := by
  rw [splitComment, breakOn?]
  cases found : breakBefore? (fun x => x.startsWith (ofString "//")) line with
  | none => exact .inl rfl
  | some parts => exact .inr (breakBefore?_split found).2

theorem splitComment_seam (line : Text) :
    Seam (splitComment line).1 (splitComment line).2 := by
  rcases splitComment_comment line with none | begins
  · rw [none]
    exact .nil_right _
  · exact seam_of_startsWith _ (by decide) (by decide +kernel) begins

theorem isAscii_of_opensAssignment {byte : UInt8} {rest : Text}
    (opens : opensAssignment (byte :: rest)) : isAscii byte := by
  rcases Bool.or_eq_true_iff.mp opens with operator | terminator
  · obtain ⟨⟨op, tail⟩, read⟩ := Option.isSome_iff_exists.mp operator
    obtain ⟨member, split⟩ := operator?_eq_some_iff.mp read
    have ascii : ∀ op ∈ operators, ∀ byte ∈ op.head?, isAscii byte := by decide +kernel
    have nonempty : ∀ op ∈ operators, op ≠ [] := by decide
    cases op with
    | nil => exact absurd rfl (nonempty _ member)
    | cons first op =>
        cases split
        exact ascii _ member byte rfl
  · have semicolon : byte = ';' := by
      simp only [isTerminator, Bool.and_eq_true, beq_iff_eq] at terminator
      exact terminator.1
    exact semicolon ▸ rfl

theorem splitAssignment_append (code : Text) :
    (splitAssignment code).1 ++ (splitAssignment code).2 = code := by
  rw [splitAssignment]
  cases found : breakBefore? opensAssignment code with
  | none => simp
  | some parts => exact (breakBefore?_split found).1.symm

theorem splitAssignment_seam (code : Text) :
    Seam (splitAssignment code).1 (splitAssignment code).2 := by
  rw [splitAssignment]
  cases found : breakBefore? opensAssignment code with
  | none => exact .nil_right _
  | some parts =>
      obtain ⟨before, rest⟩ := parts
      cases rest with
      | nil => exact .nil_right _
      | cons byte rest => 
        exact .cons_right _ _ (isAscii_of_opensAssignment (breakBefore?_split found).2)

theorem single_of_append_right {left right text : Text} (split : left ++ right = text)
    (single : newline ∉ text) : newline ∉ right :=
  fun member => single (split ▸ List.mem_append_right left member)

theorem single_of_append_left {left right text : Text} (split : left ++ right = text)
    (single : newline ∉ text) : newline ∉ left :=
  fun member => single (split ▸ List.mem_append_left right member)

theorem cutIf_vector_append (storage : Bool) (code : Text) :
    (cutIf storage (cutFront Statement.vector) code).1 ++
      (cutIf storage (cutFront Statement.vector) code).2 = code := by
  cases storage with
  | false => rfl
  | true => exact (vector_sound.cutFront code).symm

theorem extract_eq_cut {line : Text} (single : newline ∉ line) :
    extract line = (cut line).declaration := by
  have codeSingle := single_of_append_left (splitComment_append line) single
  have restSingle := single_of_append_right
    (declarationType_sound.cutFront (splitComment line).1).symm codeSingle
  have headSingle := single_of_append_left (splitAssignment_append _) restSingle
  unfold extract cut
  rw [cutFirst_comment single]
  dsimp only [Prod.swap]
  rw [cutFirst_assignment restSingle]
  dsimp only [Prod.swap]
  have tailSingle := single_of_append_right (cutIf_vector_append
      (isStorage (normalize (cutFront declarationType (splitComment line).1).1)) _) headSingle
  generalize isStorage (normalize (cutFront declarationType (splitComment line).1).1) = storage at *
  generalize cutIf storage (cutFront Statement.vector) _ = vectorCut at *
  cases storage with
  | false => 
    simp [cutIf, Cut.declaration, cutFront, toLineEnd_of_single tailSingle]
  | true => 
    simp only [cutIf, if_true, cutFirst]
    cases search : Statement.array.find vectorCut.2 with
    | none => simp [Cut.declaration, cutFront, toLineEnd_of_single tailSingle]
    | some found =>
        have split := find_split array_sound search
        have nameSingle : newline ∉ found.before ++ found.after := by
          rw [split] at tailSingle
          simp only [List.mem_append, not_or] at tailSingle ⊢
          exact ⟨tailSingle.1, tailSingle.2.2⟩
        simp [Cut.declaration, cutFront, toLineEnd_of_single nameSingle]

theorem array_head {text part rest : Text} (read : Statement.array text = some (part, rest)) :
    ∃ tail, part = ('[' : UInt8) :: tail := by
  obtain ⟨first, _, others, firstRead, -, rfl⟩ := andThen_eq_some_iff.mp read
  obtain ⟨bracket, _, inside, bracketRead, -, rfl⟩ := andThen_eq_some_iff.mp firstRead
  obtain ⟨rfl, -⟩ := literal_eq_some_iff.mp bracketRead
  exact ⟨inside ++ others, rfl⟩

theorem cut_text (line : Text) : (cut line).text = line := by
  have codeSplit := splitComment_append line
  have typeSplit := (declarationType_sound.cutFront (splitComment line).1).symm
  have assignmentSplit := splitAssignment_append (cutFront declarationType (splitComment line).1).2
  have vectorSplit := cutIf_vector_append
    (isStorage (normalize (cutFront declarationType (splitComment line).1).1))
    (splitAssignment (cutFront declarationType (splitComment line).1).2).1
  rw [← vectorSplit] at assignmentSplit
  rw [← assignmentSplit] at typeSplit
  rw [← typeSplit] at codeSplit
  refine Eq.trans ?_ codeSplit
  unfold cut
  dsimp only
  generalize isStorage (normalize (cutFront declarationType (splitComment line).1).1) = storage
  generalize cutIf storage (cutFront Statement.vector) _ = vectorCut
  split
  · next found search =>
      have split : vectorCut.2 = found.before ++ (found.part ++ found.after) := by
        cases storage with
        | false => cases search
        | true => exact find_split array_sound search
      rw [split]
      simp [Cut.text]
  · simp [Cut.text]

/-- The parts of a line, in their order, are the line, and no character reaches over a cut. -/
theorem cut_solid (line : Text) :
    solid line = solid (cut line).type ++ (solid (cut line).vector ++ (solid (cut line).front ++
      (solid (cut line).array ++ (solid (cut line).behind ++ (solid (cut line).assignment ++
        solid (cut line).comment))))) := by
  have commentCut := solid_append (splitComment_seam line)
  have typeCut := solid_append (declarationType_endsInAscii.seam (splitComment line).1
    (cutFront declarationType (splitComment line).1).2)
  have assignmentCut := solid_append (splitAssignment_seam
    (cutFront declarationType (splitComment line).1).2)
  rw [splitComment_append] at commentCut
  rw [← declarationType_sound.cutFront] at typeCut
  rw [splitAssignment_append] at assignmentCut
  rw [commentCut, typeCut, assignmentCut]
  unfold cut
  dsimp only
  generalize isStorage (normalize (cutFront declarationType (splitComment line).1).1) = storage
  generalize (splitAssignment (cutFront declarationType (splitComment line).1).2).1 = code
  cases storage with
  | false => simp [cutIf]
  | true =>
      have vectorCut := solid_append (vector_endsInAscii.seam code (cutFront Statement.vector code).2)
      rw [← vector_sound.cutFront] at vectorCut
      rw [vectorCut]
      simp only [cutIf, if_true]
      cases search : Statement.array.find (cutFront Statement.vector code).2 with
      | none => simp
      | some found =>
          obtain ⟨rest, split, read, -⟩ := find_eq_some_iff.mp search
          obtain ⟨tail, head⟩ := array_head read
          have whole := array_sound _ _ _ read
          have frontSeam : Seam found.before rest := by
            rw [whole, head]
            exact .cons_right _ _ rfl
          have behindSeam : Seam found.part found.after :=
            .inl (array_endsInAscii _ _ _ read)
          have arrayCut : solid (cutFront Statement.vector code).2 =
              solid found.before ++ (solid found.part ++ solid found.after) := by
            rw [split, solid_append frontSeam, whole, solid_append behindSeam]
          simp [arrayCut]

end Declaration

end HdlAlign.Statement
