import HdlAlign.Proofs.AssignmentRereading

/-! A declaration is read again from its columns, if nothing but blanks stood behind its array.  Blanks
may have moved within the dimensions and within the assignment. -/

namespace HdlAlign.Statement

open Pattern Text Assignment

theorem cutFirst_of_find {p : Pattern} {text : Text} {found : Found} (search : p.find text = some found) :
    p.cutFirst text = (found.part, found.before ++ found.after) := by
  rw [cutFirst, search]

theorem cutFirst_of_find_eq_none {p : Pattern} {text : Text} (search : p.find text = none) :
    p.cutFirst text = ([], text) := by
  rw [cutFirst, search]

theorem plain_cutFirst {p : Pattern} (sound : Sound p) {text : Text} (plain : Plain text) :
    Plain (p.cutFirst text).1 ∧ Plain (p.cutFirst text).2 := by
  cases search : p.find text with
  | none => exact ⟨by rw [cutFirst_of_find_eq_none search]; exact .nil,
      by rwa [cutFirst_of_find_eq_none search]⟩
  | some found =>
      rw [cutFirst_of_find search]
      rw [find_split sound search] at plain
      exact ⟨plain.subset (by simp), plain.subset (by simp)⟩

theorem laid_of_append_spaces {field tail part after : Text} (ends : Ends field)
    (split : field ++ tail = part ++ after) (tailSpaces : Spaces tail) (behind : Spaces after) :
    Laid [field] part := by
  rcases List.append_eq_append_iff.mp split with ⟨more, rfl, rfl⟩ | ⟨more, rfl, rfl⟩
  · exact .before tailSpaces.left
  · have none : more = [] := by
      rcases List.eq_nil_or_concat more with empty | ⟨init, byte, same⟩
      · exact empty
      · have visible := ends byte (by simp [same])
        rw [behind byte (by simp [same])] at visible
        cases visible
    rw [none, List.append_nil]
    exact .alone part

/-- An array behind a name, with nothing but blanks behind it, is read again from its field, and so is
the name. -/
theorem array_reread {text other array : Text} (plain : Plain text)
    (bare : ∀ found, Statement.array.find text = some found → Spaces found.after)
    (loosened : Loosened array (Statement.array.cutFirst text).1)
    (laid : Laid [normalizeList (normalize (Statement.array.cutFirst text).2), array] other)
    (same : squeeze other = squeeze text) :
    Laid [array] (Statement.array.cutFirst other).1 ∧
      normalizeList (normalize (Statement.array.cutFirst other).2) =
        normalizeList (normalize (Statement.array.cutFirst text).2) := by
  have finds : (Statement.array.find other).map squeezeFound =
      (Statement.array.find text).map squeezeFound := by
    rw [← find_array_squeeze, ← find_array_squeeze, same]
  obtain ⟨lead, gap, tail, whole, leadSpaces, gapSpaces, tailSpaces⟩ := laid.pair
  cases search : Statement.array.find text with
  | none =>
      rw [search, Option.map_none, Option.map_eq_none_iff] at finds
      rw [cutFirst_of_find_eq_none search] at whole loosened ⊢
      rw [loosened.eq_nil] at whole ⊢
      rw [cutFirst_of_find_eq_none finds, whole]
      refine ⟨.alone [], ?_⟩
      exact normalizeList_normalize_field plain leadSpaces (gapSpaces.append tailSpaces)
  | some found =>
      rw [search, Option.map_some] at finds
      obtain ⟨again, searchAgain, sameFound⟩ := Option.map_eq_some_iff.mp finds
      obtain ⟨sameBefore, -, sameAfter⟩ := Found.mk.inj sameFound
      obtain ⟨rest, textSplit, read, -⟩ := find_eq_some_iff.mp search
      obtain ⟨restAgain, otherSplit, readAgain, -⟩ := find_eq_some_iff.mp searchAgain
      rw [array_sound _ _ _ read] at textSplit
      rw [array_sound _ _ _ readAgain, whole] at otherSplit
      rw [cutFirst_of_find search] at otherSplit loosened ⊢
      rw [cutFirst_of_find searchAgain]
      simp only at otherSplit loosened ⊢
      have behind : Spaces found.after := bare found search
      have behindAgain : Spaces again.after := by
        rw [← squeeze_eq_nil_iff, sameAfter, squeeze_eq_nil_iff]
        exact behind
      have plainName : Plain (found.before ++ found.after) :=
        plain.subset (by rw [textSplit]; simp)
      have starts : Starts (again.part ++ again.after) := by
        obtain ⟨dims, head⟩ := Declaration.array_head readAgain
        rw [head]
        exact fun byte first => by cases first; rfl
      have arrayStarts : Starts (array ++ tail) := by
        obtain ⟨dims, head⟩ := Declaration.array_head read
        have first := loosened.starts.head?_squeeze
        rw [loosened.squeeze, head, squeeze_cons rfl] at first
        obtain ⟨others, rfl⟩ := List.head?_eq_some_iff.mp first.symm
        exact fun byte first => by cases first; rfl
      -- The name ends in the rendered code where it ended in the text.
      have front : squeeze again.before =
          squeeze (lead ++ normalizeList (normalize (found.before ++ found.after))) := by
        rw [squeeze_append, squeeze_eq_nil_iff.mpr leadSpaces, List.nil_append,
          squeeze_normalizeList (tidy_normalize plainName).plain, squeeze_normalize plainName,
          squeeze_append, squeeze_eq_nil_iff.mpr behind, List.append_nil, sameBefore]
      rw [← List.append_assoc lead] at otherSplit
      obtain ⟨more, moreSpaces, name, back⟩ := exists_of_squeeze_eq otherSplit.symm front starts
      constructor
      · have dims : array ++ tail = again.part ++ again.after := by
          rw [← arrayStarts.dropWhile, ← gapSpaces.dropWhile_append, back,
            moreSpaces.dropWhile_append, starts.dropWhile]
        exact laid_of_append_spaces loosened.ends dims tailSpaces behindAgain
      · rw [name, List.append_assoc, List.append_assoc]
        exact normalizeList_normalize_field plainName leadSpaces (moreSpaces.append behindAgain)

namespace Declaration

def bodyColumns (storage : Bool) (head : Text) : List Text :=
  let (vector, rest) := cutIf storage (cutFront Statement.vector) head
  let (array, name) := cutIf storage (cutFirst Statement.array) rest
  [normalize vector, normalizeList (normalize name), normalize array]

def restColumns (storage : Bool) (rest : Text) : List Text :=
  bodyColumns storage (splitAssignment rest).1 ++ [normalize (splitAssignment rest).2]

def codeColumns (code : Text) : List Text :=
  normalize (cutFront declarationType code).1 ::
    restColumns (isStorage (normalize (cutFront declarationType code).1))
      (cutFront declarationType code).2

def Bare (storage : Bool) (head : Text) : Prop :=
  storage → ∀ found, Statement.array.find (cutFront Statement.vector head).2 = some found →
    Spaces found.after

theorem bodyColumns_storage (head : Text) :
    bodyColumns true head =
      [normalize (cutFront Statement.vector head).1,
        normalizeList (normalize (cutFirst Statement.array (cutFront Statement.vector head).2).2),
        normalize (cutFirst Statement.array (cutFront Statement.vector head).2).1] := rfl

theorem bodyColumns_other (head : Text) :
    bodyColumns false head = [[], normalizeList (normalize head), []] := rfl

theorem columns_eq {line : Text} (single : newline ∉ line) :
    (extract line).columns = codeColumns (splitComment line).1 ++ [(splitComment line).2] := by
  rw [extract_eq_cut single]
  unfold cut codeColumns restColumns
  dsimp only
  generalize cutFront declarationType (splitComment line).1 = typeCut
  generalize splitAssignment typeCut.2 = headCut
  generalize isStorage (normalize typeCut.1) = storage
  cases storage with
  | false => simp [columns, Cut.declaration, bodyColumns_other, cutIf, show normalize [] = [] from rfl]
  | true =>
      rw [bodyColumns_storage]
      simp only [cutIf, if_true]
      cases search : Statement.array.find (cutFront Statement.vector headCut.1).2 with
      | none => simp [columns, Cut.declaration, cutFirst_of_find_eq_none search]
      | some found => simp [columns, Cut.declaration, cutFirst_of_find search]

theorem tidy_bodyColumns {storage : Bool} {head : Text} (plain : Plain head) :
    ∀ field ∈ bodyColumns storage head, Tidy field := by
  cases storage with
  | false =>
      rw [bodyColumns_other]
      simp only [List.forall_mem_cons, List.not_mem_nil, false_implies, implies_true, and_true]
      exact ⟨.nil, tidy_normalizeList (tidy_normalize plain), .nil⟩
  | true =>
      obtain ⟨plainVector, plainRest⟩ := plain_cutFront vector_sound plain
      obtain ⟨plainArray, plainName⟩ := plain_cutFirst array_sound plainRest
      rw [bodyColumns_storage]
      simp only [List.forall_mem_cons, List.not_mem_nil, false_implies, implies_true, and_true]
      exact ⟨tidy_normalize plainVector, tidy_normalizeList (tidy_normalize plainName),
        tidy_normalize plainArray⟩

theorem tidy_restColumns {storage : Bool} {rest : Text} (plain : Plain rest) :
    ∀ field ∈ restColumns storage rest, Tidy field := by
  obtain ⟨plainHead, plainAssignment⟩ := plain_splitAssignment plain
  rw [restColumns, List.forall_mem_append, List.forall_mem_singleton]
  exact ⟨tidy_bodyColumns plainHead, tidy_normalize plainAssignment⟩

theorem tidy_codeColumns {code : Text} (plain : Plain code) :
    ∀ field ∈ codeColumns code, Tidy field := by
  obtain ⟨plainType, plainRest⟩ := plain_cutFront declarationType_sound plain
  rw [codeColumns, List.forall_mem_cons]
  exact ⟨tidy_normalize plainType, tidy_restColumns plainRest⟩

theorem squeeze_array {text : Text} (bare : ∀ found, Statement.array.find text = some found →
    Spaces found.after) :
    squeeze (cutFirst Statement.array text).2 ++ squeeze (cutFirst Statement.array text).1 =
      squeeze text := by
  cases search : Statement.array.find text with
  | none => rw [cutFirst_of_find_eq_none search, squeeze_nil, List.append_nil]
  | some found =>
      have split := find_split array_sound search
      have behind := squeeze_eq_nil_iff.mpr (bare found search)
      rw [cutFirst_of_find search, split]
      simp [behind]

inductive LoosenedBody : (new old : List Text) → Prop
  | intro {vector oldVector name array oldArray : Text} (movedVector : Loosened vector oldVector)
      (movedArray : Loosened array oldArray) :
      LoosenedBody [vector, name, array] [oldVector, name, oldArray]

theorem LoosenedBody.refl {storage : Bool} {head : Text} (plain : Plain head) :
    LoosenedBody (bodyColumns storage head) (bodyColumns storage head) := by
  have tidy : ∀ field ∈ bodyColumns storage head, Tidy field := tidy_bodyColumns plain
  cases storage with
  | false => exact .intro (.of_tidy .nil) (.of_tidy .nil)
  | true =>
      rw [bodyColumns_storage] at tidy ⊢
      exact .intro (.of_tidy (tidy _ (by simp))) (.of_tidy (tidy _ (by simp)))

theorem LoosenedBody.squeeze {new old : List Text} (loosened : LoosenedBody new old) :
    new.map Text.squeeze = old.map Text.squeeze := by
  cases loosened with
  | intro movedVector movedArray => simp [movedVector.squeeze, movedArray.squeeze]

theorem LoosenedBody.starts {storage : Bool} {head : Text} (plain : Plain head) {body : List Text}
    (loosened : LoosenedBody body (bodyColumns storage head)) : ∀ field ∈ body, Starts field := by
  have tidy : ∀ field ∈ bodyColumns storage head, Tidy field := tidy_bodyColumns plain
  generalize bodyColumns storage head = old at loosened tidy
  cases loosened with
  | intro movedVector movedArray =>
      simp only [List.forall_mem_cons, List.not_mem_nil, false_implies, implies_true, and_true]
      exact ⟨movedVector.starts, (tidy _ (by simp)).starts, movedArray.starts⟩

theorem body_reread {storage : Bool} {head other : Text} {body : List Text} (plain : Plain head)
    (bare : Bare storage head) (loosened : LoosenedBody body (bodyColumns storage head))
    (laid : Laid body other) (same : squeeze other = squeeze head) :
    bodyColumns storage other = body.map normalize := by
  have starts := loosened.starts plain
  cases storage with
  | false =>
      rw [bodyColumns_other] at loosened
      cases loosened with
      | intro movedVector movedArray =>
          rw [movedVector.eq_nil, movedArray.eq_nil] at laid ⊢
          obtain ⟨lead, gap, tail, rfl, leadSpaces, gapSpaces, tailSpaces⟩ := laid.of_nil.pair
          have tidy := tidy_normalizeList (tidy_normalize plain)
          rw [bodyColumns_other, List.nil_append,
            normalizeList_normalize_field plain leadSpaces (gapSpaces.append tailSpaces)]
          simp [(Laid.alone _).normalize_single tidy, normalize_of_spaces .nil]
  | true =>
      rw [bodyColumns_storage] at loosened
      obtain ⟨plainVector, plainRest⟩ := plain_cutFront vector_sound plain
      obtain ⟨plainArray, plainName⟩ := plain_cutFirst array_sound plainRest
      cases loosened with
      | intro movedVector movedArray =>
          rw [List.forall_mem_cons] at starts
          have vector := vector_reread (movedVector.of_normalize plainVector) laid starts.2 same
          have rest := congrArg Prod.snd (squeezeRead_vector same)
          obtain ⟨array, name⟩ := array_reread plainRest (bare rfl)
            (movedArray.of_normalize plainArray) vector.rest rest
          have tidy := tidy_normalizeList (tidy_normalize plainName)
          rw [bodyColumns_storage, movedVector.normalize_laid vector.part,
            movedArray.normalize_laid array, name]
          simp [(Laid.alone _).normalize_single tidy]

theorem squeeze_bodyColumns {storage : Bool} {head : Text} (plain : Plain head)
    (bare : Bare storage head) : ((bodyColumns storage head).map squeeze).flatten = squeeze head := by
  cases storage with
  | false =>
      rw [bodyColumns_other]
      simp [squeeze_normalizeList (tidy_normalize plain).plain, squeeze_normalize plain]
  | true =>
      obtain ⟨plainVector, plainRest⟩ := plain_cutFront vector_sound plain
      obtain ⟨plainArray, plainName⟩ := plain_cutFirst array_sound plainRest
      rw [bodyColumns_storage]
      simp only [List.map_cons, List.map_nil, List.flatten_cons, List.flatten_nil, List.append_nil,
        squeeze_normalize plainVector, squeeze_normalizeList (tidy_normalize plainName).plain,
        squeeze_normalize plainName, squeeze_normalize plainArray]
      rw [squeeze_array (bare rfl), ← squeeze_append, ← vector_sound.cutFront]

theorem array_stops {text array : Text}
    (loosened : Loosened array (cutFirst Statement.array text).1) : Stops array := by
  intro byte first
  rw [← loosened.starts.head?_squeeze, loosened.squeeze] at first
  cases search : Statement.array.find text with
  | none =>
      rw [cutFirst_of_find_eq_none search] at first
      cases first
  | some found =>
      obtain ⟨rest, -, read, -⟩ := find_eq_some_iff.mp search
      obtain ⟨dims, head⟩ := array_head read
      rw [cutFirst_of_find search, head, squeeze_cons rfl] at first
      cases first
      rfl

theorem ahead_array {text : Text} (bare : ∀ found, Statement.array.find text = some found →
    Spaces found.after) : ahead (cutFirst Statement.array text).2 = ahead text := by
  cases search : Statement.array.find text with
  | none => rw [cutFirst_of_find_eq_none search]
  | some found =>
      obtain ⟨rest, split, read, -⟩ := find_eq_some_iff.mp search
      obtain ⟨dims, head⟩ := array_head read
      rw [cutFirst_of_find search, ahead_append_spaces (bare found search), split,
        array_sound _ _ _ read, head]
      exact (ahead_append_mark (fun _ first => by cases first; rfl)
        (fun _ first => by cases first; rfl) found.before).symm

theorem ahead_body {storage : Bool} {head next field : Text} {body : List Text} (plain : Plain head)
    (bare : Bare storage head) (loosened : LoosenedBody body (bodyColumns storage head))
    (laid : Laid (body ++ [field]) next) (starts : Starts field) (stops : Stops field) :
    ahead next = ahead head := by
  cases storage with
  | false =>
      rw [bodyColumns_other] at loosened
      cases loosened with
      | intro movedVector movedArray =>
          rw [movedVector.eq_nil, movedArray.eq_nil] at laid
          have name := (tidy_normalizeList (tidy_normalize plain)).starts
          rw [laid.of_nil.ahead_eq name, ahead_normalizeList_normalize plain]
          rintro other (_ | ⟨_, _ | ⟨_, ⟨⟩⟩⟩)
          · exact ⟨.nil, .nil⟩
          · exact ⟨starts, stops⟩
  | true =>
      obtain ⟨plainVector, plainRest⟩ := plain_cutFront vector_sound plain
      obtain ⟨plainArray, plainName⟩ := plain_cutFirst array_sound plainRest
      rw [bodyColumns_storage] at loosened
      cases loosened with
      | intro movedVector movedArray =>
          refine ahead_vector (movedVector.of_normalize plainVector) laid fun other behind => ?_
          have name := (tidy_normalizeList (tidy_normalize plainName)).starts
          rw [behind.ahead_eq name, ahead_normalizeList_normalize plainName, ahead_array (bare rfl)]
          rintro other (_ | ⟨_, _ | ⟨_, ⟨⟩⟩⟩)
          · exact ⟨movedArray.starts, array_stops (movedArray.of_normalize plainArray)⟩
          · exact ⟨starts, stops⟩

def CodeBare (code : Text) : Prop :=
  Bare (isStorage (normalize (cutFront declarationType code).1))
    (splitAssignment (cutFront declarationType code).2).1

theorem declarationType_eq :
    declarationType =
      spaces >> (keyword (typeWords ++ [assignWord]) >> Pattern.optional sign) >> spaces := by
  rw [declarationType, andThen_assoc]

theorem typeWords_worded :
    Worded (keyword (typeWords ++ [assignWord]) >> Pattern.optional sign) :=
  signed_worded declarationWords_spelled

theorem assignment_mark (code : Text) :
    Starts (splitAssignment code).2 ∧ Stops (splitAssignment code).2 := by
  rw [splitAssignment]
  cases found : breakBefore? opensAssignment code with
  | none => exact ⟨.nil, .nil⟩
  | some parts =>
      obtain ⟨-, opens⟩ := breakBefore?_split found
      refine ⟨(starts_of_opensAssignment opens).2, fun byte first => ?_⟩
      rcases opensAssignment_cases opens with ⟨op, member, rest, split⟩ | ⟨tail, split, -⟩
      · have marks : ∀ op ∈ operators, op ≠ [] ∧ ∀ byte ∈ op.head?, isWord byte = false := by
          decide +kernel
        obtain ⟨some, mark⟩ := marks op member
        obtain ⟨other, others, rfl⟩ := List.exists_cons_of_ne_nil some
        rw [Option.getD_some, ← split] at first
        exact mark byte first
      · rw [Option.getD_some, split] at first
        cases first
        rfl

theorem squeeze_rest {storage : Bool} {rest : Text} {body : List Text} {assignment : Text}
    (plain : Plain rest) (bare : Bare storage (splitAssignment rest).1)
    (loosenedBody : LoosenedBody body (bodyColumns storage (splitAssignment rest).1))
    (loosened : LoosenedAssignment assignment (splitAssignment rest).2) :
    ((body ++ [assignment]).map squeeze).flatten = squeeze rest := by
  obtain ⟨plainHead, -⟩ := plain_splitAssignment plain
  rw [List.map_append, List.flatten_append, loosenedBody.squeeze, squeeze_bodyColumns plainHead bare]
  simp [loosened.squeeze, ← squeeze_append, splitAssignment_append]

theorem rest_reread {storage : Bool} {rest other : Text} {body : List Text} {assignment : Text}
    (plain : Plain rest) (bare : Bare storage (splitAssignment rest).1)
    (loosenedBody : LoosenedBody body (bodyColumns storage (splitAssignment rest).1))
    (loosened : LoosenedAssignment assignment (splitAssignment rest).2)
    (laid : Laid (body ++ [assignment]) other) :
    restColumns storage other = (body ++ [assignment]).map normalize := by
  obtain ⟨plainHead, -⟩ := plain_splitAssignment plain
  have same : squeeze other = squeeze rest := by
    rw [laid.squeeze, squeeze_rest plain bare loosenedBody loosened]
  obtain ⟨field, head, sameHead⟩ := splitAssignment_reread body loosened laid same
  rw [restColumns, body_reread plainHead bare loosenedBody head sameHead,
    loosened.normalize_laid field, List.map_append]
  rfl

theorem ahead_rest {storage : Bool} {rest other : Text} {body : List Text} {assignment : Text}
    (plain : Plain rest) (bare : Bare storage (splitAssignment rest).1)
    (loosenedBody : LoosenedBody body (bodyColumns storage (splitAssignment rest).1))
    (loosened : LoosenedAssignment assignment (splitAssignment rest).2)
    (laid : Laid (body ++ [assignment]) other) : ahead other = ahead rest := by
  obtain ⟨plainHead, -⟩ := plain_splitAssignment plain
  obtain ⟨starts, stops⟩ := assignment_mark rest
  have fieldStops : Stops assignment := by
    intro byte first
    rw [← loosened.starts.head?_squeeze, loosened.squeeze, starts.head?_squeeze] at first
    exact stops byte first
  rw [ahead_body plainHead bare loosenedBody laid loosened.starts fieldStops,
    ← ahead_append_mark starts stops, splitAssignment_append]

inductive LoosenedColumns (code : Text) : List Text → Prop
  | intro {body : List Text} {assignment : Text}
      (loosenedBody : LoosenedBody body
        (bodyColumns (isStorage (normalize (cutFront declarationType code).1))
          (splitAssignment (cutFront declarationType code).2).1))
      (loosened : LoosenedAssignment assignment (splitAssignment (cutFront declarationType code).2).2) :
      LoosenedColumns code (normalize (cutFront declarationType code).1 :: (body ++ [assignment]))

theorem LoosenedColumns.refl {code : Text} (plain : Plain code) :
    LoosenedColumns code (codeColumns code) := by
  obtain ⟨-, plainRest⟩ := plain_cutFront declarationType_sound plain
  obtain ⟨plainHead, plainAssignment⟩ := plain_splitAssignment plainRest
  exact .intro (.refl plainHead)
    ((LoosenedAssignment.of_tidy (tidy_normalize plainAssignment)).of_normalize plainAssignment)

theorem code_reread {code other : Text} {columns : List Text} (plain : Plain code)
    (bare : CodeBare code) (loosened : LoosenedColumns code columns) (laid : Laid columns other) :
    ahead other = ahead code ∧ codeColumns other = columns.map normalize := by
  obtain ⟨plainType, plainRest⟩ := plain_cutFront declarationType_sound plain
  obtain ⟨plainHead, -⟩ := plain_splitAssignment plainRest
  have tidy := tidy_normalize plainType
  cases loosened with
  | @intro body assignment loosenedBody loosened =>
      have starts : ∀ field ∈ body ++ [assignment], Starts field :=
        List.forall_mem_append.mpr ⟨loosenedBody.starts plainHead, by simpa using loosened.starts⟩
      have behind (next : Text) (inner : Laid (body ++ [assignment]) next) :=
        ahead_rest plainRest bare loosenedBody loosened inner
      obtain ⟨front, type, rest⟩ : ahead other = ahead code ∧ Rereads declarationType
          (normalize (cutFront declarationType code).1) other (body ++ [assignment]) := by
        rw [declarationType_eq] at *
        exact typeWords_worded.reread plain laid starts behind
      rw [codeColumns, type.normalize_single tidy,
        rest_reread plainRest bare loosenedBody loosened rest, List.map_cons,
        (Laid.alone _).normalize_single tidy]
      exact ⟨front, rfl⟩

theorem squeeze_loosened {code : Text} {columns : List Text} (plain : Plain code)
    (bare : CodeBare code) (loosened : LoosenedColumns code columns) :
    (columns.map squeeze).flatten = squeeze code := by
  obtain ⟨plainType, plainRest⟩ := plain_cutFront declarationType_sound plain
  cases loosened with
  | intro loosenedBody loosened =>
      rw [List.map_cons, List.flatten_cons, squeeze_rest plainRest bare loosenedBody loosened,
        squeeze_normalize plainType, ← squeeze_append, ← declarationType_sound.cutFront]

theorem calm_bodyColumns {storage : Bool} {head : Text} (calm : Calm head)
    (bare : Bare storage head) : ∀ field ∈ bodyColumns storage head, Calm field := by
  cases storage with
  | false =>
      rw [bodyColumns_other]
      simp only [List.forall_mem_cons, List.not_mem_nil, false_implies, implies_true, and_true]
      exact ⟨.nil, calm_normalizeList (calm_normalize calm), .nil⟩
  | true =>
      rw [vector_sound.cutFront head] at calm
      have inner (rest : Text) (calmRest : Calm rest)
          (bare : ∀ found, Statement.array.find rest = some found → Spaces found.after) :
          Calm (cutFirst Statement.array rest).1 ∧ Calm (cutFirst Statement.array rest).2 := by
        cases search : Statement.array.find rest with
        | none =>
            rw [cutFirst_of_find_eq_none search]
            exact ⟨.nil, calmRest⟩
        | some found =>
            have behind := bare found search
            rw [find_split array_sound search] at calmRest
            rw [cutFirst_of_find search]
            refine ⟨calmRest.right.left, calmRest.left.append_of_head calmRest.right.right ?_⟩
            exact fun byte first => not_slash_of_isSpace (behind byte (List.mem_of_mem_head? first))
      obtain ⟨array, name⟩ := inner _ calm.right (bare rfl)
      rw [bodyColumns_storage]
      simp only [List.forall_mem_cons, List.not_mem_nil, false_implies, implies_true, and_true]
      exact ⟨calm_normalize calm.left, calm_normalizeList (calm_normalize name),
        calm_normalize array⟩

theorem calm_codeColumns {code : Text} (calm : Calm code) (bare : CodeBare code) :
    ∀ field ∈ codeColumns code, Calm field := by
  rw [declarationType_sound.cutFront code] at calm
  have rest := calm.right
  rw [← splitAssignment_append (cutFront declarationType code).2] at rest
  rw [codeColumns, restColumns, List.forall_mem_cons, List.forall_mem_append,
    List.forall_mem_singleton]
  exact ⟨calm_normalize calm.left, calm_bodyColumns rest.left bare, calm_normalize rest.right⟩

/-! The tests that make a code a declaration. -/

theorem declarationType_eq_none {code : Text} (other : ahead code ∉ typeWords ++ [assignWord]) :
    declarationType code = none := by
  cases read : declarationType code with
  | none => rfl
  | some found =>
      obtain ⟨lead, middle, right, leadRead, innerRead, -⟩ := andThen_eq_some_iff.mp read
      obtain ⟨word, behind, tail, wordRead, -, -⟩ := andThen_eq_some_iff.mp innerRead
      obtain ⟨-, rfl⟩ := run_eq_some_iff.mp leadRead
      obtain ⟨listed, -, -⟩ := keyword_eq_some_iff.mp wordRead
      exact absurd listed other

theorem not_isPrefix_assignment {code assignment : Text}
    (loosened : LoosenedAssignment assignment (splitAssignment code).2) :
    ¬ ofString "/*" <+: assignment := by
  intro begins
  rw [splitAssignment] at loosened
  cases found : breakBefore? opensAssignment code with
  | none =>
      rw [found, Option.getD_none] at loosened
      rw [loosened.eq_nil] at begins
      exact absurd begins (by decide)
  | some parts =>
      rw [found, Option.getD_some] at loosened
      obtain ⟨-, opens⟩ := breakBefore?_split found
      rcases opensAssignment_cases opens with ⟨op, member, front⟩ | ⟨tail, split, -⟩
      · have apart : ∀ op ∈ operators, ¬ ofString "/*" <+: op ∧ ¬ op <+: ofString "/*" := by decide
        obtain ⟨left, right⟩ := apart op member
        exact (List.prefix_or_prefix_of_prefix begins (loosened.operator op member front)).elim left
          right
      · have first := loosened.starts.head?_squeeze
        obtain ⟨rest, rfl⟩ := begins
        rw [loosened.squeeze, split, squeeze_cons rfl] at first
        have marks : some (';' : UInt8) = some ('/' : UInt8) := first
        exact absurd marks (by decide)

theorem isPrefix_of_laid {code other : Text} {columns : List Text} (plain : Plain code)
    (loosened : LoosenedColumns code columns) (laid : Laid columns other) (none : ahead code = [])
    (opens : ofString "/*" <+: other.dropWhile isSpace) :
    ofString "/*" <+: code.dropWhile isSpace := by
  have missed : declarationType code = Option.none :=
    declarationType_eq_none (by rw [none]; decide)
  have cut : cutFront declarationType code = ([], code) := by
    rw [cutFront, missed, Option.getD_none]
  have visible : ∀ byte ∈ ofString "/*", isSpace byte = false := by decide +kernel
  obtain ⟨plainHead, -⟩ := plain_splitAssignment plain
  have storage : isStorage (normalize []) = false := rfl
  obtain ⟨assignment, loosenedAssignment, name⟩ : ∃ assignment,
      LoosenedAssignment assignment (splitAssignment code).2 ∧
        Laid [normalizeList (normalize (splitAssignment code).1), [], assignment] other := by
    cases loosened with
    | @intro body assignment loosenedBody loosened =>
        rw [cut] at loosened laid
        rw [cut, storage, bodyColumns_other] at loosenedBody
        cases loosenedBody with
        | intro movedVector movedArray =>
            rw [movedVector.eq_nil, movedArray.eq_nil] at laid
            exact ⟨assignment, loosened, laid.of_nil.of_nil⟩
  by_cases empty : normalizeList (normalize (splitAssignment code).1) = []
  · -- No assignment begins like a block comment.
    rw [empty] at name
    have field : Laid [assignment] other := name.of_nil.of_nil
    have begins : ofString "/*" <+: assignment := by
      by_cases absent : assignment = []
      · rw [absent] at field
        cases field.of_nil with
        | nil spaces =>
            rw [List.dropWhile_eq_nil_iff.mpr spaces] at opens
            exact absurd opens (by decide)
      · obtain ⟨rest, whole, parted, -⟩ := field.dropWhile_eq absent loosenedAssignment.starts
        rw [whole] at opens
        exact parted.isPrefix visible opens
    exact absurd begins (not_isPrefix_assignment loosenedAssignment)
  · have starts := (tidy_normalizeList (tidy_normalize plainHead)).starts
    obtain ⟨rest, whole, parted, -⟩ := name.dropWhile_eq empty starts
    rw [whole] at opens
    have inside := parted.isPrefix visible opens
    let mark (byte : UInt8) : Bool := byte == '/' || byte == '*'
    have run : ofString "/*" <+:
        (normalizeList (normalize (splitAssignment code).1)).takeWhile mark := by
      obtain ⟨tail, same⟩ := inside
      rw [← same, List.takeWhile_append_of_pos (by decide +kernel)]
      exact ⟨_, rfl⟩
    have blankMark : ∀ byte, isSpace byte → mark byte = false := forall_byte (by decide +kernel)
    rw [takeWhile_normal blankMark (by decide) plainHead] at run
    have front := run.trans (List.takeWhile_prefix mark)
    rw [← splitAssignment_append code, List.dropWhile_append, if_neg]
    · exact front.trans (List.prefix_append _ _)
    · intro drained
      rw [List.isEmpty_iff.mp drained] at front
      exact absurd front (by decide)

theorem count_squeeze {byte : UInt8} (visible : isSpace byte = false) (text : Text) :
    List.count byte (squeeze text) = List.count byte text :=
  List.count_filter (by simp [visible])

theorem startsWith_singleton (byte : UInt8) (text : Text) :
    text.startsWith [byte] = (text.head? == some byte) := by
  cases text with
  | nil => rfl
  | cons first rest =>
      rw [Bool.eq_iff_iff, startsWith, List.isPrefixOf_iff_prefix, List.cons_prefix_cons,
        beq_iff_eq, List.head?_cons, Option.some.injEq]
      exact ⟨fun same => same.1.symm, fun same => ⟨same.symm, List.nil_prefix⟩⟩

theorem isStatement_of_alike {old new : Text} (oldStarts : Starts old) (newStarts : Starts new)
    (same : squeeze new = squeeze old) (word : new.takeWhile isWord = old.takeWhile isWord)
    (comment : ofString "/*" <+: new → ofString "/*" <+: old) (statement : isStatement old) :
    isStatement new := by
  have first : new.head? = old.head? := by
    rw [← oldStarts.head?_squeeze, ← newStarts.head?_squeeze, same]
  have count : List.count (';' : UInt8) new = List.count (';' : UInt8) old := by
    rw [← count_squeeze rfl, same, count_squeeze rfl]
  have contains : new.contains '=' = old.contains '=' := by
    rw [Bool.eq_iff_iff, List.contains_iff_mem, List.contains_iff_mem, ← mem_squeeze rfl, same,
      mem_squeeze rfl]
  have empty : new.isEmpty = old.isEmpty := by
    cases new <;> cases old <;> first | rfl | cases first
  have star : ofString "*" = [('*' : UInt8)] := by decide
  have foreign : isForeign new → isForeign old := by
    simp only [isForeign, keyword_matchesFront, word, startsWith_singleton, first, star,
      Bool.or_eq_true]
    simp only [startsWith, List.isPrefixOf_iff_prefix] at comment ⊢
    tauto
  simp only [isStatement, keyword_matchesFront, word, count, contains, empty,
    Bool.and_eq_true, Bool.not_eq_true'] at statement ⊢
  obtain ⟨⟨⟨some, native⟩, single⟩, kind⟩ := statement
  exact ⟨⟨⟨some, Bool.eq_false_iff.mpr fun new => Bool.eq_false_iff.mp native (foreign new)⟩,
    single⟩, kind⟩

theorem isStatement_reread {code other : Text} {columns : List Text} (plain : Plain code)
    (bare : CodeBare code) (loosened : LoosenedColumns code columns) (laid : Laid columns other)
    (plainOther : Plain (other.dropWhile isSpace)) (statement : isStatement (trim code)) :
    isStatement (trim other) := by
  obtain ⟨front, -⟩ := code_reread plain bare loosened laid
  rw [plain.trim] at statement
  rw [trim_of_plain plainOther]
  refine isStatement_of_alike (starts_trimSpaces code) (starts_trimSpaces other) ?_ ?_ ?_ statement
  · rw [squeeze_trimSpaces, squeeze_trimSpaces, laid.squeeze, squeeze_loosened plain bare loosened]
  · rw [takeWhile_trimSpaces, takeWhile_trimSpaces, front]
  · intro opens
    have inOther := opens.trans (trimSpaces_isPrefix other)
    have none : ahead code = [] := by
      obtain ⟨tail, split⟩ := inOther
      rw [← front, ahead, ← split]
      rfl
    show [('/' : UInt8)] ++ [('*' : UInt8)] <+: trimSpaces code
    exact isPrefix_trimSpaces rfl (isPrefix_of_laid plain loosened laid none inOther)

theorem codeBare_of_cut {line : Text} (blank : Spaces (cut line).behind) :
    CodeBare (splitComment line).1 := by
  intro storage found search
  unfold cut at blank
  simp only [storage, cutIf, if_true, search] at blank
  exact blank

end Declaration

end HdlAlign.Statement
