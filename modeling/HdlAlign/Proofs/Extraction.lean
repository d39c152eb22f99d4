import HdlAlign.Proofs.Access
import HdlAlign.Proofs.PortLists

/-! Taking lines apart by the offsets of what patterns find.  No offset lies outside its text, and
no part is written or read outside the list of parts. -/

namespace HdlAlign.Statement

open Pattern

theorem comment_sound : Sound comment := .andThen (.literal _) (.run _)

theorem assignment_sound : Sound assignment :=
  .orElse (.andThen (.literal _) (.run _))
    (.orElse (.andThen compoundOperator_sound (.andThen (.literal _) (.run _)))
      (.orElse (.andThen (.literal _) (.run _))
        (.andThen (.literal _) (.andThen .spaces fun _ _ _ read => by
          obtain ⟨rfl, rfl, rfl⟩ := atEnd_eq_some_iff.mp read
          rfl))))

end HdlAlign.Statement

namespace HdlAlign.Checked

open Text Statement Pattern

/-! Texts -/

def splitComment (line : Text) : Option (Text × Text) :=
  match (breakOn? (ofString "//") line).map fun (code, _) => code.length with
  | none => some (line, [])
  | some start => do
    let code ← slice 0 start line
    let comment ← slice start line.length line
    some (code, comment)

theorem splitComment_eq (line : Text) : splitComment line = some (Text.splitComment line) := by
  rw [splitComment, Text.splitComment]
  cases found : breakOn? (ofString "//") line with
  | none => rfl
  | some cut =>
      obtain ⟨code, comment⟩ := cut
      obtain ⟨rfl, -⟩ := breakBefore?_split found
      simp only [Option.map_some, slice_front, slice_back, Option.bind_eq_bind, Option.bind_some,
        Option.getD_some]

def indentation (line : Text) : Option Text :=
  slice 0 (line.length - (line.dropWhile isIndent).length) line

theorem indentation_eq (line : Text) : indentation line = some (Text.indentation line) := by
  have whole := List.takeWhile_append_dropWhile (p := isIndent) (l := line)
  have length := congrArg List.length whole
  rw [List.length_append] at length
  have front := slice_front (line.takeWhile isIndent) (line.dropWhile isIndent)
  rw [whole] at front
  rw [indentation, ← length, Int.natCast_add, Int.add_sub_cancel, front]
  rfl

/-! Statements.  What a pattern reads is known by the offsets of its beginning and its end. -/

def atFront (p : Pattern) (text : Text) : Option (Nat × Nat) :=
  (p text).map fun (part, _) => (0, part.length)

def leftmost (p : Pattern) (text : Text) : Option (Nat × Nat) :=
  (p.find text).map fun found => (found.before.length, found.before.length + found.part.length)

/-- One step of taking a line apart. -/
structure Step where
  locate : Text → Option (Nat × Nat)
  read : Text → Text
  /-- Whether the step is made, going by the parts that were found before. -/
  needed : List Text → Option Bool := fun _ => some true

def commentStep : Step where
  locate := leftmost Statement.comment
  read := id

def nameStep : Step where
  locate := atFront toLineEnd
  read := fun part => normalizeList (normalize part)

def frontStep (p : Pattern) : Step where
  locate := atFront p
  read := normalize

def leftmostStep (p : Pattern) : Step where
  locate := leftmost p
  read := normalize

def hasStorageType (found : List Text) : Option Bool :=
  (item 1 found).map Declaration.isStorage

def Step.ofStorage (step : Step) : Step := { step with needed := hasStorageType }

def steps : Grammar → List Step
  | .declaration =>
    [commentStep, frontStep declarationType, leftmostStep Statement.assignment,
      (frontStep Statement.vector).ofStorage, (leftmostStep Statement.array).ofStorage, nameStep]
  | .port =>
    [commentStep, frontStep Statement.direction, frontStep portType, frontStep Statement.vector,
      nameStep]

def take (state : Text × List Text) (entry : Step × Nat) : Option (Text × List Text) := do
  let (rest, found) := state
  let (step, index) := entry
  if ← step.needed found then
    match step.locate rest with
    | none => some (rest, found)
    | some (start, stop) =>
      let part ← slice start stop rest
      let before ← slice 0 start rest
      let after ← slice stop rest.length rest
      let found ← store index (step.read part) found
      some (before ++ after, found)
  else some (rest, found)

def run (steps : List Step) (first : Nat) (found : List Text) (rest : Text) : Option (List Text) :=
  ((steps.zipIdx first).foldlM take (rest, found)).map Prod.snd

def extract (grammar : Grammar) (line : Text) : Option (List Text) :=
  run (steps grammar) 0 (List.replicate (steps grammar).length []) line

def arrangement : Grammar → List (Option Nat)
  | .declaration => [some 1, some 3, some 5, some 4, some 2, some 0]
  | .port => [none, some 1, some 2, some 3, some 4, some 0]

def arrange (grammar : Grammar) (found : List Text) : Option (List Text) :=
  (arrangement grammar).mapM fun
    | none => some []
    | some index => item index found

def columns (grammar : Grammar) : Option Nat :=
  (arrange grammar (List.replicate (steps grammar).length [])).map List.length

def classify (grammar : Grammar) (line : Text) (source : Int) : Option Line := do
  if isBlank line then some (.verbatim [] source)
  else
    let (code, _) ← splitComment line
    if grammar.isStatement code then
      let fields ← arrange grammar (← extract grammar line)
      some (.aligned fields source)
    else some (.verbatim line source)

def Locates (locate : Text → Option (Nat × Nat)) (cut : Text → Text × Text) : Prop :=
  ∀ text, (locate text = none ∧ cut text = ([], text)) ∨
    ∃ before part after, text = before ++ (part ++ after) ∧
      locate text = some (before.length, before.length + part.length) ∧
      cut text = (part, before ++ after)

theorem locates_atFront {p : Pattern} (sound : Sound p) : Locates (atFront p) (cutFront p) := by
  intro text
  cases read : p text with
  | none => exact .inl ⟨by simp [atFront, read], by simp [cutFront, read]⟩
  | some cut =>
      have whole : text = cut.1 ++ cut.2 := sound _ _ _ read
      refine .inr ⟨[], cut.1, cut.2, whole, ?_, ?_⟩
      · simp [atFront, read]
      · simp [cutFront, read]

theorem locates_leftmost {p : Pattern} (sound : Sound p) : Locates (leftmost p) (cutFirst p) := by
  intro text
  cases found : p.find text with
  | none => exact .inl ⟨by simp [leftmost, found], by simp [cutFirst, found]⟩
  | some place =>
      refine .inr ⟨place.before, place.part, place.after, find_split sound found, ?_, ?_⟩
      · simp [leftmost, found]
      · simp [cutFirst, found]

theorem take_eq {step : Step} {cut : Text → Text × Text} (locates : Locates step.locate cut)
    (empty : step.read [] = []) {front back : List Text} {needed : Bool}
    (need : step.needed (front ++ [] :: back) = some needed) {rest part left : Text}
    (split : Declaration.cutIf needed cut rest = (part, left)) :
    take (rest, front ++ [] :: back) (step, front.length) =
      some (left, front ++ step.read part :: back) := by
  rw [take]
  simp only [need, Option.bind_eq_bind, Option.bind_some]
  cases needed with
  | false =>
      cases split
      rw [if_neg Bool.false_ne_true, empty]
  | true =>
      have cutting : cut rest = (part, left) := split
      rcases locates rest with ⟨nowhere, same⟩ | ⟨before, middle, after, rfl, place, same⟩
      · cases same.symm.trans cutting
        rw [if_pos rfl, nowhere, empty]
      · cases same.symm.trans cutting
        have tail := slice_back (before ++ part) after
        rw [List.append_assoc, List.length_append] at tail
        simp only [if_true, place, slice_middle, slice_front, tail, Option.bind_some, store_append]

theorem run_cons {step : Step} {cut : Text → Text × Text} (locates : Locates step.locate cut)
    (empty : step.read [] = []) (front : List Text) {more : List Step} {needed : Bool}
    (need : step.needed (front ++ List.replicate (more.length + 1) []) = some needed)
    {rest part left : Text} (split : Declaration.cutIf needed cut rest = (part, left)) :
    run (step :: more) front.length (front ++ List.replicate (more.length + 1) []) rest =
      run more (front.length + 1) (front ++ step.read part :: List.replicate more.length [])
        left := by
  rw [List.replicate_succ] at need ⊢
  rw [run, List.zipIdx_cons, List.foldlM_cons, take_eq locates empty need split]
  rfl

section

variable {p : Pattern} {rest part left : Text} {more : List Step}

theorem run_commentStep (split : cutFirst Statement.comment rest = (part, left)) :
    run (commentStep :: more) 0 (List.replicate (more.length + 1) []) rest =
      run more 1 (part :: List.replicate more.length []) left := by
  have locates : Locates commentStep.locate _ := locates_leftmost comment_sound
  exact run_cons locates rfl [] rfl split

theorem run_frontStep (sound : Sound p) (front : List Text)
    (split : cutFront p rest = (part, left)) :
    run (frontStep p :: more) front.length (front ++ List.replicate (more.length + 1) []) rest =
      run more (front.length + 1) (front ++ normalize part :: List.replicate more.length [])
        left := by
  have locates : Locates (frontStep p).locate _ := locates_atFront sound
  exact run_cons locates rfl front rfl split

theorem run_leftmostStep (sound : Sound p) (front : List Text)
    (split : cutFirst p rest = (part, left)) :
    run (leftmostStep p :: more) front.length (front ++ List.replicate (more.length + 1) []) rest =
      run more (front.length + 1) (front ++ normalize part :: List.replicate more.length [])
        left := by
  have locates : Locates (leftmostStep p).locate _ := locates_leftmost sound
  exact run_cons locates rfl front rfl split

theorem run_nameStep (front : List Text) (split : cutFront toLineEnd rest = (part, left)) :
    run [nameStep] front.length (front ++ [[]]) rest =
      some (front ++ [normalizeList (normalize part)]) := by
  have locates : Locates nameStep.locate (cutFront toLineEnd) := locates_atFront (.run _)
  exact run_cons locates rfl front rfl split

theorem run_ofStorage {step : Step} {cut : Text → Text × Text} (locates : Locates step.locate cut)
    (empty : step.read [] = []) (comment type : Text) (others : List Text)
    (split : Declaration.cutIf (Declaration.isStorage type) cut rest = (part, left)) :
    run (step.ofStorage :: more) (comment :: type :: others).length
        (comment :: type :: others ++ List.replicate (more.length + 1) []) rest =
      run more ((comment :: type :: others).length + 1)
        (comment :: type :: others ++ step.read part :: List.replicate more.length []) left := by
  have storageLocates : Locates step.ofStorage.locate cut := locates
  exact run_cons storageLocates empty (comment :: type :: others) rfl split

end

theorem extract_port (line : Text) : extract .port line = some (Port.extract line).found := by
  rcases comment : cutFirst Statement.comment line with ⟨commentPart, afterComment⟩
  rcases direction : cutFront Statement.direction afterComment with ⟨directionPart, afterDirection⟩
  rcases type : cutFront portType afterDirection with ⟨typePart, afterType⟩
  rcases vector : cutFront Statement.vector afterType with ⟨vectorPart, afterVector⟩
  rcases name : cutFront toLineEnd afterVector with ⟨namePart, afterName⟩
  have found : (Port.extract line).found = [commentPart, normalize directionPart,
      normalize typePart, normalize vectorPart, normalizeList (normalize namePart)] := by
    simp only [Port.extract, comment, direction, type, vector, name, Port.found]
  rw [extract, steps, found]
  calc
    _ = _ := run_commentStep comment
    _ = _ := run_frontStep direction_sound [commentPart] direction
    _ = _ := run_frontStep portType_sound [commentPart, normalize directionPart] type
    _ = _ := run_frontStep vector_sound
      [commentPart, normalize directionPart, normalize typePart] vector
    _ = _ := run_nameStep
      [commentPart, normalize directionPart, normalize typePart, normalize vectorPart] name

theorem extract_declaration (line : Text) :
    extract .declaration line = some (Declaration.extract line).found := by
  rcases comment : cutFirst Statement.comment line with ⟨commentPart, afterComment⟩
  rcases type : cutFront declarationType afterComment with ⟨typePart, afterType⟩
  rcases assignment : cutFirst Statement.assignment afterType with ⟨assignPart, afterAssignment⟩
  rcases vector : Declaration.cutIf (Declaration.isStorage (normalize typePart))
    (cutFront Statement.vector) afterAssignment with ⟨vectorPart, afterVector⟩
  rcases array : Declaration.cutIf (Declaration.isStorage (normalize typePart))
    (cutFirst Statement.array) afterVector with ⟨arrayPart, afterArray⟩
  rcases name : cutFront toLineEnd afterArray with ⟨namePart, afterName⟩
  have found : (Declaration.extract line).found = [commentPart, normalize typePart,
      normalize assignPart, normalize vectorPart, normalize arrayPart,
      normalizeList (normalize namePart)] := by
    simp only [Declaration.extract, comment, type, assignment, vector, array, name,
      Declaration.found]
  have vectorLocates : Locates (frontStep Statement.vector).locate _ :=
    locates_atFront vector_sound
  have arrayLocates : Locates (leftmostStep Statement.array).locate _ :=
    locates_leftmost array_sound
  rw [extract, steps, found]
  calc
    _ = _ := run_commentStep comment
    _ = _ := run_frontStep declarationType_sound [commentPart] type
    _ = _ := run_leftmostStep assignment_sound [commentPart, normalize typePart] assignment
    _ = _ := run_ofStorage vectorLocates rfl
      commentPart (normalize typePart) [normalize assignPart] vector
    _ = _ := run_ofStorage arrayLocates rfl
      commentPart (normalize typePart) [normalize assignPart, normalize vectorPart] array
    _ = _ := run_nameStep [commentPart, normalize typePart, normalize assignPart,
      normalize vectorPart, normalize arrayPart] name

theorem extract_eq (grammar : Grammar) (line : Text) :
    extract grammar line = some (grammar.extract line) := by
  cases grammar with
  | declaration => exact extract_declaration line
  | port => exact extract_port line

theorem arrange_extract (grammar : Grammar) (line : Text) :
    arrange grammar (grammar.extract line) = some (grammar.layout line) := by
  cases grammar <;> rfl

theorem columns_eq (grammar : Grammar) : columns grammar = some grammar.columns := by
  cases grammar <;> rfl

theorem classify_eq (grammar : Grammar) (line : Text) (source : Int) :
    classify grammar line source = some (grammar.classify line source) := by
  rw [classify, Grammar.classify]
  split
  · rfl
  · rw [splitComment_eq]
    simp only [Option.bind_eq_bind, Option.bind_some]
    split
    · rw [extract_eq, Option.bind_some, arrange_extract, Option.bind_some]
    · rfl

end HdlAlign.Checked
