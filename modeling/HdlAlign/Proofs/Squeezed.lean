import HdlAlign.Proofs.Cuts
import HdlAlign.Proofs.Tidy

/-! Dimension lists are found wherever blanks stand: what the patterns of a vector and of an array
read, and where, depends only on the bytes that are no blanks. -/

namespace HdlAlign.Text

def squeeze (text : Text) : Text := text.filter fun byte => !isSpace byte

@[simp] theorem squeeze_nil : squeeze [] = [] := rfl

@[simp] theorem squeeze_append (left right : Text) :
    squeeze (left ++ right) = squeeze left ++ squeeze right := List.filter_append ..

theorem squeeze_cons {byte : UInt8} (visible : isSpace byte = false) (rest : Text) :
    squeeze (byte :: rest) = byte :: squeeze rest := by
  simp [squeeze, visible]

theorem squeeze_cons_of_isSpace {byte : UInt8} (space : isSpace byte) (rest : Text) :
    squeeze (byte :: rest) = squeeze rest := by
  simp [squeeze, space]

theorem squeeze_eq_nil_iff {text : Text} : squeeze text = [] ↔ Spaces text := by
  simp [squeeze, Spaces, List.filter_eq_nil_iff]

theorem mem_squeeze {text : Text} {byte : UInt8} (visible : isSpace byte = false) :
    byte ∈ squeeze text ↔ byte ∈ text := by
  simp [squeeze, visible]

theorem squeeze_dropWhile (text : Text) : squeeze (text.dropWhile isSpace) = squeeze text := by
  induction text with
  | nil => rfl
  | cons byte rest ih =>
      rw [List.dropWhile_cons]
      split
      · next space => rw [ih, squeeze_cons_of_isSpace space]
      · rfl

theorem squeeze_trimSpaces (text : Text) : squeeze (trimSpaces text) = squeeze text := by
  obtain ⟨tail, spaces, split⟩ := dropTailWhile_split isSpace (text.dropWhile isSpace)
  rw [← squeeze_dropWhile text, split, squeeze_append, squeeze_eq_nil_iff.mpr spaces,
    List.append_nil]
  rfl

theorem squeeze_collapseRuns (inRun : Bool) (text : Text) :
    squeeze (collapseRuns inRun text) = squeeze text := by
  fun_induction collapseRuns inRun text with
  | case1 => rfl
  | case2 inRun byte rest space follows ih => rw [ih, squeeze_cons_of_isSpace space]
  | case3 inRun byte rest space single ih =>
      have first : isSpace (if inRun then blank else byte) := by cases inRun <;> simp [space, isSpace_blank]
      rw [squeeze_cons_of_isSpace first, ih, squeeze_cons_of_isSpace space]
  | case4 inRun byte rest other ih =>
      rw [squeeze_cons (by simpa using other), squeeze_cons (by simpa using other), ih]

theorem squeeze_spaceCommas (absorbing : Bool) (text : Text) :
    squeeze (spaceCommas absorbing text) = squeeze text := by
  fun_induction spaceCommas absorbing text with
  | case1 => rfl
  | case2 absorbing rest ih =>
      rw [squeeze_cons rfl, squeeze_cons_of_isSpace isSpace_blank, ih, squeeze_cons rfl]
  | case3 absorbing byte rest other space drop ih => rw [ih, squeeze_cons_of_isSpace space]
  | case4 absorbing byte rest other space keep ih =>
      rw [squeeze_cons_of_isSpace space, ih, squeeze_cons_of_isSpace space]
  | case5 absorbing byte rest other visible ih =>
      rw [squeeze_cons (by simpa using visible), squeeze_cons (by simpa using visible), ih]

theorem squeeze_normalize {text : Text} (plain : Plain text) :
    squeeze (normalize text) = squeeze text := by
  rw [normalize, squeeze_collapseRuns, plain.trim, squeeze_trimSpaces]

theorem squeeze_normalizeList {text : Text} (plain : Plain text) :
    squeeze (normalizeList text) = squeeze text := by
  rw [normalizeList, (plain.within (spaceCommas_within false text)).trim, squeeze_trimSpaces,
    squeeze_spaceCommas]

theorem exists_of_squeeze_eq {front rest left right : Text} (split : front ++ rest = left ++ right)
    (same : squeeze front = squeeze left) (starts : Starts rest) :
    ∃ gap, Spaces gap ∧ front = left ++ gap ∧ right = gap ++ rest := by
  rcases List.append_eq_append_iff.mp split with ⟨gap, rfl, rfl⟩ | ⟨gap, rfl, rfl⟩
  · have spaces : Spaces gap := squeeze_eq_nil_iff.mp (by simpa using same.symm)
    have none : gap = [] := by
      cases gap with
      | nil => rfl
      | cons byte gap =>
          have visible := starts byte rfl
          rw [spaces byte (by simp)] at visible
          cases visible
    exact ⟨[], .nil, by simp [none], by simp [none]⟩
  · exact ⟨gap, squeeze_eq_nil_iff.mp (by simpa using same), rfl, rfl⟩

end HdlAlign.Text

namespace HdlAlign.Pattern

open Text

def squeezeRead (read : Text × Text) : Text × Text := (squeeze read.1, squeeze read.2)

/-- A pattern that, where no blank stands in front, reads the same with all blanks deleted, and
stops in front of no blank. -/
structure Blind (p : Pattern) : Prop where
  reads : ∀ text, Starts text → p (squeeze text) = (p text).map squeezeRead
  stops : ∀ text part rest, Starts text → p text = some (part, rest) → Starts rest

theorem Blind.andThen {first second : Pattern} (h : Blind first) (h' : Blind second) :
    Blind (first >> second) := by
  constructor
  · intro text starts
    rw [andThen_def, Pattern.andThen, Pattern.andThen, h.reads text starts]
    cases read : first text with
    | none => rfl
    | some found =>
        rw [Option.map_some, squeezeRead]
        simp only
        rw [h'.reads found.2 (h.stops text found.1 found.2 starts read)]
        cases second found.2 with
        | none => rfl
        | some more => simp [squeezeRead]
  · intro text part rest starts read
    obtain ⟨left, middle, right, firstRead, secondRead, -⟩ := andThen_eq_some_iff.mp read
    exact h'.stops _ _ _ (h.stops _ _ _ starts firstRead) secondRead

theorem upTo_of_none {p : Pattern} {text : Text} (none : p text = none) (n : Nat) :
    upTo p n text = some ([], text) := by
  cases n with
  | zero => rfl
  | succ n => simp [upTo, optional, andThen, none]

theorem upTo_of_some {p : Pattern} {text part rest : Text} (read : p text = some (part, rest))
    (n : Nat) : upTo p (n + 1) text = (upTo p n rest).map fun more => (part ++ more.1, more.2) := by
  obtain ⟨more, found⟩ : ∃ more, upTo p n rest = some more := by cases n <;> exact ⟨_, rfl⟩
  simp [upTo, optional, andThen, read, found]

theorem upTo_eq_many {p : Pattern} (sound : Sound p) (consumes : Consumes p) {n : Nat} {text : Text}
    (enough : text.length ≤ n) : upTo p n text = many p text := by
  rw [many]
  induction n using Nat.strong_induction_on generalizing text with
  | _ n ih =>
      cases read : p text with
      | none => rw [upTo_of_none read, upTo_of_none read]
      | some found =>
          have whole := sound text found.1 found.2 read
          have shorter := congrArg List.length whole
          have nonempty := List.length_pos_iff.mpr (consumes text found.1 found.2 read)
          rw [List.length_append] at shorter
          obtain ⟨fuel, rfl⟩ := Nat.exists_eq_succ_of_ne_zero (show n ≠ 0 by omega)
          obtain ⟨size, same⟩ := Nat.exists_eq_succ_of_ne_zero (show text.length ≠ 0 by omega)
          have left : Pattern.upTo p fuel found.2 = many p found.2 := ih fuel (by omega) (by omega)
          have right : Pattern.upTo p size found.2 = many p found.2 := ih size (by omega) (by omega)
          rw [same, upTo_of_some read, upTo_of_some read, left, right]

theorem Blind.upTo {p : Pattern} (blind : Blind p) (n : Nat) : Blind (upTo p n) := by
  induction n with
  | zero =>
      refine ⟨fun text _ => rfl, fun text part rest starts read => ?_⟩
      cases read
      exact starts
  | succ n ih =>
      constructor
      · intro text starts
        cases read : p text with
        | none =>
            have squeezed : p (squeeze text) = none := by rw [blind.reads text starts, read]; rfl
            rw [upTo_of_none read, upTo_of_none squeezed]
            rfl
        | some found =>
            have squeezed : p (squeeze text) = some (squeeze found.1, squeeze found.2) := by
              rw [blind.reads text starts, read]
              rfl
            have stops := blind.stops text found.1 found.2 starts read
            rw [upTo_of_some read, upTo_of_some squeezed, ih.reads found.2 stops]
            cases Pattern.upTo p n found.2 with
            | none => rfl
            | some more => simp [squeezeRead]
      · intro text part rest starts read
        cases first : p text with
        | none =>
            rw [upTo_of_none first] at read
            cases read
            exact starts
        | some found =>
            rw [upTo_of_some first] at read
            obtain ⟨more, inner, same⟩ := Option.map_eq_some_iff.mp read
            cases same
            exact ih.stops _ _ _ (blind.stops text found.1 found.2 starts first) inner

theorem Blind.many {p : Pattern} (sound : Sound p) (consumes : Consumes p) (blind : Blind p) :
    Blind (many p) := by
  constructor
  · intro text starts
    have shorter : (squeeze text).length ≤ text.length := List.length_filter_le ..
    rw [← upTo_eq_many sound consumes shorter]
    exact (blind.upTo text.length).reads text starts
  · exact fun text => (blind.upTo text.length).stops text

theorem Blind.spaces_andThen {p : Pattern} (blind : Blind p) (text : Text) :
    (spaces >> p) (squeeze text) = ((spaces >> p) text).map squeezeRead := by
  have front : Spaces (text.takeWhile isSpace) := fun byte member => List.mem_takeWhile_imp member
  have starts : Starts (squeeze text) := by
    intro byte first
    have member := List.mem_filter.mp (List.mem_of_mem_head? first)
    simpa using member.2
  have none : (squeeze text).takeWhile isSpace = [] := by
    cases same : squeeze text with
    | nil => rfl
    | cons byte rest => simp [starts byte (by rw [same]; rfl)]
  rw [andThen_def, Pattern.andThen, Pattern.andThen, spaces, run, run]
  simp only
  rw [none, starts.dropWhile, ← squeeze_dropWhile, blind.reads _ (starts_dropWhile text)]
  cases p (text.dropWhile isSpace) with
  | none => rfl
  | some found => simp [squeezeRead, squeeze_eq_nil_iff.mpr front]

def squeezeFound (found : Found) : Found :=
  ⟨squeeze found.before, squeeze found.part, squeeze found.after⟩

theorem Blind.find {p : Pattern} (blind : Blind p)
    (visible : ∀ byte rest, isSpace byte → p (byte :: rest) = none) (text : Text) :
    p.find (squeeze text) = (p.find text).map squeezeFound := by
  induction text with
  | nil =>
      have same := blind.reads [] fun _ member => by cases member
      rw [squeeze_nil, Pattern.find]
      conv => lhs; rw [← squeeze_nil, same]
      rw [Option.map_map, Option.map_map]
      rfl
  | cons byte rest ih =>
      by_cases space : isSpace byte
      · rw [squeeze_cons_of_isSpace space, ih, Pattern.find, visible byte rest space, Option.map_map]
        refine congrArg (Option.map · _) (funext fun found => ?_)
        simp [squeezeFound, squeeze_cons_of_isSpace space]
      · have shown : isSpace byte = false := by simpa using space
        have same := blind.reads (byte :: rest) fun _ member => by cases member; exact shown
        rw [squeeze_cons shown] at same ⊢
        rw [Pattern.find, Pattern.find, same]
        cases p (byte :: rest) with
        | some found => rfl
        | none =>
            rw [Option.map_none]
            simp only
            rw [ih, Option.map_map, Option.map_map]
            refine congrArg (Option.map · _) (funext fun found => ?_)
            simp [squeezeFound, squeeze_cons shown]

theorem Blind.mark {byte : UInt8} {p : UInt8 → Bool} (blanks : ∀ byte, isSpace byte → p byte) :
    Blind (literal [byte] >> run p) := by
  have filtered (text : Text) : (squeeze text).takeWhile p = squeeze (text.takeWhile p) ∧
      (squeeze text).dropWhile p = squeeze (text.dropWhile p) := by
    induction text with
    | nil => exact ⟨rfl, rfl⟩
    | cons first rest ih =>
        by_cases space : isSpace first
        · simp [squeeze_cons_of_isSpace space, blanks first space, ih]
        · have shown : isSpace first = false := by simpa using space
          rw [squeeze_cons shown]
          cases holds : p first <;> simp [holds, squeeze_cons shown, ih]
  constructor
  · intro text starts
    cases text with
    | nil => rfl
    | cons first rest =>
        rw [squeeze_cons (starts first rfl)]
        by_cases same : byte = first
        · simp [andThen_def, Pattern.andThen, Pattern.literal, dropHead?, Pattern.run, same,
            filtered, squeezeRead, squeeze_cons (starts first rfl)]
        · simp [andThen_def, Pattern.andThen, Pattern.literal, dropHead?, same]
  · intro text part rest _ read first member
    obtain ⟨left, middle, right, -, runRead, -⟩ := andThen_eq_some_iff.mp read
    obtain ⟨-, rfl⟩ := run_eq_some_iff.mp runRead
    have stopped := List.head?_dropWhile_not p middle
    rw [member] at stopped
    by_contra space
    simp [blanks first (by simpa using space)] at stopped

end HdlAlign.Pattern

namespace HdlAlign.Statement

open Pattern Text

theorem dimension_blind : Blind dimension := by
  have index : ∀ byte, isSpace byte → isIndexByte byte :=
    forall_byte (by decide +kernel)
  have opening : ofString "[" = [('[' : UInt8)] := by decide
  have colon : ofString ":" = [(':' : UInt8)] := by decide
  have closing : ofString "]" = [(']' : UInt8)] := by decide
  have parts : dimension = ((literal "[" >> run isIndexByte) >> (literal ":" >> run isIndexByte) >>
      (literal "]" >> spaces)) := by
    rw [dimension, andThen_assoc, andThen_assoc]
  rw [parts, opening, colon, closing]
  exact (Blind.mark index).andThen ((Blind.mark index).andThen (Blind.mark fun _ space => space))

theorem dimension_consumes : Consumes dimension := .andThen_left (.literal (by decide)) _

theorem array_blind : Blind array :=
  dimension_blind.andThen (.many dimension_sound dimension_consumes dimension_blind)

theorem array_of_isSpace (byte : UInt8) (rest : Text) (space : isSpace byte) :
    array (byte :: rest) = none := by
  cases read : array (byte :: rest) with
  | none => rfl
  | some found =>
      obtain ⟨left, middle, right, first, -, -⟩ := andThen_eq_some_iff.mp read
      obtain ⟨mark, _, _, opening, -, -⟩ := andThen_eq_some_iff.mp first
      obtain ⟨-, split⟩ := literal_eq_some_iff.mp opening
      have bracket : ofString "[" = [('[' : UInt8)] := by decide
      rw [bracket] at split
      cases split
      cases space

theorem cutFront_vector_squeeze (text : Text) :
    vector.cutFront (squeeze text) = squeezeRead (vector.cutFront text) := by
  rw [cutFront, cutFront, vector, array_blind.spaces_andThen text]
  cases (spaces >> array) text with
  | none => simp [squeezeRead]
  | some found => rfl

theorem find_array_squeeze (text : Text) :
    array.find (squeeze text) = (array.find text).map squeezeFound :=
  array_blind.find array_of_isSpace text

end HdlAlign.Statement
