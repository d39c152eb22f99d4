import HdlAlign.Proofs.LastNames

/-! The way from one directory to another, and the names that it takes. -/

namespace HdlAlign

namespace Path

variable {absolute : Bool} {names : List Text}

def LeadDown (names : List Text) : Prop := ∀ name ∈ names, IsName name ∧ Disk.Proper name

instance (names : List Text) : Decidable (LeadDown names) :=
  inferInstanceAs (Decidable (∀ name ∈ names,
    (name ≠ [] ∧ slash ∉ name) ∧ name ≠ dot ∧ name ≠ dotDot))

theorem leadDown_append {front back : List Text} :
    LeadDown (front ++ back) ↔ LeadDown front ∧ LeadDown back := List.forall_mem_append

theorem LeadDown.isName (down : LeadDown names) : ∀ name ∈ names, IsName name :=
  fun name member => (down name member).1

theorem LeadDown.foldl_step (down : LeadDown names) (kept : List Text) :
    names.foldl (step absolute) kept = names.reverse ++ kept := by
  induction names generalizing kept with
  | nil => rfl
  | cons name rest ih =>
      obtain ⟨first, later⟩ := List.forall_mem_cons.mp down
      rw [List.foldl_cons, step_proper first.2, ih later]
      simp

theorem LeadDown.settled (down : LeadDown names) : Settled absolute names.reverse where
  isName := fun name member =>
    have inside := down name (List.mem_reverse.mp member)
    ⟨inside.1, inside.2.1⟩
  fixed := by rw [List.reverse_reverse, down.foldl_step, List.append_nil]

theorem names_ofNames_true (isName : ∀ name ∈ names, IsName name) :
    Path.names (ofNames true names) = names := by
  by_cases none : names = []
  · rw [none]
    decide
  · exact names_ofNames none isName

theorem LeadDown.cleanNames_ofNames_true (down : LeadDown names) :
    cleanNames (ofNames true names) = names := by
  rw [cleanNames, names_ofNames_true down.isName, down.foldl_step]
  simp

theorem LeadDown.clean_ofNames_true (down : LeadDown names) :
    clean (ofNames true names) = ofNames true names := by
  rw [clean, down.cleanNames_ofNames_true]
  rfl

theorem LeadDown.step {kept : List Text} (down : LeadDown kept) {name : Text}
    (isName : IsName name) : LeadDown (step true kept name) := by
  rcases Disk.dot_or_dotDot_or_proper name with rfl | rfl | proper
  · exact down
  · cases kept with
    | nil => exact down
    | cons last before =>
        obtain ⟨head, others⟩ := List.forall_mem_cons.mp down
        have back : Path.step true (last :: before) dotDot = before := by
          rw [Path.step, if_neg (by decide), if_pos rfl]
          exact if_neg head.2.2
        rwa [back]
  · rw [step_proper proper]
    exact List.forall_mem_cons.mpr ⟨⟨isName, proper⟩, down⟩

theorem leadDown_foldl {kept : List Text} (down : LeadDown kept)
    (isName : ∀ name ∈ names, IsName name) : LeadDown (names.foldl (step true) kept) := by
  induction names generalizing kept with
  | nil => exact down
  | cons name rest ih =>
      obtain ⟨first, later⟩ := List.forall_mem_cons.mp isName
      exact ih (down.step first) later

theorem leadDown_cleanNames {path : Text} (rooted : isAbsolute path = true) :
    LeadDown (cleanNames path) := by
  have none : LeadDown [] := fun _ member => absurd member List.not_mem_nil
  rw [cleanNames, rooted]
  intro name member
  exact leadDown_foldl none (fun _ => isName_of_mem_names) name (List.mem_reverse.mp member)

theorem length_ofNames_lt {name : Text} (isName : IsName name) :
    (ofNames true names).length < (ofNames true (names ++ [name])).length := by
  have filled : 0 < name.length := List.length_pos_of_ne_nil isName.1
  by_cases none : names = []
  · have alone : ofNames true ([] ++ [name]) = slash :: name := by
      simp [ofNames, Text.join, List.intercalate]
    have root : (ofNames true []).length = 1 := by decide
    rw [none, alone, root, List.length_cons]
    omega
  · rw [ofNames_concat none, List.length_append, List.length_cons]
    omega

theorem directory_ofNames_nil : directory (ofNames true []) = ofNames true [] := by decide

theorem directory_ofNames_concat {name : Text} (down : LeadDown (names ++ [name])) :
    directory (ofNames true (names ++ [name])) = ofNames true names := by
  have isName : IsName name := down.isName name (by simp)
  by_cases none : names = []
  · have alone : ofNames true ([] ++ [name]) = [slash] ++ name := by
      simp [ofNames, Text.join, List.intercalate]
    have last : Text.afterLast slash ([slash] ++ name) = name :=
      Text.afterLast_append rfl isName.2
    rw [none, alone, directory, last, List.length_append, Nat.add_sub_cancel, List.take_left]
    decide
  · exact directory_ofNames none (leadDown_append.mp down).1.settled isName

/-! The way from one directory to another -/

theorem dropCommon_append (common left right : List Text) :
    dropCommon (common ++ left) (common ++ right) = dropCommon left right := by
  induction common with
  | nil => rfl
  | cons name common ih => rw [List.cons_append, List.cons_append, dropCommon, if_pos rfl, ih]

theorem exists_common (left right : List Text) :
    ∃ common, left = common ++ (dropCommon left right).1 ∧
      right = common ++ (dropCommon left right).2 := by
  induction left generalizing right with
  | nil => exact ⟨[], rfl, by cases right <;> rfl⟩
  | cons name left ih =>
      cases right with
      | nil => exact ⟨[], rfl, rfl⟩
      | cons other right =>
          rw [dropCommon]
          split
          · next same =>
              obtain ⟨common, first, second⟩ := ih right
              exact ⟨name :: common, congrArg _ first, by rw [← same]; exact congrArg _ second⟩
          · exact ⟨[], rfl, rfl⟩

theorem relative?_ofNames {base target : List Text} (down : LeadDown base) (down' : LeadDown target)
    (apart : base ≠ target) :
    relative? (ofNames true base) (ofNames true target) =
      some (Text.join [slash] (List.replicate (dropCommon base target).1.length dotDot ++
        (dropCommon base target).2)) := by
  have clean_ne : clean (ofNames true base) ≠ clean (ofNames true target) := by
    intro same
    have names := congrArg cleanNames same
    rw [down.clean_ofNames_true, down'.clean_ofNames_true, down.cleanNames_ofNames_true,
      down'.cleanNames_ofNames_true] at names
    exact apart names
  have rooted : clean (ofNames true target) ≠ dot := by
    rw [down'.clean_ofNames_true]
    intro same
    have first : (ofNames true target).head? = some slash := rfl
    rw [same] at first
    exact absurd first (by decide)
  have upward : (dropCommon base target).1.head? ≠ some dotDot := by
    obtain ⟨common, split, -⟩ := exists_common base target
    intro first
    refine (down dotDot ?_).2.2 rfl
    rw [split]
    exact List.mem_append_right _ (List.mem_of_head? first)
  rw [relative?, if_neg clean_ne, if_neg (by simp [isAbsolute, ofNames]), if_neg rooted,
    down.cleanNames_ofNames_true, down'.cleanNames_ofNames_true]
  exact if_neg upward

theorem isAbsolute_clean (path : Text) : isAbsolute (clean path) = isAbsolute path := by
  rw [clean]
  by_cases none : cleanNames path = []
  · rw [none]
    cases isAbsolute path <;> decide
  · exact isAbsolute_ofNames none (settled_cleanNames path).isName_reverse

theorem isAbsolute_ofNames_true (names : List Text) : isAbsolute (ofNames true names) = true := rfl

theorem isAbsolute_absolute {cwd : Text} (rooted : isAbsolute cwd = true) (path : Text) :
    isAbsolute (Path.absolute cwd path) = true := by
  rw [Path.absolute]
  split
  · next already => rwa [isAbsolute_clean]
  · obtain ⟨byte, rest, rfl⟩ : ∃ byte rest, cwd = byte :: rest :=
      List.exists_cons_of_ne_nil (by rintro rfl; cases rooted)
    cases path with
    | nil => exact (isAbsolute_clean _).trans rooted
    | cons first others => exact (isAbsolute_clean _).trans rooted

theorem relative?_of_not_isAbsolute {base target : Text} (rooted : isAbsolute base = true)
    (open_ : isAbsolute target = false) : relative? base target = none := by
  have apart : clean base ≠ clean target := by
    intro same
    have kinds := congrArg isAbsolute same
    rw [isAbsolute_clean, isAbsolute_clean, rooted, open_] at kinds
    cases kinds
  rw [relative?, if_neg apart, rooted, open_]
  rfl

theorem isAbsolute_join {names : List Text} (some : names ≠ [])
    (isName : ∀ name ∈ names, IsName name) : isAbsolute (Text.join [slash] names) = false := by
  have nonempty : names.isEmpty = false := by simpa using some
  have relative : ofNames false names = Text.join [slash] names := by
    rw [ofNames, if_neg Bool.false_ne_true, nonempty, if_neg Bool.false_ne_true]
  rw [← relative]
  exact isAbsolute_ofNames some isName

theorem join_ofNames {base names : List Text} (down : LeadDown base) (down' : LeadDown names) :
    join (ofNames true base) (Text.join [slash] names) = ofNames true (base ++ names) := by
  by_cases none : names = []
  · rw [none, List.append_nil]
    exact down.clean_ofNames_true
  · obtain ⟨byte, rest, split⟩ := List.exists_cons_of_ne_nil (join_ne_nil none down'.isName)
    have joined : join (ofNames true base) (Text.join [slash] names) =
        clean (ofNames true base ++ slash :: Text.join [slash] names) := by
      rw [split]
      rfl
    have kept : cleanNames (ofNames true base ++ slash :: Text.join [slash] names) =
        base ++ names := by
      rw [cleanNames, names_append_slash, names_ofNames_true down.isName, names_join down'.isName,
        (leadDown_append.mpr ⟨down, down'⟩).foldl_step, List.append_nil, List.reverse_reverse]
    rw [joined, clean, kept]
    rfl

theorem relative?_below {base : List Text} {names : List Text} (down : LeadDown (base ++ names))
    (below : names ≠ []) :
    relative? (ofNames true base) (ofNames true (base ++ names)) =
      some (Text.join [slash] names) := by
  have common : dropCommon base (base ++ names) = ([], names) := by
    have dropped := dropCommon_append base [] names
    rw [List.append_nil] at dropped
    rw [dropped]
    cases names <;> rfl
  rw [relative?_ofNames (leadDown_append.mp down).1 down (by simpa using below), common]
  rfl

/-- The way to a place that is not passed on the way to the directory is not absolute, and ends
with the name of the place. -/
theorem exists_relative? {base : List Text} {front : List Text} {name : Text}
    (down : LeadDown base) (down' : LeadDown (front ++ [name])) (apart : ¬front ++ [name] <+: base) :
    ∃ way, relative? (ofNames true base) (ofNames true (front ++ [name])) = some way ∧
      isAbsolute way = false ∧ Path.base way = name := by
  obtain ⟨common, first, second⟩ := exists_common base (front ++ [name])
  set up := (dropCommon base (front ++ [name])).1 with up_def
  set rest := (dropCommon base (front ++ [name])).2 with rest_def
  have filled : rest ≠ [] := fun none =>
    apart ⟨up, by rw [second, none, List.append_nil, ← first]⟩
  obtain ⟨between, last, ended⟩ := (List.eq_nil_or_concat' rest).resolve_left filled
  have same : front ++ [name] = common ++ between ++ [last] := by
    rw [second, ended, List.append_assoc]
  obtain rfl : name = last := List.singleton_inj.mp (List.append_inj' same rfl).2
  have isName : ∀ other ∈ List.replicate up.length dotDot ++ rest, IsName other := by
    intro other member
    rcases List.mem_append.mp member with back | forth
    · rw [List.eq_of_mem_replicate back]
      exact ⟨by decide, by decide⟩
    · refine down'.isName other ?_
      rw [second]
      exact List.mem_append_right _ forth
  have rel := relative?_ofNames down down' fun same => apart (same ▸ List.prefix_rfl)
  refine ⟨_, rel, isAbsolute_join (by simpa using fun _ => filled) isName, ?_⟩
  rw [← up_def, ← rest_def, ended, ← List.append_assoc]
  exact base_join (isName name (by simp [ended]))

end Path

end HdlAlign
