import HdlAlign.Proofs.RelativePaths
import HdlAlign.Source.File

/-! Texts that take one line: numbers, the words of a text, and paths as they are shown. -/

namespace HdlAlign

namespace Text

theorem not_mem_join {sep : Text} {pieces : List Text} {byte : UInt8} (apart : byte ∉ sep)
    (clear : ∀ piece ∈ pieces, byte ∉ piece) : byte ∉ join sep pieces := by
  induction pieces with
  | nil => exact List.not_mem_nil
  | cons piece rest ih =>
      obtain ⟨first, later⟩ := List.forall_mem_cons.mp clear
      by_cases none : rest = []
      · simpa [none, join, List.intercalate] using first
      · rw [join, List.intercalate_cons_of_ne_nil none, List.mem_append, List.mem_append]
        rintro ((here | here) | behind)
        · exact first here
        · exact apart here
        · exact ih later behind

theorem subset_join {sep piece : Text} {pieces : List Text} (among : piece ∈ pieces) :
    piece ⊆ join sep pieces := by
  induction pieces with
  | nil => cases among
  | cons first rest ih =>
      by_cases none : rest = []
      · rw [none, List.mem_singleton] at among
        simp [none, among, join, List.intercalate]
      · rw [join, List.intercalate_cons_of_ne_nil none]
        rcases List.mem_cons.mp among with rfl | later
        · exact List.subset_append_of_subset_left _ (List.subset_append_left _ _)
        · exact List.subset_append_of_subset_right _ (ih later)

theorem subset_of_mem_splitOn {sep : UInt8} {text piece : Text} (among : piece ∈ splitOn sep text) :
    piece ⊆ text := by
  rw [splitOn_eq] at among
  have inside : piece ⊆ join [sep] (List.splitOn sep text) := subset_join among
  rwa [join, List.intercalate_splitOn] at inside

theorem newline_not_mem_decimal (n : Nat) : newline ∉ decimal n := by
  intro member
  obtain ⟨digit, among, same⟩ := List.mem_map.mp member
  have isDigit := Nat.isDigit_of_mem_toDigits (by decide) (by decide) among
  simp only [Char.isDigit, Bool.and_eq_true, decide_eq_true_eq, UInt32.le_iff_toNat_le] at isDigit
  have code : digit.toNat % 256 = 10 := congrArg UInt8.toNat same
  have bounds : 48 ≤ digit.toNat ∧ digit.toNat ≤ 57 := isDigit
  omega

/-! The words of a text -/

theorem newline_not_mem_flush {word field : Text} (clear : newline ∉ word)
    (among : field ∈ fields.flush word) : newline ∉ field := by
  rw [fields.flush] at among
  split at among
  · cases among
  · rw [List.mem_singleton.mp among, List.mem_reverse]
    exact clear

theorem newline_not_mem_scan {word text field : Text} (clear : newline ∉ word)
    (among : field ∈ fields.scan word text) : newline ∉ field := by
  have cut {word : Text} {others : List Text} (clear : newline ∉ word)
      (later : field ∈ others → newline ∉ field) (among : field ∈ fields.flush word ++ others) :
      newline ∉ field :=
    (List.mem_append.mp among).elim (newline_not_mem_flush clear) later
  -- A byte that goes to a word is no white space, and so no newline.
  have kept {word : Text} {a : UInt8} (clear : newline ∉ word) (dark : ¬ isWhite1 a) :
      newline ∉ a :: word := by
    refine List.not_mem_cons_of_ne_of_not_mem ?_ clear
    rintro rfl
    exact dark (by decide)
  fun_induction fields.scan word text with
  | case1 word => exact newline_not_mem_flush clear among
  | case2 word a rest white ih => exact cut clear (ih List.not_mem_nil) among
  | case3 word a dark => exact newline_not_mem_flush (kept clear dark) among
  | case4 word a dark b rest white ih => exact cut clear (ih List.not_mem_nil) among
  | case5 word a dark b dark' ih => exact ih (kept clear dark) among
  | case6 word a dark b dark' c rest white ih => exact cut clear (ih List.not_mem_nil) among
  | case7 word a dark b dark' c rest dark'' ih => exact ih (kept clear dark) among

theorem newline_not_mem_fields {text field : Text} (among : field ∈ fields text) :
    newline ∉ field :=
  newline_not_mem_scan List.not_mem_nil among

end Text

namespace Path

open Text (newline)

theorem newline_not_mem_names {path : Text} (clear : newline ∉ path) :
    ∀ name ∈ names path, newline ∉ name := by
  intro name among member
  exact clear (Text.subset_of_mem_splitOn (List.mem_filter.mp among).1 member)

theorem newline_not_mem_step {absolute : Bool} {kept : List Text} {name : Text}
    (clear : newline ∉ name) (before : ∀ other ∈ kept, newline ∉ other) :
    ∀ other ∈ step absolute kept name, newline ∉ other := by
  have up : newline ∉ dotDot := by decide
  rcases Disk.dot_or_dotDot_or_proper name with rfl | rfl | proper
  · exact before
  · cases kept with
    | nil => cases absolute <;> simp [step, show dotDot ≠ dot by decide, up]
    | cons last rest =>
        rw [step, if_neg (by decide), if_pos rfl]
        split
        · exact List.forall_mem_cons.mpr ⟨up, before⟩
        · exact (List.forall_mem_cons.mp before).2
  · rw [step_proper proper]
    exact List.forall_mem_cons.mpr ⟨clear, before⟩

theorem newline_not_mem_foldl_step {absolute : Bool} {names kept : List Text}
    (clear : ∀ name ∈ names, newline ∉ name) (before : ∀ other ∈ kept, newline ∉ other) :
    ∀ other ∈ names.foldl (step absolute) kept, newline ∉ other := by
  induction names generalizing kept with
  | nil => exact before
  | cons name rest ih =>
      obtain ⟨first, later⟩ := List.forall_mem_cons.mp clear
      exact ih later (newline_not_mem_step first before)

theorem newline_not_mem_cleanNames {path : Text} (clear : newline ∉ path) :
    ∀ name ∈ cleanNames path, newline ∉ name := by
  intro name among
  refine newline_not_mem_foldl_step (newline_not_mem_names clear) ?_ name (List.mem_reverse.mp among)
  exact fun _ none => absurd none List.not_mem_nil

theorem newline_not_mem_ofNames {absolute : Bool} {names : List Text}
    (clear : ∀ name ∈ names, newline ∉ name) : newline ∉ ofNames absolute names := by
  have joined : newline ∉ Text.join [slash] names := Text.not_mem_join (by decide) clear
  rw [ofNames]
  split
  · exact List.not_mem_cons_of_ne_of_not_mem (by decide) joined
  · split
    · decide
    · exact joined

theorem newline_not_mem_clean {path : Text} (clear : newline ∉ path) : newline ∉ clean path :=
  newline_not_mem_ofNames (newline_not_mem_cleanNames clear)

theorem newline_not_mem_join {directory path : Text} (clear : newline ∉ directory)
    (clear' : newline ∉ path) : newline ∉ join directory path := by
  have between : newline ∉ directory ++ slash :: path := by
    rw [List.mem_append, List.mem_cons]
    rintro (first | same | second)
    · exact clear first
    · exact absurd same (by decide)
    · exact clear' second
  cases directory with
  | nil =>
      cases path with
      | nil => exact List.not_mem_nil
      | cons first rest => exact newline_not_mem_clean clear'
  | cons first rest =>
      cases path with
      | nil => exact newline_not_mem_clean clear
      | cons other others => exact newline_not_mem_clean between

theorem newline_not_mem_absolute {cwd path : Text} (clear : newline ∉ cwd)
    (clear' : newline ∉ path) : newline ∉ absolute cwd path := by
  rw [absolute]
  split
  · exact newline_not_mem_clean clear'
  · exact newline_not_mem_join clear clear'

theorem newline_not_mem_relative? {base target way : Text} (clear : newline ∉ target)
    (found : relative? base target = some way) : newline ∉ way := by
  rw [relative?] at found
  split at found
  · cases found
    decide
  · split at found
    · cases found
    · set targetNames := if clean target = dot then [dot] else cleanNames target with names_def
      have named : ∀ name ∈ targetNames, newline ∉ name := by
        rw [names_def]
        split
        · decide
        · exact newline_not_mem_cleanNames clear
      obtain ⟨common, -, shared⟩ := exists_common (cleanNames base) targetNames
      dsimp only at found
      split at found
      · cases found
      · cases found
        refine Text.not_mem_join (by decide) fun name among => ?_
        rcases List.mem_append.mp among with up | down
        · rw [List.eq_of_mem_replicate up]
          decide
        · refine named name ?_
          rw [shared]
          exact List.mem_append_right _ down

theorem newline_not_mem_seenFrom {cwd path : Text} (base : Text) (clear : newline ∉ cwd)
    (clear' : newline ∉ path) : newline ∉ seenFrom cwd base path := by
  have whole : newline ∉ absolute cwd path := newline_not_mem_absolute clear clear'
  rw [seenFrom]
  split
  · exact whole
  · next way found =>
      split
      · exact whole
      · exact newline_not_mem_clean (newline_not_mem_relative? whole found)

end Path

end HdlAlign
