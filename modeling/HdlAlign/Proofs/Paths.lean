import HdlAlign.Cache.Store
import HdlAlign.Proofs.Lines
import HdlAlign.Proofs.Walks

/-! The names on the way to the files of a cache. -/

namespace HdlAlign

namespace Path

open Text

theorem names_append_slash (left right : Text) :
    names (left ++ slash :: right) = names left ++ names right := by
  rw [names, names, names, splitOn_eq, splitOn_eq, splitOn_eq, List.splitOn_append_cons_self,
    List.filter_append]

def IsName (name : Text) : Prop := name ≠ [] ∧ slash ∉ name

theorem isName_of_mem_names {path name : Text} (member : name ∈ names path) : IsName name := by
  obtain ⟨piece, nonempty⟩ := List.mem_filter.mp member
  exact ⟨by simpa using nonempty, not_mem_of_mem_splitOn piece⟩

theorem names_of_isName {name : Text} (isName : IsName name) : names name = [name] := by
  rw [names, splitOn_eq, List.splitOn_eq_singleton isName.2]
  exact List.filter_eq_self.mpr fun other member => by
    rw [List.mem_singleton.mp member]
    simpa using isName.1

theorem names_join {pieces : List Text} (isName : ∀ piece ∈ pieces, IsName piece) :
    names (Text.join [slash] pieces) = pieces := by
  cases pieces with
  | nil => rfl
  | cons piece pieces =>
      rw [names, splitOn_eq, Text.join,
        List.splitOn_intercalate slash (fun piece member => (isName piece member).2)
          (List.cons_ne_nil _ _)]
      exact List.filter_eq_self.mpr fun other member => by simpa using (isName other member).1

/-! Cleaning -/

structure Settled (absolute : Bool) (kept : List Text) : Prop where
  isName : ∀ name ∈ kept, IsName name ∧ name ≠ dot
  fixed : kept.reverse.foldl (step absolute) [] = kept

theorem Settled.isName_reverse {absolute : Bool} {names : List Text}
    (settled : Settled absolute names.reverse) : ∀ name ∈ names, IsName name :=
  fun name member => (settled.isName name (List.mem_reverse.mpr member)).1

theorem step_proper {absolute : Bool} {kept : List Text} {name : Text}
    (proper : Disk.Proper name) : step absolute kept name = name :: kept := by
  unfold step
  rw [if_neg proper.1, if_neg proper.2]

theorem Settled.step {absolute : Bool} {kept : List Text} (settled : Settled absolute kept)
    {name : Text} (isName : IsName name) : Settled absolute (step absolute kept name) := by
  have pushed (notDot : name ≠ dot) (same : Path.step absolute kept name = name :: kept) :
      Settled absolute (name :: kept) := by
    refine ⟨fun other member => ?_, ?_⟩
    · rcases List.mem_cons.mp member with rfl | later
      · exact ⟨isName, notDot⟩
      · exact settled.isName other later
    · rw [List.reverse_cons, List.foldl_append, settled.fixed]
      exact same
  rcases Disk.dot_or_dotDot_or_proper name with rfl | rfl | proper
  · exact settled
  · cases kept with
    | nil =>
        cases absolute with
        | true => exact settled
        | false => exact pushed (by decide) rfl
    | cons last before =>
        by_cases up : last = dotDot
        · have same : Path.step absolute (last :: before) dotDot = dotDot :: last :: before := by
            rw [Path.step, if_neg (by decide), if_pos rfl]
            exact if_pos up
          rw [same]
          exact pushed (by decide) same
        · have same : Path.step absolute (last :: before) dotDot = before := by
            rw [Path.step, if_neg (by decide), if_pos rfl]
            exact if_neg up
          have fixed := settled.fixed
          rw [List.reverse_cons, List.foldl_append] at fixed
          have pushedLast : Path.step absolute (before.reverse.foldl (Path.step absolute) []) last =
              last :: before := fixed
          rw [step_proper ⟨(settled.isName last List.mem_cons_self).2, up⟩] at pushedLast
          rw [same]
          exact ⟨fun other member => settled.isName other (List.mem_cons_of_mem last member),
            (List.cons.inj pushedLast).2⟩
  · rw [step_proper proper]
    exact pushed proper.1 (step_proper proper)

theorem settled_foldl {absolute : Bool} {names kept : List Text} (settled : Settled absolute kept)
    (isName : ∀ name ∈ names, IsName name) :
    Settled absolute (names.foldl (Path.step absolute) kept) := by
  induction names generalizing kept with
  | nil => exact settled
  | cons name names ih =>
      exact ih (settled.step (isName name List.mem_cons_self)) fun other member =>
        isName other (List.mem_cons_of_mem name member)

theorem settled_cleanNames (path : Text) : Settled (isAbsolute path) (cleanNames path).reverse := by
  rw [cleanNames, List.reverse_reverse]
  exact settled_foldl ⟨fun _ member => absurd member List.not_mem_nil, rfl⟩ fun _ => isName_of_mem_names

/-! Clean paths -/

section

variable {absolute : Bool} {names : List Text}

theorem names_ofNames (some : names ≠ []) (isName : ∀ name ∈ names, IsName name) :
    Path.names (ofNames absolute names) = names := by
  cases absolute with
  | true =>
      rw [ofNames, if_pos rfl]
      exact (names_append_slash [] _).trans (names_join isName)
  | false =>
      have nonempty : names.isEmpty = false := by simpa using some
      rw [ofNames, if_neg Bool.false_ne_true, nonempty, if_neg Bool.false_ne_true]
      exact names_join isName

theorem isAbsolute_ofNames (some : names ≠ []) (isName : ∀ name ∈ names, IsName name) :
    isAbsolute (ofNames absolute names) = absolute := by
  cases absolute with
  | true => rfl
  | false =>
      have nonempty : names.isEmpty = false := by simpa using some
      rw [ofNames, if_neg Bool.false_ne_true, nonempty, if_neg Bool.false_ne_true, isAbsolute]
      obtain ⟨first, rest, rfl⟩ := List.exists_cons_of_ne_nil some
      obtain ⟨filled, noSlash⟩ := isName first List.mem_cons_self
      obtain ⟨byte, tail, rfl⟩ := List.exists_cons_of_ne_nil filled
      have head : (Text.join [slash] ((byte :: tail) :: rest)).head? = .some byte := by
        cases rest <;> simp [Text.join, List.intercalate]
      have other : byte ≠ slash := fun same => noSlash (same ▸ List.mem_cons_self)
      rw [head]
      simpa using other

theorem join_ne_nil {names : List Text} (some : names ≠ [])
    (isName : ∀ name ∈ names, IsName name) : Text.join [slash] names ≠ [] := by
  obtain ⟨first, rest, rfl⟩ := List.exists_cons_of_ne_nil some
  obtain ⟨byte, tail, rfl⟩ := List.exists_cons_of_ne_nil (isName first List.mem_cons_self).1
  cases rest <;> simp [Text.join, List.intercalate]

theorem getLast?_join {names : List Text} (isName : ∀ name ∈ names, IsName name) :
    (Text.join [slash] names).getLast? ≠ .some slash := by
  induction names with
  | nil => simp [Text.join, List.intercalate]
  | cons name rest ih =>
      cases rest with
      | nil =>
          have alone : Text.join [slash] [name] = name := by simp [Text.join, List.intercalate]
          rw [alone]
          exact fun last => (isName name List.mem_cons_self).2 (List.mem_of_getLast? last)
      | cons next rest =>
          have later := ih fun other member => isName other (List.mem_cons_of_mem name member)
          have filled : Text.join [slash] (next :: rest) ≠ [] :=
            join_ne_nil (List.cons_ne_nil _ _) fun other member =>
              isName other (List.mem_cons_of_mem name member)
          have split : Text.join [slash] (name :: next :: rest) =
              name ++ slash :: Text.join [slash] (next :: rest) := by
            simp [Text.join, List.intercalate]
          rw [split, List.getLast?_append_of_ne_nil _ (List.cons_ne_nil _ _),
            List.getLast?_cons_of_ne_nil filled]
          exact later

theorem getLast?_ofNames (some : names ≠ []) (isName : ∀ name ∈ names, IsName name) :
    (ofNames absolute names).getLast? ≠ .some slash := by
  cases absolute with
  | true =>
      rw [ofNames, if_pos rfl, List.getLast?_cons_of_ne_nil (join_ne_nil some isName)]
      exact getLast?_join isName
  | false =>
      have nonempty : names.isEmpty = false := by simpa using some
      rw [ofNames, if_neg Bool.false_ne_true, nonempty, if_neg Bool.false_ne_true]
      exact getLast?_join isName

theorem steps_ofNames (some : names ≠ []) (isName : ∀ name ∈ names, IsName name) :
    Disk.steps (ofNames absolute names) = names := by
  rw [Disk.steps, names_ofNames some isName, if_neg (getLast?_ofNames some isName),
    List.append_nil]

theorem ofNames_ne_nil (some : names ≠ []) (isName : ∀ name ∈ names, IsName name) :
    ofNames absolute names ≠ [] := by
  intro empty
  have none : Path.names (ofNames absolute names) = names := names_ofNames some isName
  rw [empty] at none
  exact some none.symm

theorem join_of_isName {directory name : Text} (filled : directory ≠ []) (isName : IsName name)
    (proper : Disk.Proper name) :
    join directory name =
      ofNames (isAbsolute directory) (cleanNames directory ++ [name]) := by
  obtain ⟨byte, tail, rfl⟩ := List.exists_cons_of_ne_nil filled
  obtain ⟨first, rest, rfl⟩ := List.exists_cons_of_ne_nil isName.1
  show ofNames (isAbsolute (byte :: tail ++ slash :: first :: rest))
    (cleanNames (byte :: tail ++ slash :: first :: rest)) = _
  rw [cleanNames, cleanNames, names_append_slash, names_of_isName isName, List.foldl_append,
    List.foldl_cons, List.foldl_nil]
  rw [show isAbsolute (byte :: tail ++ slash :: first :: rest) = isAbsolute (byte :: tail) from rfl,
    step_proper proper, List.reverse_cons]

theorem Settled.push {absolute : Bool} {kept : List Text} (settled : Settled absolute kept)
    {name : Text} (isName : IsName name) (proper : Disk.Proper name) :
    Settled absolute (name :: kept) := by
  have pushed : Path.step absolute kept name = name :: kept := step_proper proper
  exact pushed ▸ settled.step isName

theorem cleanNames_ofNames (some : names ≠ []) (settled : Settled absolute names.reverse) :
    cleanNames (ofNames absolute names) = names := by
  rw [cleanNames, names_ofNames some settled.isName_reverse,
    isAbsolute_ofNames some settled.isName_reverse]
  have fixed := settled.fixed
  rw [List.reverse_reverse] at fixed
  rw [fixed, List.reverse_reverse]

/-! One more name -/

theorem join_concat (some : names ≠ []) (name : Text) :
    Text.join [slash] (names ++ [name]) = Text.join [slash] names ++ slash :: name := by
  rw [Text.join, Text.join]
  induction names with
  | nil => exact absurd rfl some
  | cons first rest ih =>
      cases rest with
      | nil => simp
      | cons second rest =>
          have ih := ih (List.cons_ne_nil _ _)
          rw [List.cons_append, List.intercalate_cons_of_ne_nil (by simp), ih,
            List.intercalate_cons_of_ne_nil (List.cons_ne_nil _ _), List.append_assoc,
            List.append_assoc, List.append_assoc]

theorem ofNames_concat (some : names ≠ []) (name : Text) :
    ofNames absolute (names ++ [name]) = ofNames absolute names ++ slash :: name := by
  cases absolute with
  | true =>
      rw [ofNames, ofNames, if_pos rfl, if_pos rfl, join_concat some]
      rfl
  | false =>
      have nonempty : names.isEmpty = false := by simpa using some
      have nonempty' : (names ++ [name]).isEmpty = false := by simp
      rw [ofNames, ofNames, if_neg Bool.false_ne_true, if_neg Bool.false_ne_true, nonempty,
        nonempty', if_neg Bool.false_ne_true, if_neg Bool.false_ne_true, join_concat some]

theorem directory_ofNames (some : names ≠ []) (settled : Settled absolute names.reverse)
    {name : Text} (isName : IsName name) :
    directory (ofNames absolute (names ++ [name])) = ofNames absolute names := by
  have filled : ofNames absolute names ≠ [] := ofNames_ne_nil some settled.isName_reverse
  have last : Text.afterLast slash (ofNames absolute names ++ slash :: name) = name := by
    rw [List.append_cons]
    exact Text.afterLast_append (by simp) isName.2
  have front : (ofNames absolute names ++ slash :: name).take
      ((ofNames absolute names ++ slash :: name).length - name.length) =
        ofNames absolute names ++ [slash] := by
    rw [List.append_cons, List.length_append, Nat.add_sub_cancel, List.take_left]
  obtain ⟨byte, tail, path⟩ := List.exists_cons_of_ne_nil filled
  have sameStart : isAbsolute (ofNames absolute names ++ [slash]) = absolute := by
    have begins : isAbsolute (ofNames absolute names) = absolute :=
      isAbsolute_ofNames some settled.isName_reverse
    rw [path] at begins ⊢
    exact begins
  have sameNames : Path.names (ofNames absolute names ++ [slash]) = names := by
    rw [names_append_slash, names_ofNames some settled.isName_reverse]
    exact List.append_nil names
  rw [directory, ofNames_concat some, last, front, clean, cleanNames, sameStart, sameNames]
  have fixed := settled.fixed
  rw [List.reverse_reverse] at fixed
  rw [fixed, List.reverse_reverse]

end

end Path

end HdlAlign
