import HdlAlign.Proofs.Pieces

/-! Where a comment begins.  Code and comment of a line are told apart by the first two slashes that
stand side by side, and moving white space brings no slashes together. -/

namespace HdlAlign.Text

def Apart (a b : UInt8) : Prop := ¬(a = '/' ∧ b = '/')

instance (a b : UInt8) : Decidable (Apart a b) := inferInstanceAs (Decidable (¬_))

def Calm (text : Text) : Prop := List.IsChain Apart text

theorem apart_left {a : UInt8} (other : a ≠ '/') (b : UInt8) : Apart a b := fun both => other both.1

theorem apart_right (a : UInt8) {b : UInt8} (other : b ≠ '/') : Apart a b := fun both => other both.2

theorem not_slash_of_isSpace : ∀ {byte : UInt8}, isSpace byte → byte ≠ ('/' : UInt8) := by
  intro byte space
  rcases isSpace_iff.mp space with rfl | rfl | rfl | rfl | rfl <;> decide

theorem Calm.nil : Calm [] := List.IsChain.nil

theorem Calm.left {left right : Text} (h : Calm (left ++ right)) : Calm left := h.left_of_append

theorem Calm.right {left right : Text} (h : Calm (left ++ right)) : Calm right := h.right_of_append

theorem Calm.tail {byte : UInt8} {text : Text} (h : Calm (byte :: text)) : Calm text :=
  (List.isChain_cons.mp h).2

theorem Calm.cons {byte : UInt8} {text : Text} (other : byte ≠ '/') (h : Calm text) :
    Calm (byte :: text) :=
  List.isChain_cons.mpr ⟨fun next _ => apart_left other next, h⟩

theorem Calm.append {left right : Text} (h : Calm left) (h' : Calm right)
    (apart : ∀ a ∈ left.getLast?, ∀ b ∈ right.head?, Apart a b) : Calm (left ++ right) :=
  List.isChain_append.mpr ⟨h, h', apart⟩

theorem Calm.append_of_last {left right : Text} (h : Calm left) (h' : Calm right)
    (last : ∀ byte ∈ left.getLast?, byte ≠ ('/' : UInt8)) : Calm (left ++ right) :=
  h.append h' fun a member b _ => apart_left (last a member) b

theorem Calm.append_of_head {left right : Text} (h : Calm left) (h' : Calm right)
    (first : ∀ byte ∈ right.head?, byte ≠ ('/' : UInt8)) : Calm (left ++ right) :=
  h.append h' fun a _ b member => apart_right a (first b member)

theorem Calm.of_forall_ne {text : Text} (h : ∀ byte ∈ text, byte ≠ ('/' : UInt8)) : Calm text := by
  induction text with
  | nil => exact .nil
  | cons byte text ih => exact .cons (h byte (by simp)) (ih fun b member => h b (by simp [member]))

theorem startsWith_slashes {text : Text} :
    text.startsWith (ofString "//") ↔ ∃ rest, text = ('/' : UInt8) :: ('/' : UInt8) :: rest := by
  have slashes : ofString "//" = [('/' : UInt8), ('/' : UInt8)] := by decide
  rw [startsWith, List.isPrefixOf_iff_prefix, slashes]
  constructor
  · rintro ⟨rest, rfl⟩
    exact ⟨rest, rfl⟩
  · rintro ⟨rest, rfl⟩
    exact ⟨rest, rfl⟩

theorem splitComment_of_calm {code comment : Text} (calm : Calm code)
    (begins : comment = [] ∨ comment.startsWith (ofString "//"))
    (apart : comment = [] ∨ ∀ byte ∈ code.getLast?, byte ≠ ('/' : UInt8)) :
    splitComment (code ++ comment) = (code, comment) := by
  -- A pair of slashes that begins in the code lies in it, or its second one begins the comment.
  have quiet : ∀ front back, code = front ++ back → back ≠ [] →
      startsWith (back ++ comment) (ofString "//") = false := by
    intro front back split nonempty
    rw [← Bool.not_eq_true, startsWith_slashes]
    rintro ⟨rest, pair⟩
    rw [split] at calm apart
    cases back with
    | nil => exact nonempty rfl
    | cons first back =>
        cases back with
        | nil =>
            cases pair
            rcases apart with none | last
            · simp at none
            · exact last _ (by simp) rfl
        | cons second back =>
            cases pair
            have adjacent := (List.isChain_cons_cons.mp calm.right).1
            exact adjacent ⟨rfl, rfl⟩
  rw [splitComment, breakOn?]
  rcases begins with rfl | begins
  · have none : breakBefore? (fun text => text.startsWith (ofString "//")) (code ++ []) = none := by
      rw [breakBefore?_eq_none_iff]
      intro front back split
      rw [List.append_nil] at split
      cases back with
      | nil => rfl
      | cons first back => simpa using quiet front (first :: back) split (by simp)
    rw [none, Option.getD_none, List.append_nil]
  · have found : breakBefore? (fun text => text.startsWith (ofString "//")) (code ++ comment) =
        some (code, comment) :=
      breakBefore?_eq_some_iff.mpr ⟨rfl, begins, quiet⟩
    rw [found, Option.getD_some]

theorem calm_splitComment (line : Text) : Calm (splitComment line).1 := by
  rw [Calm, List.isChain_iff_forall_rel_of_append_cons_cons]
  rintro a b front back split ⟨rfl, rfl⟩
  rw [splitComment, breakOn?] at split
  cases found : breakBefore? (fun text => text.startsWith (ofString "//")) line with
  | none =>
      rw [found] at split
      have missed := breakBefore?_eq_none_iff.mp found front _ split
      exact Bool.false_ne_true (missed.symm.trans (startsWith_slashes.mpr ⟨back, rfl⟩))
  | some parts =>
      rw [found] at split
      obtain ⟨-, -, misses⟩ := breakBefore?_eq_some_iff.mp found
      have missed := misses front _ split (by simp)
      exact Bool.false_ne_true (missed.symm.trans (startsWith_slashes.mpr ⟨back ++ parts.2, rfl⟩))

/-! Respacing a text brings no slashes together.  The inductions carry the byte in front. -/

theorem calm_cons_of_isSpace {byte space : UInt8} {text : Text} (blank : isSpace space)
    (h : Calm text) : Calm (byte :: space :: text) :=
  List.isChain_cons_cons.mpr
    ⟨apart_right byte (not_slash_of_isSpace blank), h.cons (not_slash_of_isSpace blank)⟩

theorem collapseRuns_calm_cons (inRun : Bool) (text : Text) (byte : UInt8)
    (h : Calm (byte :: text)) : Calm (byte :: collapseRuns inRun text) := by
  fun_induction collapseRuns inRun text generalizing byte with
  | case1 => exact h
  | case2 inRun space rest blank follows ih =>
      refine ih byte ?_
      cases rest with
      | nil => cases follows
      | cons next rest => exact calm_cons_of_isSpace follows h.tail.tail.tail
  | case3 inRun space rest blank stops ih =>
      have written : isSpace (if inRun then Text.blank else space) := by
        split
        · rfl
        · exact blank
      have rest := ih _ (h.tail.tail.cons (not_slash_of_isSpace written))
      exact List.isChain_cons_cons.mpr ⟨apart_right byte (not_slash_of_isSpace written), rest⟩
  | case4 inRun other rest solid ih =>
      obtain ⟨apart, tail⟩ := List.isChain_cons_cons.mp h
      exact List.isChain_cons_cons.mpr ⟨apart, ih other tail⟩

theorem collapseSpaces_calm_cons (text : Text) (byte : UInt8)
    (h : Calm (byte :: text)) : Calm (byte :: collapseSpaces text) := by
  fun_induction collapseSpaces text generalizing byte with
  | case1 => exact h
  | case2 space rest blank follows ih =>
      refine ih byte ?_
      cases rest with
      | nil => cases follows
      | cons next rest => exact calm_cons_of_isSpace follows h.tail.tail.tail
  | case3 space rest blank stops ih =>
      have rest := ih Text.blank (h.tail.tail.cons (by decide))
      exact List.isChain_cons_cons.mpr ⟨apart_right byte (by decide), rest⟩
  | case4 other rest solid ih =>
      obtain ⟨apart, tail⟩ := List.isChain_cons_cons.mp h
      exact List.isChain_cons_cons.mpr ⟨apart, ih other tail⟩

theorem spaceCommas_calm_cons (absorbing : Bool) (text : Text) (byte : UInt8)
    (h : Calm (byte :: text)) (behind : absorbing → isSpace byte) :
    Calm (byte :: spaceCommas absorbing text) := by
  fun_induction spaceCommas absorbing text generalizing byte with
  | case1 => exact h
  | case2 absorbing rest ih =>
      have tail := ih Text.blank (h.tail.tail.cons (by decide)) fun _ => rfl
      exact List.isChain_cons_cons.mpr
        ⟨apart_right byte (by decide), List.isChain_cons_cons.mpr ⟨apart_left (by decide) _, tail⟩⟩
  | case3 absorbing space rest other blank dropped ih =>
      refine ih byte ?_ behind
      rcases Bool.or_eq_true_iff.mp dropped with absorbs | follows
      · exact h.tail.tail.cons (not_slash_of_isSpace (behind absorbs))
      · cases rest with
        | nil => cases follows
        | cons next rest =>
            refine List.isChain_cons_cons.mpr ⟨apart_right byte ?_, h.tail.tail⟩
            rw [commaFollows, List.dropWhile_cons] at follows
            split at follows
            · next space => exact not_slash_of_isSpace space
            · have comma : next = ',' := by simpa using follows
              rw [comma]
              decide
  | case4 absorbing space rest other blank kept ih =>
      have tail := ih space h.tail (fun absurd => by cases absurd)
      exact List.isChain_cons_cons.mpr ⟨apart_right byte (not_slash_of_isSpace blank), tail⟩
  | case5 absorbing other rest comma solid ih =>
      obtain ⟨apart, tail⟩ := List.isChain_cons_cons.mp h
      exact List.isChain_cons_cons.mpr ⟨apart, ih other tail fun absurd => by cases absurd⟩

theorem calm_of_cons {text new : Text}
    (step : ∀ byte : UInt8, Calm (byte :: text) → Calm (byte :: new)) (h : Calm text) : Calm new :=
  (step Text.blank (h.cons (by decide))).tail

theorem calm_trim {text : Text} (h : Calm text) : Calm (trim text) := by
  obtain ⟨before, behind, -, -, split⟩ := trim_split text
  rw [split] at h
  exact h.left.right

theorem calm_normalize {text : Text} (h : Calm text) : Calm (normalize text) :=
  calm_of_cons (collapseRuns_calm_cons false (trim text)) (calm_trim h)

theorem calm_normalizeList {text : Text} (h : Calm text) : Calm (normalizeList text) :=
  calm_trim (calm_of_cons (fun byte calm =>
    spaceCommas_calm_cons false text byte calm fun absurd => by cases absurd) h)

end HdlAlign.Text

namespace HdlAlign.Assignment

open Text

theorem calm_around {byte mark : UInt8} {text : Text} (h : Calm (Text.blank :: text)) :
    Calm (byte :: Text.blank :: mark :: Text.blank :: text) :=
  calm_cons_of_isSpace isSpace_blank
    (List.isChain_cons_cons.mpr ⟨apart_right mark (by decide), h⟩)

theorem isArith_ne_slash : ∀ {byte : UInt8}, isArith byte → byte ≠ ('/' : UInt8) := by
  intro byte arith
  rcases isArith_iff.mp arith with rfl | rfl | rfl <;> decide

theorem spaceArith_calm_cons (text : Text) (byte : UInt8) (h : Calm (byte :: text)) :
    Calm (byte :: spaceArith text) := by
  fun_induction spaceArith text generalizing byte with
  | case1 => exact h
  | case2 a mark => exact calm_around (.cons (by decide) .nil)
  | case3 a plain => exact h
  | case4 a b rest first second ih =>
      have tail := ih Text.blank (h.tail.tail.tail.cons (by decide))
      exact calm_cons_of_isSpace isSpace_blank (.cons (isArith_ne_slash first)
        (.cons (isArith_ne_slash second) tail))
  | case5 a b rest first second ih => exact calm_around (ih Text.blank (h.tail.tail.cons (by decide)))
  | case6 a b rest first slash ih => exact calm_around (ih Text.blank (h.tail.tail.cons (by decide)))
  | case7 a b rest first slash ih =>
      obtain ⟨apart, tail⟩ := List.isChain_cons_cons.mp h
      exact List.isChain_cons_cons.mpr ⟨apart, ih a tail⟩

theorem calm_spaceOperators {text : Text} (h : Calm text) : Calm (spaceOperators text) := by
  have arith : Calm (spaceArith text) := calm_of_cons (spaceArith_calm_cons text) h
  have commas : Calm (spaceCommas false (spaceArith text)) :=
    calm_of_cons (fun byte calm =>
      spaceCommas_calm_cons false _ byte calm fun absurd => by cases absurd) arith
  exact calm_trim (calm_of_cons (collapseSpaces_calm_cons _) commas)

end HdlAlign.Assignment
