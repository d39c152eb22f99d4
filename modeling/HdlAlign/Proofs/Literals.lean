import HdlAlign.Proofs.Lines
import HdlAlign.Proofs.Normal
import HdlAlign.Proofs.Spacing

/-! What the spacing of a right-hand side does to string literals, to part selects and to arrows.  It
knows neither: the text between two quotes is spaced as if it stood alone, and a sign that begins a
longer operator is parted from it by one blank. -/

namespace HdlAlign.Text

theorem splitOn_of_not_mem {sep : UInt8} {text : Text} (absent : sep ∉ text) :
    splitOn sep text = [text] := by
  induction text with
  | nil => rfl
  | cons byte rest ih =>
      obtain ⟨other, others⟩ := List.ne_and_not_mem_of_not_mem_cons absent
      rw [splitOn, if_neg other.symm, ih others]

theorem length_splitOn (sep : UInt8) (text : Text) :
    (splitOn sep text).length = text.count sep + 1 := by
  induction text with
  | nil => rfl
  | cons byte rest ih =>
      by_cases same : byte = sep
      · rw [splitOn, if_pos same, List.length_cons, ih, same, List.count_cons_self]
      · rw [splitOn, if_neg same, List.count_cons_of_ne same, ← ih]
        split
        · next none => exact absurd none (splitOn_ne_nil sep rest)
        · next some => rw [some]; rfl

def doubleQuote : UInt8 := '"'

def insides : List Text → List Text
  | _ :: inside :: rest => inside :: insides rest
  | _ => []

def quoted (text : Text) : List Text := insides (splitOn doubleQuote text)

theorem insides_map (f : Text → Text) (pieces : List Text) :
    insides (pieces.map f) = (insides pieces).map f := by
  fun_induction insides pieces with
  | case1 first inside rest ih => simp [insides, ih]
  | case2 pieces short =>
      rcases pieces with _ | ⟨first, _ | ⟨second, rest⟩⟩
      · rfl
      · rfl
      · exact absurd rfl (short first second rest)

theorem insides_ends {pieces : List Text} (odd : Odd pieces.length) (first first' last last' : Text) :
    insides (first :: (pieces ++ [last])) = insides (first' :: (pieces ++ [last'])) := by
  obtain ⟨n, length⟩ := odd
  induction n generalizing pieces first first' with
  | zero =>
      obtain ⟨piece, rfl⟩ := List.length_eq_one_iff.mp length
      rfl
  | succ n ih =>
      match pieces, length with
      | inside :: outside :: rest, length =>
          have shorter : rest.length = 2 * n + 1 := by
            simp only [List.length_cons] at length
            omega
          exact congrArg (inside :: ·) (ih outside outside shorter)

theorem trimStart_subset (text : Text) : trimStart text ⊆ text := by
  obtain ⟨white, -, split⟩ := trimStart_split text
  exact fun byte member => split ▸ List.mem_append_right white member

theorem trimEnd_subset (text : Text) : trimEnd text ⊆ text := by
  obtain ⟨white, -, split⟩ := trimEnd_split text
  exact fun byte member => split ▸ List.mem_append_left white member

theorem quoted_trim {text : Text} (balanced : Even (text.count doubleQuote)) :
    quoted (trim text) = quoted text := by
  by_cases member : doubleQuote ∈ text
  · obtain ⟨left, inner, rfl, noneLeft⟩ := List.eq_append_cons_of_mem member
    have odd : Odd (inner.count doubleQuote) := by
      rw [List.count_append, List.count_cons_self, List.count_eq_zero.mpr noneLeft,
        Nat.zero_add] at balanced
      exact Nat.even_add_one.mp balanced |> Nat.not_even_iff_odd.mp
    have inside : doubleQuote ∈ inner := List.count_pos_iff.mp odd.pos
    obtain ⟨middle, right, rfl, noneRight⟩ := exists_last_of_mem inside
    have pieces : Odd (splitOn doubleQuote middle).length := by
      rw [List.count_append, List.count_cons_self, List.count_eq_zero.mpr noneRight] at odd
      rwa [length_splitOn]
    have trimmed : trim (left ++ doubleQuote :: (middle ++ doubleQuote :: right)) =
        trimStart left ++ doubleQuote :: (middle ++ doubleQuote :: trimEnd right) := by
      rw [trim_append_byte rfl rfl, trimEnd_append_byte rfl rfl]
    have noneStart : doubleQuote ∉ trimStart left := fun inside => noneLeft (trimStart_subset left inside)
    have noneEnd : doubleQuote ∉ trimEnd right := fun inside => noneRight (trimEnd_subset right inside)
    rw [trimmed]
    simp only [quoted, splitOn_append_cons, splitOn_of_not_mem noneLeft, splitOn_of_not_mem noneRight,
      splitOn_of_not_mem noneStart, splitOn_of_not_mem noneEnd]
    exact insides_ends pieces _ _ _ _
  · have trimmed : doubleQuote ∉ trim text := fun inside => member (trim_subset text inside)
    rw [quoted, quoted, splitOn_of_not_mem member, splitOn_of_not_mem trimmed]
    rfl

end HdlAlign.Text

namespace HdlAlign.Assignment

open Text

theorem isInert_doubleQuote : isInert doubleQuote := rfl

theorem mem_respace {byte : UInt8} (ascii : isAscii byte) (black : isWhite1 byte = false) (text : Text) :
    byte ∈ respace text ↔ byte ∈ text :=
  mem_iff_of_solid_eq ascii black (solid_respace text)

theorem splitOn_respace (text : Text) :
    splitOn doubleQuote (respace text) = (splitOn doubleQuote text).map respace := by
  induction size : text.length using Nat.strongRecOn generalizing text with
  | _ n shorter =>
      by_cases member : doubleQuote ∈ text
      · obtain ⟨left, right, rfl, absent⟩ := List.eq_append_cons_of_mem member
        have noneLeft : doubleQuote ∉ respace left := fun inside =>
          absent ((mem_respace rfl rfl left).mp inside)
        have behind := shorter right.length (by simp at size; omega) right rfl
        rw [respace_append_inert isInert_doubleQuote, splitOn_append_cons, splitOn_append_cons, behind,
          splitOn_of_not_mem absent, splitOn_of_not_mem noneLeft, List.map_append]
        rfl
      · have none : doubleQuote ∉ respace text := fun inside =>
          member ((mem_respace rfl rfl text).mp inside)
        rw [splitOn_of_not_mem member, splitOn_of_not_mem none]
        rfl

theorem count_quote_respace (text : Text) : (respace text).count doubleQuote = text.count doubleQuote := by
  have lengths := congrArg List.length (splitOn_respace text)
  rw [List.length_map, length_splitOn, length_splitOn] at lengths
  omega

theorem quoted_spaceOperators {text : Text} (balanced : Even (text.count doubleQuote)) :
    quoted (spaceOperators text) = (quoted text).map respace := by
  rw [spaceOperators_eq, quoted_trim (by rwa [count_quote_respace]), quoted, quoted, splitOn_respace,
    insides_map]

/-- A text that holds no operator and no comma, and of blanks only single spaces. -/
structure Settled (text : Text) : Prop where
  bytes : ∀ byte ∈ text, isInert byte ∨ byte = blank
  sparse : Sparse text

theorem Settled.respace {text : Text} (settled : Settled text) : respace text = text := by
  obtain ⟨bytes, sparse⟩ := settled
  rw [respace_eq]
  induction text with
  | nil => rfl
  | cons byte rest ih =>
      have behind := ih (fun other member => bytes other (by simp [member])) sparse.tail
      rcases bytes byte (by simp) with inert | rfl
      · rw [write_inert inert, behind]
        rfl
      · rw [write_space isSpace_blank, Gap.widen]
        cases rest with
        | nil => rfl
        | cons next rest =>
            have apart : isSpace next = false := by
              simpa [isSpace_blank] using (List.isChain_cons_cons.mp sparse).1
            rcases bytes next (by simp) with inert | rfl
            · rw [write_inert inert] at behind ⊢
              exact congrArg (blank :: ·) behind
            · cases apart

theorem exists_write_sign {sign : UInt8} (arith : isArith sign) {text : Text}
    (last : text.getLast? = some sign) (gap : Gap) : ∃ front, write gap text = front ++ [sign, blank] := by
  have behind {rest : Text} {gap : Gap} (lead : Text)
      (ih : ∃ front, write gap rest = front ++ [sign, blank]) :
      ∃ front, lead ++ write gap rest = front ++ [sign, blank] := by
    obtain ⟨front, same⟩ := ih
    exact ⟨lead ++ front, by rw [same, List.append_assoc]⟩
  have later {a : UInt8} {rest : Text} (other : a ≠ sign) (last : (a :: rest).getLast? = some sign) :
      rest.getLast? = some sign := by
    rw [List.getLast?_cons, Option.some_inj] at last
    cases ends : rest.getLast? with
    | none => exact absurd (by simpa [ends] using last) other
    | some b => simpa [ends] using last
  induction text using piece_induction generalizing gap with
  | nil => cases last
  | space a rest space ih =>
      have other : a ≠ sign := fun same => by simp [same, (isArith_facts arith).1] at space
      rw [write_space space]
      exact ih (later other last) _
  | comma rest ih =>
      rw [write_comma]
      exact behind [',', blank] (ih (later (isArith_facts arith).2.1.symm last) .written)
  | operator op rest operator ih =>
      rw [write_operator operator, ← List.append_assoc]
      by_cases none : rest = []
      · rw [none, List.append_nil] at last
        obtain ⟨front, rfl⟩ := List.getLast?_eq_some_iff.mp last
        exact ⟨gap.apart ++ front, by simp [none, Gap.loose]⟩
      · exact behind _ (ih (by rwa [List.getLast?_append_of_ne_nil _ none] at last) .due)
  | inert a rest inert ih =>
      have other : a ≠ sign := fun same => by simp [← same, (isInert_facts inert).2.2.1] at arith
      rw [write_inert inert, List.append_cons]
      exact behind _ (ih (later other last) .none)

theorem spaceOperators_sign {sign next : UInt8} (arith : isArith sign) (inert : isInert next)
    (ascii : isAscii next) (black : isWhite1 next = false) (left right : Text) :
    ∃ before behind, spaceOperators (left ++ sign :: next :: right) =
        before ++ sign :: blank :: next :: behind ∧
      solid before = solid left ∧ solid behind = solid right := by
  have visible : ∀ sign : UInt8, isArith sign → isAscii sign ∧ isWhite1 sign = false :=
    forall_byte (by decide +kernel)
  obtain ⟨asciiSign, blackSign⟩ := visible sign arith
  obtain ⟨front, written⟩ :=
    exists_write_sign arith (List.getLast?_concat : (left ++ [sign]).getLast? = some sign) .none
  rw [← respace_eq] at written
  have whole : respace (left ++ sign :: next :: right) =
      (front ++ sign :: [blank]) ++ next :: respace right := by
    rw [List.append_cons, respace_append_inert inert, written]
  have same : solid front = solid left := by
    have solids := solid_respace (left ++ [sign])
    rw [written, List.append_cons, white_blank.solid_append_right,
      solid_append (.cons_right front [] asciiSign), solid_append (.cons_right left [] asciiSign)] at solids
    exact List.append_cancel_right solids
  refine ⟨trimStart front, trimEnd (respace right), ?_, ?_, ?_⟩
  · rw [spaceOperators_eq, whole, trim_append_byte ascii black,
      trimStart_append_byte asciiSign blackSign]
    simp
  · rw [solid_trimStart, same]
  · rw [solid_trimEnd, solid_respace]

/-- The signs that begin an operator of two characters which the spacing does not know. -/
def partedOperators : List (UInt8 × UInt8) := [('+', ':'), ('-', ':'), ('-', '>')]

theorem count_quote_spaceOperators (text : Text) :
    (spaceOperators text).count doubleQuote = text.count doubleQuote := by
  obtain ⟨before, behind, whiteBefore, whiteBehind, split⟩ := trim_split (respace text)
  have none {white : Text} (h : White white) : white.count doubleQuote = 0 :=
    List.count_eq_zero.mpr (h.not_mem_of_isBlack rfl)
  rw [← count_quote_respace text]
  conv => rhs; rw [split, List.count_append, List.count_append, none whiteBefore, none whiteBehind]
  rw [spaceOperators_eq, Nat.zero_add, Nat.add_zero]

/-- The segments between double quotes are spaced like the rest of a right-hand side, each for itself,
so one that holds nothing to be spaced is kept; part selects and arrows are parted by one blank. -/
theorem spaceOperators_literals {text : Text} (balanced : Even (text.count doubleQuote)) :
    (spaceOperators text).count doubleQuote = text.count doubleQuote ∧
    List.Forall₂ (fun new old => new = respace old ∧ (Settled old → new = old))
      (quoted (spaceOperators text)) (quoted text) ∧
    ∀ pair ∈ partedOperators, ∀ left right, text = left ++ pair.1 :: pair.2 :: right →
      ∃ before behind, spaceOperators text = before ++ pair.1 :: blank :: pair.2 :: behind ∧
        solid before = solid left ∧ solid behind = solid right := by
  refine ⟨count_quote_spaceOperators text, ?_, ?_⟩
  · rw [quoted_spaceOperators balanced, List.forall₂_map_left_iff, List.forall₂_same]
    exact fun part _ => ⟨rfl, Settled.respace⟩
  · have facts : ∀ pair ∈ partedOperators, isArith pair.1 ∧ isInert pair.2 ∧ isAscii pair.2 ∧
        isWhite1 pair.2 = false := by
      simp only [partedOperators, List.forall_mem_cons]
      exact ⟨⟨rfl, rfl, rfl, rfl⟩, ⟨rfl, rfl, rfl, rfl⟩, ⟨rfl, rfl, rfl, rfl⟩,
        fun pair none => absurd none List.not_mem_nil⟩
    rintro pair listed left right rfl
    obtain ⟨arith, inert, ascii, black⟩ := facts pair listed
    exact spaceOperators_sign arith inert ascii black left right

theorem spaceOperators_literals_mixture :
    let text := ofString "p->q, \x22a-b\x22, \x22c d\x22[i+:4]"
    Even (text.count doubleQuote) ∧ (spaceOperators text).count doubleQuote = text.count doubleQuote ∧
      List.Forall₂ (fun new old => new = respace old ∧ (Settled old → new = old))
        (quoted (spaceOperators text)) (quoted text) ∧
      ∀ pair ∈ partedOperators, ∀ left right, text = left ++ pair.1 :: pair.2 :: right →
        ∃ before behind, spaceOperators text = before ++ pair.1 :: blank :: pair.2 :: behind ∧
          solid before = solid left ∧ solid behind = solid right := by
  have balanced : Even ((ofString "p->q, \x22a-b\x22, \x22c d\x22[i+:4]").count doubleQuote) := by
    exact ⟨2, by decide +kernel⟩
  exact ⟨balanced, spaceOperators_literals balanced⟩

/-- A segment with an operator in it does not stay, and neither do part selects and arrows. -/
theorem spaceOperators_tears :
    let text := ofString "p->q \x22a-b\x22 v[i+:4] w[j-:2]"
    Even (text.count doubleQuote) ∧ quoted text = [ofString "a-b"] ∧
      ¬ofString "a-b" <:+: spaceOperators text ∧
      ∀ sign ∈ literals ["->", "+:", "-:"], sign <:+: text ∧ ¬sign <:+: spaceOperators text := by
  have spaced : spaceOperators (ofString "p->q \x22a-b\x22 v[i+:4] w[j-:2]") =
      ofString "p - >q \x22a - b\x22 v[i + :4] w[j - :2]" := by
    decide +kernel
  refine ⟨⟨1, by decide +kernel⟩, by decide +kernel, ?_, ?_⟩
  · rw [spaced]
    decide +kernel
  · rw [spaced]
    decide +kernel

end HdlAlign.Assignment
