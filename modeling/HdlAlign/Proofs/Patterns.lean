import HdlAlign.Text.Pattern
import Mathlib

/-! What patterns read.  A pattern cuts a text in two and invents nothing; the leftmost match of a
pattern leaves no match in front of it. -/

namespace HdlAlign.Text

theorem dropHead?_eq_some_iff {affix text rest : Text} :
    dropHead? affix text = some rest ↔ text = affix ++ rest := by
  induction affix generalizing text with
  | nil => simp [dropHead?, eq_comm]
  | cons a affix ih =>
      cases text with
      | nil => simp [dropHead?]
      | cons b text =>
          by_cases same : a = b
          · simp [dropHead?, same, ih]
          · have other : b ≠ a := fun h => same h.symm
            simp [dropHead?, same, other]

theorem trimHead_subset (affix text : Text) : trimHead affix text ⊆ text := by
  rw [trimHead]
  cases dropped : dropHead? affix text with
  | none => exact fun _ member => member
  | some rest =>
      rw [Option.getD_some, dropHead?_eq_some_iff.mp dropped]
      exact List.subset_append_right ..

end HdlAlign.Text

namespace HdlAlign.Pattern

theorem andThen_def (first second : Pattern) :
    (first >> second) = andThen first second := rfl

theorem orElse_def (first second : Pattern) :
    (first <|> second) = orElse first second := rfl

theorem run_eq_some_iff {p : UInt8 → Bool} {text part rest : Text} :
    run p text = some (part, rest) ↔ text.takeWhile p = part ∧ text.dropWhile p = rest := by
  simp [run]

theorem one_eq_some_iff {p : UInt8 → Bool} {text part rest : Text} :
    one p text = some (part, rest) ↔ ∃ byte, p byte ∧ part = [byte] ∧ text = byte :: rest := by
  cases text with
  | nil => simp [one]
  | cons byte text =>
      rw [one]
      split
      · next holds =>
          constructor
          · rintro ⟨⟩
            exact ⟨byte, holds, rfl, rfl⟩
          · rintro ⟨_, -, rfl, same⟩
            cases same
            rfl
      · next fails =>
          constructor
          · rintro ⟨⟩
          · rintro ⟨_, holds, -, same⟩
            cases same
            exact absurd holds fails

theorem literal_eq_some_iff {affix text part rest : Text} :
    literal affix text = some (part, rest) ↔ part = affix ∧ text = affix ++ rest := by
  rw [literal, Option.map_eq_some_iff]
  constructor
  · rintro ⟨_, dropped, same⟩
    cases same
    exact ⟨rfl, Text.dropHead?_eq_some_iff.mp dropped⟩
  · rintro ⟨rfl, rfl⟩
    exact ⟨rest, Text.dropHead?_eq_some_iff.mpr rfl, rfl⟩

theorem keyword_eq_some_iff {words : List Text} {text part rest : Text} :
    keyword words text = some (part, rest) ↔
      text.takeWhile Text.isWord ∈ words ∧ text.takeWhile Text.isWord = part ∧
        text.dropWhile Text.isWord = rest := by
  simp [keyword]

theorem andThen_eq_some_iff {first second : Pattern} {text part rest : Text} :
    (first >> second) text = some (part, rest) ↔
      ∃ left middle right, first text = some (left, middle) ∧
        second middle = some (right, rest) ∧ part = left ++ right := by
  rw [andThen_def, andThen]
  constructor
  · intro h
    split at h
    · cases h
    · next left middle leftRead =>
        split at h
        · cases h
        · next right tail rightRead =>
            cases h
            exact ⟨left, middle, right, leftRead, rightRead, rfl⟩
  · rintro ⟨left, middle, right, leftRead, rightRead, rfl⟩
    rw [leftRead]
    dsimp only
    rw [rightRead]

theorem orElse_eq_some_iff {first second : Pattern} {text part rest : Text} :
    (first <|> second) text = some (part, rest) ↔
      first text = some (part, rest) ∨ (first text = none ∧ second text = some (part, rest)) := by
  rw [orElse_def, orElse]
  exact Option.or_eq_some_iff

theorem optional_eq_some_iff {p : Pattern} {text part rest : Text} :
    optional p text = some (part, rest) ↔
      p text = some (part, rest) ∨ (p text = none ∧ part = [] ∧ rest = text) := by
  cases h : p text with
  | none => simp [optional, h, eq_comm]
  | some found => simp [optional, h]

theorem atEnd_eq_some_iff {text part rest : Text} :
    atEnd text = some (part, rest) ↔ text = [] ∧ part = [] ∧ rest = [] := by
  cases text with
  | nil => simp [atEnd, eq_comm]
  | cons _ _ => simp [atEnd]

theorem matchesFront_iff {p : Pattern} {text : Text} :
    p.matchesFront text ↔ ∃ part rest, p text = some (part, rest) := by
  rw [matchesFront, Option.isSome_iff_exists, Prod.exists]

theorem andThen_assoc (p q r : Pattern) : ((p >> q) >> r) = (p >> q >> r) := by
  funext text
  apply Option.ext
  rintro ⟨part, rest⟩
  rw [andThen_eq_some_iff, andThen_eq_some_iff]
  constructor
  · rintro ⟨_, middle, right, read, rightRead, rfl⟩
    obtain ⟨first, between, second, firstRead, secondRead, rfl⟩ := andThen_eq_some_iff.mp read
    exact ⟨first, between, second ++ right, firstRead,
      andThen_eq_some_iff.mpr ⟨second, middle, right, secondRead, rightRead, rfl⟩,
      List.append_assoc ..⟩
  · rintro ⟨first, between, _, firstRead, read, rfl⟩
    obtain ⟨second, middle, right, secondRead, rightRead, rfl⟩ := andThen_eq_some_iff.mp read
    exact ⟨first ++ second, middle, right,
      andThen_eq_some_iff.mpr ⟨first, between, second, firstRead, secondRead, rfl⟩, rightRead,
      (List.append_assoc ..).symm⟩

/-! Patterns that cut what they are given. -/

def Sound (p : Pattern) : Prop :=
  ∀ text part rest, p text = some (part, rest) → text = part ++ rest

theorem Sound.run (p : UInt8 → Bool) : Sound (run p) := by
  intro text part rest h
  obtain ⟨rfl, rfl⟩ := run_eq_some_iff.mp h
  exact List.takeWhile_append_dropWhile.symm

theorem Sound.one (p : UInt8 → Bool) : Sound (one p) := by
  intro text part rest h
  obtain ⟨byte, -, rfl, rfl⟩ := one_eq_some_iff.mp h
  rfl

theorem Sound.literal (affix : Text) : Sound (literal affix) := by
  intro text part rest h
  obtain ⟨rfl, rfl⟩ := literal_eq_some_iff.mp h
  rfl

theorem Sound.keyword (words : List Text) : Sound (keyword words) := by
  intro text part rest h
  obtain ⟨-, rfl, rfl⟩ := keyword_eq_some_iff.mp h
  exact List.takeWhile_append_dropWhile.symm

theorem Sound.andThen {first second : Pattern} (h : Sound first) (h' : Sound second) :
    Sound (first >> second) := by
  intro text part rest read
  obtain ⟨left, middle, right, leftRead, rightRead, rfl⟩ := andThen_eq_some_iff.mp read
  rw [h _ _ _ leftRead, h' _ _ _ rightRead, List.append_assoc]

theorem Sound.orElse {first second : Pattern} (h : Sound first) (h' : Sound second) :
    Sound (first <|> second) := by
  intro text part rest read
  rcases orElse_eq_some_iff.mp read with read | ⟨-, read⟩
  · exact h _ _ _ read
  · exact h' _ _ _ read

theorem Sound.optional {p : Pattern} (h : Sound p) : Sound (optional p) := by
  intro text part rest read
  rcases optional_eq_some_iff.mp read with read | ⟨-, rfl, rfl⟩
  · exact h _ _ _ read
  · rfl

theorem Sound.upTo {p : Pattern} (h : Sound p) (n : Nat) : Sound (upTo p n) := by
  induction n with
  | zero => exact Sound.optional fun _ _ _ read => by cases read
  | succ n ih => exact Sound.optional (Sound.andThen h ih)

theorem Sound.many {p : Pattern} (h : Sound p) : Sound (many p) :=
  fun text => h.upTo text.length text

theorem Sound.many1 {p : Pattern} (h : Sound p) : Sound (many1 p) :=
  Sound.andThen h h.many

theorem Sound.spaces : Sound spaces := Sound.run _

theorem Sound.spaces1 : Sound spaces1 := Sound.andThen (Sound.one _) Sound.spaces

theorem Sound.cutFront {p : Pattern} (h : Sound p) (text : Text) :
    text = (p.cutFront text).1 ++ (p.cutFront text).2 := by
  cases read : p text with
  | none => simp [Pattern.cutFront, read]
  | some found => simpa [Pattern.cutFront, read] using h text found.1 found.2 read

theorem toLineEnd_of_single {text : Text} (single : Text.newline ∉ text) :
    toLineEnd text = some (text, []) := by
  have all : ∀ byte ∈ text, (byte != Text.newline) = true := by
    intro byte member
    simpa using fun same : byte = Text.newline => single (same ▸ member)
  simp [toLineEnd, run, List.takeWhile_eq_self_iff.mpr all, List.dropWhile_eq_nil_iff.mpr all]

theorem andThen_toLineEnd {first : Pattern} (sound : Sound first) {text : Text}
    (single : Text.newline ∉ text) :
    (first >> toLineEnd) text = if first.matchesFront text then some (text, []) else none := by
  rw [andThen_def, andThen, matchesFront]
  cases read : first text with
  | none => rfl
  | some found =>
      have whole := sound _ _ _ read
      simp [toLineEnd_of_single fun member => single (whole ▸ List.mem_append_right _ member), whole]

def Consumes (p : Pattern) : Prop :=
  ∀ text part rest, p text = some (part, rest) → part ≠ []

theorem Consumes.literal {affix : Text} (nonempty : affix ≠ []) : Consumes (literal affix) := by
  intro text part rest read
  obtain ⟨rfl, -⟩ := literal_eq_some_iff.mp read
  exact nonempty

theorem Consumes.andThen_left {first : Pattern} (h : Consumes first) (second : Pattern) :
    Consumes (first >> second) := by
  intro text part rest read
  obtain ⟨left, middle, right, leftRead, -, rfl⟩ := andThen_eq_some_iff.mp read
  exact List.append_ne_nil_of_left_ne_nil (h _ _ _ leftRead) right

theorem Consumes.andThen_right (first : Pattern) {second : Pattern} (h : Consumes second) :
    Consumes (first >> second) := by
  intro text part rest read
  obtain ⟨left, middle, right, -, rightRead, rfl⟩ := andThen_eq_some_iff.mp read
  exact List.append_ne_nil_of_right_ne_nil left (h _ _ _ rightRead)

/-! Leftmost matches. -/

/-- The pattern reads nothing from any place inside the front of a text. -/
def Misses (p : Pattern) : (front rest : Text) → Prop
  | [], _ => True
  | byte :: front, rest => p (byte :: (front ++ rest)) = none ∧ Misses p front rest

theorem find_eq_some_iff {p : Pattern} {text : Text} {found : Found} :
    p.find text = some found ↔
      ∃ rest, text = found.before ++ rest ∧ p rest = some (found.part, found.after) ∧
        Misses p found.before rest := by
  induction text generalizing found with
  | nil =>
      rw [find, Option.map_eq_some_iff]
      constructor
      · rintro ⟨⟨part, after⟩, read, rfl⟩
        exact ⟨[], rfl, read, trivial⟩
      · rintro ⟨rest, split, read, -⟩
        obtain ⟨before, rfl⟩ := List.nil_eq_append_iff.mp split
        exact ⟨(found.part, found.after), read, by rw [← before]⟩
  | cons byte text ih =>
      rw [find]
      split
      · next part after read =>
          constructor
          · rintro ⟨⟩
            exact ⟨byte :: text, rfl, read, trivial⟩
          · rintro ⟨rest, split, read', missed⟩
            cases before : found.before with
            | nil =>
                rw [before, List.nil_append] at split
                rw [← split, read] at read'
                cases read'
                rw [← before]
            | cons first front =>
                rw [before, List.cons_append] at split
                rw [before, Misses, ← split, read] at missed
                cases missed.1
      · next absent =>
          rw [Option.map_eq_some_iff]
          constructor
          · rintro ⟨inner, read, rfl⟩
            obtain ⟨rest, rfl, read, missed⟩ := ih.mp read
            exact ⟨rest, rfl, read, absent, missed⟩
          · rintro ⟨rest, split, read, missed⟩
            cases before : found.before with
            | nil =>
                rw [before, List.nil_append] at split
                rw [← split, absent] at read
                cases read
            | cons first front =>
                rw [before, List.cons_append] at split
                cases split
                rw [before] at missed
                exact ⟨⟨front, found.part, found.after⟩, ih.mpr ⟨rest, rfl, read, missed.2⟩,
                  by rw [← before]⟩

end HdlAlign.Pattern
