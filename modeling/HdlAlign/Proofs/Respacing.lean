import HdlAlign.Assignment.Basic
import HdlAlign.Proofs.Characters

/-! Functions that only move white space.  Each of them leaves the characters of a text, white
space deleted, as they were. -/

namespace HdlAlign.Text

open Utf8

/-! Trimming cuts white space off the ends. -/

theorem dropWhite_split (two : UInt8 → UInt8 → Bool) (three : UInt8 → UInt8 → UInt8 → Bool)
    {motive : Text → Prop} (nil : motive [])
    (addOne : ∀ a rest, isWhite1 a → motive rest → motive (a :: rest))
    (addTwo : ∀ a b rest, two a b → motive rest → motive (a :: b :: rest))
    (addThree : ∀ a b c rest, three a b c → motive rest → motive (a :: b :: c :: rest))
    (text : Text) :
    ∃ dropped, motive dropped ∧ text = dropped ++ dropWhite two three text := by
  fun_induction dropWhite two three text with
  | case2 a rest white ih =>
      obtain ⟨dropped, built, split⟩ := ih
      exact ⟨a :: dropped, addOne a dropped white built, congrArg (a :: ·) split⟩
  | case4 a _ b rest white ih =>
      obtain ⟨dropped, built, split⟩ := ih
      exact ⟨a :: b :: dropped, addTwo a b dropped white built, congrArg (a :: b :: ·) split⟩
  | case6 a _ b _ c rest white ih =>
      obtain ⟨dropped, built, split⟩ := ih
      exact ⟨a :: b :: c :: dropped, addThree a b c dropped white built,
        congrArg (a :: b :: c :: ·) split⟩
  | _ => exact ⟨[], nil, rfl⟩

theorem trimStart_split (text : Text) :
    ∃ white, White white ∧ text = white ++ trimStart text :=
  dropWhite_split isWhite2 isWhite3 (motive := White) .nil
    (fun _ _ white rest => (White.of_isWhite1 white).append rest)
    (fun _ _ _ white rest => (White.of_isWhite2 white).append rest)
    (fun _ _ _ _ white rest => (White.of_isWhite3 white).append rest) text

theorem trimEnd_split (text : Text) :
    ∃ white, White white ∧ text = trimEnd text ++ white := by
  obtain ⟨dropped, white, split⟩ := dropWhite_split (fun b a => isWhite2 a b) (fun c b a => isWhite3 a b c)
    (motive := fun dropped => White dropped.reverse) .nil
    (fun a rest white built => by
      simpa using built.append (.of_isWhite1 white))
    (fun b a rest white built => by
      simpa using built.append (.of_isWhite2 white))
    (fun c b a rest white built => by
      simpa using built.append (.of_isWhite3 white)) text.reverse
  refine ⟨dropped.reverse, white, ?_⟩
  rw [trimEnd, ← List.reverse_append, ← split, List.reverse_reverse]

theorem trim_split (text : Text) :
    ∃ before behind, White before ∧ White behind ∧ text = before ++ trim text ++ behind := by
  obtain ⟨before, whiteBefore, start⟩ := trimStart_split text
  obtain ⟨behind, whiteBehind, finish⟩ := trimEnd_split (trimStart text)
  refine ⟨before, behind, whiteBefore, whiteBehind, ?_⟩
  rw [trim, List.append_assoc, ← finish, ← start]

@[simp] theorem solid_trim (text : Text) : solid (trim text) = solid text := by
  obtain ⟨before, behind, whiteBefore, whiteBehind, split⟩ := trim_split text
  calc
    solid (trim text) = solid (before ++ trim text ++ behind) := by
      rw [whiteBehind.solid_append_right, whiteBefore.solid_append_left]
    _ = solid text := by rw [← split]

theorem solid_eq_nil_of_isBlank {text : Text} (blank : isBlank text) : solid text = [] := by
  rw [← solid_trim, List.isEmpty_iff.mp blank, solid_nil]

/-! What stands in front decides whether `dropWhite` goes on. -/

section

variable {two : UInt8 → UInt8 → Bool} {three : UInt8 → UInt8 → UInt8 → Bool} {a b c : UInt8}

theorem dropWhite_cons (rest : Text) :
    dropWhite two three (a :: rest) =
      if isWhite1 a then dropWhite two three rest
      else match rest with
        | [] => [a]
        | b :: rest =>
          if two a b then dropWhite two three rest
          else match rest with
            | [] => [a, b]
            | c :: rest =>
              if three a b c then dropWhite two three rest else a :: b :: c :: rest :=
  dropWhite.eq_def two three (a :: rest)

theorem dropWhite_of_one (white : isWhite1 a) (rest : Text) :
    dropWhite two three (a :: rest) = dropWhite two three rest :=
  (dropWhite_cons rest).trans (if_pos white)

theorem dropWhite_of_two (one : isWhite1 a = false) (white : two a b) (rest : Text) :
    dropWhite two three (a :: b :: rest) = dropWhite two three rest := by
  rw [dropWhite_cons, if_neg (Bool.eq_false_iff.mp one)]
  exact if_pos white

theorem dropWhite_of_three (one : isWhite1 a = false) (pair : two a b = false) (white : three a b c)
    (rest : Text) : dropWhite two three (a :: b :: c :: rest) = dropWhite two three rest := by
  rw [dropWhite_cons, if_neg (Bool.eq_false_iff.mp one)]
  exact (if_neg (Bool.eq_false_iff.mp pair)).trans (if_pos white)

theorem dropWhite_of_black {rest : Text} (one : isWhite1 a = false)
    (pair : ∀ b more, rest = b :: more → two a b = false)
    (triple : ∀ b c more, rest = b :: c :: more → three a b c = false) :
    dropWhite two three (a :: rest) = a :: rest := by
  rw [dropWhite_cons, if_neg (Bool.eq_false_iff.mp one)]
  cases rest with
  | nil => rfl
  | cons b rest =>
      refine (if_neg (Bool.eq_false_iff.mp (pair b rest rfl))).trans ?_
      cases rest with
      | nil => rfl
      | cons c more => exact if_neg (Bool.eq_false_iff.mp (triple b c more rfl))

end

theorem trimStart_of_isWhite1 {a : UInt8} (h : isWhite1 a) (rest : Text) :
    trimStart (a :: rest) = trimStart rest :=
  dropWhite_of_one h rest

theorem trimStart_of_isWhite2 {a b : UInt8} (h : isWhite2 a b) (rest : Text) :
    trimStart (a :: b :: rest) = trimStart rest := by
  have lead : isWhite1 a = false := by
    simp only [isWhite2, Bool.and_eq_true, beq_iff_eq] at h
    rw [h.1]
    rfl
  exact dropWhite_of_two lead h rest

theorem trimStart_of_isWhite3 {a b c : UInt8} (h : isWhite3 a b c) (rest : Text) :
    trimStart (a :: b :: c :: rest) = trimStart rest := by
  have lead : isWhite1 a = false ∧ isWhite2 a b = false := by
    simp only [isWhite3, Bool.and_eq_true, Bool.or_eq_true, beq_iff_eq] at h
    rcases h with ((h | h) | h) | h <;> rw [h.1.1] <;> exact ⟨rfl, rfl⟩
  exact dropWhite_of_three lead.1 lead.2 h rest

theorem trimEnd_of_isWhite1 {a : UInt8} (h : isWhite1 a) (text : Text) :
    trimEnd (text ++ [a]) = trimEnd text := by
  rw [trimEnd, trimEnd, List.reverse_append]
  exact congrArg List.reverse (dropWhite_of_one h text.reverse)

theorem trimEnd_of_isWhite2 {a b : UInt8} (h : isWhite2 a b) (text : Text) :
    trimEnd (text ++ [a, b]) = trimEnd text := by
  have black : isWhite1 b = false := by
    simp only [isWhite2, Bool.and_eq_true, Bool.or_eq_true, beq_iff_eq] at h
    rcases h.2 with rfl | rfl <;> rfl
  rw [trimEnd, trimEnd, List.reverse_append]
  exact congrArg List.reverse (dropWhite_of_two black h text.reverse)

theorem trimEnd_of_isWhite3 {a b c : UInt8} (h : isWhite3 a b c) (text : Text) :
    trimEnd (text ++ [a, b, c]) = trimEnd text := by
  have third : ∀ c : UInt8, (0x80 ≤ c && c ≤ 0xBF) = true → isWhite1 c = false :=
    forall_byte (by decide +kernel)
  have second : ∀ b : UInt8, (0x80 ≤ b && b ≤ 0xBF) = true → ∀ c, isWhite2 b c = false := by
    intro b continues c
    have lead : (b == 0xC2) = false := by
      rw [← Bool.not_eq_true, beq_iff_eq]
      rintro rfl
      exact absurd continues (by decide)
    simp [isWhite2, lead]
  have bounds : (0x80 ≤ c && c ≤ 0xBF) = true ∧ (0x80 ≤ b && b ≤ 0xBF) = true := by
    have range : ∀ c : UInt8, ((0x80 ≤ c && c ≤ 0x8A) || c == 0xA8 || c == 0xA9 || c == 0xAF) = true →
        (0x80 ≤ c && c ≤ 0xBF) = true := forall_byte (by decide +kernel)
    simp only [isWhite3, Bool.and_eq_true, Bool.or_eq_true, beq_iff_eq] at h
    rcases h with ((⟨⟨rfl, rfl⟩, rfl⟩ | ⟨⟨rfl, rfl⟩, last⟩) | ⟨⟨rfl, rfl⟩, rfl⟩) | ⟨⟨rfl, rfl⟩, rfl⟩
    · decide
    · exact ⟨range c (by simpa using last), by decide⟩
    · decide
    · decide
  rw [trimEnd, trimEnd, List.reverse_append]
  exact congrArg List.reverse
    (dropWhite_of_three (third c bounds.1) (second b bounds.2 c) h text.reverse)

inductive WhiteUnit : Text → Prop
  | one {a : UInt8} (h : isWhite1 a) : WhiteUnit [a]
  | two {a b : UInt8} (h : isWhite2 a b) : WhiteUnit [a, b]
  | three {a b c : UInt8} (h : isWhite3 a b c) : WhiteUnit [a, b, c]

theorem WhiteUnit.trimStart_append {first : Text} (unit : WhiteUnit first) (rest : Text) :
    trimStart (first ++ rest) = trimStart rest := by
  cases unit with
  | one h => exact trimStart_of_isWhite1 h rest
  | two h => exact trimStart_of_isWhite2 h rest
  | three h => exact trimStart_of_isWhite3 h rest

theorem WhiteUnit.trimEnd_append {last : Text} (unit : WhiteUnit last) (text : Text) :
    trimEnd (text ++ last) = trimEnd text := by
  cases unit with
  | one h => exact trimEnd_of_isWhite1 h text
  | two h => exact trimEnd_of_isWhite2 h text
  | three h => exact trimEnd_of_isWhite3 h text

/-- Trimming knows the white space characters that are read character by character. -/
theorem whiteUnit_of_sequence? {text tail : Text} {scalar : Scalar}
    (found : sequence? text = some (scalar, tail)) (white : isWhiteChar scalar.char) :
    WhiteUnit scalar.bytes := by
  rcases sequence?_cases found with ⟨a, lead, rfl⟩ | ⟨a, b, lead, second, rfl⟩ |
    ⟨a, b, c, lead, second, third, rfl⟩ | ⟨a, b, c, d, lead, second, -, -, rfl⟩
  · exact .one (isWhite1_of_isWhiteChar lead white)
  · exact .two (isWhite2_of_isWhiteChar lead second white)
  · exact .three (isWhite3_of_isWhiteChar lead second third white)
  · rw [not_isWhiteChar_code4 lead second] at white
    cases white

theorem White.induction {motive : Text → Prop} (nil : motive [])
    (unit : ∀ first rest, WhiteUnit first → motive rest → motive (first ++ rest))
    {text : Text} (white : White text) : motive text := by
  induction text using sequence_induction with
  | nil => exact nil
  | whole text scalar tail found ih =>
      rw [White, solid, scalars_of_sequence? found, List.filter_cons] at white
      split at white
      · cases white
      · next char =>
          rw [(sequence?_bytes found).1]
          exact unit _ _ (whiteUnit_of_sequence? found (by simpa using char)) (ih white)
  | loose a rest absent ih =>
      rw [White, solid, scalars_of_no_sequence absent, List.filter_cons] at white
      split at white
      · cases white
      · next char => exact absurd (show (!isWhiteChar replacement) = true by decide) char

theorem White.trimStart_append {white : Text} (h : White white) (text : Text) :
    trimStart (white ++ text) = trimStart text :=
  White.induction (motive := fun white => Text.trimStart (white ++ text) = Text.trimStart text) rfl
    (fun first rest unit ih => by rw [List.append_assoc, unit.trimStart_append, ih]) h

theorem White.trimEnd_append {white : Text} (h : White white) (text : Text) :
    trimEnd (text ++ white) = trimEnd text :=
  White.induction (motive := fun white => ∀ text, trimEnd (text ++ white) = trimEnd text)
    (fun text => by rw [List.append_nil])
    (fun first rest unit ih text => by rw [← List.append_assoc, ih, unit.trimEnd_append]) h text

theorem White.trimStart {text : Text} (white : White text) : trimStart text = [] := by
  have dropped := white.trimStart_append []
  rw [List.append_nil] at dropped
  exact dropped

theorem trimStart_trimStart (text : Text) : trimStart (trimStart text) = trimStart text := by
  obtain ⟨white, h, split⟩ := trimStart_split text
  conv => rhs; rw [split, h.trimStart_append]

theorem trimEnd_trimEnd (text : Text) : trimEnd (trimEnd text) = trimEnd text := by
  obtain ⟨white, h, split⟩ := trimEnd_split text
  conv => rhs; rw [split, h.trimEnd_append]

theorem length_trimStart_le (text : Text) : (trimStart text).length ≤ text.length := by
  obtain ⟨white, -, split⟩ := trimStart_split text
  conv => rhs; rw [split]
  simp

@[simp] theorem trimStart_trim (text : Text) : trimStart (trim text) = trim text := by
  -- White space at the front of the trimmed text would stand at the front of the whole.
  obtain ⟨behind, whiteBehind, finish⟩ := trimEnd_split (trimStart text)
  obtain ⟨before, whiteBefore, start⟩ := trimStart_split (trim text)
  have fixed := trimStart_trimStart text
  rw [finish, ← trim, start, List.append_assoc, whiteBefore.trimStart_append] at fixed
  have shorter := length_trimStart_le (trimStart (trim text) ++ behind)
  rw [fixed, List.length_append] at shorter
  have none : before = [] := List.length_eq_zero_iff.mp (by omega)
  rw [none, List.nil_append] at start
  exact start.symm

@[simp] theorem trimEnd_trim (text : Text) : trimEnd (trim text) = trim text :=
  trimEnd_trimEnd (trimStart text)

@[simp] theorem trim_trim (text : Text) : trim (trim text) = trim text := by
  rw [trim, trimStart_trim, trimEnd_trim]

theorem isBlank_iff_white {text : Text} : isBlank text ↔ White text := by
  constructor
  · exact solid_eq_nil_of_isBlank
  · intro white
    rw [isBlank, trim, white.trimStart]
    rfl

theorem not_white_of_isAscii {byte : UInt8} (ascii : isAscii byte) :
    (∀ a, isWhite2 byte a = false ∧ isWhite2 a byte = false) ∧
      ∀ a b, isWhite3 byte a b = false ∧ isWhite3 a b byte = false := by
  have bytes : ∀ byte : UInt8, isAscii byte → (byte == 0xC2) = false ∧ (byte == 0x85) = false ∧
      (byte == 0xA0) = false ∧ (byte == 0xE1) = false ∧ (byte == 0xE2) = false ∧
      (byte == 0xE3) = false ∧ (byte == 0x80) = false ∧ (byte == 0x9F) = false ∧
      decide (0x80 ≤ byte) = false ∧ (byte == 0xA8) = false ∧ (byte == 0xA9) = false ∧
      (byte == 0xAF) = false := forall_byte (by decide +kernel)
  obtain ⟨h1, h2, h3, h4, h5, h6, h7, h8, h9, h10, h11, h12⟩ := bytes byte ascii
  constructor
  · intro a
    simp [isWhite2, h1, h2, h3]
  · intro a b
    simp only [isWhite3, h4, h5, h6, h7, h8, h9, h10, h11, h12]
    simp

theorem trimStart_of_isAscii {byte : UInt8} (ascii : isAscii byte) (black : isWhite1 byte = false)
    (rest : Text) : trimStart (byte :: rest) = byte :: rest := by
  obtain ⟨two, three⟩ := not_white_of_isAscii ascii
  exact dropWhite_of_black black (fun b _ _ => (two b).1) fun b c _ _ => (three b c).1

theorem trimEnd_of_isAscii {byte : UInt8} (ascii : isAscii byte) (black : isWhite1 byte = false)
    (text : Text) : trimEnd (text ++ [byte]) = text ++ [byte] := by
  obtain ⟨two, three⟩ := not_white_of_isAscii ascii
  suffices dropped : dropWhite (fun b a => isWhite2 a b) (fun c b a => isWhite3 a b c)
      (text ++ [byte]).reverse = (text ++ [byte]).reverse by
    rw [trimEnd, dropped, List.reverse_reverse]
  rw [List.reverse_append, List.reverse_singleton, List.singleton_append]
  exact dropWhite_of_black black (fun b _ _ => (two b).2) fun b c _ _ => (three c b).2

theorem flatMap_bytes_scalars (text : Text) : (scalars text).flatMap Scalar.bytes = text := by
  induction text using sequence_induction with
  | nil => rfl
  | whole text scalar tail found ih =>
      rw [scalars_of_sequence? found, List.flatMap_cons, ih, ← (sequence?_bytes found).1]
  | loose a rest absent ih =>
      rw [scalars_of_no_sequence absent, List.flatMap_cons, ih]
      rfl

theorem mem_iff_mem_solid {byte : UInt8} (ascii : isAscii byte) (black : isWhite1 byte = false)
    (text : Text) : byte ∈ text ↔ ⟨Char.ofNat byte.toNat, [byte]⟩ ∈ solid text := by
  constructor
  · intro member
    obtain ⟨left, right, rfl⟩ := List.append_of_mem member
    have kept : ∀ byte : UInt8, isAscii byte → isWhite1 byte = false →
        isWhiteChar (Char.ofNat byte.toNat) = false := forall_byte (by decide +kernel)
    rw [solid_append (.cons_right left right ascii), solid, solid, scalars_cons_of_isAscii ascii,
      List.filter_cons, kept byte ascii black]
    simp
  · intro member
    rw [← flatMap_bytes_scalars text]
    exact List.mem_flatMap.mpr ⟨_, (List.mem_filter.mp member).1, by simp⟩

theorem mem_iff_of_solid_eq {byte : UInt8} (ascii : isAscii byte) (black : isWhite1 byte = false)
    {old new : Text} (same : solid new = solid old) : byte ∈ new ↔ byte ∈ old := by
  rw [mem_iff_mem_solid ascii black, mem_iff_mem_solid ascii black, same]

/-! Rewriting the white space inside a text.  The induction has to know that the two texts agree
behind every common front, since a character may begin in what was already copied. -/

/-- The same characters, white space deleted, behind every common front. -/
def Respaced (old new : Text) : Prop :=
  ∀ front, solid (front ++ old) = solid (front ++ new)

namespace Respaced

theorem refl (text : Text) : Respaced text text := fun _ => rfl

theorem trans {first second third : Text} (h : Respaced first second)
    (h' : Respaced second third) : Respaced first third :=
  fun front => (h front).trans (h' front)

theorem solid_eq {old new : Text} (h : Respaced old new) : solid old = solid new := h []

theorem symm {old new : Text} (h : Respaced old new) : Respaced new old :=
  fun front => (h front).symm

theorem cons (byte : UInt8) {old new : Text} (h : Respaced old new) :
    Respaced (byte :: old) (byte :: new) := by
  intro front
  simpa using h (front ++ [byte])

theorem of_heads {a b : UInt8} {old new : Text} (first : isAscii a) (second : isAscii b)
    (h : solid (a :: old) = solid (b :: new)) : Respaced (a :: old) (b :: new) := by
  intro front
  rw [solid_append (.cons_right front old first), solid_append (.cons_right front new second), h]

end Respaced

theorem isSpace_iff {byte : UInt8} :
    isSpace byte ↔ byte = 0x20 ∨ byte = 0x09 ∨ byte = 0x0A ∨ byte = 0x0C ∨ byte = 0x0D := by
  simp [isSpace, or_assoc]

theorem isAscii_of_isSpace : ∀ {byte : UInt8}, isSpace byte → isAscii byte := by
  intro byte space
  rcases isSpace_iff.mp space with rfl | rfl | rfl | rfl | rfl <;> rfl

theorem isWhite1_of_isSpace : ∀ {byte : UInt8}, isSpace byte → isWhite1 byte := by
  intro byte space
  rcases isSpace_iff.mp space with rfl | rfl | rfl | rfl | rfl <;> rfl

theorem solid_cons_of_isSpace {byte : UInt8} (h : isSpace byte) (rest : Text) :
    solid (byte :: rest) = solid rest :=
  (White.of_isWhite1 (isWhite1_of_isSpace h)).solid_append_left rest

theorem isSpace_blank : isSpace blank := rfl

theorem isSpace_newline : isSpace newline := rfl

theorem Respaced.spaces {a b : UInt8} {old new : Text} (first : isSpace a) (second : isSpace b)
    (h : solid old = solid new) : Respaced (a :: old) (b :: new) := by
  refine .of_heads (isAscii_of_isSpace first) (isAscii_of_isSpace second) ?_
  rw [solid_cons_of_isSpace first, solid_cons_of_isSpace second, h]

theorem Respaced.space_left {a b : UInt8} (text : Text) (space : isSpace a) (ascii : isAscii b) :
    Respaced (a :: b :: text) (b :: text) :=
  .of_heads (isAscii_of_isSpace space) ascii (solid_cons_of_isSpace space _)

theorem collapseRuns_respaced (inRun : Bool) (text : Text) :
    Respaced (collapseRuns inRun text) text := by
  fun_induction collapseRuns inRun text with
  | case1 => exact .refl []
  | case2 inRun byte rest space follows ih =>
      cases rest with
      | nil => simp [spaceFollows] at follows
      | cons next rest =>
          exact ih.trans (Respaced.space_left rest space (isAscii_of_isSpace follows)).symm
  | case3 inRun byte rest space alone ih =>
      refine .spaces ?_ space ih.solid_eq
      split
      · exact isSpace_blank
      · exact space
  | case4 inRun byte rest other ih => exact ih.cons byte

theorem collapseSpaces_respaced (text : Text) : Respaced (collapseSpaces text) text := by
  fun_induction collapseSpaces text with
  | case1 => exact .refl []
  | case2 byte rest space follows ih =>
      cases rest with
      | nil => simp [spaceFollows] at follows
      | cons next rest =>
          exact ih.trans (Respaced.space_left rest space (isAscii_of_isSpace follows)).symm
  | case3 byte rest space alone ih => exact .spaces isSpace_blank space ih.solid_eq
  | case4 byte rest other ih => exact ih.cons byte

theorem isAscii_comma : isAscii (',' : UInt8) := rfl

theorem head_of_commaFollows {text : Text} (follows : commaFollows text) :
    ∃ byte rest, text = byte :: rest ∧ isAscii byte := by
  cases text with
  | nil => simp [commaFollows] at follows
  | cons byte rest =>
      refine ⟨byte, rest, rfl, ?_⟩
      by_cases space : isSpace byte
      · exact isAscii_of_isSpace space
      · have comma : byte = (',' : UInt8) := by
          simpa [commaFollows, List.dropWhile_cons_of_neg space] using follows
        exact comma ▸ isAscii_comma

/-- Behind a comma that absorbs blanks, these may vanish in front of any byte; elsewhere they
vanish only in front of another blank or of a comma. -/
theorem spaceCommas_respaced (absorbing : Bool) (text : Text) :
    solid (spaceCommas absorbing text) = solid text ∧
      (absorbing = false → Respaced (spaceCommas absorbing text) text) := by
  fun_induction spaceCommas absorbing text with
  | case1 => exact ⟨rfl, fun _ => .refl []⟩
  | case2 absorbing rest ih =>
      have same : solid (',' :: blank :: spaceCommas true rest) = solid (',' :: rest) := by
        rw [solid_cons isAscii_comma, solid_cons isAscii_comma rest,
          solid_cons_of_isSpace isSpace_blank, ih.1]
      exact ⟨same, fun _ => .of_heads isAscii_comma isAscii_comma same⟩
  | case3 absorbing byte rest other space vanishes ih =>
      refine ⟨ih.1.trans (solid_cons_of_isSpace space rest).symm, ?_⟩
      rintro rfl
      obtain ⟨next, rest, rfl, ascii⟩ := head_of_commaFollows (by simpa using vanishes)
      exact (ih.2 rfl).trans (Respaced.space_left rest space ascii).symm
  | case4 absorbing byte rest other space kept ih =>
      have respaced := (ih.2 rfl).cons byte
      exact ⟨respaced.solid_eq, fun _ => respaced⟩
  | case5 absorbing byte rest other inside ih =>
      have respaced := (ih.2 rfl).cons byte
      exact ⟨respaced.solid_eq, fun _ => respaced⟩

@[simp] theorem solid_normalize (text : Text) : solid (normalize text) = solid text := by
  rw [normalize, (collapseRuns_respaced false _).solid_eq, solid_trim]

@[simp] theorem solid_normalizeList (text : Text) : solid (normalizeList text) = solid text := by
  rw [normalizeList, solid_trim, (spaceCommas_respaced false text).1]

theorem White.blanks (n : Nat) : White (blanks n) := by
  induction n with
  | zero => rfl
  | succ n ih => exact (solid_cons_of_isSpace isSpace_blank (Text.blanks n)).trans ih

/-! No byte but a blank is added. -/

def Within (new old : Text) : Prop := ∀ byte ∈ new, byte ∈ old ∨ byte = blank

namespace Within

theorem refl (text : Text) : Within text text := fun _ => .inl

theorem nil (old : Text) : Within [] old := by simp [Within]

theorem trans {first second third : Text} (h : Within first second) (h' : Within second third) :
    Within first third := fun byte member => (h byte member).elim (h' byte) .inr

theorem append {left right old : Text} (h : Within left old) (h' : Within right old) :
    Within (left ++ right) old := fun byte member =>
  (List.mem_append.mp member).elim (h byte) (h' byte)

theorem of_subset {new old : Text} (h : new ⊆ old) : Within new old := fun _ member => .inl (h member)

theorem mono {new old wider : Text} (h : Within new old) (sub : old ⊆ wider) : Within new wider :=
  fun byte member => (h byte member).imp_left fun inside => sub inside

theorem not_mem {new old : Text} (h : Within new old) {byte : UInt8} (other : byte ≠ blank)
    (absent : byte ∉ old) : byte ∉ new := fun member => (h byte member).elim absent other

end Within

theorem trim_subset (text : Text) : trim text ⊆ text := by
  obtain ⟨before, behind, -, -, split⟩ := trim_split text
  intro byte member
  rw [split]
  simp [member]

theorem Within.cons {byte : UInt8} {new old : Text} (here : byte ∈ old ∨ byte = blank)
    (h : Within new old) : Within (byte :: new) old :=
  fun b member => (List.mem_cons.mp member).elim (fun same => same ▸ here) (h b)

theorem Within.cons_cons (byte : UInt8) {new old : Text} (h : Within new old) :
    Within (byte :: new) (byte :: old) :=
  .cons (.inl (List.mem_cons_self ..)) (h.mono (List.subset_cons_self ..))

theorem Within.cons_right (byte : UInt8) {new old : Text} (h : Within new old) :
    Within new (byte :: old) :=
  h.mono (List.subset_cons_self ..)

theorem collapseRuns_within (inRun : Bool) (text : Text) :
    Within (collapseRuns inRun text) text := by
  fun_induction collapseRuns inRun text with
  | case1 => exact .nil []
  | case2 inRun byte rest space follows ih => exact ih.cons_right byte
  | case3 inRun byte rest space alone ih =>
      refine .cons ?_ (ih.cons_right byte)
      split <;> simp
  | case4 inRun byte rest other ih => exact ih.cons_cons byte

theorem collapseSpaces_within (text : Text) : Within (collapseSpaces text) text := by
  fun_induction collapseSpaces text with
  | case1 => exact .nil []
  | case2 byte rest space follows ih => exact ih.cons_right byte
  | case3 byte rest space alone ih => exact .cons (.inr rfl) (ih.cons_right byte)
  | case4 byte rest other ih => exact ih.cons_cons byte

theorem spaceCommas_within (absorbing : Bool) (text : Text) :
    Within (spaceCommas absorbing text) text := by
  fun_induction spaceCommas absorbing text with
  | case1 => exact .nil []
  | case2 absorbing rest ih =>
      exact .cons (.inl (List.mem_cons_self ..)) (.cons (.inr rfl) (ih.cons_right _))
  | case3 absorbing byte rest other space vanishes ih => exact ih.cons_right byte
  | case4 absorbing byte rest other space kept ih => exact ih.cons_cons byte
  | case5 absorbing byte rest other inside ih => exact ih.cons_cons byte

theorem normalize_within (text : Text) : Within (normalize text) text :=
  (collapseRuns_within false _).mono (trim_subset text)

theorem normalizeList_within (text : Text) : Within (normalizeList text) text :=
  (Within.of_subset (trim_subset _)).trans (spaceCommas_within false text)

theorem blanks_within (n : Nat) (old : Text) : Within (blanks n) old :=
  fun _ member => .inr (List.eq_of_mem_replicate member)

end HdlAlign.Text

namespace HdlAlign.Assignment

open Text

theorem isArith_iff {byte : UInt8} : isArith byte ↔ byte = '-' ∨ byte = '+' ∨ byte = '*' := by
  simp [isArith, or_assoc]

theorem isAscii_of_isArith : ∀ {byte : UInt8}, isArith byte → isAscii byte := by
  intro byte arith
  rcases isArith_iff.mp arith with rfl | rfl | rfl <;> rfl

theorem respaced_around {byte : UInt8} (ascii : isAscii byte) {old new : Text}
    (h : solid old = solid new) :
    Respaced (Text.blank :: byte :: Text.blank :: old) (byte :: new) := by
  refine (Respaced.space_left _ isSpace_blank ascii).trans (.of_heads ascii ascii ?_)
  rw [solid_cons ascii, solid_cons ascii new, solid_cons_of_isSpace isSpace_blank, h]

theorem isAscii_of_mark {byte : UInt8} (mark : isArith byte || byte == '/') : isAscii byte := by
  rcases Bool.or_eq_true_iff.mp mark with arith | slash
  · exact isAscii_of_isArith arith
  · exact eq_of_beq slash ▸ rfl

theorem spaceArith_respaced (text : Text) : Respaced (spaceArith text) text := by
  fun_induction spaceArith text with
  | case1 => exact .refl []
  | case2 a mark => exact respaced_around (isAscii_of_mark mark) rfl
  | case3 a other => exact .refl [a]
  | case4 a b rest first second ih =>
      have firstAscii := isAscii_of_isArith first
      have secondAscii := isAscii_of_isArith second
      refine (Respaced.space_left _ isSpace_blank firstAscii).trans (.cons a ?_)
      refine .of_heads secondAscii secondAscii ?_
      rw [solid_cons secondAscii, solid_cons secondAscii rest,
        solid_cons_of_isSpace isSpace_blank, ih.solid_eq]
  | case5 a b rest first other ih => exact respaced_around (isAscii_of_isArith first) ih.solid_eq
  | case6 a b rest other slash ih =>
      exact respaced_around (isAscii_of_mark (by simp [slash])) ih.solid_eq
  | case7 a b rest other plain ih => exact ih.cons a

@[simp] theorem solid_spaceOperators (text : Text) : solid (spaceOperators text) = solid text := by
  rw [spaceOperators, solid_trim, (collapseSpaces_respaced _).solid_eq,
    (spaceCommas_respaced false _).1, (spaceArith_respaced text).solid_eq]

theorem spaceArith_within (text : Text) : Within (spaceArith text) text := by
  have around {a : UInt8} {new old : Text} (h : Within new old) :
      Within (Text.blank :: a :: Text.blank :: new) (a :: old) :=
    .cons (.inr rfl) (.cons (.inl (List.mem_cons_self ..)) (.cons (.inr rfl) (h.cons_right a)))
  fun_induction spaceArith text with
  | case1 => exact .nil []
  | case2 a mark => exact around (.nil [])
  | case3 a other => exact .refl [a]
  | case4 a b rest first second ih =>
      exact .cons (.inr rfl) (.cons_cons a (.cons (.inl (List.mem_cons_self ..))
        (.cons (.inr rfl) (ih.cons_right b))))
  | case5 a b rest first other ih => exact around ih
  | case6 a b rest other slash ih => exact around ih
  | case7 a b rest other plain ih => exact ih.cons_cons a

theorem spaceOperators_within (text : Text) : Within (spaceOperators text) text :=
  (Within.of_subset (trim_subset _)).trans ((collapseSpaces_within _).trans
    ((spaceCommas_within false _).trans (spaceArith_within text)))

end HdlAlign.Assignment
