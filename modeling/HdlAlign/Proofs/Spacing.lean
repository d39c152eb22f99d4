import HdlAlign.Proofs.PortRereading

/-! Right-hand sides are spaced by three rewrites one after the other.  Together they are one pass
over operators, commas, blanks and other bytes, which only has to remember whether a blank is due;
from the pass follows that the spacing of a text is stable. -/

namespace HdlAlign.Text

open Utf8

/-! White space around a text is no matter to trimming. -/

theorem WhiteUnit.white {unit : Text} (h : WhiteUnit unit) : White unit := by
  cases h with
  | one h => exact .of_isWhite1 h
  | two h => exact .of_isWhite2 h
  | three h => exact .of_isWhite3 h

theorem isContinuation_of_isWhite2 {a b : UInt8} (white : isWhite2 a b) : isContinuation b := by
  simp only [isWhite2, Bool.and_eq_true, Bool.or_eq_true, beq_iff_eq] at white
  rcases white with ⟨-, rfl | rfl⟩ <;> rfl

theorem isContinuation_of_isWhite3 {a b c : UInt8} (white : isWhite3 a b c) :
    isContinuation b ∧ isContinuation c := by
  have range : ∀ c : UInt8, 0x80 ≤ c ∧ c ≤ 0x8A → isContinuation c := forall_byte (by decide +kernel)
  simp only [isWhite3, Bool.and_eq_true, Bool.or_eq_true, beq_iff_eq, decide_eq_true_eq] at white
  rcases white with ((⟨⟨-, rfl⟩, rfl⟩ | ⟨⟨-, rfl⟩, ((last | rfl) | rfl) | rfl⟩) | ⟨⟨-, rfl⟩, rfl⟩) |
    ⟨⟨-, rfl⟩, rfl⟩
  case inl.inl.inr.inl.inl.inl => exact ⟨by decide, range c last⟩
  all_goals decide

theorem not_white_of_trimStart {a : UInt8} {rest : Text} (fixed : trimStart (a :: rest) = a :: rest) :
    isWhite1 a = false ∧ (∀ b more, rest = b :: more → isWhite2 a b = false) ∧
      ∀ b c more, rest = b :: c :: more → isWhite3 a b c = false := by
  have shorter {tail : Text} (fewer : tail.length ≤ rest.length)
      (dropped : trimStart (a :: rest) = trimStart tail) : False := by
    have bound := length_trimStart_le tail
    rw [← dropped, fixed, List.length_cons] at bound
    omega
  refine ⟨?_, ?_, ?_⟩
  · rw [← Bool.not_eq_true]
    exact fun white => shorter (Nat.le_refl _) (trimStart_of_isWhite1 white rest)
  · rintro b more rfl
    rw [← Bool.not_eq_true]
    exact fun white => shorter (by simp) (trimStart_of_isWhite2 white more)
  · rintro b c more rfl
    rw [← Bool.not_eq_true]
    refine fun white => shorter ?_ (trimStart_of_isWhite3 white more)
    simp only [List.length_cons]
    omega

theorem trimStart_append {text tail : Text} (fixed : trimStart text = text) (nonempty : text ≠ [])
    (boundary : ∀ byte ∈ tail.head?, isContinuation byte = false) :
    trimStart (text ++ tail) = text ++ tail := by
  have apart (b : UInt8) (more : Text) (same : tail = b :: more) :
      (∀ a, isWhite2 a b = false) ∧ ∀ a c, isWhite3 a b c = false ∧ isWhite3 a c b = false := by
    have first : isContinuation b = false := boundary b (by rw [same]; rfl)
    refine ⟨fun a => ?_, fun a c => ⟨?_, ?_⟩⟩ <;> rw [← Bool.not_eq_true] <;> intro h
    · simp [isContinuation_of_isWhite2 h] at first
    · simp [(isContinuation_of_isWhite3 h).1] at first
    · simp [(isContinuation_of_isWhite3 h).2] at first
  cases text with
  | nil => exact absurd rfl nonempty
  | cons a rest =>
      obtain ⟨one, two, three⟩ := not_white_of_trimStart fixed
      -- The next two bytes are of the text or of its tail.
      refine dropWhite_of_black one (fun b more same => ?_) fun b c more same => ?_
      · cases rest with
        | nil => exact (apart b more same).1 a
        | cons _ _ =>
            cases same
            exact two b _ rfl
      · rcases rest with _ | ⟨_, _ | ⟨_, _⟩⟩
        · exact ((apart b (c :: more) same).2 a c).1
        · cases same
          exact ((apart c more rfl).2 a b).2
        · cases same
          exact three b c _ rfl

theorem White.trim_append_left {white : Text} (h : White white) (text : Text) :
    trim (white ++ text) = trim text := by
  rw [trim, trim, h.trimStart_append]

theorem White.trim_append_right {white : Text} (h : White white) (text : Text) :
    trim (text ++ white) = trim text := by
  obtain ⟨front, whiteFront, split⟩ := trimStart_split text
  have start : Text.trimStart (text ++ white) = Text.trimStart (Text.trimStart text ++ white) := by
    conv => lhs; rw [split, List.append_assoc, whiteFront.trimStart_append]
  rw [trim, trim, start]
  by_cases none : Text.trimStart text = []
  · rw [none, List.nil_append, h.trimStart]
  · rw [Text.trimStart_append (trimStart_trimStart text) none h.head, h.trimEnd_append]

theorem trimEnd_append_cons {byte : UInt8} (ascii : isAscii byte) {text : Text} (nonempty : text ≠ [])
    (trimmed : trimEnd text = text) (front : Text) :
    trimEnd (front ++ byte :: text) = front ++ byte :: text := by
  obtain ⟨white, isWhite, split⟩ := trimEnd_split (front ++ byte :: text)
  have visible : ¬White text := fun none => by
    have gone := none.trimEnd_append []
    rw [List.nil_append, trimmed] at gone
    exact nonempty gone
  rcases List.append_eq_append_iff.mp split with ⟨more, -, behind⟩ | ⟨more, -, behind⟩
  · cases more with
    | nil =>
        rw [List.nil_append] at behind
        rw [White, ← behind, solid_cons ascii] at isWhite
        exact absurd (List.append_eq_nil_iff.mp isWhite).2 visible
    | cons first more =>
        have same : text = more ++ white := (List.cons.inj behind).2
        have dropped := isWhite.trimEnd_append more
        rw [← same, trimmed] at dropped
        have none : white = [] := by
          obtain ⟨cut, -, shorter⟩ := trimEnd_split more
          have lengths := congrArg List.length (same.symm.trans dropped)
          have bound := congrArg List.length shorter
          simp only [List.length_append] at lengths bound
          exact List.length_eq_zero_iff.mp (by omega)
        rw [none, List.append_nil] at split
        exact split.symm
  · rw [White, behind, solid_append (.cons_right more text ascii), solid_cons ascii] at isWhite
    exact absurd (List.append_eq_nil_iff.mp (List.append_eq_nil_iff.mp isWhite).2).2 visible

/-! A byte of ASCII parts what trimming does at the two ends. -/

section

variable {byte : UInt8} (ascii : isAscii byte) (black : isWhite1 byte = false)

include ascii black

theorem trimStart_append_byte (left right : Text) :
    trimStart (left ++ byte :: right) = trimStart left ++ byte :: right := by
  obtain ⟨before, whiteBefore, start⟩ := trimStart_split left
  conv => lhs; rw [start, List.append_assoc, whiteBefore.trimStart_append]
  by_cases none : trimStart left = []
  · rw [none]
    exact trimStart_of_isAscii ascii black right
  · exact trimStart_append (trimStart_trimStart left) none
      (by simpa using not_isContinuation_of_isAscii ascii)

theorem trimEnd_append_byte (left right : Text) :
    trimEnd (left ++ byte :: right) = left ++ byte :: trimEnd right := by
  obtain ⟨behind, whiteBehind, finish⟩ := trimEnd_split right
  conv => lhs; rw [finish, ← List.cons_append, ← List.append_assoc, whiteBehind.trimEnd_append]
  by_cases none : trimEnd right = []
  · rw [none]
    exact trimEnd_of_isAscii ascii black _
  · exact trimEnd_append_cons ascii none (trimEnd_trimEnd right) _

theorem trim_append_byte (left right : Text) :
    trim (left ++ byte :: right) = trimStart left ++ byte :: trimEnd right := by
  rw [trim, trimStart_append_byte ascii black, trimEnd_append_byte ascii black]

end

theorem solid_trimStart (text : Text) : solid (trimStart text) = solid text := by
  obtain ⟨white, h, split⟩ := trimStart_split text
  conv => rhs; rw [split, h.solid_append_left]

theorem solid_trimEnd (text : Text) : solid (trimEnd text) = solid text := by
  obtain ⟨white, h, split⟩ := trimEnd_split text
  conv => rhs; rw [split, h.solid_append_right]

end HdlAlign.Text

namespace HdlAlign.Assignment

open Text Statement

def respace (text : Text) : Text := collapseSpaces (spaceCommas false (spaceArith text))

theorem spaceOperators_eq (text : Text) : spaceOperators text = trim (respace text) := rfl

theorem solid_respace (text : Text) : solid (respace text) = solid text := by
  rw [← solid_trim, ← spaceOperators_eq, solid_spaceOperators]

def isInert (byte : UInt8) : Bool :=
  !isSpace byte && !isArith byte && byte != '/' && byte != ','

inductive Operator : Text → Text → Prop
  | slash (rest : Text) : Operator [('/' : UInt8)] rest
  | single {a : UInt8} {rest : Text} (arith : isArith a)
      (alone : ∀ b ∈ rest.head?, isArith b = false) : Operator [a] rest
  | double {a b : UInt8} (first : isArith a) (second : isArith b) (rest : Text) :
      Operator [a, b] rest

theorem isArith_facts : ∀ {byte : UInt8}, isArith byte →
    isSpace byte = false ∧ byte ≠ ',' ∧ (byte == '/') = false :=
  @(forall_byte (by decide +kernel))

theorem isSpace_facts : ∀ {byte : UInt8}, isSpace byte →
    isArith byte = false ∧ (byte == '/') = false ∧ byte ≠ ',' :=
  @(forall_byte (by decide +kernel))

theorem isInert_facts : ∀ {byte : UInt8}, isInert byte →
    isSpace byte = false ∧ byte ≠ ',' ∧ isArith byte = false ∧ (byte == '/') = false :=
  @(forall_byte (by decide +kernel))

namespace Operator

theorem ne_nil {op rest : Text} (operator : Operator op rest) : op ≠ [] := by
  cases operator <;> simp

theorem visible {op rest : Text} (operator : Operator op rest) :
    ∀ byte ∈ op, isSpace byte = false ∧ byte ≠ ',' := by
  have arith {byte : UInt8} (h : isArith byte) : isSpace byte = false ∧ byte ≠ ',' :=
    ⟨(isArith_facts h).1, (isArith_facts h).2.1⟩
  cases operator with
  | slash =>
      intro byte member
      rw [List.mem_singleton.mp member]
      decide
  | single h => simpa using arith h
  | double h h' => simpa using ⟨arith h, arith h'⟩

theorem spaceArith {op rest : Text} (operator : Operator op rest) :
    spaceArith (op ++ rest) = blank :: (op ++ blank :: spaceArith rest) := by
  have slash : isArith ('/' : UInt8) = false := rfl
  cases operator with
  | slash => cases rest <;> simp [Assignment.spaceArith, slash]
  | single h alone =>
      cases rest with
      | nil => simp [Assignment.spaceArith, h]
      | cons b rest => simp [Assignment.spaceArith, h, alone b rfl]
  | double h h' => simp [Assignment.spaceArith, h, h']

/-- The operator depends on the next byte alone. -/
theorem goesOn {op rest other : Text} (operator : Operator op rest)
    (stops : ∀ b ∈ other.head?, isArith b = false) : Operator op other := by
  cases operator with
  | slash => exact .slash other
  | single h => exact .single h stops
  | double h h' => exact .double h h' other

end Operator

theorem spaceArith_cons {a : UInt8} (other : isArith a = false) (noSlash : (a == '/') = false)
    (rest : Text) : spaceArith (a :: rest) = a :: spaceArith rest := by
  cases rest <;> simp [spaceArith, other, noSlash]

/-- A text is read one blank, comma, operator or other byte at a time. -/
theorem piece_induction {motive : Text → Prop} (nil : motive [])
    (space : ∀ a rest, isSpace a → motive rest → motive (a :: rest))
    (comma : ∀ rest, motive rest → motive ((',' : UInt8) :: rest))
    (operator : ∀ op rest, Operator op rest → motive rest → motive (op ++ rest))
    (inert : ∀ a rest, isInert a → motive rest → motive (a :: rest)) (text : Text) :
    motive text := by
  have other (a : UInt8) (rest : Text) (noArith : isArith a = false) (noSlash : (a == '/') = false)
      (ih : motive rest) : motive (a :: rest) := by
    by_cases isComma : a = ','
    · exact isComma ▸ comma rest ih
    · cases isBlank : isSpace a with
      | true => exact space a rest isBlank ih
      | false =>
          exact inert a rest (by simpa [isInert, isBlank, noArith, isComma] using noSlash) ih
  fun_induction Assignment.spaceArith text with
  | case1 => exact nil
  | case2 a op =>
      cases arith : isArith a with
      | true => exact operator [a] [] (.single arith fun _ member => by cases member) nil
      | false =>
          obtain rfl : a = '/' := by simpa [arith] using op
          exact operator [_] [] (.slash []) nil
  | case3 a op =>
      simp only [Bool.or_eq_true, not_or, Bool.not_eq_true] at op
      exact other a [] op.1 op.2 nil
  | case4 a b rest first second ih => exact operator [a, b] rest (.double first second rest) ih
  | case5 a b rest first second ih =>
      exact operator [a] (b :: rest) (.single first (by simpa using second)) ih
  | case6 a b rest noArith slash ih =>
      obtain rfl : a = '/' := by simpa using slash
      exact operator [_] (b :: rest) (.slash _) ih
  | case7 a b rest noArith noSlash ih =>
      exact other a (b :: rest) (by simpa using noArith) (by simpa using noSlash) ih

inductive Gap where
  | none
  /-- One blank is due in front of the next byte, unless this is a comma. -/
  | due
  | written

namespace Gap

def widen : Gap → Gap
  | none => due
  | due => due
  | written => written

def loose : Gap → Text
  | none => []
  | due => [blank]
  | written => []

def apart : Gap → Text
  | none => [blank]
  | due => [blank]
  | written => []

end Gap

/-- The spacing of a text in one pass. -/
def write (gap : Gap) : Text → Text
  | [] => gap.loose
  | a :: rest =>
    if isSpace a then write gap.widen rest
    else if a = ',' then a :: blank :: write .written rest
    else if isArith a then
      match rest with
      | [] => gap.apart ++ a :: write .due []
      | b :: more =>
        if isArith b then gap.apart ++ a :: b :: write .due more
        else gap.apart ++ a :: write .due (b :: more)
    else if a == '/' then gap.apart ++ a :: write .due rest
    else gap.loose ++ a :: write .none rest

@[simp] theorem write_nil (gap : Gap) : write gap [] = gap.loose := write.eq_def gap []

theorem write_space {a : UInt8} (space : isSpace a) (gap : Gap) (rest : Text) :
    write gap (a :: rest) = write gap.widen rest := by
  rw [write.eq_def]
  simp only [space, if_true]

theorem write_comma (gap : Gap) (rest : Text) :
    write gap ((',' : UInt8) :: rest) = (',' : UInt8) :: blank :: write .written rest :=
  write.eq_def gap _

theorem write_inert {a : UInt8} (inert : isInert a) (gap : Gap) (rest : Text) :
    write gap (a :: rest) = gap.loose ++ a :: write .none rest := by
  obtain ⟨shown, noComma, noArith, noSlash⟩ := isInert_facts inert
  rw [write.eq_def]
  simp [shown, noComma, noArith, noSlash]

theorem write_operator {op rest : Text} (operator : Operator op rest) (gap : Gap) :
    write gap (op ++ rest) = gap.apart ++ (op ++ write .due rest) := by
  cases operator with
  | slash => exact write.eq_def gap _
  | single h alone =>
      obtain ⟨shown, noComma, -⟩ := isArith_facts h
      rw [write.eq_def]
      cases rest with
      | nil => simp [shown, noComma, h]
      | cons b rest => simp [shown, noComma, h, alone b rfl]
  | double h h' =>
      obtain ⟨shown, noComma, -⟩ := isArith_facts h
      rw [write.eq_def]
      simp [shown, noComma, h, h']

/-! The three rewrites are this pass. -/

theorem collapseSpaces_visible {front : Text} (visible : ∀ byte ∈ front, isSpace byte = false)
    (text : Text) : collapseSpaces (front ++ text) = front ++ collapseSpaces text := by
  induction front with
  | nil => rfl
  | cons byte front ih =>
      rw [List.cons_append, collapseSpaces, if_neg (by simp [visible byte]),
        ih fun other member => visible other (by simp [member])]
      rfl

theorem collapseSpaces_space {a : UInt8} (space : isSpace a) (text : Text) :
    collapseSpaces (a :: text) = collapseSpaces (blank :: text) := by
  rw [collapseSpaces, collapseSpaces, if_pos space, if_pos isSpace_blank]

theorem collapseSpaces_blank {text : Text} (starts : Starts text) :
    collapseSpaces (blank :: text) = blank :: collapseSpaces text := by
  rw [collapseSpaces, if_pos isSpace_blank, starts_iff.mp starts, if_neg Bool.false_ne_true]

theorem collapseSpaces_blank_space {a : UInt8} (space : isSpace a) (text : Text) :
    collapseSpaces (blank :: a :: text) = collapseSpaces (blank :: text) := by
  rw [collapseSpaces, if_pos isSpace_blank, spaceFollows, if_pos space, collapseSpaces_space space]

def spaced (text : Text) : Text := collapseSpaces (spaceCommas false text)

theorem spaced_space {a : UInt8} (space : isSpace a) (text : Text) :
    spaced (a :: text) = spaced (blank :: text) := by
  have noComma := (isSpace_facts space).2.2
  rw [spaced, spaced, spaceCommas, spaceCommas, if_neg noComma, if_pos space,
    if_neg (show blank ≠ ',' by decide), if_pos isSpace_blank]
  split
  · rfl
  · exact collapseSpaces_space space _

theorem spaced_blank_space {a : UInt8} (space : isSpace a) (text : Text) :
    spaced (blank :: a :: text) = spaced (blank :: text) := by
  have noComma := (isSpace_facts space).2.2
  simp only [spaced, spaceCommas, if_neg (show blank ≠ ',' by decide), if_pos isSpace_blank,
    if_neg noComma, if_pos space, commaFollows_cons, Bool.false_or]
  split
  · rfl
  · exact collapseSpaces_blank_space space _

theorem spaced_blank_comma (text : Text) :
    spaced (blank :: (',' : UInt8) :: text) = spaced ((',' : UInt8) :: text) := rfl

theorem spaced_visible {front : Text} (nonempty : front ≠ [])
    (visible : ∀ byte ∈ front, isSpace byte = false ∧ byte ≠ ',') (text : Text) :
    spaced (front ++ text) = front ++ spaced text := by
  rw [spaced, spaceCommas_append nonempty visible,
    collapseSpaces_visible fun byte member => (visible byte member).1]
  rfl

theorem spaced_blank_visible {front : Text} (nonempty : front ≠ [])
    (visible : ∀ byte ∈ front, isSpace byte = false ∧ byte ≠ ',') (text : Text) :
    spaced (blank :: (front ++ text)) = blank :: (front ++ spaced text) := by
  obtain ⟨byte, rest, rfl⟩ := List.exists_cons_of_ne_nil nonempty
  obtain ⟨shown, noComma⟩ := visible byte (by simp)
  have apart : commaFollows (byte :: rest ++ text) = false := by
    rw [List.cons_append, commaFollows_cons, if_neg (by simp [shown])]
    simpa using noComma
  have starts : Starts (byte :: rest ++ spaceCommas false text) := by
    simpa [Starts] using shown
  rw [spaced, spaceCommas, if_neg (by decide), if_pos isSpace_blank, apart, Bool.or_false,
    if_neg Bool.false_ne_true, spaceCommas_append nonempty visible, collapseSpaces_blank starts,
    collapseSpaces_visible fun byte member => (visible byte member).1]
  rfl

theorem spaced_spaceArith (text : Text) :
    spaced (spaceArith text) = write .none text ∧
      spaced (blank :: spaceArith text) = write .due text ∧
      collapseSpaces (blank :: spaceCommas true (spaceArith text)) = blank :: write .written text := by
  induction text using piece_induction with
  | nil => exact ⟨rfl, rfl, rfl⟩
  | space a rest space ih =>
      obtain ⟨noArith, noSlash, noComma⟩ := isSpace_facts space
      rw [spaceArith_cons noArith noSlash]
      simp only [write_space space, Gap.widen]
      refine ⟨(spaced_space space _).trans ih.2.1, (spaced_blank_space space _).trans ih.2.1, ?_⟩
      rw [spaceCommas, if_neg noComma, if_pos space, Bool.true_or, if_pos rfl]
      exact ih.2.2
  | comma rest ih =>
      have read : spaced ((',' : UInt8) :: spaceArith rest) = write .none ((',' : UInt8) :: rest) := by
        rw [write_comma, ← ih.2.2]
        rfl
      rw [spaceArith_cons rfl rfl]
      refine ⟨read, (spaced_blank_comma _).trans (read.trans ?_), ?_⟩
      · rw [write_comma, write_comma]
      · rw [write_comma, ← ih.2.2]
        rfl
  | operator op rest operator ih =>
      have nonempty := operator.ne_nil
      have visible := operator.visible
      have read : spaced (blank :: (op ++ blank :: spaceArith rest)) =
          blank :: (op ++ write .due rest) := by
        rw [spaced_blank_visible nonempty visible, ih.2.1]
      simp only [operator.spaceArith, write_operator operator, Gap.apart]
      refine ⟨read, (spaced_blank_space isSpace_blank _).trans read, ?_⟩
      have starts : Starts (op ++ spaceCommas false (blank :: spaceArith rest)) := by
        obtain ⟨byte, more, rfl⟩ := List.exists_cons_of_ne_nil nonempty
        simpa [Starts] using (visible byte (by simp)).1
      rw [spaceCommas, if_neg (by decide), if_pos isSpace_blank, Bool.true_or, if_pos rfl,
        spaceCommas_append nonempty visible, collapseSpaces_blank starts,
        collapseSpaces_visible fun byte member => (visible byte member).1, ← ih.2.1]
      rfl
  | inert a rest inert ih =>
      obtain ⟨shown, noComma, noArith, noSlash⟩ := isInert_facts inert
      have visible : ∀ byte ∈ [a], isSpace byte = false ∧ byte ≠ ',' := by simp [shown, noComma]
      simp only [spaceArith_cons noArith noSlash, write_inert inert, Gap.loose]
      refine ⟨?_, ?_, ?_⟩
      · exact (spaced_visible (by simp) visible _).trans (by rw [ih.1]; rfl)
      · exact (spaced_blank_visible (by simp) visible _).trans (by rw [ih.1]; rfl)
      · have starts : Starts (a :: spaceCommas false (spaceArith rest)) := by
          simpa [Starts] using shown
        rw [spaceCommas, if_neg noComma, if_neg (by simp [shown]), collapseSpaces_blank starts,
          collapseSpaces, if_neg (by simp [shown]), ← ih.1]
        rfl

theorem respace_eq (text : Text) : respace text = write .none text := (spaced_spaceArith text).1

/-! The pass is stable. -/

theorem head_write_due (text : Text) : ∀ byte ∈ (write .due text).head?, isArith byte = false := by
  have head {first : UInt8} (other : isArith first = false) (rest : Text) :
      ∀ byte ∈ (first :: rest).head?, isArith byte = false := by
    simpa using other
  induction text using piece_induction with
  | nil => exact head rfl []
  | space a rest space ih => rwa [write_space space]
  | comma rest => rw [write_comma]; exact head rfl _
  | operator op rest operator => rw [write_operator operator]; exact head rfl _
  | inert a rest inert => rw [write_inert inert]; exact head rfl _

theorem write_none_write_due (text : Text) :
    write .none (write .due text) = write .due (write .due text) := by
  induction text using piece_induction with
  | nil => rfl
  | space a rest space ih => simpa [write_space space, Gap.widen] using ih
  | comma rest => rw [write_comma, write_comma, write_comma]
  | operator op rest operator =>
      rw [write_operator operator, Gap.apart, List.singleton_append, write_space isSpace_blank,
        write_space isSpace_blank, Gap.widen, Gap.widen]
  | inert a rest inert =>
      rw [write_inert inert, Gap.loose, List.singleton_append, write_space isSpace_blank,
        write_space isSpace_blank, Gap.widen, Gap.widen]

theorem write_write (gap : Gap) (text : Text) : write gap (write gap text) = write gap text := by
  induction text using piece_induction generalizing gap with
  | nil => cases gap <;> rfl
  | space a rest space ih =>
      rw [write_space space]
      cases gap with
      | none => exact (write_none_write_due rest).trans (ih .due)
      | due => exact ih .due
      | written => exact ih .written
  | comma rest ih =>
      rw [write_comma, write_comma, write_space isSpace_blank]
      exact congrArg _ (congrArg _ (ih .written))
  | operator op rest operator ih =>
      have again : Operator op (write .due rest) := operator.goesOn (head_write_due rest)
      rw [write_operator operator]
      cases gap with
      | none | due =>
          rw [Gap.apart, List.singleton_append, write_space isSpace_blank, Gap.widen,
            write_operator again, ih .due, Gap.apart, List.singleton_append]
      | written =>
          rw [Gap.apart, List.nil_append, write_operator again, ih .due, Gap.apart, List.nil_append]
  | inert a rest inert ih =>
      rw [write_inert inert]
      cases gap with
      | none | written =>
          rw [Gap.loose, List.nil_append, write_inert inert, ih .none, Gap.loose, List.nil_append]
      | due =>
          rw [Gap.loose, List.singleton_append, write_space isSpace_blank, Gap.widen,
            write_inert inert, ih .none, Gap.loose, List.singleton_append]

theorem respace_respace (text : Text) : respace (respace text) = respace text := by
  rw [respace_eq, respace_eq, write_write]

/-! The pass goes on freshly at every byte that no rewrite looks for. -/

theorem Operator.append {op rest : Text} (operator : Operator op rest) {other : Text}
    (stops : ∀ b ∈ other.head?, isArith b = false) : Operator op (rest ++ other) := by
  cases operator with
  | slash => exact .slash _
  | single h alone =>
      refine .single h fun b member => ?_
      cases rest with
      | nil => exact stops b member
      | cons c rest => exact alone b member
  | double h h' => exact .double h h' _

theorem write_append_inert {a : UInt8} (inert : isInert a) (gap : Gap) (left right : Text) :
    write gap (left ++ a :: right) = write gap left ++ a :: write .none right := by
  induction left using piece_induction generalizing gap with
  | nil => exact write_inert inert gap right
  | space b rest space ih => rw [List.cons_append, write_space space, write_space space, ih]
  | comma rest ih => rw [List.cons_append, write_comma, write_comma, ih]; rfl
  | operator op rest operator ih =>
      have stops : ∀ b ∈ (a :: right).head?, isArith b = false := by
        simpa using (isInert_facts inert).2.2.1
      rw [List.append_assoc, write_operator (operator.append stops), write_operator operator, ih]
      simp only [List.append_assoc]
  | inert b rest other ih =>
      rw [List.cons_append, write_inert other, write_inert other, ih]
      simp only [List.append_assoc, List.cons_append]

theorem respace_append_inert {a : UInt8} (inert : isInert a) (left right : Text) :
    respace (left ++ a :: right) = respace left ++ a :: respace right := by
  rw [respace_eq, write_append_inert inert, respace_eq, respace_eq]

theorem respace_cons_inert {a : UInt8} (inert : isInert a) (right : Text) :
    respace (a :: right) = a :: respace right := respace_append_inert inert [] right

/-! White space at the ends of a text makes no difference to how it is spaced. -/

theorem write_due (text : Text) :
    write .due text = write .none text ∨ write .due text = blank :: write .none text := by
  induction text using piece_induction with
  | nil => exact .inr rfl
  | space a rest space => exact .inl (by rw [write_space space, write_space space]; rfl)
  | comma rest => exact .inl (by rw [write_comma, write_comma])
  | operator op rest operator => exact .inl (by rw [write_operator operator, write_operator operator]; rfl)
  | inert a rest inert => exact .inr (by rw [write_inert inert, write_inert inert]; rfl)

theorem write_append_space {a : UInt8} (space : isSpace a) (gap : Gap) (text : Text) :
    write gap (text ++ [a]) = write gap text ∨ write gap (text ++ [a]) = write gap text ++ [blank] := by
  have behind (front : Text) {old new : Text} (h : new = old ∨ new = old ++ [blank]) :
      front ++ new = front ++ old ∨ front ++ new = front ++ old ++ [blank] := by
    rcases h with rfl | rfl
    · exact .inl rfl
    · exact .inr (List.append_assoc ..).symm
  induction text using piece_induction generalizing gap with
  | nil =>
      rw [List.nil_append, write_space space]
      cases gap
      · exact .inr rfl
      · exact .inl rfl
      · exact .inl rfl
  | space b rest blank ih => rw [List.cons_append, write_space blank, write_space blank]; exact ih _
  | comma rest ih =>
      rw [List.cons_append, write_comma, write_comma]
      exact behind [',', blank] (ih .written)
  | operator op rest operator ih =>
      have stops : ∀ b ∈ [a].head?, isArith b = false := by simpa using (isSpace_facts space).1
      rw [List.append_assoc, write_operator (operator.append stops), write_operator operator,
        ← List.append_assoc, ← List.append_assoc gap.apart]
      exact behind _ (ih .due)
  | inert b rest inert ih =>
      rw [List.cons_append, write_inert inert, write_inert inert, List.append_cons,
        List.append_cons gap.loose b (write .none rest)]
      exact behind _ (ih .none)

theorem respace_inert {text : Text} (inert : ∀ byte ∈ text, isInert byte) : respace text = text := by
  induction text with
  | nil => rfl
  | cons byte rest ih =>
      rw [respace_cons_inert (inert byte (by simp)), ih fun other member => inert other (by simp [member])]

theorem respace_append {front : Text} (inert : ∀ byte ∈ front, isInert byte) (text : Text) :
    respace (front ++ text) = front ++ respace text := by
  induction front with
  | nil => rfl
  | cons byte rest ih =>
      rw [List.cons_append, respace_cons_inert (inert byte (by simp)),
        ih fun other member => inert other (by simp [member])]
      rfl

theorem respace_append_right {tail : Text} (inert : ∀ byte ∈ tail, isInert byte) (text : Text) :
    respace (text ++ tail) = respace text ++ tail := by
  cases tail with
  | nil => simp
  | cons byte rest =>
      have others : ∀ other ∈ rest, isInert other := fun other member => inert other (by simp [member])
      rw [respace_append_inert (inert byte (by simp)), respace_inert others]

theorem whiteUnit_cases {unit : Text} (white : WhiteUnit unit) :
    (∃ a, unit = [a] ∧ isSpace a) ∨ ∀ byte ∈ unit, isInert byte := by
  have one : ∀ a : UInt8, isWhite1 a → isSpace a = true ∨ isInert a = true :=
    forall_byte (by decide +kernel)
  have high : ∀ a : UInt8, 0x80 ≤ a → isInert a = true := forall_byte (by decide +kernel)
  cases white with
  | one h => exact (one _ h).imp (fun space => ⟨_, rfl, space⟩) fun inert => by simpa using inert
  | @two a b h =>
      have bounds : 0x80 ≤ a ∧ 0x80 ≤ b := by
        simp only [isWhite2, Bool.and_eq_true, Bool.or_eq_true, beq_iff_eq] at h
        rcases h with ⟨rfl, rfl | rfl⟩ <;> decide
      exact .inr (by simpa using ⟨high a bounds.1, high b bounds.2⟩)
  | @three a b c h =>
      have bounds : 0x80 ≤ a ∧ 0x80 ≤ b ∧ 0x80 ≤ c := by
        simp only [isWhite3, Bool.and_eq_true, Bool.or_eq_true, beq_iff_eq, decide_eq_true_eq] at h
        rcases h with ((⟨⟨rfl, rfl⟩, rfl⟩ | ⟨⟨rfl, rfl⟩, ((last | rfl) | rfl) | rfl⟩) | ⟨⟨rfl, rfl⟩, rfl⟩) |
          ⟨⟨rfl, rfl⟩, rfl⟩
        case inl.inl.inr.inl.inl.inl => exact ⟨by decide, by decide, last.1⟩
        all_goals decide
      exact .inr (by simpa using ⟨high a bounds.1, high b bounds.2.1, high c bounds.2.2⟩)

theorem white_blank : White [blank] := .of_isWhite1 rfl

theorem trim_cons_blank (text : Text) : trim (blank :: text) = trim text :=
  white_blank.trim_append_left text

theorem trim_respace_append_left {white : Text} (h : White white) (text : Text) :
    trim (respace (white ++ text)) = trim (respace text) :=
  White.induction (motive := fun white => trim (respace (white ++ text)) = trim (respace text)) rfl
    (fun first rest unit ih => by
      rw [List.append_assoc, ← ih]
      rcases whiteUnit_cases unit with ⟨a, rfl, space⟩ | inert
      · rw [List.singleton_append, respace_eq, respace_eq, write_space space, Gap.widen]
        rcases write_due (rest ++ text) with same | same
        · rw [same]
        · rw [same, trim_cons_blank]
      · rw [respace_append inert, trim, trim, unit.trimStart_append])
    h

theorem trim_respace_append_right {white : Text} (h : White white) (text : Text) :
    trim (respace (text ++ white)) = trim (respace text) :=
  White.induction
    (motive := fun white => ∀ text, trim (respace (text ++ white)) = trim (respace text))
    (fun text => by rw [List.append_nil])
    (fun first rest unit ih text => by
      rw [← List.append_assoc, ih]
      rcases whiteUnit_cases unit with ⟨a, rfl, space⟩ | inert
      · rw [respace_eq, respace_eq]
        rcases write_append_space space .none text with same | same
        · rw [same]
        · rw [same, White.trim_append_right (white_blank)]
      · rw [respace_append_right inert, White.trim_append_right unit.white])
    h text

theorem spaceOperators_trim (text : Text) : spaceOperators (trim text) = spaceOperators text := by
  obtain ⟨before, behind, whiteBefore, whiteBehind, split⟩ := trim_split text
  rw [spaceOperators_eq, spaceOperators_eq]
  conv => rhs; rw [split, trim_respace_append_right whiteBehind, trim_respace_append_left whiteBefore]

theorem spaceOperators_spaceOperators (text : Text) :
    spaceOperators (spaceOperators text) = spaceOperators text := by
  calc
    spaceOperators (spaceOperators text) = spaceOperators (respace text) := spaceOperators_trim _
    _ = spaceOperators text := by rw [spaceOperators_eq, respace_respace, spaceOperators_eq]

end HdlAlign.Assignment
