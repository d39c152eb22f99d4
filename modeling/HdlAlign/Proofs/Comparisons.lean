import HdlAlign.Proofs.AssignmentRereading
import HdlAlign.Proofs.Placement
import HdlAlign.Proofs.Runs

/-! Comparisons on the lines of a block of declarations.  A line with an equals sign is laid out as an
assignment from its first one on: a blank is put behind this sign, so a comparison to which it belongs
is torn, and every other one stays in one piece. -/

namespace HdlAlign.Text

theorem append_cons_cases {mark : UInt8} {front first other second : Text} (absent : mark ∉ first)
    (same : front ++ mark :: other = first ++ mark :: second) :
    (front = first ∧ other = second) ∨
      ∃ between, front = first ++ mark :: between ∧ second = between ++ mark :: other := by
  rcases List.append_eq_append_iff.mp same with ⟨more, rfl, rest⟩ | ⟨more, rfl, rest⟩
  · cases more with
    | nil => exact .inl ⟨(List.append_nil _).symm, (List.cons.inj rest).2⟩
    | cons byte more =>
        obtain rfl := (List.cons.inj rest).1
        exact absurd (List.mem_append_right front (List.mem_cons_self ..)) absent
  · cases more with
    | nil => exact .inl ⟨List.append_nil _, (List.cons.inj rest).2.symm⟩
    | cons byte more =>
        obtain ⟨rfl, behind⟩ := List.cons.inj rest
        exact .inr ⟨more, rfl, behind⟩

theorem append_cons_inj {mark : UInt8} {front first other second : Text} (free : mark ∉ front)
    (absent : mark ∉ first) (same : front ++ mark :: other = first ++ mark :: second) :
    front = first ∧ other = second := by
  rcases append_cons_cases absent same with h | ⟨between, rfl, -⟩
  · exact h
  · exact absurd (List.mem_append_right first (List.mem_cons_self ..)) free

theorem exists_append_of_apart {left right front tail : Text} (apart : ∀ byte ∈ tail, byte ∉ left)
    (same : left ++ right = front ++ tail) : ∃ more, right = more ++ tail := by
  rcases List.append_eq_append_iff.mp same with ⟨more, -, behind⟩ | ⟨more, rfl, behind⟩
  · exact ⟨more, behind⟩
  · cases more with
    | nil => exact ⟨[], behind.symm⟩
    | cons byte more =>
        have inTail : byte ∈ tail := behind ▸ List.mem_cons_self ..
        exact absurd (List.mem_append_right front (List.mem_cons_self ..)) (apart byte inTail)

theorem dropTailWhile_append_run {run : Text} (nonempty : run ≠ [])
    (black : ∀ byte ∈ run, isBlack byte) (front rest : Text) :
    dropTailWhile isIndent (front ++ (run ++ rest)) =
      front ++ (run ++ dropTailWhile isIndent rest) := by
  have shown : ∀ byte : UInt8, isBlack byte → isIndent byte = false := forall_byte (by decide +kernel)
  obtain ⟨init, last, rfl⟩ := (List.eq_nil_or_concat' run).resolve_left nonempty
  have stays := shown last (black last (List.mem_append_right init (List.mem_singleton_self last)))
  simpa using dropTailWhile_append_cons stays (front ++ init) rest

def EndsHidden (text : Text) : Prop := ∀ byte ∈ text.getLast?, isPrinted byte = false

namespace EndsHidden

theorem append {front back : Text} (h : EndsHidden front) (h' : EndsHidden back) :
    EndsHidden (front ++ back) := by
  intro byte last
  rw [List.getLast?_append, Option.mem_def, Option.or_eq_some_iff] at last
  rcases last with last | ⟨-, last⟩
  · exact h' byte last
  · exact h byte last

theorem of_white {text : Text} (white : White text) : EndsHidden text := by
  intro byte last
  rw [← Bool.not_eq_true]
  intro printed
  obtain ⟨ascii, black, -⟩ := black_of_isPrinted printed
  exact white.not_mem_of_isBlack (isBlack_iff.mpr ⟨ascii, black⟩) (List.mem_of_getLast? last)

theorem padRight {field : Text} {anchor : Nat} (room : field.width ≠ 0 → field.width < anchor) :
    EndsHidden (field.padRight anchor) := by
  by_cases hidden : field.width = 0
  · refine .append (fun byte last => ?_) (.of_white (.blanks _))
    rw [← Bool.not_eq_true]
    exact fun printed => absurd hidden (Nat.pos_iff_ne_zero.mp
      (width_pos (List.mem_of_getLast? last) printed))
  · intro byte last
    have gap : anchor - field.width ≠ 0 := by
      have := room hidden
      omega
    rw [Text.padRight, blanks, List.getLast?_append, List.getLast?_replicate, if_neg gap] at last
    cases last
    rfl

theorem padded {fields : List Text} {anchors : List Nat} (roomy : Batch.Roomy fields anchors) :
    EndsHidden (Line.padded fields anchors) := by
  induction fields generalizing anchors with
  | nil => exact .of_white .nil
  | cons field fields ih =>
      cases anchors with
      | nil => exact roomy.elim
      | cons anchor anchors => exact (EndsHidden.padRight roomy.1).append (ih roomy.2)

end EndsHidden

end HdlAlign.Text

namespace HdlAlign.Pattern

open Text

def Reads (kind : UInt8 → Bool) (p : Pattern) : Prop :=
  ∀ text part rest, p text = some (part, rest) → ∀ byte ∈ part, kind byte

namespace Reads

variable {kind : UInt8 → Bool}

theorem run {p : UInt8 → Bool} (holds : ∀ byte, p byte → kind byte) : Reads kind (run p) := by
  intro text part rest read byte member
  obtain ⟨rfl, -⟩ := run_eq_some_iff.mp read
  exact holds byte (List.mem_takeWhile_imp member)

theorem one {p : UInt8 → Bool} (holds : ∀ byte, p byte → kind byte) : Reads kind (one p) := by
  intro text part rest read byte member
  obtain ⟨first, found, rfl, -⟩ := one_eq_some_iff.mp read
  exact List.mem_singleton.mp member ▸ holds first found

theorem keyword (holds : ∀ byte, isWord byte → kind byte) (words : List Text) :
    Reads kind (keyword words) := by
  intro text part rest read byte member
  obtain ⟨-, rfl, -⟩ := keyword_eq_some_iff.mp read
  exact holds byte (List.mem_takeWhile_imp member)

theorem andThen {first second : Pattern} (h : Reads kind first) (h' : Reads kind second) :
    Reads kind (first >> second) := by
  intro text part rest read byte member
  obtain ⟨left, middle, right, leftRead, rightRead, rfl⟩ := andThen_eq_some_iff.mp read
  exact (List.mem_append.mp member).elim (h _ _ _ leftRead byte) (h' _ _ _ rightRead byte)

theorem optional {p : Pattern} (h : Reads kind p) : Reads kind (optional p) := by
  intro text part rest read byte member
  rcases optional_eq_some_iff.mp read with read | ⟨-, rfl, -⟩
  · exact h _ _ _ read byte member
  · cases member

theorem cutFront {p : Pattern} (h : Reads kind p) (text : Text) :
    ∀ byte ∈ (p.cutFront text).1, kind byte := by
  rw [Pattern.cutFront]
  cases read : p text with
  | none => exact fun byte none => absurd none List.not_mem_nil
  | some found => exact h text found.1 found.2 read

end Reads

end HdlAlign.Pattern

namespace HdlAlign.Statement

open Pattern Text Assignment

def isTypeByte (byte : UInt8) : Bool := isSpace byte || isWord byte

theorem declarationType_reads : Reads isTypeByte declarationType := by
  have spaces : Reads isTypeByte Pattern.spaces :=
    .run fun byte space => by rw [isTypeByte, space, Bool.true_or]
  have word : ∀ byte, isWord byte → isTypeByte byte := fun byte word => by
    rw [isTypeByte, word, Bool.or_true]
  refine .andThen spaces (.andThen (.keyword word _) (.andThen (.optional ?_) spaces))
  exact .andThen (.andThen (.one fun byte space => by rw [isTypeByte, space, Bool.true_or]) spaces)
    (.keyword word _)

def shiftRight : Text := ofString ">>"

theorem exists_of_mem_operators {op : Text} (member : op ∈ operators) :
    ∃ sign, op = sign ++ [('=' : UInt8)] ∧ ('=' : UInt8) ∉ sign ∧
      (sign = [] ∨ sign = shiftRight ∨ sign.getLast? ≠ some ('>' : UInt8)) := by
  have facts : ∀ op ∈ operators, ('=' : UInt8) ∉ op.dropLast ∧
      (op.dropLast = [] ∨ op.dropLast = shiftRight ∨ op.dropLast.getLast? ≠ some ('>' : UInt8)) := by decide
  obtain ⟨sign, rfl⟩ := List.getLast?_eq_some_iff.mp (last_of_mem_operators op member)
  exact ⟨sign, rfl, by simpa using facts _ member⟩

theorem exists_splitAssignment {code : Text} (member : ('=' : UInt8) ∈ code) :
    ∃ before, ∃ op ∈ operators, ∃ rest, splitAssignment code = (before, op ++ rest) ∧
      ('=' : UInt8) ∉ before ∧ ∀ front back, before = front ++ back → back ≠ [] →
        opensAssignment (back ++ (op ++ rest)) = false := by
  cases found : breakBefore? opensAssignment code with
  | none =>
      obtain ⟨front, back, split⟩ := List.append_of_mem member
      have missed := breakBefore?_eq_none_iff.mp found front _ split
      rw [opensAssignment_equals] at missed
      cases missed
  | some parts =>
      obtain ⟨before, assigned⟩ := parts
      obtain ⟨split, opens, misses⟩ := breakBefore?_eq_some_iff.mp found
      have free := equals_not_mem_before found
      rw [splitAssignment, found, Option.getD_some]
      rcases opensAssignment_cases opens with ⟨op, isOperator, rest, rfl⟩ | ⟨tail, rfl, spaces⟩
      · exact ⟨before, op, isOperator, rest, rfl, free, misses⟩
      · rw [split] at member
        rcases List.mem_cons.mp ((List.mem_append.mp member).resolve_left free) with equals | inTail
        · exact absurd equals (by decide)
        · exact absurd (spaces _ inTail) (by decide)

/-- The first equals sign of a code, with the sign in front of it that belongs to the same operator. -/
structure FirstEquals (code head sign rest : Text) : Prop where
  split : code = head ++ (sign ++ ('=' : UInt8) :: rest)
  operator : sign ++ [('=' : UInt8)] ∈ operators
  free : ('=' : UInt8) ∉ head ++ sign
  shift : ∀ front, head ++ sign = front ++ shiftRight → sign = shiftRight

theorem FirstEquals.eq_of_split {code head sign rest front back : Text}
    (first : FirstEquals code head sign rest) (split : code = front ++ ('=' : UInt8) :: back)
    (free : ('=' : UInt8) ∉ front) : head ++ sign = front ∧ rest = back :=
  append_cons_inj first.free free
    ((List.append_assoc ..).trans (first.split.symm.trans split))

/-- In front of an equals sign that is an operator by itself stands no shift to the right: the operator
would begin with the shift, and be found further in front. -/
theorem ne_append_shiftRight {type before rest : Text} (bytes : ∀ byte ∈ type, isTypeByte byte)
    (misses : ∀ front back, before = front ++ back → back ≠ [] →
      opensAssignment (back ++ ([] ++ [('=' : UInt8)] ++ rest)) = false) (front : Text) :
    type ++ before ≠ front ++ shiftRight := by
  intro same
  have others : ∀ byte ∈ shiftRight, isTypeByte byte = false := by decide +kernel
  have apart : ∀ byte ∈ shiftRight, byte ∉ type := fun byte shift inside =>
    absurd (bytes byte inside) (by simp [others byte shift])
  obtain ⟨front, rfl⟩ := exists_append_of_apart apart same
  have missed := misses front shiftRight rfl (by decide)
  rw [List.nil_append, ← List.append_assoc,
    opensAssignment_operator (by decide : shiftRight ++ [('=' : UInt8)] ∈ operators)] at missed
  cases missed

theorem exists_firstEquals {code : Text} (member : ('=' : UInt8) ∈ code) :
    ∃ head sign rest, FirstEquals code head sign rest ∧
      (splitAssignment (cutFront declarationType code).2).2 = sign ++ ('=' : UInt8) :: rest := by
  have bytes := declarationType_reads.cutFront code
  have typeCut := declarationType_sound.cutFront code
  revert bytes typeCut
  generalize (cutFront declarationType code).1 = type
  generalize (cutFront declarationType code).2 = behind
  rintro bytes rfl
  have noEquals : ('=' : UInt8) ∉ type := fun inside => absurd (bytes _ inside) (by decide)
  obtain ⟨before, op, isOperator, rest, cut, free, misses⟩ :=
    exists_splitAssignment ((List.mem_append.mp member).resolve_left noEquals)
  have whole := Declaration.splitAssignment_append behind
  obtain ⟨sign, rfl, noneSign, signs⟩ := exists_of_mem_operators isOperator
  rw [cut] at whole ⊢
  refine ⟨type ++ before, sign, rest, ⟨?_, isOperator, ?_, fun front same => ?_⟩, by simp⟩
  · rw [← whole]
    simp
  · simp [noEquals, free, noneSign]
  · by_cases none : sign = []
    · rw [none] at misses
      rw [none, List.append_nil] at same
      exact absurd same (ne_append_shiftRight bytes misses front)
    · refine (signs.resolve_left none).resolve_right fun other => other ?_
      rw [← List.getLast?_append_of_ne_nil _ none, same]
      exact List.getLast?_append_of_ne_nil front (by decide)

namespace Declaration

theorem Cut.subset_of_text {c : Cut} {head assigned comment : Text}
    (whole : c.text = head ++ assigned ++ comment) (cutAt : c.assignment = assigned)
    (cutComment : c.comment = comment) :
    ∀ part ∈ [c.type, c.vector, c.front, c.array, c.behind], part ⊆ head := by
  obtain ⟨type, vector, front, array, behind, assignment, comment⟩ := c
  obtain rfl := cutAt
  obtain rfl := cutComment
  have parts : type ++ (vector ++ (front ++ (array ++ behind))) = head := by
    simpa [Cut.text, ← List.append_assoc] using whole
  rw [← parts]
  intro part listed byte member
  simp only [List.mem_cons, List.not_mem_nil, or_false] at listed
  simp only [List.mem_append]
  rcases listed with rfl | rfl | rfl | rfl | rfl <;> tauto

theorem columns_within_head {line head assigned : Text} (single : newline ∉ line)
    (split : (splitComment line).1 = head ++ assigned) (cutAt : (cut line).assignment = assigned) :
    ∀ field ∈ [(extract line).type, (extract line).vector, (extract line).name,
      (extract line).array], Within field head := by
  have whole : (cut line).text = head ++ assigned ++ (splitComment line).2 := by
    rw [cut_text, ← split, splitComment_append]
  have parts := Cut.subset_of_text whole cutAt (cut_comment line)
  simp only [List.forall_mem_cons, List.not_mem_nil, false_implies, implies_true, and_true] at parts
  obtain ⟨type, vector, front, array, behind⟩ := parts
  rw [extract_eq_cut single]
  simp only [Cut.declaration, List.forall_mem_cons, List.not_mem_nil, false_implies, implies_true,
    and_true]
  have name : (cut line).front ++ (cut line).behind ⊆ head := List.append_subset.mpr ⟨front, behind⟩
  exact ⟨(normalize_within _).mono type, (normalize_within _).mono vector,
    ((normalizeList_within _).trans (normalize_within _)).mono name, (normalize_within _).mono array⟩

end Declaration

end HdlAlign.Statement

namespace HdlAlign.Assignment

open Text

theorem exists_parse?_of_isPrefix {op field : Text} (member : op ∈ operators) (begins : op <+: field) :
    ∃ value, parse? field = some value ∧ value.operator = op := by
  obtain ⟨rest, split⟩ := isPrefix_splitTerminator member begins
  exact ⟨_, parse?_of_split member (Prod.ext rfl split.symm), rfl⟩

theorem solid_shownValue (value : Assignment) (widths : Widths) :
    solid (value.shownValue widths) =
      solid value.value ++ if value.terminated then solid terminator else [] := by
  rw [shownValue]
  cases value.terminated with
  | false => simp
  | true => simp [solid_append_terminator]

end HdlAlign.Assignment

namespace HdlAlign.Block

open Text Utf8 Statement

/-- The output shows the operator of the first equals sign, and behind it a blank and the rest of the
line.  No equals sign and no visible byte stands at the operator in front. -/
structure Sets (sign rest comment lead body output : Text) : Prop where
  split : output = dropTailWhile isIndent (lead ++ (sign ++ ('=' : UInt8) :: blank :: body))
  free : ('=' : UInt8) ∉ lead
  hidden : EndsHidden lead
  shown : solid body = solid (rest ++ comment)
  keeps : ∀ run, Assignment.IsRun run → ∀ left right, rest = left ++ (run ++ right) →
    ∃ before behind, body = before ++ (run ++ behind) ∧ solid behind = solid (right ++ comment)

theorem seam_comment (text line : Text) : Seam text (splitComment line).2 := by
  rcases Declaration.splitComment_comment line with none | begins
  · rw [none]
    exact .nil_right _
  · exact Declaration.seam_of_startsWith _ (by decide) (by decide +kernel) begins

theorem padded_operator {front : List Text} {value : Assignment} {widths : Assignment.Widths}
    {comment : Text} {anchors : List Nat}
    (roomy : Batch.Roomy (front ++ [Assignment.render value widths, comment]) anchors) :
    ∃ before between behind, Line.padded (front ++ [Assignment.render value widths, comment]) anchors =
      Line.padded front anchors ++ blanks before ++ (value.operator ++ blank ::
        (value.shownValue widths ++ (blanks between ++ (comment ++ blanks behind)))) := by
  rw [roomy.padded_append]
  have room := roomy.append.2
  revert room
  generalize anchors.drop front.length = others
  intro room
  match others, room with
  | first :: second :: others, room =>
      refine ⟨widths.operator - value.operator.width, first - (Assignment.render value widths).width,
        second - comment.width, ?_⟩
      simp [Line.padded, padRight, Assignment.render_eq, Assignment.opening, padLeft]

theorem sets_render {front : List Text} {value : Assignment} {widths : Assignment.Widths}
    {sign rest comment : Text} {anchors : List Nat} {indent : Text}
    (roomy : Batch.Roomy (front ++ [Assignment.render value widths, comment]) anchors)
    (margin : White indent) (free : ∀ field ∈ front, ('=' : UInt8) ∉ field)
    (operator : value.operator = sign ++ [('=' : UInt8)]) (seam : ∀ text, Seam text comment)
    (shown : solid (value.shownValue widths) = solid rest)
    (keeps : ∀ run, Assignment.IsRun run → Keeps run rest (value.shownValue widths)) (source : Int) :
    ∃ lead body, Sets sign rest comment lead body
      ((Line.aligned (front ++ [Assignment.render value widths, comment]) source).render
        anchors indent) := by
  obtain ⟨before, between, behind, split⟩ := padded_operator roomy
  have tail (text : Text) : solid (text ++ (blanks between ++ (comment ++ blanks behind))) =
      solid (text ++ comment) := by
    rw [← List.append_assoc, ← List.append_assoc, (White.blanks behind).solid_append_right,
      solid_append (seam _), (White.blanks between).solid_append_right, solid_append (seam text)]
  refine ⟨indent ++ (Line.padded front anchors ++ blanks before),
    value.shownValue widths ++ (blanks between ++ (comment ++ blanks behind)), ?_⟩
  constructor
  case split =>
    rw [Line.render_aligned, split, operator]
    simp
  case free =>
    simp only [List.mem_append, not_or]
    refine ⟨margin.not_mem_of_isBlack rfl, fun member => ?_, (White.blanks before).not_mem_of_isBlack rfl⟩
    rcases Line.padded_subset front anchors member with isBlank | ⟨field, listed, inside⟩
    · exact absurd isBlank (by decide)
    · exact free field listed inside
  case hidden =>
    exact (EndsHidden.of_white margin).append
      ((EndsHidden.padded roomy.append.1).append (.of_white (.blanks before)))
  case shown => rw [tail, solid_append (seam _), solid_append (seam _), shown]
  case keeps =>
    intro run isRun left right same
    obtain ⟨before, behindRun, split, -, back⟩ := keeps run isRun left right same
    refine ⟨before, _, by rw [split, List.append_assoc, List.append_assoc], ?_⟩
    rw [tail, solid_append (seam _), solid_append (seam _), back]

theorem sets_laidOut {lines : List Line} {line : Text} {source : Int}
    (member : Line.aligned (Declaration.extract line).columns source ∈ lines)
    (single : newline ∉ line) {indent : Text} (margin : White indent) {head sign rest : Text}
    (first : FirstEquals (splitComment line).1 head sign rest)
    (cutAt : (Declaration.cut line).assignment = sign ++ ('=' : UInt8) :: rest) :
    ∃ lead body, Sets sign rest (splitComment line).2 lead body
      ((laidOut lines (.aligned (Declaration.extract line).columns source)).render
        (Batch.anchors (alignDeclarationColumns lines)) indent) := by
  have field : (Declaration.extract line).assignment =
      normalize ((sign ++ [('=' : UInt8)]) ++ rest) := by
    rw [Declaration.extract_eq_cut single, Declaration.Cut.declaration, cutAt]
    simp
  have comment : (Declaration.extract line).comment = (splitComment line).2 := by
    rw [Declaration.extract_eq_cut single]
    exact Declaration.cut_comment line
  have black : ∀ byte ∈ sign ++ [('=' : UInt8)], isBlack byte := fun byte inside =>
    (Assignment.black_of_mem_operators _ first.operator byte inside).1
  obtain ⟨value, read, operator⟩ := Assignment.exists_parse?_of_isPrefix first.operator
    (isPrefix_normalize (List.prefix_append _ rest) black)
  have shown := Assignment.solid_parse? read
  rw [operator, solid_normalize, solid_append_of_black black, List.append_cancel_left_eq,
    ← Assignment.solid_shownValue _ (Assignment.widths (blockAssignments lines))] at shown
  have keeps (run : Text) (isRun : Assignment.IsRun run) :
      Keeps run rest (value.shownValue (Assignment.widths (blockAssignments lines))) :=
    isRun.keeps_shownValue read (operator ▸ keeps_normalize isRun.nonempty isRun.black _) _
  obtain ⟨vector, array, movedVector, movedArray, laid⟩ := laidOut_statement member
  have inBatch : laidOut lines (.aligned (Declaration.extract line).columns source) ∈
      alignDeclarationColumns lines := by
    rw [alignDeclarationColumns_eq]
    exact List.mem_map_of_mem member
  rw [laid, laidOutAssignment_of_parse? (field ▸ read), comment] at inBatch ⊢
  have free : ∀ field ∈ [(Declaration.extract line).type, vector, (Declaration.extract line).name,
      array], ('=' : UInt8) ∉ field := by
    have within := Declaration.columns_within_head single first.split cutAt
    have absent {field : Text} (h : Within field head) : ('=' : UInt8) ∉ field :=
      h.not_mem (by decide) fun inside => first.free (List.mem_append_left sign inside)
    simp only [List.forall_mem_cons, List.not_mem_nil, false_implies, implies_true, and_true]
      at within ⊢
    exact ⟨absent within.1, absent (movedVector.within.trans within.2.1), absent within.2.2.1,
      absent (movedArray.within.trans within.2.2.2)⟩
  exact sets_render (Batch.roomy_anchors inBatch) margin free operator (seam_comment · line) shown
    keeps source

/-- The comparisons that are written with an equals sign and begin with no assignment operator. -/
def comparisons : List Text := literals ["==", "!=", ">=", "===", "!=="]

def atLeast : Text := ofString ">="

theorem isRun_of_mem_comparisons {op : Text} (member : op ∈ comparisons) : Assignment.IsRun op := by
  have facts : ∀ op ∈ comparisons, op ≠ [] ∧ (∀ byte ∈ op, Assignment.isInert byte) ∧
      (∀ byte ∈ op, isBlack byte) ∧ (';' : UInt8) ∉ op := by decide +kernel
  obtain ⟨nonempty, inert, black, open_⟩ := facts op member
  exact ⟨nonempty, inert, black, open_⟩

theorem comparison_cases {op : Text} (member : op ∈ comparisons) :
    ∃ mark behind, op = mark ++ ('=' : UInt8) :: behind ∧ ('=' : UInt8) ∉ mark ∧
      (∀ byte ∈ behind, byte = '=') ∧
      (behind = [] → mark = [('!' : UInt8)] ∨ mark = [('>' : UInt8)] ∧ op = atLeast) := by
  simp only [comparisons, literals, List.map_cons, List.map_nil, List.mem_cons, List.not_mem_nil,
    or_false] at member
  rcases member with rfl | rfl | rfl | rfl | rfl
  · exact ⟨[], ['='], by decide +kernel⟩
  · exact ⟨['!'], [], by decide +kernel⟩
  · exact ⟨['>'], [], by decide +kernel⟩
  · exact ⟨[], ['=', '='], by decide +kernel⟩
  · exact ⟨['!'], ['='], by decide +kernel⟩

theorem last_of_operator {sign : Text} (operator : sign ++ [('=' : UInt8)] ∈ Assignment.operators) :
    sign.getLast? ≠ some ('!' : UInt8) ∧ (sign.getLast? = some ('>' : UInt8) → sign = shiftRight) := by
  have facts : ∀ op ∈ Assignment.operators, op.dropLast.getLast? ≠ some ('!' : UInt8) ∧
      (op.dropLast.getLast? = some ('>' : UInt8) → op.dropLast = shiftRight) := by decide
  simpa using facts _ operator

/-- An operator stands in a text in one piece, in front of the given characters. -/
def InOnePiece (op behind text : Text) : Prop :=
  ∃ before rest, text = before ++ (op ++ rest) ∧ solid rest = solid behind

section

variable {code head sign rest comment lead body output : Text}
  (first : FirstEquals code head sign rest) (sets : Sets sign rest comment lead body output)

include first sets

omit first in
theorem Sets.last_of_split {left : Text} {byte : UInt8} (split : left ++ [byte] = lead ++ sign)
    (printed : isPrinted byte) : sign.getLast? = some byte := by
  have last := congrArg List.getLast? split
  rw [List.getLast?_concat] at last
  by_cases none : sign = []
  · rw [none, List.append_nil] at last
    exact absurd printed (by rw [sets.hidden byte last.symm]; decide)
  · rwa [List.getLast?_append_of_ne_nil _ none, eq_comm] at last

theorem inOnePiece_of_mem {op before behind : Text} (isRun : Assignment.IsRun op)
    (split : code = before ++ (op ++ behind)) (member : ('=' : UInt8) ∈ before) :
    InOnePiece op (behind ++ comment) output := by
  obtain ⟨front, middle, rfl, free⟩ := List.eq_append_cons_of_mem member
  obtain ⟨-, inRest⟩ := first.eq_of_split (split.trans (List.append_assoc ..)) free
  obtain ⟨left, right, inBody, shown⟩ := sets.keeps op isRun middle behind inRest
  refine ⟨lead ++ (sign ++ ('=' : UInt8) :: blank :: left), dropTailWhile isIndent right, ?_, ?_⟩
  · rw [sets.split, inBody, ← dropTailWhile_append_run isRun.nonempty isRun.black]
    simp
  · rw [Line.solid_dropTailWhile, shown]

theorem inOnePiece_of_shift {before behind : Text} (split : code = before ++ (atLeast ++ behind))
    (free : ('=' : UInt8) ∉ before) (last : before.getLast? = some ('>' : UInt8)) :
    InOnePiece atLeast (behind ++ comment) output := by
  obtain ⟨front, rfl⟩ := List.getLast?_eq_some_iff.mp last
  have shift : front ++ [('>' : UInt8)] ++ (atLeast ++ behind) =
      front ++ shiftRight ++ ('=' : UInt8) :: behind := by
    rw [List.append_assoc, List.append_assoc]
    rfl
  have noEquals : ('=' : UInt8) ∉ front ++ shiftRight := by
    rw [List.mem_append, not_or] at free ⊢
    exact ⟨free.1, by decide⟩
  obtain ⟨whole, rfl⟩ := first.eq_of_split (split.trans shift) noEquals
  obtain rfl := first.shift front whole
  have isRun := isRun_of_mem_comparisons (show atLeast ∈ comparisons by decide)
  refine ⟨lead ++ [('>' : UInt8)], dropTailWhile isIndent (blank :: body), ?_, ?_⟩
  · rw [sets.split, ← dropTailWhile_append_run isRun.nonempty isRun.black, List.append_assoc]
    rfl
  · rw [Line.solid_dropTailWhile, solid_cons_of_isSpace isSpace_blank, sets.shown]

omit first in
/-- In front of the characters behind it, an operator with an equals sign can only be written where
the output shows the first one: fewer characters are left behind a later one. -/
theorem Sets.eq_of_inOnePiece (noneSign : ('=' : UInt8) ∉ sign) {mark others behind : Text}
    (same : rest = others ++ behind) (black : ∀ byte ∈ others, isBlack byte)
    (whole : InOnePiece (mark ++ ('=' : UInt8) :: others) (behind ++ comment) output) :
    ∃ left right, left ++ mark = lead ++ sign ∧ others ++ right = blank :: body := by
  obtain ⟨left, right, printed, shown⟩ := whole
  obtain ⟨tail, spaces, cut⟩ := dropTailWhile_split isIndent
    (lead ++ (sign ++ ('=' : UInt8) :: blank :: body))
  have white : White tail := .of_isSpace fun byte inside => Line.isSpace_of_isIndent (spaces byte inside)
  have free : ('=' : UInt8) ∉ lead ++ sign := by
    rw [List.mem_append, not_or]
    exact ⟨sets.free, noneSign⟩
  have split : (left ++ mark) ++ ('=' : UInt8) :: (others ++ (right ++ tail)) =
      (lead ++ sign) ++ ('=' : UInt8) :: (blank :: body) := by
    rw [← sets.split, printed] at cut
    simpa using cut.symm
  rcases append_cons_cases free split with ⟨front, back⟩ | ⟨between, -, back⟩
  · exact ⟨left, right ++ tail, front, back⟩
  · have ends : solid (blank :: body) = solid others ++ solid right := by
      rw [solid_cons_of_isSpace isSpace_blank, sets.shown, same, List.append_assoc,
        solid_append_of_black black, shown]
    have longer : solid (blank :: body) =
        solid (between ++ [('=' : UInt8)]) ++ (solid others ++ solid right) := by
      rw [back, List.append_cons, solid_append (.inl fun byte last => ?_),
        solid_append_of_black black, white.solid_append_right]
      rw [List.getLast?_concat] at last
      cases last
      rfl
    have none : White (between ++ [('=' : UInt8)]) :=
      List.append_left_eq_self.mp (longer.symm.trans ends)
    exact absurd (List.mem_append_right between (List.mem_singleton_self _))
      (none.not_mem_of_isBlack rfl)

theorem shift_of_inOnePiece {op before behind : Text} (member : op ∈ comparisons)
    (split : code = before ++ (op ++ behind)) (free : ('=' : UInt8) ∉ before)
    (whole : InOnePiece op (behind ++ comment) output) :
    op = atLeast ∧ before.getLast? = some ('>' : UInt8) := by
  obtain ⟨mark, others, rfl, noEquals, equals, single⟩ := comparison_cases member
  have noneFront : ('=' : UInt8) ∉ before ++ mark := by
    rw [List.mem_append, not_or]
    exact ⟨free, noEquals⟩
  have blackOthers : ∀ byte ∈ others, isBlack byte := fun byte inside => by
    rw [equals byte inside]
    rfl
  obtain ⟨inFront, inRest⟩ := first.eq_of_split (split.trans (by simp) :
    code = (before ++ mark) ++ ('=' : UInt8) :: (others ++ behind)) noneFront
  obtain ⟨left, right, front, back⟩ := sets.eq_of_inOnePiece
    (fun inside => first.free (List.mem_append_right head inside)) inRest blackOthers whole
  -- A blank stands behind the first equals sign, so the comparison ends with it.
  obtain rfl : others = [] := by
    cases others with
    | nil => rfl
    | cons byte others =>
        obtain rfl := equals byte (List.mem_cons_self ..)
        exact absurd (List.cons.inj back).1 (by decide)
  obtain ⟨noMark, shift⟩ := last_of_operator first.operator
  rcases single rfl with rfl | ⟨rfl, same⟩
  · exact absurd (sets.last_of_split front rfl) noMark
  · obtain rfl := shift (sets.last_of_split front rfl)
    have ends : head ++ [('>' : UInt8)] = before := by
      refine List.append_cancel_right (?_ : _ ++ [('>' : UInt8)] = _ ++ [('>' : UInt8)])
      rw [← inFront, List.append_assoc]
      rfl
    exact ⟨same, by rw [← ends, List.getLast?_concat]⟩

theorem inOnePiece_iff {op before behind : Text} (member : op ∈ comparisons)
    (split : code = before ++ (op ++ behind)) :
    InOnePiece op (behind ++ comment) output ↔
      ('=' : UInt8) ∈ before ∨ op = atLeast ∧ before.getLast? = some ('>' : UInt8) := by
  by_cases inFront : ('=' : UInt8) ∈ before
  · exact iff_of_true (inOnePiece_of_mem first sets (isRun_of_mem_comparisons member) split inFront)
      (.inl inFront)
  · rw [or_iff_right inFront]
    refine ⟨shift_of_inOnePiece first sets member split inFront, ?_⟩
    rintro ⟨rfl, last⟩
    exact inOnePiece_of_shift first sets split inFront last

end

theorem mem_of_mem_comparisons : ∀ op ∈ comparisons, ('=' : UInt8) ∈ op := by decide

/-- A comparison of a line stays in one piece exactly if an equals sign stands in front of it, or it is
the end of a shift to the right and an equals sign. -/
def ComparisonsKept (output line : Text) : Prop :=
  ∀ op ∈ comparisons, ∀ before behind, (splitComment line).1 = before ++ (op ++ behind) →
    (InOnePiece op (behind ++ (splitComment line).2) output ↔
      ('=' : UInt8) ∈ before ∨ op = atLeast ∧ before.getLast? = some ('>' : UInt8))

/-- Which comparisons stay in one piece in a block of declarations. -/
theorem declarations_comparisonsKept (options : Options) {text : Text}
    (mode : (align options text).mode = .declarations) :
    List.Forall₂ (fun output line =>
        (Grammar.declaration.classify line 0).isAligned → ComparisonsKept output line)
      (format options text).lines (sourceLines options text) := by
  refine forall₂_sourceLines mode (fun aligned => absurd aligned (by decide))
    (alignDeclarations_aligned options (align_declarations mode).1 ?_)
  intro line member source listed op isComparison before behind split
  have inCode : ('=' : UInt8) ∈ (splitComment line).1 := by
    rw [split]
    exact List.mem_append_right _ (List.mem_append_left _ (mem_of_mem_comparisons op isComparison))
  obtain ⟨head, sign, rest, first, cutAt⟩ := exists_firstEquals inCode
  obtain ⟨lead, body, sets⟩ := sets_laidOut listed (single_of_mem_lines member)
    (declarationIndent_blank _).1 first ((Declaration.cut_assignment line).trans cutAt)
  exact inOnePiece_iff first sets isComparison split

theorem declarations_comparisonsKept_mixture :
    let text := ofString "a = b == c; // d == e\x0Ad >>= e != f;\x0Ag(h >= i);"
    (align {} text).mode = .declarations ∧
      List.Forall₂ (fun output line =>
          (Grammar.declaration.classify line 0).isAligned → ComparisonsKept output line)
        (format {} text).lines (sourceLines {} text) := by
  have mode : (align {} (ofString
      "a = b == c; // d == e\x0Ad >>= e != f;\x0Ag(h >= i);")).mode = .declarations := by
    decide +kernel
  exact ⟨mode, declarations_comparisonsKept {} mode⟩

/-- The first equals sign on the line of a comparison is parted from what follows it. -/
theorem comparison_torn :
    let text := ofString "assert (a == b);"
    (align {} text).mode = .declarations ∧ sourceLines {} text = [text] ∧
      (Grammar.declaration.classify text 0).isAligned ∧ ofString "==" <:+: (splitComment text).1 ∧
      ∀ output ∈ (format {} text).lines, ¬ofString "==" <:+: output := by
  have torn : (format {} (ofString "assert (a == b);")).lines = [ofString "assert (a = = b) ;"] := by
    decide +kernel
  refine ⟨by decide +kernel, by decide +kernel, by decide +kernel, by decide +kernel, ?_⟩
  rw [torn]
  decide +kernel

end HdlAlign.Block
