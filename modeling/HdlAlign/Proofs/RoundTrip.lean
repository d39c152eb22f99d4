import HdlAlign.Proofs.DeclarationRereading
import HdlAlign.Proofs.PortRereading

/-! Classifying a rendered statement finds its fields again. -/

namespace HdlAlign.Text

theorem isPrefix_dropWhile {left text : Text} (p : UInt8 → Bool) (begins : left <+: text) :
    left.dropWhile p <+: text.dropWhile p := by
  obtain ⟨rest, rfl⟩ := begins
  rw [List.dropWhile_append]
  split
  · next none =>
      rw [List.isEmpty_iff.mp none]
      exact List.nil_prefix
  · exact ⟨rest, rfl⟩

theorem map_normalize {fields : List Text} (tidy : ∀ field ∈ fields, Tidy field) :
    fields.map normalize = fields := by
  have fixed : ∀ field ∈ fields, normalize field = id field := fun field member =>
    (Laid.alone field).normalize_single (tidy field member)
  rw [List.map_congr_left fixed, List.map_id]

theorem map_trimSpaces {fields : List Text} (bounds : ∀ field ∈ fields, Starts field ∧ Ends field) :
    fields.map trimSpaces = fields := by
  have fixed : ∀ field ∈ fields, trimSpaces field = id field := fun field member => by
    obtain ⟨starts, ends⟩ := bounds field member
    simpa using trimSpaces_append starts ends .nil
  rw [List.map_congr_left fixed, List.map_id]

end HdlAlign.Text

namespace HdlAlign.Line

open Text Batch

theorem padded_append_zeros (fields : List Text) (anchors : List Nat) (n : Nat) :
    padded fields (anchors ++ List.replicate n 0) = padded fields anchors := by
  have padRight_zero (field : Text) : field.padRight 0 = field := by
    rw [padRight, Nat.zero_sub]
    exact List.append_nil field
  induction fields generalizing anchors n with
  | nil => rfl
  | cons field fields ih =>
      cases anchors with
      | nil =>
          cases n with
          | zero => rfl
          | succ n =>
              rw [List.nil_append, List.replicate_succ, padded, padded, padRight_zero]
              exact congrArg _ (ih [] n)
      | cons anchor anchors =>
          rw [List.cons_append, padded, padded, ih]

theorem roomy_append_zeros {fields : List Text} {anchors : List Nat} {n : Nat}
    (room : ∀ column, fields.getD column [] ≠ [] →
      (fields.getD column []).width + 1 ≤ anchors.getD column 0)
    (enough : fields.length ≤ n) : Roomy fields (anchors ++ List.replicate n 0) := by
  induction fields generalizing anchors n with
  | nil => trivial
  | cons field fields ih =>
      have here (wide : field.width ≠ 0) : field.width < anchors.getD 0 0 :=
        room 0 fun empty => wide (by rw [show field = [] from empty]; rfl)
      have shorter : fields.length ≤ n := Nat.le_of_succ_le enough
      cases anchors with
      | nil =>
          obtain ⟨m, rfl⟩ := Nat.exists_eq_add_of_lt (Nat.lt_of_lt_of_le (Nat.succ_pos _) enough)
          rw [List.nil_append, Nat.zero_add, List.replicate_succ]
          have behind : Roomy fields ([] ++ List.replicate m 0) :=
            ih (fun column => room (column + 1)) (Nat.le_of_succ_le_succ (by simpa using enough))
          exact ⟨here, behind⟩
      | cons anchor anchors => exact ⟨here, ih (fun column => room (column + 1)) shorter⟩

theorem plain_renderedCode {front : List Text} {anchors : List Nat} {indent : Text}
    (plain : ∀ field ∈ front, Plain field) (margin : ∀ byte ∈ indent, isIndent byte)
    (comment : Text) :
    Plain ((renderedCode front comment anchors indent).dropWhile isSpace) := by
  have spaces : Spaces indent := fun byte member => isSpace_of_isIndent (margin byte member)
  have whole : Plain ((indent ++ padded front anchors).dropWhile isSpace) := by
    rw [spaces.dropWhile_append]
    intro byte member
    rcases padded_subset front anchors (List.dropWhile_subset _ member) with rfl | ⟨field, listed, inside⟩
    · rfl
    · exact plain field listed byte inside
  rw [renderedCode]
  split
  · exact whole.subset (isPrefix_dropWhile isSpace (dropTailWhile_isPrefix _ _)).subset
  · exact whole

end HdlAlign.Line

namespace HdlAlign.Grammar

open Text Statement

theorem classify_eq_aligned_iff {grammar : Grammar} {line : Text} {fields : List Text}
    {source : Int} :
    grammar.classify line source = .aligned fields source ↔
      grammar.isStatement (splitComment line).1 ∧ grammar.layout line = fields := by
  have visible (blank : isBlank line) : grammar.isStatement (splitComment line).1 = false := by
    have whole := solid_append (Declaration.splitComment_seam line)
    rw [Declaration.splitComment_append, isBlank_iff_white.mp blank, eq_comm,
      List.append_eq_nil_iff] at whole
    have code : trim (splitComment line).1 = [] :=
      List.isEmpty_iff.mp (isBlank_iff_white.mpr whole.1)
    cases grammar <;> rw [isStatement, code] <;> rfl
  unfold classify
  split
  · next blank => simp [visible blank]
  · split
    · next statement => simp [statement]
    · next other => simp [other]

theorem render_reread {front : List Text} {comment : Text} {anchors : List Nat} {indent : Text}
    (tidy : ∀ field ∈ front, Tidy field) (calm : ∀ field ∈ front, Calm field)
    (plainComment : Plain comment)
    (begins : comment = [] ∨ comment.startsWith (ofString "//"))
    (roomy : Batch.Roomy (front ++ [comment]) anchors)
    (margin : ∀ byte ∈ indent, isIndent byte) (source : Int) :
    newline ∉ (Line.aligned (front ++ [comment]) source).render anchors indent ∧
      ∃ code, splitComment ((Line.aligned (front ++ [comment]) source).render anchors indent) =
          (code, dropTailWhile isIndent comment) ∧
        Laid front code ∧ Plain (code.dropWhile isSpace) := by
  have plain (field : Text) (member : field ∈ front) : Plain field := (tidy field member).plain
  constructor
  · have single {field : Text} (plain : Plain field) : newline ∉ field := fun member =>
      absurd (plain newline member) (by decide)
    refine Line.single_render_aligned source anchors
      (fun member => absurd (margin newline member) (by decide)) fun field member => ?_
    rcases List.mem_append.mp member with inside | inside
    · exact single (plain field inside)
    · exact single (List.mem_singleton.mp inside ▸ plainComment)
  · refine ⟨_, Line.splitComment_render roomy calm begins margin source, ?_, ?_⟩
    · have laid := Line.laid_renderedCode roomy.append.1 plain comment margin
      rwa [map_trimSpaces fun field member => ⟨(tidy field member).starts, (tidy field member).ends⟩]
        at laid
    · exact Line.plain_renderedCode plain margin comment

def commentColumn : Nat := 5

def codeColumns : Grammar → Text → List Text
  | declaration, code => Declaration.codeColumns code
  | port, code => Port.codeColumns code

theorem length_codeColumns (grammar : Grammar) (code : Text) :
    (grammar.codeColumns code).length = commentColumn := by
  cases grammar <;> rfl

theorem layout_eq {grammar : Grammar} {line : Text} (single : newline ∉ line) :
    grammar.layout line = grammar.codeColumns (splitComment line).1 ++ [(splitComment line).2] := by
  cases grammar with
  | declaration => exact Declaration.columns_eq single
  | port => exact Port.columns_eq single

theorem tidy_codeColumns {grammar : Grammar} {code : Text} (plain : Plain code) :
    ∀ field ∈ grammar.codeColumns code, Tidy field := by
  cases grammar with
  | declaration => exact Declaration.tidy_codeColumns plain
  | port => exact Port.tidy_codeColumns plain

def Bare : Grammar → Text → Prop
  | declaration, line => Spaces (Declaration.cut line).behind
  | port, _ => True

theorem calm_codeColumns {grammar : Grammar} {line : Text} (single : newline ∉ line)
    (bare : grammar.Bare line) : ∀ field ∈ grammar.codeColumns (splitComment line).1, Calm field := by
  cases grammar with
  | declaration =>
      exact Declaration.calm_codeColumns (calm_splitComment line) (Declaration.codeBare_of_cut bare)
  | port =>
      have whole : [[], (Port.extract line).direction, (Port.extract line).type,
          (Port.extract line).vector, (Port.extract line).name] ++ [(Port.extract line).comment] =
          Port.codeColumns (splitComment line).1 ++ [(splitComment line).2] := Port.columns_eq single
      have columns := List.append_inj_left' whole rfl
      obtain ⟨direction, type, vector, name⟩ := Port.calm_columns single
      rw [codeColumns, ← columns]
      simp only [List.forall_mem_cons, List.not_mem_nil, false_implies, implies_true, and_true]
      exact ⟨.nil, direction, type, vector, name⟩

theorem plain_splitComment {line : Text} (plain : Plain line) :
    Plain (splitComment line).1 ∧ Plain (splitComment line).2 := by
  rw [← Declaration.splitComment_append line] at plain
  exact ⟨plain.subset (List.subset_append_left _ _), plain.subset (List.subset_append_right _ _)⟩

/-- A name that the statement loses when it is printed: it is a port, and its type was cut out of the
name. -/
def Loses (grammar : Grammar) (fields : List Text) : Prop :=
  grammar = port ∧ Port.Severed fields

instance (grammar : Grammar) (fields : List Text) : Decidable (grammar.Loses fields) :=
  inferInstanceAs (Decidable (_ ∧ _))

theorem loses_append (grammar : Grammar) {front : List Text} (length : front.length = commentColumn)
    (comment : Text) : grammar.Loses (front ++ [comment]) ↔ grammar.Loses front := by
  have same {column : Nat} (inside : column < commentColumn) :
      (front ++ [comment]).getD column [] = front.getD column [] :=
    List.getD_append _ _ _ _ (length ▸ inside)
  rw [Loses, Loses, Port.Severed, Port.Severed, same (by decide), same (by decide),
    same (by decide)]

theorem reread {grammar : Grammar} {line code : Text} (plain : Plain line) (bare : grammar.Bare line)
    (laid : Laid (grammar.codeColumns (splitComment line).1) code)
    (plainCode : Plain (code.dropWhile isSpace))
    (statement : grammar.isStatement (splitComment line).1) :
    grammar.codeColumns code = grammar.codeColumns (splitComment line).1 ∧
      (grammar.isStatement code ↔ ¬ grammar.Loses (grammar.codeColumns (splitComment line).1)) := by
  obtain ⟨plainOld, -⟩ := plain_splitComment plain
  rw [← map_normalize (tidy_codeColumns plainOld)]
  cases grammar with
  | declaration =>
      have cutBare := Declaration.codeBare_of_cut bare
      refine ⟨(Declaration.code_reread plainOld cutBare (.refl plainOld) laid).2,
        iff_of_true ?_ fun loses => ?_⟩
      · exact Declaration.isStatement_reread plainOld cutBare (.refl plainOld) laid plainCode
          statement
      · cases loses.1
  | port =>
      have same := map_normalize (Port.tidy_codeColumns plainOld)
      refine ⟨(Port.code_reread plainOld (.refl plainOld) laid).2, ?_⟩
      rw [Loses, isStatement,
        Port.isStatement_reread_iff plainOld (.refl plainOld) laid plainCode statement]
      simp [codeColumns, same]

/-- Classifying a rendered statement finds its fields again, without the blanks at the end of the
comment, unless it is a port that loses a name. -/
theorem classify_render_iff {grammar : Grammar} {line : Text} {fields : List Text}
    {source other : Int} {anchors : List Nat} {indent : Text} (plain : Plain line)
    (read : grammar.classify line source = .aligned fields source) (bare : grammar.Bare line)
    (room : ∀ column, fields.getD column [] ≠ [] →
      (fields.getD column []).width + 1 ≤ anchors.getD column 0)
    (margin : ∀ byte ∈ indent, isIndent byte) :
    grammar.classify ((Line.aligned fields source).render anchors indent) other =
        .aligned (fields.set commentColumn
          (dropTailWhile isIndent (fields.getD commentColumn []))) other ↔
      ¬ grammar.Loses fields := by
  obtain ⟨statement, rfl⟩ := classify_eq_aligned_iff.mp read
  have single : newline ∉ line := fun member => absurd (plain newline member) (by decide)
  obtain ⟨plainOld, plainComment⟩ := plain_splitComment plain
  have roomy := Line.roomy_append_zeros room (Nat.le_refl _)
  rw [Line.render_aligned, ← Line.padded_append_zeros _ _ (grammar.layout line).length,
    ← Line.render_aligned _ source]
  rw [layout_eq single] at roomy ⊢
  have tidy : ∀ field ∈ grammar.codeColumns (splitComment line).1, Tidy field :=
    tidy_codeColumns plainOld
  obtain ⟨printedSingle, code, split, laid, plainCode⟩ := render_reread tidy
    (calm_codeColumns single bare) plainComment (Declaration.splitComment_comment line) roomy margin
    source
  obtain ⟨columns, statementAgain⟩ := reread plain bare laid plainCode statement
  have length := length_codeColumns grammar (splitComment line).1
  have last (new : Text) : (grammar.codeColumns (splitComment line).1 ++
      [(splitComment line).2]).set commentColumn new =
        grammar.codeColumns (splitComment line).1 ++ [new] := by
    rw [List.set_append_right _ _ (Nat.le_of_eq length), length, Nat.sub_self]
    rfl
  have comment : (grammar.codeColumns (splitComment line).1 ++
      [(splitComment line).2]).getD commentColumn [] = (splitComment line).2 := by
    rw [← length, List.getD_append_right _ _ _ _ (Nat.le_refl _), Nat.sub_self]
    rfl
  have loses := grammar.loses_append length (splitComment line).2
  rw [classify_eq_aligned_iff, layout_eq printedSingle, split, columns, last, comment, loses,
    statementAgain]
  exact and_iff_left rfl

theorem classify_render_iff_port :
    Plain (ofString "output reg  signed[7:0]a ,b // bus ") ∧
      port.classify (ofString "output reg  signed[7:0]a ,b // bus ") 0 = .aligned
        (Text.literals ["", "output", "reg signed", "[7:0]", "a, b", "// bus "]) 0 ∧
      port.classify ((Line.aligned (Text.literals
          ["", "output", "reg signed", "[7:0]", "a, b", "// bus "]) 0).render
            [0, 7, 11, 6, 8, 8] (blanks 2)) 4 =
        .aligned (Text.literals ["", "output", "reg signed", "[7:0]", "a, b", "// bus"]) 4 := by
  have plain : Plain (ofString "output reg  signed[7:0]a ,b // bus ") := by decide +kernel
  have read : port.classify (ofString "output reg  signed[7:0]a ,b // bus ") 0 = .aligned
      (Text.literals ["", "output", "reg signed", "[7:0]", "a, b", "// bus "]) 0 := by
    decide +kernel
  have room : ∀ column < 6,
      (Text.literals ["", "output", "reg signed", "[7:0]", "a, b", "// bus "]).getD column [] ≠ [] →
      ((Text.literals ["", "output", "reg signed", "[7:0]", "a, b", "// bus "]).getD
        column []).width + 1 ≤ [0, 7, 11, 6, 8, 8].getD column 0 := by decide +kernel
  have roomy (column : Nat) (some : (Text.literals
      ["", "output", "reg signed", "[7:0]", "a, b", "// bus "]).getD column [] ≠ []) :=
    room column (by
      by_contra beyond
      exact some (List.getD_eq_default _ _ (Nat.le_of_not_lt beyond))) some
  have margin : ∀ byte ∈ blanks 2, isIndent byte := by decide +kernel
  exact ⟨plain, read, ((classify_render_iff plain read trivial roomy margin).mpr
    (by decide +kernel)).trans (by decide +kernel)⟩

/-- A type word cut out of the front of a name makes the rendered port no port. -/
theorem severed_name_lost :
    Plain (ofString "reg$a") ∧
      port.classify (ofString "reg$a") 0 =
        .aligned [[], [], ofString "reg", [], ofString "$a", []] 0 ∧
      (Line.aligned [[], [], ofString "reg", [], ofString "$a", []] 0).render [0, 0, 4, 0, 3] [] =
        ofString "reg $a" ∧
      port.classify ((Line.aligned [[], [], ofString "reg", [], ofString "$a", []] 0).render
        [0, 0, 4, 0, 3] []) 0 = .verbatim (ofString "reg $a") 0 := by
  decide +kernel

end HdlAlign.Grammar
