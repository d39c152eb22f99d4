import HdlAlign.Proofs.Framing

/-! Aligning a port list keeps every character but white space and commas, in its place. -/

namespace HdlAlign.Text

open Utf8

def isCommaScalar (scalar : Scalar) : Bool := scalar.char == ','

def bare (text : Text) : List Scalar := (solid text).filter (!isCommaScalar ·)

@[simp] theorem bare_nil : bare [] = [] := rfl

theorem bare_of_solid_eq {new old : Text} (same : solid new = solid old) : bare new = bare old := by
  rw [bare, bare, same]

theorem bare_append {left right : Text} (seam : Seam left right) :
    bare (left ++ right) = bare left ++ bare right := by
  rw [bare, solid_append seam, List.filter_append, bare, bare]

theorem bare_unlines (pieces : List Text) : bare (unlines pieces) = pieces.flatMap bare := by
  rw [bare, solid_unlines, List.filter_flatMap]
  rfl

theorem bare_lines (text : Text) : bare text = text.lines.flatMap bare := by
  rw [← bare_unlines, unlines_lines]

theorem bare_comma : bare (ofString ",") = [] := by decide

theorem bare_trimHead_comma (text : Text) : bare (trimHead (ofString ",") text) = bare text := by
  rw [trimHead]
  cases dropped : dropHead? (ofString ",") text with
  | none => rfl
  | some rest =>
      have seam : Seam (ofString ",") rest := .inl (by decide +kernel)
      rw [Option.getD_some, dropHead?_eq_some_iff.mp dropped, bare_append seam, bare_comma,
        List.nil_append]

theorem bare_trimTail_comma (text : Text) : bare (trimTail (ofString ",") text) = bare text := by
  rw [trimTail]
  cases dropped : dropTail? (ofString ",") text with
  | none => rfl
  | some rest =>
      have seam : Seam rest (ofString ",") := .cons_right rest [] rfl
      rw [Option.getD_some, Assignment.dropTail?_eq_some_iff.mp dropped, bare_append seam,
        bare_comma, List.append_nil]

theorem isValid_iff_bare {text : Text} :
    isValid text ↔ ∀ scalar ∈ bare text, scalar.isIllFormed = false := by
  rw [isValid_iff_solid]
  constructor
  · exact fun valid scalar member => valid scalar (List.mem_filter.mp member).1
  · intro valid scalar member
    by_cases comma : isCommaScalar scalar
    · have other : scalar.char ≠ replacement := by
        intro same
        rw [isCommaScalar, same] at comma
        exact absurd comma (by decide)
      simp [Scalar.isIllFormed, other]
    · exact valid scalar (List.mem_filter.mpr ⟨member, by simpa using comma⟩)

theorem isValid_of_bare_eq {old new : Text} (same : bare new = bare old) (valid : isValid old) :
    isValid new := by
  rw [isValid_iff_bare, same]
  exact isValid_iff_bare.mp valid

end HdlAlign.Text

namespace HdlAlign.Ports

open Text Utf8 Statement.Declaration

theorem trimTail_subset (affix text : Text) : trimTail affix text ⊆ text := by
  rw [trimTail]
  cases dropped : dropTail? affix text with
  | none => exact fun _ member => member
  | some rest =>
      rw [Option.getD_some, Assignment.dropTail?_eq_some_iff.mp dropped]
      exact List.subset_append_left ..

def strippedCode (code : Text) : Text :=
  trim (trimTail comma (trim (trimHead comma (trim code))))

def spacedComment (code comment : Text) : Text :=
  if comment.isEmpty || code.isEmpty then comment else Text.blank :: comment

theorem stripSeparator_eq (line : Text) :
    stripSeparator line = indentation (splitComment line).1 ++
      (strippedCode (splitComment line).1 ++
        spacedComment (strippedCode (splitComment line).1) (splitComment line).2) := by
  have both (start code comment : Text) :
      (if comment.isEmpty then start ++ code
        else if code.isEmpty then start ++ code ++ comment
        else start ++ code ++ Text.blank :: comment) =
      start ++ (code ++ spacedComment code comment) := by
    cases comment <;> cases code <;> simp [spacedComment]
  exact both ..

theorem solid_spacedComment (code comment : Text) :
    solid (spacedComment code comment) = solid comment := by
  rw [spacedComment]
  split
  · rfl
  · exact solid_cons_of_isSpace isSpace_blank comment

theorem spacedComment_seam (left code line : Text) :
    Seam left (spacedComment code (splitComment line).2) := by
  rw [spacedComment]
  split
  · rcases splitComment_comment line with none | begins
    · rw [none]
      exact .nil_right _
    · exact seam_of_startsWith _ (by decide) (by decide +kernel) begins
  · exact .cons_right _ _ rfl

theorem bare_strippedCode (code : Text) : bare (strippedCode code) = bare code := by
  rw [strippedCode, bare_of_solid_eq (solid_trim _), comma, bare_trimTail_comma,
    bare_of_solid_eq (solid_trim _), bare_trimHead_comma, bare_of_solid_eq (solid_trim _)]

theorem strippedCode_subset (code : Text) : strippedCode code ⊆ code :=
  List.Subset.trans (trim_subset _) (List.Subset.trans (trimTail_subset ..)
    (List.Subset.trans (trim_subset _) (List.Subset.trans (trimHead_subset ..) (trim_subset _))))

theorem bare_stripSeparator (line : Text) : bare (stripSeparator line) = bare line := by
  have margin := (Block.indentation_blank (splitComment line).1).1
  rw [stripSeparator_eq, bare_of_solid_eq (margin.solid_append_left _),
    bare_append (spacedComment_seam ..), bare_strippedCode,
    bare_of_solid_eq (solid_spacedComment ..), ← bare_append (splitComment_seam line),
    splitComment_append]

theorem stripSeparator_within (line : Text) : Within (stripSeparator line) line := by
  have code : (splitComment line).1 ⊆ line := by
    conv => rhs; rw [← splitComment_append line]
    exact List.subset_append_left ..
  have comment : (splitComment line).2 ⊆ line := by
    conv => rhs; rw [← splitComment_append line]
    exact List.subset_append_right ..
  rw [stripSeparator_eq]
  refine .append (.of_subset ?_) (.append (.of_subset ?_) ?_)
  · exact List.Subset.trans (List.takeWhile_subset _) code
  · exact List.Subset.trans (strippedCode_subset _) code
  · rw [spacedComment]
    split
    · exact .of_subset comment
    · exact .cons (.inr rfl) (.of_subset comment)

end HdlAlign.Ports

namespace HdlAlign.Statement

open Pattern Text Utf8 Declaration

theorem direction_sound : Sound direction := .andThen .spaces (.andThen (.keyword _) .spaces)

theorem direction_endsInAscii : EndsInAscii direction :=
  .andThen .spaces (.andThen (.keyword _) .spaces)

theorem portType_sound : Sound portType :=
  .andThen .spaces (.andThen (.orElse (.andThen (.keyword _) (.optional sign_sound)) (.keyword _))
    .spaces)

theorem portType_endsInAscii : EndsInAscii portType :=
  .andThen .spaces (.andThen (.orElse (.andThen (.keyword _) (.optional sign_endsInAscii))
    (.keyword _)) .spaces)

namespace Port

def cut (line : Text) : Port :=
  let (code, comment) := splitComment line
  let (direction, code) := cutFront Statement.direction code
  let (type, code) := cutFront portType code
  let (vector, name) := cutFront Statement.vector code
  { direction, type, vector, name, comment }

def normal (p : Port) : Port where
  direction := normalize p.direction
  type := normalize p.type
  vector := normalize p.vector
  name := normalizeList (normalize p.name)
  comment := p.comment

def text (p : Port) : Text :=
  p.direction ++ (p.type ++ (p.vector ++ (p.name ++ p.comment)))

theorem cut_text (line : Text) : (cut line).text = line := by
  have vectorCut := (vector_sound.cutFront
    (cutFront portType (cutFront Statement.direction (splitComment line).1).2).2).symm
  have typeCut := (portType_sound.cutFront
    (cutFront Statement.direction (splitComment line).1).2).symm
  have directionCut := (direction_sound.cutFront (splitComment line).1).symm
  calc
    (cut line).text = (cut line).direction ++ ((cut line).type ++
        ((cut line).vector ++ (cut line).name)) ++ (cut line).comment := by simp [text]
    _ = (splitComment line).1 ++ (splitComment line).2 := by
      simp only [cut]
      rw [vectorCut, typeCut, directionCut]
    _ = line := splitComment_append line

theorem cut_subset (line : Text) : ∀ part ∈ (cut line).columns, part ⊆ line := by
  intro part member byte inside
  have whole : byte ∈ (cut line).text := by
    simp only [columns, List.mem_cons, List.not_mem_nil, or_false] at member
    rw [text]
    rcases member with same | same | same | same | same | same
    all_goals rw [same] at inside
    · cases inside
    all_goals simp only [List.mem_append, inside, true_or, or_true]
  rw [cut_text] at whole
  exact whole

theorem extract_eq_cut {line : Text} (single : newline ∉ line) :
    extract line = (cut line).normal := by
  have nameSingle : newline ∉ (cut line).name := fun member =>
    single (cut_subset line _ (by simp [columns]) member)
  have whole := toLineEnd_of_single nameSingle
  simp only [cut] at whole
  unfold extract
  rw [cutFirst_comment single]
  simp only [Prod.swap, cut, normal]
  rw [cutFront.eq_1 toLineEnd, whole, Option.getD_some]

theorem cut_solid_code (line : Text) :
    solid (splitComment line).1 = solid (cut line).direction ++ (solid (cut line).type ++
      (solid (cut line).vector ++ solid (cut line).name)) := by
  have seams (p : Pattern) (ends : EndsInAscii p) (sound : Sound p) (text : Text) :
      solid text = solid (p.cutFront text).1 ++ solid (p.cutFront text).2 := by
    conv => lhs; rw [sound.cutFront text]
    exact solid_append (ends.seam text _)
  rw [seams _ direction_endsInAscii direction_sound (splitComment line).1,
    seams _ portType_endsInAscii portType_sound (cutFront Statement.direction _).2,
    seams _ vector_endsInAscii vector_sound (cutFront portType _).2]
  rfl

theorem cut_solid (line : Text) :
    solid line = solid (cut line).direction ++ (solid (cut line).type ++
      (solid (cut line).vector ++ (solid (cut line).name ++ solid (cut line).comment))) := by
  conv => lhs; rw [← splitComment_append line]
  rw [solid_append (splitComment_seam line), cut_solid_code]
  simp only [cut, List.append_assoc]

theorem solid_columns {line : Text} (single : newline ∉ line) :
    ((extract line).columns.map solid).flatten = solid line := by
  rw [extract_eq_cut single, cut_solid line]
  simp [columns, normal]

theorem isValid_columns {line : Text} (valid : isValid line) (single : newline ∉ line) :
    ∀ field ∈ (extract line).columns, isValid field := by
  refine isValid_of_perm ?_ valid
  rw [solid_columns single]

theorem columns_within {line : Text} (single : newline ∉ line) :
    ∀ field ∈ (extract line).columns, Within field line := by
  intro field member
  have parts {part : Text} (listed : part ∈ (cut line).columns) : part ⊆ line :=
    cut_subset line part listed
  rw [extract_eq_cut single] at member
  simp only [columns, normal, List.mem_cons, List.not_mem_nil, or_false] at member
  rcases member with same | same | same | same | same | same
  all_goals rw [same]
  · exact .nil line
  · exact (normalize_within _).mono (parts (by simp [columns]))
  · exact (normalize_within _).mono (parts (by simp [columns]))
  · exact (normalize_within _).mono (parts (by simp [columns]))
  · exact ((normalizeList_within _).trans (normalize_within _)).mono (parts (by simp [columns]))
  · exact .of_subset (parts (by simp [columns]))

end Port

end HdlAlign.Statement

namespace HdlAlign.Line

open Text Utf8

def bare (line : Line) : List Scalar := line.fields.flatMap Text.bare

def IsValid (line : Line) : Prop := ∀ field ∈ line.fields, isValid field

def Single (line : Line) : Prop := ∀ field ∈ line.fields, newline ∉ field

theorem filter_flatten_solid (fields : List Text) :
    ((fields.map solid).flatten).filter (!isCommaScalar ·) = fields.flatMap Text.bare := by
  rw [List.filter_flatten, List.map_map]
  rfl

theorem bare_render {line : Line} (anchors : List Nat) {indent : Text} (margin : White indent)
    (valid : line.IsValid) : Text.bare (line.render anchors indent) = line.bare := by
  cases line with
  | verbatim text source => simp [render, bare, fields]
  | aligned fields source =>
      have each : ∀ field ∈ fields, isValid field := valid
      rw [Text.bare, solid_render_aligned source anchors margin each, filter_flatten_solid]
      rfl

theorem single_render {line : Line} (anchors : List Nat) {indent : Text}
    (margin : newline ∉ indent) (single : line.Single) : newline ∉ line.render anchors indent :=
  (Alike.refl line).single_render anchors margin single

theorem Alike.bare_eq {new old : Line} (alike : Alike new old) : new.bare = old.bare := by
  cases alike with
  | verbatim text source => rfl
  | aligned source moved =>
      rw [bare, bare, fields, fields, ← filter_flatten_solid, map_solid_of_moved moved,
        filter_flatten_solid]

theorem Alike.isValid {new old : Line} (alike : Alike new old) (valid : old.IsValid) :
    new.IsValid := by
  cases alike with
  | verbatim text source => exact valid
  | aligned source moved =>
      intro field member
      obtain ⟨other, listed, kept⟩ := exists_of_forall₂_left moved member
      exact isValid_of_solid_eq kept.solid (valid other listed)

theorem Alike.single {new old : Line} (alike : Alike new old) (single : old.Single) :
    new.Single := by
  cases alike with
  | verbatim text source => exact single
  | aligned source moved =>
      intro field member
      obtain ⟨other, listed, kept⟩ := exists_of_forall₂_left moved member
      exact kept.within.not_mem (by decide) (single other listed)

/-- Nothing but white space and commas was added to a line or taken from it. -/
structure Kept (new old : Line) : Prop where
  bare : new.bare = old.bare
  valid : old.IsValid → new.IsValid
  single : old.Single → new.Single

theorem Kept.refl (line : Line) : Kept line line := ⟨rfl, id, id⟩

theorem Kept.trans {first second third : Line} (h : Kept first second) (h' : Kept second third) :
    Kept first third :=
  ⟨h.bare.trans h'.bare, h.valid ∘ h'.valid, h.single ∘ h'.single⟩

theorem forall₂_kept_trans {first second third : List Line}
    (h : List.Forall₂ Kept first second) (h' : List.Forall₂ Kept second third) :
    List.Forall₂ Kept first third := by
  induction h generalizing third with
  | nil => exact h'
  | cons head tail ih =>
      cases h' with
      | cons head' tail' => exact .cons (head.trans head') (ih tail')

theorem Alike.kept {new old : Line} (alike : Alike new old) : Kept new old :=
  ⟨alike.bare_eq, alike.isValid, alike.single⟩

theorem flatMap_set {α : Type} (f : Text → List α) {fields : List Text} {column : Nat}
    {value : Text} (same : f value = f (fields.getD column [])) :
    (fields.set column value).flatMap f = fields.flatMap f := by
  induction fields generalizing column with
  | nil => rfl
  | cons field fields ih =>
      cases column with
      | zero => simpa using same
      | succ column => simpa using ih same

theorem forall_set {P : Text → Prop} {fields : List Text} {column : Nat} {value : Text}
    (all : ∀ field ∈ fields, P field) (new : P value) : ∀ field ∈ fields.set column value, P field :=
  fun field member => (List.mem_or_eq_of_mem_set member).elim (all field) (fun same => same ▸ new)

theorem field_of_forall {P : Text → Prop} (empty : P []) {fields : List Text}
    (all : ∀ field ∈ fields, P field) (column : Nat) : P (fields.getD column []) := by
  rw [List.getD_eq_getElem?_getD]
  cases found : fields[column]? with
  | none => exact empty
  | some field => exact all field (List.mem_of_getElem? found)

theorem kept_withField {line : Line} {column : Nat} {value : Text}
    (same : Text.bare value = Text.bare (line.field column))
    (single : newline ∉ line.field column → newline ∉ value) :
    Kept (line.withField column value) line := by
  cases line with
  | verbatim text source => exact .refl _
  | aligned fields source =>
      refine ⟨flatMap_set Text.bare same, fun valid => ?_, fun each => ?_⟩
      · exact forall_set valid (isValid_of_bare_eq same
          (field_of_forall (P := fun field => isValid field = true) rfl valid column))
      · exact forall_set (P := fun field => newline ∉ field) each
          (single (field_of_forall (P := fun field => newline ∉ field) List.not_mem_nil each column))

end HdlAlign.Line

namespace HdlAlign.Ports

open Text

theorem commaBehind_kept (line : Line) :
    (line.withField nameColumn (line.field nameColumn ++ comma)).Kept line := by
  refine Line.kept_withField ?_ fun single member => ?_
  · have seam : Utf8.Seam (line.field nameColumn) (ofString ",") := .cons_right _ [] rfl
    rw [comma, bare_append seam, bare_comma, List.append_nil]
  · rcases List.mem_append.mp member with inside | inside
    · exact single inside
    · exact absurd inside (by decide)

theorem commaBefore_kept {line : Line} (free : line.field separatorColumn = []) :
    (line.withField separatorColumn comma).Kept line := by
  refine Line.kept_withField ?_ fun _ => by decide
  rw [free, comma, bare_comma, bare_nil]

theorem commasBehind_kept (lines : List Line) :
    List.Forall₂ Line.Kept (commasBehind lines) lines := by
  induction lines with
  | nil => exact .nil
  | cons line rest ih =>
      refine .cons ?_ ih
      split
      · exact commaBehind_kept line
      · exact .refl line

theorem commasBefore_kept (portSeen : Bool) {lines : List Line}
    (free : ∀ line ∈ lines, line.field separatorColumn = []) :
    List.Forall₂ Line.Kept (commasBefore portSeen lines) lines := by
  induction lines generalizing portSeen with
  | nil => exact .nil
  | cons line rest ih =>
      refine .cons ?_ (ih _ fun other member => free other (by simp [member]))
      split
      · exact commaBefore_kept (free line (by simp))
      · exact .refl line

theorem placeCommas_kept (endOfLine : Bool) {lines : List Line}
    (free : ∀ line ∈ lines, line.field separatorColumn = []) :
    List.Forall₂ Line.Kept (placeCommas endOfLine lines) lines := by
  rw [placeCommas]
  split
  · exact commasBehind_kept lines
  · exact commasBefore_kept false free

end HdlAlign.Ports

namespace HdlAlign.Block

open Text Utf8 Statement

theorem classifyPort_cases (index : Nat) (line : Text) :
    (isBlank (Ports.stripSeparator line) ∧ classifyPort index line = .verbatim [] index) ∨
    (isBlank (Ports.stripSeparator line) = false ∧
      Grammar.port.isStatement (splitComment (Ports.stripSeparator line)).1 ∧
      classifyPort index line = .aligned (Port.extract (Ports.stripSeparator line)).columns index) ∨
    (isBlank (Ports.stripSeparator line) = false ∧
      Grammar.port.isStatement (splitComment (Ports.stripSeparator line)).1 = false ∧
      classifyPort index line = .verbatim line index) := by
  unfold classifyPort Grammar.classify
  generalize Ports.stripSeparator line = stripped
  cases blank : isBlank stripped with
  | true => exact .inl ⟨rfl, rfl⟩
  | false =>
      cases statement : Grammar.port.isStatement (splitComment stripped).1 with
      | true => exact .inr (.inl ⟨rfl, rfl, rfl⟩)
      | false =>
          refine .inr (.inr ⟨rfl, rfl, ?_⟩)
          cases stripped with
          | nil => cases blank
          | cons byte rest => rfl

theorem keptLines_bare (condense : Bool) (text : Text) :
    (keptLines condense text).flatMap bare = text.lines.flatMap bare := by
  rw [keptLines]
  induction text.lines with
  | nil => rfl
  | cons line lines ih =>
      rw [List.filter_cons, List.flatMap_cons]
      split
      · rw [List.flatMap_cons, ih]
      · next dropped =>
          have blank : isBlank line := by
            simp only [Bool.not_eq_true, Bool.not_eq_false', Bool.and_eq_true] at dropped
            exact dropped.2
          rw [ih, bare, solid_eq_nil_of_isBlank blank]
          rfl

theorem stripSeparator_single {line : Text} (single : newline ∉ line) :
    newline ∉ Ports.stripSeparator line :=
  (Ports.stripSeparator_within line).not_mem (by decide) single

theorem classifyPort_bare (index : Nat) {line : Text} (single : newline ∉ line) :
    (classifyPort index line).bare = bare line := by
  rcases classifyPort_cases index line with ⟨blank, read⟩ | ⟨-, -, read⟩ | ⟨-, -, read⟩
  · rw [read, ← Ports.bare_stripSeparator, bare, solid_eq_nil_of_isBlank blank]
    rfl
  · rw [read, Line.bare, Line.fields, ← Line.filter_flatten_solid,
      Port.solid_columns (stripSeparator_single single), ← Ports.bare_stripSeparator]
    rfl
  · rw [read]
    simp [Line.bare, Line.fields]

theorem classifyPort_isValid (index : Nat) {line : Text} (single : newline ∉ line)
    (valid : isValid line) : (classifyPort index line).IsValid := by
  rcases classifyPort_cases index line with ⟨-, read⟩ | ⟨-, -, read⟩ | ⟨-, -, read⟩
  · rw [read]
    simp [Line.IsValid, Line.fields]
    rfl
  · rw [read]
    exact Port.isValid_columns (isValid_of_bare_eq (Ports.bare_stripSeparator line) valid)
      (stripSeparator_single single)
  · rw [read]
    simpa [Line.IsValid, Line.fields] using valid

theorem classifyPort_single (index : Nat) {line : Text} (single : newline ∉ line) :
    (classifyPort index line).Single := by
  rcases classifyPort_cases index line with ⟨-, read⟩ | ⟨-, -, read⟩ | ⟨-, -, read⟩
  · rw [read]
    simp [Line.Single, Line.fields]
  · rw [read]
    intro field member
    exact (Port.columns_within (stripSeparator_single single) field member).not_mem (by decide)
      (stripSeparator_single single)
  · rw [read]
    simpa [Line.Single, Line.fields] using single

theorem classifyPort_separator (index : Nat) (line : Text) :
    (classifyPort index line).field Ports.separatorColumn = [] := by
  rcases classifyPort_cases index line with ⟨-, read⟩ | ⟨-, -, read⟩ | ⟨-, -, read⟩
  all_goals
    rw [read]
    rfl

theorem trimEmptyLines_bare (lines : List Line) :
    (trimEmptyLines lines).flatMap Line.bare = lines.flatMap Line.bare := by
  have dropped (lines : List Line) :
      (lines.takeWhile Line.isEmptyLine).flatMap Line.bare = [] := by
    rw [List.flatMap_eq_nil_iff]
    intro line member
    have empty := List.mem_takeWhile_imp member
    cases line with
    | aligned fields source => cases empty
    | verbatim text source => simp [Line.bare, Line.fields, List.isEmpty_iff.mp empty]
  have front (lines : List Line) :
      (lines.dropWhile Line.isEmptyLine).flatMap Line.bare = lines.flatMap Line.bare := by
    conv => rhs; rw [← List.takeWhile_append_dropWhile (p := Line.isEmptyLine) (l := lines)]
    rw [List.flatMap_append, dropped, List.nil_append]
  have back (lines : List Line) :
      (lines.reverse.dropWhile Line.isEmptyLine).reverse.flatMap Line.bare =
        lines.flatMap Line.bare := by
    have whole := List.takeWhile_append_dropWhile (p := Line.isEmptyLine) (l := lines.reverse)
    have split : lines = (lines.reverse.dropWhile Line.isEmptyLine).reverse ++
        (lines.reverse.takeWhile Line.isEmptyLine).reverse := by
      rw [← List.reverse_append, whole, List.reverse_reverse]
    have tail : (lines.reverse.takeWhile Line.isEmptyLine).reverse.flatMap Line.bare = [] := by
      rw [List.flatMap_eq_nil_iff]
      intro line member
      exact List.flatMap_eq_nil_iff.mp (dropped lines.reverse) line (List.mem_reverse.mp member)
    conv => rhs; rw [split, List.flatMap_append, tail, List.append_nil]
  rw [trimEmptyLines, back, front]

theorem trimEmptyLines_subset (lines : List Line) : trimEmptyLines lines ⊆ lines := by
  intro line member
  have back := List.mem_reverse.mp member
  have front := List.mem_reverse.mp ((List.dropWhile_subset _) back)
  exact (List.dropWhile_subset _) front

def laidOutPorts (options : Options) (frame : Frame) : List Line :=
  Ports.placeCommas options.endOfLine
    (Range.alignColumn Port.vectorColumn (portLines options frame))

theorem mem_portLines {options : Options} {frame : Frame} {line : Line}
    (member : line ∈ portLines options frame) :
    ∃ index text, text ∈ frame.list.lines ∧ line = classifyPort index text := by
  obtain ⟨entry, listed, rfl⟩ := List.mem_map.mp (trimEmptyLines_subset _ member)
  exact ⟨entry.1, entry.2, mem_lines_of_numbered listed, rfl⟩

theorem portLines_separator (options : Options) (frame : Frame) :
    ∀ line ∈ Range.alignColumn Port.vectorColumn (portLines options frame),
      line.field Ports.separatorColumn = [] := by
  intro line member
  obtain ⟨old, listed, rfl⟩ := List.mem_map.mp member
  obtain ⟨index, text, -, rfl⟩ := mem_portLines listed
  rw [Range.field_layoutLine (by decide), classifyPort_separator]

theorem laidOutPorts_kept (options : Options) (frame : Frame) :
    List.Forall₂ Line.Kept (laidOutPorts options frame) (portLines options frame) := by
  have vectors : List.Forall₂ Line.Kept
      (Range.alignColumn Port.vectorColumn (portLines options frame))
      (portLines options frame) := by
    rw [Range.alignColumn, List.forall₂_map_left_iff, List.forall₂_same]
    exact fun line member => (Range.layoutLine_alike _ member).kept
  exact Line.forall₂_kept_trans (Ports.placeCommas_kept _ (portLines_separator options frame)) vectors

theorem portLines_bare (options : Options) (frame : Frame) :
    (portLines options frame).flatMap Line.bare = bare frame.body := by
  have each : ∀ entry ∈ numbered options.condense frame.firstLine frame.list,
      (classifyPort entry.1 entry.2).bare = bare entry.2 := fun entry member =>
    classifyPort_bare _ (single_of_mem_lines (mem_lines_of_numbered member))
  calc
    (portLines options frame).flatMap Line.bare =
        (numbered options.condense frame.firstLine frame.list).flatMap fun entry =>
          (classifyPort entry.1 entry.2).bare := by
      rw [portLines, trimEmptyLines_bare, List.flatMap_map]
    _ = ((numbered options.condense frame.firstLine frame.list).map Prod.snd).flatMap bare := by
      rw [List.flatMap_map]
      exact List.flatMap_congr each
    _ = frame.list.lines.flatMap bare := by
      rw [numbered_lines, keptLines_bare]
    _ = bare frame.body := by
      rw [← bare_lines]
      exact bare_of_solid_eq (solid_list frame)

theorem forall₂_kept_flatMap {new old : List Line} (kept : List.Forall₂ Line.Kept new old) :
    new.flatMap Line.bare = old.flatMap Line.bare := by
  induction kept with
  | nil => rfl
  | cons first _ ih => rw [List.flatMap_cons, List.flatMap_cons, first.bare, ih]

theorem bare_frame {text : Text} {frame : Frame} (found : frame? text = some frame) :
    bare text = bare frame.header ++ (bare frame.body ++ bare frame.footer) := by
  rw [bare, solid_frame found, List.filter_append, List.filter_append]
  rfl

theorem isValid_list {text : Text} {frame : Frame} (found : frame? text = some frame)
    (valid : isValid text) : isValid frame.list := by
  rw [isValid_iff_solid] at valid ⊢
  intro scalar member
  refine valid scalar ?_
  rw [solid_list] at member
  rw [solid_frame found]
  simp [member]

def portParts (options : Options) (frame : Frame) : List Text :=
  let lines := laidOutPorts options frame
  let list := unlines (lines.map fun line => line.render (Batch.anchors lines) portIndent)
  [frame.header] ++ (if lines.isEmpty then [] else [list]) ++
    (if frame.footer.isEmpty then [] else [frame.footer])

theorem alignPorts_text (options : Options) (frame : Frame) :
    (alignPorts options frame).text = unlines (portParts options frame) := rfl

theorem portIndent_white : White portIndent := (by decide : solid portIndent = [])

theorem alignPorts_bare (options : Options) {text : Text} {frame : Frame}
    (found : frame? text = some frame) (valid : isValid text) :
    bare (alignPorts options frame).text = bare text := by
  have kept := laidOutPorts_kept options frame
  have list : bare (unlines ((laidOutPorts options frame).map fun line =>
      line.render (Batch.anchors (laidOutPorts options frame)) portIndent)) = bare frame.body := by
    rw [bare_unlines, List.flatMap_map, ← portLines_bare options, ← forall₂_kept_flatMap kept]
    refine List.flatMap_congr fun line member => ?_
    obtain ⟨old, listed, same⟩ := Line.exists_of_forall₂_left kept member
    obtain ⟨index, source, inList, rfl⟩ := mem_portLines listed
    exact Line.bare_render _ portIndent_white (same.valid (classifyPort_isValid index
      (single_of_mem_lines inList) (isValid_of_mem_lines (isValid_list found valid) inList)))
  have body : (if (laidOutPorts options frame).isEmpty then [] else
      [unlines ((laidOutPorts options frame).map fun line =>
        line.render (Batch.anchors (laidOutPorts options frame)) portIndent)]).flatMap bare =
      bare frame.body := by
    split
    · next none => rw [← list, List.isEmpty_iff.mp none]; rfl
    · simp [list]
  have footer : (if frame.footer.isEmpty then [] else [frame.footer]).flatMap bare =
      bare frame.footer := by
    split
    · next none => rw [List.isEmpty_iff.mp none]; rfl
    · simp
  rw [alignPorts_text, bare_unlines, portParts]
  simp only [List.flatMap_append, body, footer]
  rw [bare_frame found, List.flatMap_singleton, List.append_assoc]

end HdlAlign.Block
