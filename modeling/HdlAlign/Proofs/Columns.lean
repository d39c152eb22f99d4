import HdlAlign.Assignment.Column
import HdlAlign.Layout.Batch
import HdlAlign.Proofs.Comments
import HdlAlign.Range.Column

/-! The passes over the columns of a batch, and the rendering of its lines, move white space only. -/

namespace HdlAlign.Text
open Utf8

theorem White.of_isSpace {text : Text} (spaces : ∀ byte ∈ text, isSpace byte) : White text := by
  induction text with
  | nil => rfl
  | cons byte text ih =>
      exact (solid_cons_of_isSpace (spaces byte (by simp)) text).trans
        (ih fun b member => spaces b (by simp [member]))

theorem dropTailWhile_split (p : UInt8 → Bool) (text : Text) :
    ∃ tail, (∀ byte ∈ tail, p byte) ∧ text = dropTailWhile p text ++ tail := by
  refine ⟨(text.reverse.takeWhile p).reverse, ?_, ?_⟩
  · intro byte member
    exact List.mem_takeWhile_imp (List.mem_reverse.mp member)
  · rw [dropTailWhile, ← List.reverse_append, List.takeWhile_append_dropWhile, List.reverse_reverse]

theorem dropTailWhile_subset (p : UInt8 → Bool) (text : Text) : dropTailWhile p text ⊆ text := by
  obtain ⟨tail, -, split⟩ := dropTailWhile_split p text
  exact fun byte member => split ▸ List.mem_append_left tail member

@[simp] theorem solid_trimSpaces (text : Text) : solid (trimSpaces text) = solid text := by
  obtain ⟨tail, spaces, split⟩ := dropTailWhile_split isSpace (text.dropWhile isSpace)
  have front : White (text.takeWhile isSpace) :=
    .of_isSpace fun byte member => List.mem_takeWhile_imp member
  calc
    solid (trimSpaces text) = solid (trimSpaces text ++ tail) :=
      ((White.of_isSpace spaces).solid_append_right _).symm
    _ = solid (text.takeWhile isSpace ++ text.dropWhile isSpace) := by
      rw [front.solid_append_left, trimSpaces, ← split]
    _ = solid text := by rw [List.takeWhile_append_dropWhile]

@[simp] theorem solid_padLeft (text : Text) (columns : Nat) :
    solid (text.padLeft columns) = solid text :=
  (White.blanks _).solid_append_left text

@[simp] theorem solid_padRight (text : Text) (columns : Nat) :
    solid (text.padRight columns) = solid text :=
  (White.blanks _).solid_append_right text

theorem padLeft_within (text : Text) (columns : Nat) : Within (text.padLeft columns) text :=
  (blanks_within _ text).append (.refl text)

theorem padRight_within (text : Text) (columns : Nat) : Within (text.padRight columns) text :=
  (Within.refl text).append (blanks_within _ text)

/-- White space was moved, and nothing else. -/
structure Moved (new old : Text) : Prop where
  solid : solid new = solid old
  within : Within new old
  calm : Calm old → Calm new

theorem Moved.refl (text : Text) : Moved text text := ⟨rfl, .refl text, id⟩

theorem Moved.trans {first second third : Text} (h : Moved first second)
    (h' : Moved second third) : Moved first third :=
  ⟨h.solid.trans h'.solid, h.within.trans h'.within, h.calm ∘ h'.calm⟩

theorem not_slash_of_mem_blanks {n : Nat} : ∀ byte ∈ blanks n, byte ≠ ('/' : UInt8) := by
  intro byte member
  rw [List.eq_of_mem_replicate member]
  decide

theorem calm_padLeft {text : Text} (calm : Calm text) (columns : Nat) :
    Calm (text.padLeft columns) :=
  (Calm.of_forall_ne not_slash_of_mem_blanks).append_of_last calm fun byte last =>
    not_slash_of_mem_blanks byte (List.mem_of_getLast? last)

theorem calm_padRight {text : Text} (calm : Calm text) (columns : Nat) :
    Calm (text.padRight columns) :=
  calm.append_of_head (.of_forall_ne not_slash_of_mem_blanks) fun byte first =>
    not_slash_of_mem_blanks byte (List.mem_of_mem_head? first)

theorem calm_trimSpaces {text : Text} (calm : Calm text) : Calm (trimSpaces text) := by
  obtain ⟨tail, -, split⟩ := dropTailWhile_split isSpace (text.dropWhile isSpace)
  rw [← List.takeWhile_append_dropWhile (p := isSpace) (l := text), split] at calm
  exact calm.right.left

end HdlAlign.Text

namespace HdlAlign.Range

open Text Utf8

def Token.text : Token → Text
  | .opening => Text.ofString "["
  | .closing => Text.ofString "]"
  | .colon => Text.ofString ":"
  | .index text => text

def Group.text (group : Group) : Text :=
  Text.ofString "[" ++ (group.left ++ (Text.ofString ":" ++ (group.right ++ Text.ofString "]")))

theorem Group.left_subset_text (group : Group) : group.left ⊆ group.text :=
  fun byte member => by simp [text, member]

theorem Group.right_subset_text (group : Group) : group.right ⊆ group.text :=
  fun byte member => by simp [text, member]

def Group.padded (group : Group) (width : GroupWidth) : Group :=
  ⟨group.left.padLeft width.1, group.right.padLeft width.2⟩

theorem renderGroup_eq_text (group : Group) (width : GroupWidth) :
    renderGroup group width = (group.padded width).text := by
  simp [renderGroup, Group.padded, Group.text]

theorem getLast?_renderGroup (group : Group) (width : GroupWidth) :
    (renderGroup group width).getLast? = some (']' : UInt8) := by
  have bracket : ofString "]" = [(']' : UInt8)] := by decide
  rw [renderGroup, bracket, List.getLast?_concat]

theorem render_cons (group : Group) (groups : List Group) (width : GroupWidth)
    (widths : List GroupWidth) :
    render (group :: groups) (width :: widths) =
      renderGroup group width ++ render groups widths := by
  rw [render, List.zipWith_cons_cons, List.flatten_cons, render]

theorem flatMap_indexTokens (gap : Text) :
    (indexTokens gap).flatMap (solid ∘ Token.text) = solid gap := by
  rw [indexTokens]
  split
  · next empty =>
      rw [← solid_trimSpaces, List.isEmpty_iff.mp empty]
      rfl
  · simp [Token.text]

theorem text_mark {byte : UInt8} {mark : Token} (h : Token.ofByte? byte = some mark) :
    isAscii byte ∧ mark.text = [byte] := by
  unfold Token.ofByte? at h
  split at h
  · next same => cases h; exact same ▸ ⟨rfl, rfl⟩
  · split at h
    · next same => cases h; exact same ▸ ⟨rfl, rfl⟩
    · split at h
      · next same => cases h; exact same ▸ ⟨rfl, rfl⟩
      · cases h

theorem flatMap_scan (gap text : Text) :
    (scan gap text).flatMap (solid ∘ Token.text) = solid (gap ++ text) := by
  induction text generalizing gap with
  | nil => rw [scan, flatMap_indexTokens, List.append_nil]
  | cons byte text ih =>
      rw [scan]
      split
      · next mark read =>
          obtain ⟨ascii, same⟩ := text_mark read
          rw [List.flatMap_append, flatMap_indexTokens, List.flatMap_cons, ih, List.nil_append,
            solid_append (.cons_right gap text ascii), solid_cons ascii, Function.comp, same]
      · next none => rw [ih, List.append_assoc, List.singleton_append]

theorem flatMap_groups? {α : Type} {f : Token → List α} (absent : f (.index []) = [])
    {tokens : List Token} {groups : List Group} (read : groups? tokens = some groups) :
    tokens.flatMap f = groups.flatMap fun group => f .opening ++ (f (.index group.left) ++
      (f .colon ++ (f (.index group.right) ++ f .closing))) := by
  fun_induction groups? tokens generalizing groups with
  | case1 =>
      cases read
      rfl
  | case6 => cases read
  | case2 rest ih | case3 _ rest ih | case4 _ rest ih | case5 _ _ rest ih =>
      obtain ⟨tail, inner, rfl⟩ := Option.map_eq_some_iff.mp read
      simp [absent, ih inner]

theorem solid_groupText (group : Group) :
    solid group.text = solid (ofString "[") ++ (solid group.left ++ (solid (ofString ":") ++
      (solid group.right ++ solid (ofString "]")))) := by
  have colonSeam : ∀ left right, Seam left (ofString ":" ++ right) := fun left right =>
    .cons_right left right rfl
  have closingSeam : ∀ left, Seam left (ofString "]") := fun left => .cons_right left [] rfl
  have opening : ∀ text, solid (ofString "[" ++ text) = solid (ofString "[") ++ solid text :=
    solid_cons (show isAscii ('[' : UInt8) from rfl)
  have colon : ∀ text, solid (ofString ":" ++ text) = solid (ofString ":") ++ solid text :=
    solid_cons (show isAscii (':' : UInt8) from rfl)
  rw [Group.text, opening, solid_append (colonSeam _ _), colon, solid_append (closingSeam _)]

theorem solid_renderGroup (group : Group) (width : GroupWidth) :
    solid (renderGroup group width) = solid group.text := by
  rw [renderGroup_eq_text, solid_groupText, solid_groupText, Group.padded, solid_padLeft,
    solid_padLeft]

theorem solid_render {groups : List Group} {widths : List GroupWidth}
    (wide : groups.length ≤ widths.length) :
    solid (render groups widths) = groups.flatMap (solid ∘ Group.text) := by
  induction groups generalizing widths with
  | nil => rfl
  | cons group groups ih =>
      cases widths with
      | nil => simp at wide
      | cons width widths =>
          have seam : Seam (renderGroup group width) (render groups widths) := by
            refine .inl fun byte last => ?_
            rw [getLast?_renderGroup] at last
            cases last
            rfl
          rw [render_cons, solid_append seam, solid_renderGroup,
            ih (by simpa using wide), List.flatMap_cons, Function.comp]

theorem length_widen (widths : List GroupWidth) (groups : List Group) :
    (widen widths groups).length = max widths.length groups.length := by
  fun_induction widen widths groups with
  | case1 => simp
  | case2 group groups ih => simp [ih]
  | case3 left right widths group groups ih => simp [ih]

theorem length_le_foldl_widen (widths : List GroupWidth) (lists : List (List Group)) :
    widths.length ≤ (lists.foldl widen widths).length := by
  induction lists generalizing widths with
  | nil => exact Nat.le_refl _
  | cons groups lists ih =>
      refine Nat.le_trans ?_ (ih _)
      rw [length_widen]
      exact Nat.le_max_left _ _

theorem length_le_columnWidths {column : Nat} {lines : List Line} {groups : List Group}
    (member : groups ∈ lists column lines) : groups.length ≤ (columnWidths column lines).length := by
  rw [columnWidths]
  generalize ([] : List GroupWidth) = widths
  generalize lists column lines = all at member
  induction all generalizing widths with
  | nil => cases member
  | cons first rest ih =>
      rcases List.mem_cons.mp member with rfl | member
      · refine Nat.le_trans ?_ (length_le_foldl_widen (widen widths groups) rest)
        rw [length_widen]
        exact Nat.le_max_right _ _
      · exact ih _ member

theorem scan_subset {gap text : Text} {token : Token} (member : token ∈ scan gap text) :
    token.text ⊆ gap ++ text := by
  have index {gap : Text} {token : Token} (member : token ∈ indexTokens gap) :
      token.text ⊆ gap := by
    rw [indexTokens] at member
    split at member
    · cases member
    · rw [List.mem_singleton.mp member]
      exact List.Subset.trans (dropTailWhile_subset ..) (List.dropWhile_subset _)
  induction text generalizing gap with
  | nil => exact List.Subset.trans (index member) (List.subset_append_left ..)
  | cons byte text ih =>
      rw [scan] at member
      split at member
      · next mark read =>
          rcases List.mem_append.mp member with inside | behind
          · exact List.Subset.trans (index inside) (List.subset_append_left ..)
          · rcases List.mem_cons.mp behind with rfl | later
            · rw [(text_mark read).2]
              simp
            · refine List.Subset.trans (ih later) ?_
              simp
      · next none =>
          refine List.Subset.trans (ih member) ?_
          simp

theorem scan_calm {gap text : Text} (calm : Calm (gap ++ text)) :
    ∀ token ∈ scan gap text, Calm token.text := by
  have index {gap : Text} (calm : Calm gap) : ∀ token ∈ indexTokens gap, Calm token.text := by
    intro token member
    rw [indexTokens] at member
    split at member
    · cases member
    · rw [List.mem_singleton.mp member]
      exact calm_trimSpaces calm
  induction text generalizing gap with
  | nil => exact index calm.left
  | cons byte text ih =>
      rw [scan]
      split
      · next mark read =>
          intro token member
          rcases List.mem_append.mp member with inside | behind
          · exact index calm.left token inside
          · rcases List.mem_cons.mp behind with rfl | later
            · rw [(text_mark read).2]
              exact List.IsChain.singleton byte
            · exact ih (show Calm ([] ++ text) from calm.right.tail) token later
      · refine ih ?_
        rw [List.append_assoc]
        exact calm

theorem groups?_forall {P : Text → Prop} (empty : P []) {tokens : List Token}
    {groups : List Group} (read : groups? tokens = some groups)
    (all : ∀ text, .index text ∈ tokens → P text) :
    ∀ group ∈ groups, P group.left ∧ P group.right := by
  have keep {group : Group} {rest : List Group} (first : P group.left ∧ P group.right)
      (others : ∀ group ∈ rest, P group.left ∧ P group.right) :
      ∀ other ∈ group :: rest, P other.left ∧ P other.right :=
    List.forall_mem_cons.mpr ⟨first, others⟩
  fun_induction groups? tokens generalizing groups with
  | case1 =>
      cases read
      exact fun group member => by cases member
  | case6 => cases read
  | case2 rest ih =>
      obtain ⟨tail, inner, rfl⟩ := Option.map_eq_some_iff.mp read
      exact keep ⟨empty, empty⟩ (ih inner fun text member => all text (by simp [member]))
  | case3 left rest ih =>
      obtain ⟨tail, inner, rfl⟩ := Option.map_eq_some_iff.mp read
      exact keep ⟨all left (by simp), empty⟩
        (ih inner fun text member => all text (by simp [member]))
  | case4 right rest ih =>
      obtain ⟨tail, inner, rfl⟩ := Option.map_eq_some_iff.mp read
      exact keep ⟨empty, all right (by simp)⟩
        (ih inner fun text member => all text (by simp [member]))
  | case5 left right rest ih =>
      obtain ⟨tail, inner, rfl⟩ := Option.map_eq_some_iff.mp read
      exact keep ⟨all left (by simp), all right (by simp)⟩
        (ih inner fun text member => all text (by simp [member]))

theorem renderGroup_calm {group : Group} (calm : Calm group.left ∧ Calm group.right)
    (width : GroupWidth) : Calm (renderGroup group width) := by
  have marks : ∀ mark ∈ Text.literals ["[", ":", "]"], Calm mark ∧
      (∀ byte ∈ mark.head?, byte ≠ ('/' : UInt8)) ∧ ∀ byte ∈ mark.getLast?, byte ≠ ('/' : UInt8) := by
    intro mark member
    have single : mark.length = 1 ∧ ∀ byte ∈ mark, byte ≠ ('/' : UInt8) := by
      revert mark
      decide +kernel
    exact ⟨.of_forall_ne single.2, fun byte first => single.2 byte (List.mem_of_mem_head? first),
      fun byte last => single.2 byte (List.mem_of_getLast? last)⟩
  obtain ⟨opening, -, openingLast⟩ := marks (ofString "[") (by decide)
  obtain ⟨colon, colonHead, colonLast⟩ := marks (ofString ":") (by decide)
  obtain ⟨closing, closingHead, -⟩ := marks (ofString "]") (by decide)
  rw [renderGroup]
  simp only [List.append_assoc]
  refine opening.append_of_last ((calm_padLeft calm.1 _).append_of_head ?_ ?_) openingLast
  · exact colon.append_of_last ((calm_padLeft calm.2 _).append_of_head closing closingHead) colonLast
  · intro byte first
    exact colonHead byte first

theorem render_calm {groups : List Group}
    (calm : ∀ group ∈ groups, Calm group.left ∧ Calm group.right) (widths : List GroupWidth) :
    Calm (render groups widths) := by
  induction groups generalizing widths with
  | nil => exact .nil
  | cons group groups ih =>
      cases widths with
      | nil => exact .nil
      | cons width widths =>
          rw [render_cons]
          refine (renderGroup_calm (calm group (by simp)) width).append_of_last
            (ih (fun other member => calm other (by simp [member])) widths) fun byte last => ?_
          rw [getLast?_renderGroup] at last
          cases last
          decide

theorem moved_groups {field : Text} {groups : List Group} (read : parse field = .ok groups) :
    groups.flatMap (solid ∘ Group.text) = solid field ∧ groups.flatMap Group.text ⊆ field ∧
      (Calm field → ∀ group ∈ groups, Calm group.left ∧ Calm group.right) := by
  unfold parse at read
  split at read
  · cases read
  · split at read
    · cases read
    · cases read
    · next found =>
        cases read
        refine ⟨?_, ?_, fun calm =>
          groups?_forall .nil found fun index => @scan_calm [] field calm (.index index)⟩
        · rw [← List.nil_append field, ← flatMap_scan, flatMap_groups? rfl found]
          simp only [Function.comp_def, solid_groupText, Token.text]
        · have whole := flatMap_groups? (f := Token.text) rfl found
          intro byte member
          have inTokens : byte ∈ (scan [] field).flatMap Token.text := by
            rw [whole]
            exact member
          obtain ⟨token, scanned, inside⟩ := List.mem_flatMap.mp inTokens
          exact scan_subset scanned inside

theorem renderGroup_within (group : Group) (width : GroupWidth) :
    Within (renderGroup group width) group.text := by
  rw [renderGroup]
  refine .append (.append (.append (.append (.of_subset ?_)
    ((padLeft_within _ _).mono group.left_subset_text)) (.of_subset ?_))
    ((padLeft_within _ _).mono group.right_subset_text)) (.of_subset ?_)
  all_goals
    intro byte member
    simp [Group.text, member]

theorem render_within (groups : List Group) (widths : List GroupWidth) :
    Within (render groups widths) (groups.flatMap Group.text) := by
  induction groups generalizing widths with
  | nil => exact .nil _
  | cons group groups ih =>
      cases widths with
      | nil => exact .nil _
      | cons width widths =>
          rw [render_cons, List.flatMap_cons]
          exact ((renderGroup_within group width).mono (List.subset_append_left ..)).append
            ((ih widths).mono (List.subset_append_right ..))

end HdlAlign.Range

namespace HdlAlign.Line

open Text

inductive Alike : Line → Line → Prop
  | aligned {new old : List Text} (source : Int) (fields : List.Forall₂ Moved new old) :
      Alike (aligned new source) (aligned old source)
  | verbatim (text : Text) (source : Int) : Alike (verbatim text source) (verbatim text source)

def fields : Line → List Text
  | aligned fields _ => fields
  | verbatim text _ => [text]

theorem filterMap_eq_of_forall₂ {α β : Type} {R : α → α → Prop} {f : α → Option β}
    (same : ∀ new old, R new old → f new = f old) {new old : List α}
    (related : List.Forall₂ R new old) : new.filterMap f = old.filterMap f := by
  induction related with
  | nil => rfl
  | cons first _ ih => rw [List.filterMap_cons, List.filterMap_cons, same _ _ first, ih]

theorem exists_of_forall₂_left {α β : Type} {R : α → β → Prop} {new : List α} {old : List β}
    (h : List.Forall₂ R new old) {a : α} (member : a ∈ new) : ∃ b ∈ old, R a b := by
  induction h with
  | nil => cases member
  | cons first _ ih =>
      rcases List.mem_cons.mp member with rfl | later
      · exact ⟨_, by simp, first⟩
      · obtain ⟨other, listed, related⟩ := ih later
        exact ⟨other, by simp [listed], related⟩

theorem Alike.refl (line : Line) : Alike line line := by
  cases line with
  | aligned fields source => exact .aligned source (List.forall₂_same.mpr fun field _ => .refl field)
  | verbatim text source => exact .verbatim text source

theorem forall₂_moved_trans {first second third : List Text} (h : List.Forall₂ Moved first second)
    (h' : List.Forall₂ Moved second third) : List.Forall₂ Moved first third := by
  induction h generalizing third with
  | nil => exact h'
  | cons head tail ih =>
      cases h' with
      | cons head' tail' => exact .cons (head.trans head') (ih tail')

theorem Alike.trans {first second third : Line} (h : Alike first second)
    (h' : Alike second third) : Alike first third := by
  cases h with
  | verbatim text source => exact h'
  | aligned source fields =>
      cases h' with
      | aligned _ fields' => exact .aligned source (forall₂_moved_trans fields fields')

theorem forall₂_set {fields : List Text} {column : Nat} {value : Text}
    (moved : Moved value (fields.getD column [])) :
    List.Forall₂ Moved (fields.set column value) fields := by
  induction fields generalizing column with
  | nil => exact .nil
  | cons field fields ih =>
      cases column with
      | zero => exact .cons moved (List.forall₂_same.mpr fun field _ => .refl field)
      | succ column => exact .cons (.refl field) (ih moved)

theorem withField_field (line : Line) (column : Nat) :
    line.withField column (line.field column) = line := by
  cases line with
  | verbatim text source => rfl
  | aligned fields source =>
      refine congrArg (aligned · source) (List.ext_getElem (by simp) fun index _ inside => ?_)
      rw [List.getElem_set]
      split
      · next same => simp [Line.field, same, inside]
      · rfl

theorem field_withField {line : Line} {column : Nat} (some : line.field column ≠ [])
    (value : Text) : (line.withField column value).field column = value := by
  cases line with
  | verbatim text source => exact absurd rfl some
  | aligned fields source =>
      by_cases inside : column < fields.length
      · simp [withField, field, inside]
      · simp [field, inside] at some

theorem alike_withField {line : Line} {column : Nat} {value : Text}
    (moved : Moved value (line.field column)) : Alike (line.withField column value) line := by
  cases line with
  | verbatim text source => exact .verbatim text source
  | aligned fields source => exact .aligned source (forall₂_set moved)

end HdlAlign.Line

namespace HdlAlign.Range

open Text

theorem cell_eq_list_iff {column : Nat} {line : Line} {groups : List Group} :
    cell column line = .list groups ↔ parse (line.field column) = .ok groups := by
  rw [cell]
  split
  · next empty =>
      rw [List.isEmpty_iff.mp empty]
      exact iff_of_false nofun nofun
  · cases parse (line.field column) with
    | ok found => simp
    | error reason => simp

theorem mem_lists {column : Nat} {lines : List Line} {groups : List Group} :
    groups ∈ lists column lines ↔ ∃ line ∈ lines, parse (line.field column) = .ok groups := by
  simp only [lists, List.mem_filterMap]
  refine exists_congr fun line => and_congr_right fun _ => ?_
  rw [← cell_eq_list_iff]
  cases cell column line <;> simp [Cell.list?]

theorem lt_length_of_parse {column : Nat} {fields : List Text} {source : Int} {groups : List Group}
    (read : parse ((Line.aligned fields source).field column) = .ok groups) :
    column < fields.length := by
  by_contra outside
  rw [Line.field, List.getD_eq_default _ _ (Nat.le_of_not_lt outside)] at read
  cases read

theorem exists_layoutLine (column : Nat) {lines : List Line} {line : Line} (member : line ∈ lines) :
    ∃ value, Moved value (line.field column) ∧
      layoutLine column (columnWidths column lines) line = line.withField column value := by
  rw [layoutLine]
  split
  · next groups found =>
      have read : parse (line.field column) = .ok groups := cell_eq_list_iff.mp found
      have listed : groups ∈ lists column lines := mem_lists.mpr ⟨line, member, read⟩
      obtain ⟨sameSolid, inside, calm⟩ := moved_groups read
      exact ⟨_, ⟨(solid_render (length_le_columnWidths listed)).trans sameSolid,
        (render_within groups _).mono inside, fun quiet => render_calm (calm quiet) _⟩, rfl⟩
  · exact ⟨_, .refl _, (Line.withField_field line column).symm⟩

theorem layoutLine_alike (column : Nat) {lines : List Line} {line : Line} (member : line ∈ lines) :
    (layoutLine column (columnWidths column lines) line).Alike line := by
  obtain ⟨value, moved, same⟩ := exists_layoutLine column member
  rw [same]
  exact Line.alike_withField moved

end HdlAlign.Range

namespace HdlAlign.Assignment
open Text Utf8

/-- A field of the assignment column holds an equals sign, a terminator alone, or nothing. -/
def IsField (field : Text) : Prop :=
  ('=' : UInt8) ∈ field ∨ field = Text.ofString ";" ∨ field = []

theorem dropTail?_eq_some_iff {affix text body : Text} :
    dropTail? affix text = some body ↔ text = body ++ affix := by
  rw [dropTail?, Option.map_eq_some_iff]
  constructor
  · rintro ⟨rest, dropped, rfl⟩
    have reversed := congrArg List.reverse (dropHead?_eq_some_iff.mp dropped)
    simpa using reversed
  · rintro rfl
    exact ⟨body.reverse, dropHead?_eq_some_iff.mpr (by simp), by simp⟩

theorem solid_append_terminator (text : Text) :
    solid (text ++ terminator) = solid text ++ solid terminator :=
  solid_append (.cons_right text [] rfl)

theorem splitTerminator_solid (field : Text) :
    solid field = solid (splitTerminator field).2 ++
      if (splitTerminator field).1 then solid terminator else [] := by
  rw [splitTerminator]
  cases dropped : dropTail? (ofString ";") (trim field) with
  | none => simp
  | some body =>
      have split : trim field = body ++ terminator := dropTail?_eq_some_iff.mp dropped
      rw [← solid_trim, split, solid_append_terminator]
      simp

theorem operator_seam {op : Text} (member : op ∈ operators) (rest : Text) : Seam op rest := by
  have ascii : ∀ op ∈ operators, ∀ byte ∈ op.getLast?, isAscii byte := by decide +kernel
  exact .inl (ascii op member)

theorem solid_render (value : Assignment) (widths : Widths) :
    solid (render value widths) = solid value.operator ++ (solid value.value ++
      if value.terminated then solid terminator else []) := by
  have middle : ∀ text, solid (value.operator.padLeft widths.operator ++ Text.blank :: text) =
      solid value.operator ++ solid text := by
    intro text
    rw [solid_append (.cons_right _ _ rfl), solid_padLeft, solid_cons_of_isSpace isSpace_blank]
  rw [render]
  cases value.terminated with
  | false => simp [middle]
  | true => simp [middle, solid_append_terminator]

theorem parse?_eq_some_iff {field : Text} {value : Assignment} :
    parse? field = some value ↔
      ∃ op rest, operator? (splitTerminator field).2 = some (op, rest) ∧
        value = ⟨op, spaceOperators rest, (splitTerminator field).1⟩ := by
  rw [parse?, Option.map_eq_some_iff]
  constructor
  · rintro ⟨⟨op, rest⟩, found, rfl⟩
    exact ⟨op, rest, found, rfl⟩
  · rintro ⟨op, rest, found, rfl⟩
    exact ⟨(op, rest), found, rfl⟩

theorem solid_parse? {field : Text} {value : Assignment} (read : parse? field = some value) :
    solid value.operator ++ (solid value.value ++
      if value.terminated then solid terminator else []) = solid field := by
  obtain ⟨op, rest, found, rfl⟩ := parse?_eq_some_iff.mp read
  obtain ⟨member, split⟩ := operator?_eq_some_iff.mp found
  rw [splitTerminator_solid field, split, solid_append (operator_seam member rest)]
  simp

theorem cell_eq_assignment {field : Text} {value : Assignment}
    (found : cell field = .assignment value) : parse? field = some value := by
  rw [cell] at found
  split at found
  · split at found
    · next read =>
        cases found
        exact read
    · cases found
  · split at found <;> cases found

theorem layoutField_solid (anyAssignment : Bool) (widths : Widths) {field : Text}
    (h : IsField field) : solid (layoutField anyAssignment widths field) = solid field := by
  rcases h with equals | rfl | rfl
  · rw [layoutField]
    cases found : cell field with
    | assignment value => rw [← solid_parse? (cell_eq_assignment found), ← solid_render]
    | foreign => rfl
    | terminator => simp [cell, equals] at found; split at found <;> cases found
    | nothing => simp [cell, equals] at found; split at found <;> cases found
  · have lone : layoutField anyAssignment widths (ofString ";") = renderTerminator anyAssignment widths := rfl
    rw [lone, renderTerminator]
    split
    · exact solid_padLeft _ _
    · rfl
  · rfl

theorem splitTerminator_subset (field : Text) : (splitTerminator field).2 ⊆ field := by
  rw [splitTerminator]
  cases dropped : dropTail? (ofString ";") (trim field) with
  | none => exact trim_subset field
  | some body =>
      have split : trim field = body ++ terminator := dropTail?_eq_some_iff.mp dropped
      intro byte member
      refine trim_subset field ?_
      rw [split]
      exact List.mem_append_left _ (trim_subset body member)

theorem mem_of_splitTerminator {field : Text} (terminated : (splitTerminator field).1 = true) :
    (';' : UInt8) ∈ field := by
  rw [splitTerminator] at terminated
  cases dropped : dropTail? (ofString ";") (trim field) with
  | none => simp [dropped] at terminated
  | some body =>
      have split : trim field = body ++ terminator := dropTail?_eq_some_iff.mp dropped
      refine trim_subset field ?_
      rw [split]
      exact List.mem_append_right _ (by decide)

theorem terminator_within {field : Text} (terminated : (splitTerminator field).1 = true) :
    Within terminator field := by
  intro byte member
  have semicolon : byte = ';' := by simpa using (show byte ∈ [(';' : UInt8)] from member)
  exact .inl (semicolon ▸ mem_of_splitTerminator terminated)

theorem layoutField_within (anyAssignment : Bool) (widths : Widths) (field : Text) :
    Within (layoutField anyAssignment widths field) field := by
  rw [layoutField]
  cases found : cell field with
  | foreign => exact .refl field
  | nothing => exact .nil field
  | terminator =>
      have terminated : (splitTerminator field).1 = true := by
        rw [cell] at found
        split at found
        · split at found <;> cases found
        · split at found
          · assumption
          · cases found
      dsimp only
      rw [renderTerminator]
      split
      · exact (padLeft_within _ _).trans (terminator_within terminated)
      · exact terminator_within terminated
  | assignment value =>
      obtain ⟨op, rest, read, rfl⟩ := parse?_eq_some_iff.mp (cell_eq_assignment found)
      obtain ⟨-, split⟩ := operator?_eq_some_iff.mp read
      have inside := splitTerminator_subset field
      rw [split, List.append_subset] at inside
      have opWithin : Within (op.padLeft widths.operator ++ [Text.blank]) field :=
        ((padLeft_within _ _).mono inside.1).append (.cons (.inr rfl) (.nil field))
      have valueWithin : Within (spaceOperators rest) field :=
        (spaceOperators_within rest).mono inside.2
      dsimp only
      rw [render]
      split
      · next terminated =>
          exact (opWithin.append ((padRight_within _ _).trans valueWithin)).append
            (terminator_within terminated)
      · exact opWithin.append valueWithin

theorem calm_splitTerminator {field : Text} (h : Calm field) : Calm (splitTerminator field).2 := by
  rw [splitTerminator]
  cases dropped : dropTail? (ofString ";") (trim field) with
  | none => exact calm_trim h
  | some body =>
      have split : trim field = body ++ terminator := dropTail?_eq_some_iff.mp dropped
      have inside := calm_trim h
      rw [split] at inside
      exact calm_trim inside.left

theorem calm_terminator : Calm terminator := .of_forall_ne (by decide +kernel)

theorem layoutField_calm (anyAssignment : Bool) (widths : Widths) {field : Text} (h : Calm field) :
    Calm (layoutField anyAssignment widths field) := by
  rw [layoutField]
  cases found : cell field with
  | foreign => exact h
  | nothing => exact .nil
  | terminator =>
      dsimp only
      rw [renderTerminator]
      split
      · exact calm_padLeft calm_terminator _
      · exact calm_terminator
  | assignment value =>
      obtain ⟨op, rest, read, rfl⟩ := parse?_eq_some_iff.mp (cell_eq_assignment found)
      obtain ⟨-, split⟩ := operator?_eq_some_iff.mp read
      have body := calm_splitTerminator h
      rw [split] at body
      have start : Calm (op.padLeft widths.operator ++ [Text.blank]) :=
        (calm_padLeft body.left _).append_of_head (.cons (by decide) .nil) (by simp; decide)
      have startLast : ∀ byte ∈ (op.padLeft widths.operator ++ [Text.blank]).getLast?,
          byte ≠ ('/' : UInt8) := by
        intro byte last
        rw [List.getLast?_concat] at last
        cases last
        decide
      have whole := calm_spaceOperators body.right
      dsimp only
      rw [render]
      split
      · rw [List.append_assoc]
        exact start.append_of_last
          ((calm_padRight whole _).append_of_head calm_terminator (by decide +kernel)) startLast
      · exact start.append_of_last whole startLast

theorem layoutField_moved (anyAssignment : Bool) (widths : Widths) {field : Text}
    (h : IsField field) : Moved (layoutField anyAssignment widths field) field :=
  ⟨layoutField_solid _ _ h, layoutField_within _ _ _, layoutField_calm _ _⟩

end HdlAlign.Assignment

namespace HdlAlign.Utf8

theorem isValid_iff_solid {text : Text} :
    isValid text ↔ ∀ scalar ∈ Text.solid text, scalar.isIllFormed = false := by
  rw [isValid, List.all_eq_true, Text.solid]
  constructor
  · intro valid scalar member
    simpa using valid scalar (List.mem_filter.mp member).1
  · intro solid scalar member
    by_cases white : Text.isWhiteChar scalar.char
    · have other : scalar.char ≠ replacement := by
        intro same
        rw [same] at white
        exact absurd white (by decide)
      simp [Scalar.isIllFormed, other]
    · simpa using solid scalar (List.mem_filter.mpr ⟨member, by simpa using white⟩)

theorem isValid_of_solid_eq {old new : Text} (same : Text.solid new = Text.solid old)
    (valid : isValid old) : isValid new := by
  rw [isValid_iff_solid, same]
  exact isValid_iff_solid.mp valid

end HdlAlign.Utf8

namespace HdlAlign.Line

open Text Utf8

def padded : List Text → List Nat → Text
  | [], _ => []
  | field :: fields, [] => field ++ padded fields []
  | field :: fields, anchor :: anchors => field.padRight anchor ++ padded fields anchors

theorem writeFields_eq (w : Writer) (fields : List Text) (anchors : List Nat) :
    writeFields w fields anchors = w.write (padded fields anchors) := by
  have twice (w : Writer) (s t : Text) : (w.write s).write t = w.write (s ++ t) := by
    simp [Writer.write]
  fun_induction writeFields w fields anchors with
  | case1 => simp [padded, Writer.write]
  | case2 w field fields ih => rw [ih, twice, padded]
  | case3 w field fields anchor anchors ih => rw [ih, Writer.pad, twice, padded]

theorem render_aligned (fields : List Text) (source : Int) (anchors : List Nat) (indent : Text) :
    (aligned fields source).render anchors indent =
      dropTailWhile isIndent (indent ++ padded fields anchors) := by
  simp [render, writeFields_eq, Writer.trimLineEnd, Writer.write]

theorem solid_padded {fields : List Text} (anchors : List Nat)
    (valid : ∀ field ∈ fields, isValid field) :
    solid (padded fields anchors) = (fields.map solid).flatten := by
  fun_induction padded fields anchors with
  | case1 => rfl
  | case2 field fields ih =>
      rw [solid_append_of_isValid (valid field (by simp)),
        ih fun other member => valid other (by simp [member])]
      simp
  | case3 field fields anchor anchors ih =>
      have fieldValid : isValid (field.padRight anchor) :=
        isValid_of_solid_eq (solid_padRight field anchor) (valid field (by simp))
      rw [solid_append_of_isValid fieldValid, solid_padRight,
        ih fun other member => valid other (by simp [member])]
      simp

theorem isSpace_of_isIndent : ∀ {byte : UInt8}, isIndent byte → isSpace byte :=
  @(forall_byte (by decide +kernel))

theorem solid_dropTailWhile (text : Text) : solid (dropTailWhile isIndent text) = solid text := by
  obtain ⟨tail, blanks, split⟩ := dropTailWhile_split isIndent text
  have white : White tail := .of_isSpace fun byte member => isSpace_of_isIndent (blanks byte member)
  calc
    solid (dropTailWhile isIndent text) = solid (dropTailWhile isIndent text ++ tail) :=
      (white.solid_append_right _).symm
    _ = solid text := by rw [← split]

theorem solid_render_aligned {fields : List Text} (source : Int) (anchors : List Nat)
    {indent : Text} (margin : White indent) (valid : ∀ field ∈ fields, isValid field) :
    solid ((aligned fields source).render anchors indent) = (fields.map solid).flatten := by
  rw [render_aligned, solid_dropTailWhile, margin.solid_append_left, solid_padded anchors valid]

theorem padded_subset (fields : List Text) (anchors : List Nat) {byte : UInt8}
    (member : byte ∈ padded fields anchors) : byte = blank ∨ ∃ field ∈ fields, byte ∈ field := by
  fun_induction padded fields anchors with
  | case1 => cases member
  | case2 field fields ih =>
      rcases List.mem_append.mp member with inside | behind
      · exact .inr ⟨field, by simp, inside⟩
      · exact (ih behind).imp_right fun ⟨other, later, inside⟩ => ⟨other, by simp [later], inside⟩
  | case3 field fields anchor anchors ih =>
      rcases List.mem_append.mp member with inside | behind
      · rcases padRight_within field anchor byte inside with inside | isBlank
        · exact .inr ⟨field, by simp, inside⟩
        · exact .inl isBlank
      · exact (ih behind).imp_right fun ⟨other, later, inside⟩ => ⟨other, by simp [later], inside⟩

theorem not_mem_render_aligned {byte : UInt8} (other : byte ≠ blank) {fields : List Text}
    (source : Int) (anchors : List Nat) {indent : Text} (margin : byte ∉ indent)
    (absent : ∀ field ∈ fields, byte ∉ field) :
    byte ∉ (aligned fields source).render anchors indent := by
  rw [render_aligned]
  intro member
  rcases List.mem_append.mp (dropTailWhile_subset _ _ member) with inside | inside
  · exact margin inside
  · rcases padded_subset fields anchors inside with isBlank | ⟨field, listed, inside⟩
    · exact other isBlank
    · exact absent field listed inside

theorem single_render_aligned {fields : List Text} (source : Int) (anchors : List Nat)
    {indent : Text} (margin : newline ∉ indent) (single : ∀ field ∈ fields, newline ∉ field) :
    newline ∉ (aligned fields source).render anchors indent :=
  not_mem_render_aligned (by decide) source anchors margin single

theorem map_solid_of_moved {new old : List Text} (moved : List.Forall₂ Moved new old) :
    new.map solid = old.map solid := by
  induction moved with
  | nil => rfl
  | cons first _ ih => rw [List.map_cons, List.map_cons, first.solid, ih]

theorem Alike.solid_render {new : Line} {fields : List Text} {source : Int}
    (alike : Alike new (Line.aligned fields source)) (anchors : List Nat) {indent : Text}
    (margin : White indent) (valid : ∀ field ∈ fields, isValid field) :
    solid (new.render anchors indent) = (fields.map solid).flatten := by
  cases alike with
  | aligned _ moved =>
      rw [← map_solid_of_moved moved]
      refine solid_render_aligned source anchors margin fun field member => ?_
      obtain ⟨old, listed, kept⟩ := exists_of_forall₂_left moved member
      exact isValid_of_solid_eq kept.solid (valid old listed)

theorem Alike.not_mem_render {byte : UInt8} (other : byte ≠ blank) {new old : Line}
    (alike : Alike new old) (anchors : List Nat) {indent : Text} (margin : byte ∉ indent)
    (absent : ∀ field ∈ old.fields, byte ∉ field) : byte ∉ new.render anchors indent := by
  cases alike with
  | verbatim text source => exact absent text (by simp [fields])
  | aligned source moved =>
      refine not_mem_render_aligned other source anchors margin fun field member => ?_
      obtain ⟨old, listed, kept⟩ := exists_of_forall₂_left moved member
      exact kept.within.not_mem other (absent old listed)

theorem Alike.single_render {new old : Line} (alike : Alike new old) (anchors : List Nat)
    {indent : Text} (margin : newline ∉ indent) (single : ∀ field ∈ old.fields, newline ∉ field) :
    newline ∉ new.render anchors indent :=
  alike.not_mem_render (by decide) anchors margin single

end HdlAlign.Line
