import HdlAlign.Proofs.Plain

/-! The normal forms of plain texts.  Normalizing leaves no blank at the ends and no two in a row;
writing a list puts one behind every comma.  Both are stable, and neither touches the run of bytes
that a text begins with. -/

namespace HdlAlign.Text

open Utf8

def Spaces (text : Text) : Prop := ∀ byte ∈ text, isSpace byte

namespace Spaces

theorem nil : Spaces [] := fun _ member => by cases member

theorem blanks (n : Nat) : Spaces (blanks n) := fun byte member => by
  rw [List.eq_of_mem_replicate member]
  rfl

theorem append {left right : Text} (h : Spaces left) (h' : Spaces right) : Spaces (left ++ right) :=
  fun byte member => (List.mem_append.mp member).elim (h byte) (h' byte)

theorem left {left right : Text} (h : Spaces (left ++ right)) : Spaces left :=
  fun byte member => h byte (List.mem_append_left _ member)

theorem white {text : Text} (spaces : Spaces text) : White text := .of_isSpace spaces

theorem dropWhile_append {spaces : Text} (h : Spaces spaces) (text : Text) :
    (spaces ++ text).dropWhile isSpace = text.dropWhile isSpace :=
  List.dropWhile_append_of_pos h

end Spaces

def Starts (text : Text) : Prop := ∀ byte ∈ text.head?, isSpace byte = false

def Ends (text : Text) : Prop := ∀ byte ∈ text.getLast?, isSpace byte = false

theorem Starts.nil : Starts [] := fun _ member => by cases member

theorem Ends.nil : Ends [] := fun _ member => by cases member

theorem Ends.append {left right : Text} (leftEnds : Ends left) (rightEnds : Ends right) :
    Ends (left ++ right) := by
  intro byte last
  rw [List.getLast?_append, Option.mem_def, Option.or_eq_some_iff] at last
  exact last.elim (rightEnds byte) fun both => leftEnds byte both.2

theorem starts_dropWhile (text : Text) : Starts (text.dropWhile isSpace) := by
  intro byte first
  have stopped := List.head?_dropWhile_not isSpace text
  rw [first] at stopped
  simpa using stopped

theorem Starts.dropWhile {text : Text} (starts : Starts text) : text.dropWhile isSpace = text := by
  cases text with
  | nil => rfl
  | cons byte rest => simp [starts byte rfl]

theorem Starts.of_isPrefix {text front : Text} (starts : Starts text) (begins : front <+: text) :
    Starts front := by
  obtain ⟨rest, rfl⟩ := begins
  intro byte first
  exact starts byte (by rw [List.head?_append, first]; rfl)

theorem ends_dropTailWhile (text : Text) : Ends (dropTailWhile isSpace text) := by
  intro byte last
  rw [dropTailWhile, List.getLast?_reverse] at last
  exact starts_dropWhile text.reverse byte last

theorem starts_trimSpaces (text : Text) : Starts (trimSpaces text) := by
  obtain ⟨tail, -, split⟩ := dropTailWhile_split isSpace (text.dropWhile isSpace)
  exact (starts_dropWhile text).of_isPrefix ⟨tail, split.symm⟩

theorem ends_trimSpaces (text : Text) : Ends (trimSpaces text) := ends_dropTailWhile _

theorem trim_between {lead core tail : Text} (leadSpaces : Spaces lead) (tailSpaces : Spaces tail)
    (first : ∀ byte ∈ core.head?, isAscii byte ∧ isWhite1 byte = false)
    (last : ∀ byte ∈ core.getLast?, isAscii byte ∧ isWhite1 byte = false) :
    trim (lead ++ (core ++ tail)) = core := by
  rw [trim, leadSpaces.white.trimStart_append]
  rcases List.eq_nil_or_concat core with rfl | ⟨init, byte, same⟩
  · rw [List.nil_append, tailSpaces.white.trimStart]
    rfl
  · have start : trimStart (core ++ tail) = core ++ tail := by
      cases core with
      | nil => simp at same
      | cons byte rest =>
          have shown := first byte rfl
          exact trimStart_of_isAscii shown.1 shown.2 _
    rw [List.concat_eq_append] at same
    have shown := last byte (by simp [same])
    rw [start, tailSpaces.white.trimEnd_append, same]
    exact trimEnd_of_isAscii shown.1 shown.2 init

theorem trim_core {lead core tail : Text} (leadSpaces : Spaces lead) (tailSpaces : Spaces tail)
    (plain : Plain core) (starts : Starts core) (ends : Ends core) :
    trim (lead ++ (core ++ tail)) = core := by
  have black {byte : UInt8} (isPlain : isPlain byte) (visible : isSpace byte = false) :
      isAscii byte ∧ isWhite1 byte = false := by
    obtain ⟨space, -, white⟩ := blank_of_isPlain isPlain
    exact ⟨isAscii_of_isPlain isPlain, white.trans (space.symm.trans visible)⟩
  exact trim_between leadSpaces tailSpaces
    (fun byte first => black (plain byte (List.mem_of_mem_head? first)) (starts byte first))
    fun byte last => black (plain byte (List.mem_of_getLast? last)) (ends byte last)

theorem Plain.trim {text : Text} (plain : Plain text) : trim text = trimSpaces text := by
  obtain ⟨tail, tailSpaces, split⟩ := dropTailWhile_split isSpace (text.dropWhile isSpace)
  have core : Plain (trimSpaces text) := plain.subset
    (List.Subset.trans (dropTailWhile_subset _ _) (List.dropWhile_subset _))
  have whole : text = text.takeWhile isSpace ++ (trimSpaces text ++ tail) := by
    rw [trimSpaces, ← split, List.takeWhile_append_dropWhile]
  conv => lhs; rw [whole]
  exact trim_core (fun byte member => List.mem_takeWhile_imp member) tailSpaces core
    (starts_trimSpaces text) (ends_trimSpaces text)

/-! Normal forms are fixed points. -/

def Sparse (text : Text) : Prop := List.IsChain (fun a b => ¬(isSpace a ∧ isSpace b)) text

theorem spaceFollows_collapseRuns (inRun : Bool) (text : Text) :
    spaceFollows (collapseRuns inRun text) = spaceFollows text := by
  fun_induction collapseRuns inRun text with
  | case1 => rfl
  | case2 inRun byte rest space follows ih => rw [ih, follows, spaceFollows, space]
  | case3 inRun byte rest space single ih =>
      cases inRun <;> simp [spaceFollows, space, isSpace_blank]
  | case4 inRun byte rest other ih => rfl

theorem sparse_collapseRuns (inRun : Bool) (text : Text) : Sparse (collapseRuns inRun text) := by
  have cons {byte : UInt8} {rest : Text} (apart : ¬(isSpace byte ∧ spaceFollows rest))
      (sparse : Sparse rest) : Sparse (byte :: rest) := by
    cases rest with
    | nil => exact .singleton byte
    | cons next rest => exact .cons_cons apart sparse
  fun_induction collapseRuns inRun text with
  | case1 => exact .nil
  | case2 inRun byte rest space follows ih => exact ih
  | case3 inRun byte rest space single ih =>
      exact cons (fun both => by simp [spaceFollows_collapseRuns, single] at both) ih
  | case4 inRun byte rest other ih => exact cons (fun both => other both.1) ih

theorem Sparse.collapseRuns {text : Text} (sparse : Sparse text) :
    collapseRuns false text = text := by
  induction text with
  | nil => rfl
  | cons byte rest ih =>
      rw [Text.collapseRuns, ih sparse.tail]
      split
      · next space =>
          have apart : spaceFollows rest = false := by
            cases rest with
            | nil => rfl
            | cons next rest => simpa [space, spaceFollows] using sparse.rel
          simp [apart]
      · rfl

/-- A text that normalizing leaves as it is, whatever blanks it is set between. -/
structure Tidy (text : Text) : Prop where
  plain : Plain text
  starts : Starts text
  ends : Ends text
  sparse : Sparse text

theorem Tidy.normalize {text : Text} (tidy : Tidy text) {lead tail : Text} (leadSpaces : Spaces lead)
    (tailSpaces : Spaces tail) : normalize (lead ++ (text ++ tail)) = text := by
  rw [Text.normalize, trim_core leadSpaces tailSpaces tidy.plain tidy.starts tidy.ends,
    tidy.sparse.collapseRuns]

theorem starts_iff {text : Text} : Starts text ↔ spaceFollows text = false := by
  cases text with
  | nil => simp [Starts, spaceFollows]
  | cons byte rest => simp [Starts, spaceFollows]

theorem ends_cons {byte : UInt8} {rest : Text} :
    Ends (byte :: rest) ↔ (rest = [] → isSpace byte = false) ∧ Ends rest := by
  cases rest with
  | nil => simp [Ends]
  | cons next rest => simp [Ends, List.getLast?_cons_cons]

theorem ends_collapseRuns (inRun : Bool) {text : Text} (ends : Ends text) :
    Ends (collapseRuns inRun text) := by
  fun_induction collapseRuns inRun text with
  | case1 => exact ends
  | case2 inRun byte rest space follows ih => exact ih (ends_cons.mp ends).2
  | case3 inRun byte rest space single ih =>
      obtain ⟨alone, restEnds⟩ := ends_cons.mp ends
      refine ends_cons.mpr ⟨fun none => ?_, ih restEnds⟩
      cases rest with
      | nil => simp [space] at alone
      | cons next rest =>
          have visible : isSpace next = false := by simpa [spaceFollows] using single
          simp [collapseRuns, visible] at none
  | case4 inRun byte rest other ih =>
      exact ends_cons.mpr ⟨fun _ => by simpa using other, ih (ends_cons.mp ends).2⟩

theorem spaceFollows_append {rest : Text} (starts : Starts rest) (text : Text) :
    spaceFollows (text ++ rest) = spaceFollows text := by
  cases text with
  | nil => exact starts_iff.mp starts
  | cons byte text => rfl

theorem collapseRuns_append_of_starts {rest : Text} (starts : Starts rest) (inRun : Bool)
    (text : Text) :
    collapseRuns inRun (text ++ rest) = collapseRuns inRun text ++ collapseRuns false rest := by
  fun_induction collapseRuns inRun text with
  | case1 inRun =>
      cases rest with
      | nil => rfl
      | cons byte rest =>
          have visible := starts byte rfl
          simp [collapseRuns, visible]
  | case2 inRun byte text space follows ih =>
      rw [List.cons_append, collapseRuns, if_pos space, spaceFollows_append starts, if_pos follows, ih]
  | case3 inRun byte text space single ih =>
      rw [List.cons_append, collapseRuns, if_pos space, spaceFollows_append starts, if_neg single, ih,
        List.cons_append]
  | case4 inRun byte text other ih =>
      rw [List.cons_append, collapseRuns, if_neg other, ih, List.cons_append]

theorem collapseRuns_append_of_ends {text : Text} (ends : Ends text) (nonempty : text ≠ [])
    (inRun : Bool) (rest : Text) :
    collapseRuns inRun (text ++ rest) = collapseRuns inRun text ++ collapseRuns false rest := by
  have follows {text : Text} (nonempty : text ≠ []) :
      spaceFollows (text ++ rest) = spaceFollows text := by
    cases text with
    | nil => exact absurd rfl nonempty
    | cons byte text => rfl
  fun_induction collapseRuns inRun text with
  | case1 => exact absurd rfl nonempty
  | case2 inRun byte text space runs ih =>
      obtain ⟨alone, ends⟩ := ends_cons.mp ends
      have some : text ≠ [] := fun none => by simp [space] at alone; exact alone none
      rw [List.cons_append, collapseRuns, if_pos space, follows some, if_pos runs, ih ends some]
  | case3 inRun byte text space single ih =>
      obtain ⟨alone, ends⟩ := ends_cons.mp ends
      have some : text ≠ [] := fun none => by simp [space] at alone; exact alone none
      rw [List.cons_append, collapseRuns, if_pos space, follows some, if_neg single, ih ends some,
        List.cons_append]
  | case4 inRun byte text other ih =>
      rw [List.cons_append, collapseRuns, if_neg other, List.cons_append]
      by_cases none : text = []
      · rw [none]
        rfl
      · rw [ih (ends_cons.mp ends).2 none]

theorem Spaces.collapseRuns {gap : Text} (spaces : Spaces gap) (inRun : Bool) :
    Spaces (collapseRuns inRun gap) := by
  intro byte member
  rcases collapseRuns_within inRun gap byte member with inside | rfl
  · exact spaces byte inside
  · rfl

theorem tidy_normalize {text : Text} (plain : Plain text) : Tidy (normalize text) := by
  refine ⟨plain.within (normalize_within text), ?_, ?_, sparse_collapseRuns _ _⟩
  · rw [starts_iff, normalize, spaceFollows_collapseRuns, plain.trim, ← starts_iff]
    exact starts_trimSpaces text
  · rw [normalize, plain.trim]
    exact ends_collapseRuns _ (ends_trimSpaces text)

theorem normalize_core {lead core tail : Text} (leadSpaces : Spaces lead) (tailSpaces : Spaces tail)
    (plain : Plain core) (starts : Starts core) (ends : Ends core) :
    normalize (lead ++ (core ++ tail)) = collapseRuns false core := by
  rw [normalize, trim_core leadSpaces tailSpaces plain starts ends]

theorem trim_alone {core : Text} (plain : Plain core) (starts : Starts core) (ends : Ends core) :
    trim core = core := by
  simpa using @trim_core [] core [] .nil .nil plain starts ends

theorem normalize_alone {core : Text} (plain : Plain core) (starts : Starts core)
    (ends : Ends core) : normalize core = collapseRuns false core := by
  rw [normalize, trim_alone plain starts ends]

theorem tidy_of_isWord {word : Text} (all : ∀ byte ∈ word, isWord byte) : Tidy word := by
  have facts : ∀ byte : UInt8, isWord byte → isPlain byte ∧ isSpace byte = false :=
    forall_byte (by decide +kernel)
  have visible : ∀ byte ∈ word, isSpace byte = false := fun byte member =>
    (facts byte (all byte member)).2
  refine ⟨fun byte member => (facts byte (all byte member)).1,
    fun byte first => visible byte (List.mem_of_mem_head? first),
    fun byte last => visible byte (List.mem_of_getLast? last), ?_⟩
  clear all
  induction word with
  | nil => exact .nil
  | cons first rest ih =>
      have tail := ih fun byte member => visible byte (by simp [member])
      cases rest with
      | nil => exact .singleton first
      | cons next rest => exact .cons_cons (by simp [visible first]) tail

theorem Tidy.nil : Tidy [] := tidy_of_isWord fun _ member => by cases member

theorem collapseRuns_append {front : Text} (visible : ∀ byte ∈ front, isSpace byte = false)
    (text : Text) : collapseRuns false (front ++ text) = front ++ collapseRuns false text := by
  induction front with
  | nil => rfl
  | cons byte front ih =>
      rw [List.cons_append, collapseRuns, if_neg (by simp [visible byte]),
        ih fun other member => visible other (by simp [member])]
      rfl

theorem collapseRuns_gap (inRun : Bool) {gap next : Text} (nonempty : gap ≠ []) (spaces : Spaces gap)
    (plain : Plain gap) (starts : Starts next) :
    collapseRuns inRun (gap ++ next) = blank :: collapseRuns false next := by
  induction gap generalizing inRun with
  | nil => exact absurd rfl nonempty
  | cons byte gap ih =>
      have space := spaces byte (by simp)
      have isBlank : byte = blank := by
        have same := (blank_of_isPlain (plain byte (by simp))).1
        simpa [space] using same.symm
      rw [List.cons_append, collapseRuns, if_pos space]
      cases gap with
      | nil =>
          rw [List.nil_append, starts_iff.mp starts, if_neg Bool.false_ne_true, isBlank, ite_self]
      | cons other gap =>
          have follows : spaceFollows (other :: gap ++ next) = true := spaces other (by simp)
          rw [follows, if_pos rfl]
          exact ih true (by simp) (fun byte member => spaces byte (by simp [member]))
            fun byte member => plain byte (by simp [member])

/-! The separators of a list. -/

theorem spaceFollows_spaceCommas_true (text : Text) :
    spaceFollows (spaceCommas true text) = false := by
  induction text with
  | nil => rfl
  | cons byte rest ih =>
      rw [spaceCommas]
      split
      · next comma => rw [comma]; rfl
      · split
        · simpa using ih
        · next other => simpa [spaceFollows] using other

theorem starts_spaceCommas (absorbing : Bool) {text : Text} (starts : Starts text) :
    Starts (spaceCommas absorbing text) := by
  cases text with
  | nil => exact starts
  | cons byte rest =>
      have visible := starts byte rfl
      rw [starts_iff, spaceCommas]
      split
      · next comma => rw [comma]; rfl
      · simp [visible, spaceFollows]

theorem sparse_spaceCommas (absorbing : Bool) {text : Text} (sparse : Sparse text) :
    Sparse (spaceCommas absorbing text) := by
  have cons {byte : UInt8} {rest : Text} (apart : ¬(isSpace byte ∧ spaceFollows rest))
      (sparse : Sparse rest) : Sparse (byte :: rest) := by
    cases rest with
    | nil => exact .singleton byte
    | cons next rest => exact .cons_cons apart sparse
  fun_induction spaceCommas absorbing text with
  | case1 => exact sparse
  | case2 absorbing rest ih =>
      refine cons (fun both => ?_) (cons (fun both => ?_) (ih sparse.tail))
      · exact absurd both.1 (by decide)
      · simp [spaceFollows_spaceCommas_true] at both
  | case3 absorbing byte rest other space drop ih => exact ih sparse.tail
  | case4 absorbing byte rest other space keep ih =>
      refine cons (fun both => ?_) (ih sparse.tail)
      have starts : Starts rest := by
        cases rest with
        | nil => exact fun _ member => by cases member
        | cons next rest =>
            have apart := sparse.rel
            intro first member
            cases member
            simpa [space] using apart
      simp [starts_iff.mp (starts_spaceCommas false starts)] at both
  | case5 absorbing byte rest other visible ih =>
      exact cons (fun both => visible both.1) (ih sparse.tail)

theorem commaFollows_cons (byte : UInt8) (rest : Text) :
    commaFollows (byte :: rest) = if isSpace byte then commaFollows rest else byte == ',' := by
  rw [commaFollows, List.dropWhile_cons]
  split <;> rfl

theorem commaFollows_spaceCommas (text : Text) :
    commaFollows (spaceCommas false text) = commaFollows text := by
  induction text with
  | nil => rfl
  | cons byte rest ih =>
      rw [commaFollows_cons, spaceCommas]
      split
      · next comma => rw [comma]; rfl
      · split
        · next space =>
            split
            · exact ih
            · rw [commaFollows_cons, if_pos space, ih]
        · next visible => rw [commaFollows_cons, if_neg visible]

theorem spaceCommas_spaceCommas (absorbing : Bool) (text : Text) :
    spaceCommas absorbing (spaceCommas absorbing text) = spaceCommas absorbing text := by
  fun_induction spaceCommas absorbing text with
  | case1 => rfl
  | case2 absorbing rest ih => simp [spaceCommas, isSpace_blank, ih, show blank ≠ ',' by decide]
  | case3 absorbing byte rest other space drop ih => exact ih
  | case4 absorbing byte rest other space keep ih =>
      rw [spaceCommas, if_neg other, if_pos space, commaFollows_spaceCommas, ih]
      simp only [Bool.or_eq_true, not_or, Bool.not_eq_true] at keep
      simp [keep]
  | case5 absorbing byte rest other visible ih =>
      rw [spaceCommas, if_neg other, if_neg visible, ih]

theorem commaFollows_append_spaces (text : Text) {tail : Text} (spaces : Spaces tail) :
    commaFollows (text ++ tail) = commaFollows text := by
  induction text with
  | nil =>
      rw [List.nil_append, commaFollows, List.dropWhile_eq_nil_iff.mpr spaces]
      rfl
  | cons byte rest ih => rw [List.cons_append, commaFollows_cons, commaFollows_cons, ih]

theorem spaceCommas_append_spaces (absorbing : Bool) (text : Text) {tail : Text}
    (spaces : Spaces tail) :
    ∃ rest, Spaces rest ∧
      spaceCommas absorbing (text ++ tail) = spaceCommas absorbing text ++ rest := by
  fun_induction spaceCommas absorbing text with
  | case1 absorbing =>
      refine ⟨spaceCommas absorbing tail, fun byte member => ?_, rfl⟩
      rcases spaceCommas_within absorbing tail byte member with inside | rfl
      · exact spaces byte inside
      · rfl
  | case2 absorbing rest ih =>
      obtain ⟨more, moreSpaces, same⟩ := ih
      exact ⟨more, moreSpaces, by simp [spaceCommas, same]⟩
  | case3 absorbing byte rest other space drop ih =>
      obtain ⟨more, moreSpaces, same⟩ := ih
      refine ⟨more, moreSpaces, ?_⟩
      rw [List.cons_append, spaceCommas, if_neg other, if_pos space,
        commaFollows_append_spaces rest spaces, if_pos drop, same]
  | case4 absorbing byte rest other space keep ih =>
      obtain ⟨more, moreSpaces, same⟩ := ih
      refine ⟨more, moreSpaces, ?_⟩
      rw [List.cons_append, spaceCommas, if_neg other, if_pos space,
        commaFollows_append_spaces rest spaces, if_neg keep, same, List.cons_append]
  | case5 absorbing byte rest other visible ih =>
      obtain ⟨more, moreSpaces, same⟩ := ih
      refine ⟨more, moreSpaces, ?_⟩
      rw [List.cons_append, spaceCommas, if_neg other, if_neg visible, same, List.cons_append]

theorem exists_normalizeList {text : Text} (tidy : Tidy text) :
    ∃ tail, Spaces tail ∧ spaceCommas false text = normalizeList text ++ tail := by
  have plain : Plain (spaceCommas false text) := tidy.plain.within (spaceCommas_within false text)
  obtain ⟨tail, tailSpaces, split⟩ := dropTailWhile_split isSpace (spaceCommas false text)
  refine ⟨tail, tailSpaces, ?_⟩
  rw [normalizeList, plain.trim, trimSpaces, (starts_spaceCommas false tidy.starts).dropWhile]
  exact split

theorem tidy_normalizeList {text : Text} (tidy : Tidy text) : Tidy (normalizeList text) := by
  have plain : Plain (spaceCommas false text) := tidy.plain.within (spaceCommas_within false text)
  obtain ⟨tail, -, split⟩ := exists_normalizeList tidy
  have sparse := sparse_spaceCommas false tidy.sparse
  rw [split] at sparse
  refine ⟨tidy.plain.within (normalizeList_within text), ?_, ?_, sparse.left_of_append⟩
  · exact (starts_spaceCommas false tidy.starts).of_isPrefix ⟨tail, split.symm⟩
  · rw [normalizeList, plain.trim]
    exact ends_trimSpaces _

theorem normalizeList_normalizeList {text : Text} (tidy : Tidy text) :
    normalizeList (normalizeList text) = normalizeList text := by
  have again := tidy_normalizeList tidy
  obtain ⟨tail, tailSpaces, split⟩ := exists_normalizeList tidy
  obtain ⟨rest, restSpaces, whole⟩ := spaceCommas_append_spaces false (normalizeList text) tailSpaces
  have fixed := spaceCommas_spaceCommas false text
  rw [split, whole] at fixed
  obtain ⟨more, moreSpaces, inner⟩ := exists_normalizeList again
  have twice := tidy_normalizeList again
  rw [inner, List.append_assoc] at fixed
  have left := trim_core .nil (moreSpaces.append restSpaces) twice.plain twice.starts twice.ends
  have right := trim_core .nil tailSpaces again.plain again.starts again.ends
  rw [List.nil_append] at left right
  rw [← left, fixed, right]

/-! The run that a text begins with. -/

theorem takeWhile_collapseRuns {q : UInt8 → Bool} (spaces : ∀ byte, isSpace byte → q byte = false)
    (inRun : Bool) (text : Text) :
    (collapseRuns inRun text).takeWhile q = text.takeWhile q := by
  have none {text : Text} (follows : spaceFollows text) : text.takeWhile q = [] := by
    cases text with
    | nil => rfl
    | cons byte rest => simp [spaces byte (by simpa [spaceFollows] using follows)]
  fun_induction collapseRuns inRun text with
  | case1 => rfl
  | case2 inRun byte rest space follows ih =>
      rw [ih, none follows, List.takeWhile_cons, spaces byte space]
      rfl
  | case3 inRun byte rest space single ih =>
      have first : q (if inRun then blank else byte) = false := by
        cases inRun
        · exact spaces byte space
        · exact spaces blank isSpace_blank
      rw [List.takeWhile_cons, first, List.takeWhile_cons, spaces byte space]
      rfl
  | case4 inRun byte rest other ih => rw [List.takeWhile_cons, List.takeWhile_cons, ih]

theorem takeWhile_of_commaFollows {q : UInt8 → Bool} (comma : q ',' = false) (absorbing : Bool)
    {text : Text} (follows : commaFollows text) :
    (spaceCommas absorbing text).takeWhile q = [] := by
  induction text with
  | nil => cases follows
  | cons byte rest ih =>
      rw [commaFollows_cons] at follows
      rw [spaceCommas]
      split
      · next same => rw [same, List.takeWhile_cons, comma]; rfl
      · next other =>
          split at follows
          · next space => rw [if_pos space, follows, Bool.or_true, if_pos rfl, ih follows]
          · simp [other] at follows

theorem takeWhile_spaceCommas {q : UInt8 → Bool} (spaces : ∀ byte, isSpace byte → q byte = false)
    (comma : q ',' = false) (absorbing : Bool) {text : Text} (starts : absorbing → Starts text) :
    (spaceCommas absorbing text).takeWhile q = text.takeWhile q := by
  induction text generalizing absorbing with
  | nil => rfl
  | cons byte rest ih =>
      rw [spaceCommas]
      split
      · next same => simp [same, comma]
      · split
        · next space =>
            rw [List.takeWhile_cons_of_neg (a := byte) (by simp [spaces byte space])]
            split
            · next drop =>
                rcases Bool.or_eq_true_iff.mp drop with absorbs | follows
                · have visible := starts absorbs byte rfl
                  rw [space] at visible
                  cases visible
                · exact takeWhile_of_commaFollows comma absorbing follows
            · rw [List.takeWhile_cons_of_neg (by simp [spaces byte space])]
        · rw [List.takeWhile_cons, List.takeWhile_cons, ih false (fun absurd => by cases absurd)]

theorem takeWhile_append_spaces {q : UInt8 → Bool} (spaces : ∀ byte, isSpace byte → q byte = false)
    (text : Text) {tail : Text} (tailSpaces : Spaces tail) :
    (text ++ tail).takeWhile q = text.takeWhile q := by
  induction text with
  | nil =>
      cases tail with
      | nil => rfl
      | cons byte rest => simp [spaces byte (tailSpaces byte (by simp))]
  | cons byte text ih => rw [List.cons_append, List.takeWhile_cons, List.takeWhile_cons, ih]

theorem takeWhile_normal {q : UInt8 → Bool} (spaces : ∀ byte, isSpace byte → q byte = false)
    (comma : q ',' = false) {text : Text} (plain : Plain text) :
    (normalizeList (normalize text)).takeWhile q = (text.dropWhile isSpace).takeWhile q := by
  obtain ⟨tail, tailSpaces, split⟩ := exists_normalizeList (tidy_normalize plain)
  obtain ⟨rest, restSpaces, whole⟩ := dropTailWhile_split isSpace (text.dropWhile isSpace)
  calc
    (normalizeList (normalize text)).takeWhile q =
        (spaceCommas false (normalize text)).takeWhile q := by
      rw [split, takeWhile_append_spaces spaces _ tailSpaces]
    _ = (trimSpaces text).takeWhile q := by
      rw [takeWhile_spaceCommas spaces comma false (fun absurd => by cases absurd), normalize,
        takeWhile_collapseRuns spaces, plain.trim]
    _ = (text.dropWhile isSpace).takeWhile q := by
      rw [trimSpaces]
      conv => rhs; rw [whole, takeWhile_append_spaces spaces _ restSpaces]

end HdlAlign.Text
