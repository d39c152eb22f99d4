import HdlAlign.Proofs.Rendering
import HdlAlign.Proofs.Squeezed

/-! The code of a rendered line holds the fields of the line between blanks, and words are read from
it as they were read from the line that the fields were cut from. -/

namespace HdlAlign.Text

def Parted (text : Text) : Prop := ∀ byte ∈ text.head?, isSpace byte

/-- Fields in their order, with blanks around them and behind every field that is not empty. -/
inductive Laid : List Text → Text → Prop
  | nil {gap : Text} (spaces : Spaces gap) : Laid [] gap
  | cons {gap field rest : Text} {fields : List Text} (spaces : Spaces gap)
      (parted : field ≠ [] → Parted rest) (laid : Laid fields rest) :
      Laid (field :: fields) (gap ++ (field ++ rest))

theorem Parted.append_spaces {text tail : Text} (parted : Parted text) (spaces : Spaces tail) :
    Parted (text ++ tail) := by
  cases text with
  | nil => exact fun byte first => spaces byte (List.mem_of_mem_head? first)
  | cons first rest => exact parted

theorem Parted.of_isPrefix {text front : Text} (parted : Parted text) (begins : front <+: text) :
    Parted front := by
  obtain ⟨rest, rfl⟩ := begins
  intro byte first
  exact parted byte (by rw [List.head?_append, first]; rfl)

theorem Parted.isPrefix {affix field rest : Text} (parted : Parted rest)
    (visible : ∀ byte ∈ affix, isSpace byte = false) (begins : affix <+: field ++ rest) :
    affix <+: field := by
  obtain ⟨tail, split⟩ := begins
  rcases List.append_eq_append_iff.mp split with ⟨more, same, -⟩ | ⟨more, same, behind⟩
  · exact ⟨more, same.symm⟩
  · cases more with
    | nil => exact ⟨[], by simpa using same⟩
    | cons byte more =>
        have shown := visible byte (by simp [same])
        rw [parted byte (by simp [behind])] at shown
        cases shown

theorem exists_trimSpaces (text : Text) :
    ∃ lead tail, Spaces lead ∧ Spaces tail ∧ text = lead ++ (trimSpaces text ++ tail) := by
  obtain ⟨tail, spaces, split⟩ := dropTailWhile_split isSpace (text.dropWhile isSpace)
  refine ⟨text.takeWhile isSpace, tail, fun byte member => List.mem_takeWhile_imp member, spaces, ?_⟩
  rw [trimSpaces, ← split, List.takeWhile_append_dropWhile]

namespace Laid

theorem squeeze {fields : List Text} {text : Text} (laid : Laid fields text) :
    Text.squeeze text = (fields.map Text.squeeze).flatten := by
  induction laid with
  | nil spaces => exact squeeze_eq_nil_iff.mpr spaces
  | cons spaces _ _ ih =>
      rw [squeeze_append, squeeze_append, squeeze_eq_nil_iff.mpr spaces, ih]
      rfl

theorem spaces_append {fields : List Text} {text gap : Text} (laid : Laid fields text)
    (spaces : Spaces gap) : Laid fields (gap ++ text) := by
  cases laid with
  | nil others => exact .nil (spaces.append others)
  | cons others parted laid =>
      rw [← List.append_assoc]
      exact .cons (spaces.append others) parted laid

theorem of_nil {fields : List Text} {text : Text} (laid : Laid ([] :: fields) text) :
    Laid fields text := by
  cases laid with
  | cons spaces _ laid => exact laid.spaces_append spaces

theorem skip {fields : List Text} {text gap : Text} (laid : Laid fields text)
    (spaces : Spaces gap) : Laid ([] :: fields) (gap ++ text) :=
  .cons spaces (fun some => absurd rfl some) laid

theorem first {fields : List Text} {field text : Text} (laid : Laid fields text)
    (parted : field ≠ [] → Parted text) : Laid (field :: fields) (field ++ text) :=
  .cons .nil parted laid

theorem append_spaces {fields : List Text} {text gap : Text} (laid : Laid fields text)
    (spaces : Spaces gap) : Laid fields (text ++ gap) := by
  induction laid with
  | nil others => exact .nil (others.append spaces)
  | cons others parted laid ih =>
      rw [List.append_assoc, List.append_assoc]
      exact .cons others (fun some => (parted some).append_spaces spaces) ih

theorem between {lead field tail : Text} (leadSpaces : Spaces lead) (tailSpaces : Spaces tail) :
    Laid [field] (lead ++ (field ++ tail)) :=
  .cons leadSpaces (fun _ byte first => tailSpaces byte (List.mem_of_mem_head? first))
    (.nil tailSpaces)

theorem before {field tail : Text} (spaces : Spaces tail) : Laid [field] (field ++ tail) :=
  between .nil spaces

theorem alone (field : Text) : Laid [field] field := by
  simpa using @before field [] .nil

theorem single {field text : Text} (laid : Laid [field] text) :
    ∃ lead tail, text = lead ++ (field ++ tail) ∧ Spaces lead ∧ Spaces tail := by
  cases laid with
  | cons lead _ laid =>
      cases laid with
      | nil tail => exact ⟨_, _, rfl, lead, tail⟩

theorem pair {first second text : Text} (laid : Laid [first, second] text) :
    ∃ lead gap tail, text = lead ++ (first ++ (gap ++ (second ++ tail))) ∧ Spaces lead ∧
      Spaces gap ∧ Spaces tail := by
  cases laid with
  | cons lead _ laid =>
      obtain ⟨gap, tail, rfl, gapSpaces, tailSpaces⟩ := laid.single
      exact ⟨_, gap, tail, rfl, lead, gapSpaces, tailSpaces⟩

theorem normalize_single {field text : Text} (laid : Laid [field] text) (tidy : Tidy field) :
    normalize text = field := by
  obtain ⟨lead, tail, rfl, leadSpaces, tailSpaces⟩ := laid.single
  exact tidy.normalize leadSpaces tailSpaces

theorem trimSpaces {fields : List Text} {text : Text} (laid : Laid fields text) :
    Laid (fields.map Text.trimSpaces) text := by
  induction laid with
  | nil spaces => exact .nil spaces
  | @cons gap field rest fields spaces parted laid ih =>
      obtain ⟨lead, tail, leadSpaces, tailSpaces, split⟩ := exists_trimSpaces field
      have behind : Text.trimSpaces field ≠ [] → Parted (tail ++ rest) := by
        intro some byte first
        cases tail with
        | nil =>
            refine parted (fun none => some ?_) byte first
            rw [none]
            rfl
        | cons other tail =>
            cases first
            exact tailSpaces _ (by simp)
      have whole : gap ++ (field ++ rest) =
          (gap ++ lead) ++ (Text.trimSpaces field ++ (tail ++ rest)) := by
        conv => lhs; rw [split]
        simp
      rw [List.map_cons, whole]
      exact .cons (spaces.append leadSpaces) behind (ih.spaces_append tailSpaces)

theorem dropWhile {fields : List Text} {text : Text} (laid : Laid fields text)
    (starts : ∀ field ∈ fields, Starts field) : Laid fields (text.dropWhile isSpace) := by
  induction laid with
  | nil spaces =>
      rw [List.dropWhile_eq_nil_iff.mpr spaces]
      exact .nil .nil
  | @cons gap field rest fields spaces parted laid ih =>
      rw [spaces.dropWhile_append]
      cases field with
      | nil =>
          exact .cons .nil (fun some => absurd rfl some)
            (ih fun other member => starts other (by simp [member]))
      | cons byte field =>
          have visible := starts (byte :: field) (by simp) byte rfl
          rw [List.cons_append, List.dropWhile_cons_of_neg (by simp [visible]), ← List.cons_append]
          exact .cons .nil parted laid

theorem dropWhile_eq {field text : Text} {fields : List Text} (laid : Laid (field :: fields) text)
    (some : field ≠ []) (starts : Starts field) :
    ∃ rest, text.dropWhile isSpace = field ++ rest ∧ Parted rest ∧ Laid fields rest := by
  cases laid with
  | @cons gap field rest fields spaces parted laid =>
      obtain ⟨byte, others, rfl⟩ := List.exists_cons_of_ne_nil some
      refine ⟨rest, ?_, parted some, laid⟩
      rw [spaces.dropWhile_append, List.cons_append]
      exact List.dropWhile_cons_of_neg (by simp [starts byte rfl])

theorem last {fields : List Text} {field text : Text} (laid : Laid (fields ++ [field]) text) :
    ∃ front tail, text = front ++ (field ++ tail) ∧ Laid fields front ∧ Spaces tail ∧
      (field ≠ [] → Starts field → front = [] ∨ ∃ byte ∈ front.getLast?, isSpace byte) := by
  induction fields generalizing text with
  | nil =>
      cases laid with
      | @cons gap field rest _ spaces parted laid =>
          cases laid with
          | nil behind =>
              refine ⟨gap, rest, rfl, .nil spaces, behind, fun _ _ => ?_⟩
              cases last : gap.getLast? with
              | none => exact .inl (List.getLast?_eq_none_iff.mp last)
              | some byte => exact .inr ⟨byte, rfl, spaces byte (List.mem_of_getLast? last)⟩
  | cons first fields ih =>
      cases laid with
      | @cons gap first rest _ spaces parted laid =>
          obtain ⟨front, tail, rfl, inner, behind, blank⟩ := ih laid
          have frontParted : first ≠ [] → Parted front := fun some =>
            (parted some).of_isPrefix ⟨_, rfl⟩
          refine ⟨gap ++ (first ++ front), tail, by simp, .cons spaces frontParted inner, behind,
            fun some starts => ?_⟩
          rcases blank some starts with rfl | ⟨byte, last, space⟩
          · by_cases none : first = []
            · rw [none, List.append_nil, List.append_nil]
              cases last : gap.getLast? with
              | none => exact .inl (List.getLast?_eq_none_iff.mp last)
              | some byte => exact .inr ⟨byte, rfl, spaces byte (List.mem_of_getLast? last)⟩
            · -- A field in front of this one has a blank behind it.
              cases field with
              | nil => exact absurd rfl some
              | cons byte field =>
                  have visible := starts byte rfl
                  rw [parted none byte rfl] at visible
                  cases visible
          · refine .inr ⟨byte, ?_, space⟩
            rw [← List.append_assoc, List.getLast?_append, last]
            rfl

theorem append_last {fields : List Text} {left right text : Text}
    (laid : Laid (fields ++ [left ++ right]) text) :
    ∃ front tail, text = front ++ (right ++ tail) ∧ Laid (fields ++ [left]) front ∧
      Spaces tail := by
  induction fields generalizing text with
  | nil =>
      obtain ⟨lead, tail, rfl, leadSpaces, tailSpaces⟩ := laid.single
      exact ⟨lead ++ left, tail, by simp, (alone left).spaces_append leadSpaces, tailSpaces⟩
  | cons first fields ih =>
      cases laid with
      | @cons gap first rest _ spaces parted laid =>
          obtain ⟨front, tail, rfl, inner, tailSpaces⟩ := ih laid
          exact ⟨gap ++ (first ++ front), tail, by simp,
            .cons spaces (fun some => (parted some).of_isPrefix ⟨_, rfl⟩) inner, tailSpaces⟩

end Laid

theorem dropTailWhile_isPrefix (p : UInt8 → Bool) (text : Text) : dropTailWhile p text <+: text := by
  obtain ⟨tail, -, split⟩ := dropTailWhile_split p text
  exact ⟨tail, split.symm⟩

theorem dropTailWhile_append (p : UInt8 → Bool) (left right : Text) :
    dropTailWhile p (left ++ right) =
      if dropTailWhile p right = [] then dropTailWhile p left
      else left ++ dropTailWhile p right := by
  rw [dropTailWhile, List.reverse_append, List.dropWhile_append]
  simp only [dropTailWhile, List.reverse_eq_nil_iff, List.isEmpty_iff]
  split <;> simp

theorem Laid.dropTailWhile {p : UInt8 → Bool} (blanks : ∀ {byte}, p byte → isSpace byte)
    {fields : List Text} {text : Text} (laid : Laid fields text)
    (ends : ∀ field ∈ fields, Ends field) : Laid fields (dropTailWhile p text) := by
  induction laid with
  | nil spaces => exact .nil fun byte member => spaces byte (dropTailWhile_subset _ _ member)
  | @cons gap field rest fields spaces parted laid ih =>
      have inner := ih fun other member => ends other (by simp [member])
      rcases List.eq_nil_or_concat field with rfl | ⟨init, byte, same⟩
      · rw [List.nil_append, dropTailWhile_append]
        split
        · next none =>
            rw [none] at inner
            have trimmed : Spaces (Text.dropTailWhile p gap) := fun byte member =>
              spaces byte (dropTailWhile_subset _ _ member)
            simpa using inner.skip trimmed
        · exact inner.skip spaces
      · rw [List.concat_eq_append] at same
        have visible := ends field (by simp) byte (by simp [same])
        have stays : p byte = false := by
          by_contra dropped
          rw [blanks (by simpa using dropped)] at visible
          cases visible
        have kept : Text.dropTailWhile p (gap ++ (field ++ rest)) =
            gap ++ (field ++ Text.dropTailWhile p rest) := by
          rw [same, List.append_assoc init, ← List.append_assoc gap]
          exact (dropTailWhile_append_cons stays (gap ++ init) rest).trans (by simp)
        rw [kept]
        exact .cons spaces (fun some => (parted some).of_isPrefix (dropTailWhile_isPrefix _ _)) inner

end HdlAlign.Text

namespace HdlAlign.Line

open Text Batch

theorem laid_padded {fields : List Text} {anchors : List Nat} (roomy : Roomy fields anchors)
    (plain : ∀ field ∈ fields, Plain field) : Laid fields (padded fields anchors) := by
  induction fields generalizing anchors with
  | nil => exact .nil .nil
  | cons field fields ih =>
      cases anchors with
      | nil => exact roomy.elim
      | cons anchor anchors =>
          have inner := ih roomy.2 fun other member => plain other (by simp [member])
          rw [padded, padRight, List.append_assoc]
          refine (inner.spaces_append (.blanks _)).first fun some => ?_
          have room := roomy.1
          rw [(plain field (by simp)).width] at room
          have gap := room (by simpa using some)
          rw [(plain field (by simp)).width]
          obtain ⟨more, same⟩ := Nat.exists_eq_add_of_lt gap
          rw [same, show field.length + more + 1 - field.length = more + 1 by omega]
          intro byte first
          cases first
          rfl

theorem laid_renderedCode {front : List Text} {anchors : List Nat} (roomy : Roomy front anchors)
    (plain : ∀ field ∈ front, Plain field) (comment : Text) {indent : Text}
    (margin : ∀ byte ∈ indent, isIndent byte) :
    Laid (front.map trimSpaces) (renderedCode front comment anchors indent) := by
  have whole : Laid front (indent ++ padded front anchors) := (laid_padded roomy plain).spaces_append
    fun byte member => isSpace_of_isIndent (margin byte member)
  have laid := whole.trimSpaces
  rw [renderedCode]
  split
  · refine laid.dropTailWhile isSpace_of_isIndent fun field member => ?_
    obtain ⟨old, -, rfl⟩ := List.mem_map.mp member
    exact ends_trimSpaces old
  · exact laid

end HdlAlign.Line

namespace HdlAlign.Text

/-! The word that comes next. -/

def ahead (text : Text) : Text := (text.dropWhile isSpace).takeWhile isWord

def Stops (text : Text) : Prop := ∀ byte ∈ text.head?, isWord byte = false

theorem Stops.nil : Stops [] := fun _ member => by cases member

theorem isWord_of_isSpace : ∀ {byte : UInt8}, isSpace byte → isWord byte = false :=
  @(forall_byte (by decide +kernel))

theorem Parted.stops {text : Text} (parted : Parted text) : Stops text :=
  fun byte first => isWord_of_isSpace (parted byte first)

theorem Stops.takeWhile {text : Text} (stops : Stops text) : text.takeWhile isWord = [] := by
  cases text with
  | nil => rfl
  | cons byte rest => simp [stops byte rfl]

theorem Stops.takeWhile_append {text : Text} (stops : Stops text) (front : Text) :
    (front ++ text).takeWhile isWord = front.takeWhile isWord := by
  induction front with
  | nil => exact stops.takeWhile
  | cons byte front ih => rw [List.cons_append, List.takeWhile_cons, List.takeWhile_cons, ih]

theorem ahead_append {text : Text} (stops : Stops text) (none : ahead text = []) (front : Text) :
    ahead (front ++ text) = ahead front := by
  rw [ahead, ahead, List.dropWhile_append]
  split
  · next spaces =>
      rw [List.isEmpty_iff.mp spaces]
      exact none
  · exact stops.takeWhile_append _

theorem ahead_spaces_append {gap : Text} (spaces : Spaces gap) (text : Text) :
    ahead (gap ++ text) = ahead text := by
  rw [ahead, spaces.dropWhile_append, ← ahead]

theorem Laid.ahead_cons {field : Text} {fields : List Text} {text : Text}
    (laid : Laid (field :: fields) text) (some : field ≠ []) (starts : Starts field) :
    ahead text = field.takeWhile isWord := by
  cases laid with
  | @cons gap _ rest _ spaces parted laid =>
      rw [ahead_spaces_append spaces, ahead, List.dropWhile_append, starts.dropWhile]
      split
      · next none => exact absurd (List.isEmpty_iff.mp none) some
      · exact (parted some).stops.takeWhile_append field

theorem Laid.ahead_of_stops {fields : List Text} {text : Text} (laid : Laid fields text)
    (marks : ∀ field ∈ fields, Starts field ∧ Stops field) : ahead text = [] := by
  induction laid with
  | nil spaces => rw [ahead, List.dropWhile_eq_nil_iff.mpr spaces]; rfl
  | @cons gap field rest fields spaces parted laid ih =>
      by_cases empty : field = []
      · rw [empty, ahead_spaces_append spaces]
        exact ih fun other member => marks other (by simp [member])
      · have whole : Laid (field :: fields) (gap ++ (field ++ rest)) := .cons spaces parted laid
        obtain ⟨starts, stops⟩ := marks field (by simp)
        rw [whole.ahead_cons empty starts, stops.takeWhile]

theorem Laid.ahead_eq {field : Text} {fields : List Text} {text : Text}
    (laid : Laid (field :: fields) text) (starts : Starts field)
    (marks : ∀ field ∈ fields, Starts field ∧ Stops field) : ahead text = ahead field := by
  by_cases empty : field = []
  · subst empty
    exact laid.of_nil.ahead_of_stops marks
  · rw [laid.ahead_cons empty starts, ahead, starts.dropWhile]

end HdlAlign.Text
