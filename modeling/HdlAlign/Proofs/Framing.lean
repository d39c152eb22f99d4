import HdlAlign.Proofs.Declarations

/-! A module header, its port list and the closing of the list are cut out of a text without a
loss, and no character reaches over a cut. -/

namespace HdlAlign.Text

open Utf8

theorem beforeLast?_split {byte : UInt8} {text before : Text}
    (found : beforeLast? byte text = some before) :
    ∃ behind, text = before ++ byte :: behind ∧ byte ∉ behind := by
  rw [beforeLast?] at found
  have whole := List.takeWhile_append_dropWhile (p := (· != byte)) (l := text.reverse)
  have skipped : byte ∉ text.reverse.takeWhile (· != byte) := fun member => by
    simpa using List.mem_takeWhile_imp member
  cases rest : text.reverse.dropWhile (· != byte) with
  | nil => simp [rest] at found
  | cons first others =>
      have same : first = byte := by
        have stopped := List.head?_dropWhile_not (· != byte) text.reverse
        simpa [rest] using stopped
      rw [rest] at found whole
      cases found
      refine ⟨(text.reverse.takeWhile (· != byte)).reverse, ?_, by simpa using skipped⟩
      have reversed := congrArg List.reverse whole
      simpa [same] using reversed.symm

theorem beforeLast?_ne_none {byte : UInt8} {text : Text} (member : byte ∈ text) :
    beforeLast? byte text ≠ none := by
  intro none
  rw [beforeLast?] at none
  split at none
  · next dropped =>
      have others := List.dropWhile_eq_nil_iff.mp dropped byte (List.mem_reverse.mpr member)
      simp at others
  · cases none

theorem afterLast_split (byte : UInt8) (text : Text) :
    ∃ before, text = before ++ afterLast byte text ∧
      (before = [] ∨ before.getLast? = some byte) := by
  refine ⟨(text.reverse.dropWhile (· != byte)).reverse, ?_, ?_⟩
  · rw [afterLast, ← List.reverse_append, List.takeWhile_append_dropWhile, List.reverse_reverse]
  · cases rest : text.reverse.dropWhile (· != byte) with
    | nil => exact .inl rfl
    | cons first others =>
        have stopped := List.head?_dropWhile_not (· != byte) text.reverse
        refine .inr ?_
        simpa [rest] using stopped

end HdlAlign.Text

namespace HdlAlign.Block

open Text Utf8 Pattern

theorem moduleHead_split {text header rest : Text} (found : moduleHead text = some (header, rest)) :
    text = header ++ rest ∧ header.getLast? = some ('(' : UInt8) := by
  unfold moduleHead at found
  dsimp only at found
  split at found
  · cases found
  · next word tail read =>
      split at found
      · cases found
      · next line cut =>
          cases found
          have leadSound : Sound (run isIndent >> Pattern.optional (literal "macro")) :=
            .andThen (.run _) (.optional (.literal _))
          have wordSound : Sound (literal "module" >> one isSpace) :=
            .andThen (.literal _) (.one _)
          have leadSplit := leadSound.cutFront text
          rw [wordSound _ _ _ read] at leadSplit
          obtain ⟨before, broke, rfl⟩ := Option.map_eq_some_iff.mp cut
          obtain ⟨behind, lineSplit, -⟩ := beforeLast?_split broke
          have lineWhole := List.takeWhile_append_dropWhile (p := (· != newline)) (l := tail)
          rw [lineSplit] at lineWhole
          have opening : ofString "(" = [('(' : UInt8)] := by decide
          have tailSplit : tail = before ++ ofString "(" ++
              (behind ++ tail.dropWhile (· != newline)) := by
            rw [opening, List.append_assoc, List.singleton_append, ← List.cons_append,
              ← List.append_assoc]
            exact lineWhole.symm
          generalize tail.dropWhile (· != newline) = others at tailSplit
          subst tailSplit
          refine ⟨?_, by simp [opening]⟩
          rw [List.drop_left]
          simpa using leadSplit

theorem splitHeader?_split {lineStart : Bool} {text header rest : Text}
    (found : splitHeader? lineStart text = some (header, rest)) :
    text = header ++ rest ∧ header.getLast? = some ('(' : UInt8) := by
  induction text generalizing lineStart header with
  | nil => cases found
  | cons byte text ih =>
      rw [splitHeader?] at found
      split at found
      · next cut head =>
          cases found
          split at head
          · exact moduleHead_split head
          · cases head
      · obtain ⟨⟨front, tail⟩, inner, same⟩ := Option.map_eq_some_iff.mp found
        cases same
        obtain ⟨rfl, last⟩ := ih inner
        refine ⟨rfl, ?_⟩
        rw [List.getLast?_cons, last]
        rfl

theorem closes_head {text : Text} (h : closes text) : ∃ rest, text = (')' : UInt8) :: rest := by
  obtain ⟨part, rest, read⟩ := matchesFront_iff.mp h
  obtain ⟨left, middle, right, first, -, -⟩ := andThen_eq_some_iff.mp read
  obtain ⟨-, split⟩ := literal_eq_some_iff.mp first
  exact ⟨middle, split⟩

theorem splitFooter?_split {text body footer : Text}
    (found : splitFooter? text = some (body, footer)) :
    text = body ++ footer ∧ closes footer := by
  induction text generalizing body with
  | nil => cases found
  | cons byte text ih =>
      rw [splitFooter?] at found
      split at found
      · next cut inner =>
          cases found
          obtain ⟨rfl, closing⟩ := ih inner
          exact ⟨rfl, closing⟩
      · split at found
        · next closing =>
            cases found
            exact ⟨rfl, closing⟩
        · cases found

theorem splitBody_split (rest : Text) :
    rest = (splitBody rest).1 ++ (splitBody rest).2 ∧
      Seam (splitBody rest).1 (splitBody rest).2 := by
  rw [splitBody]
  cases found : splitFooter? rest with
  | none => exact ⟨by simp, .nil_right _⟩
  | some cut =>
      obtain ⟨body, footer⟩ := cut
      obtain ⟨whole, closing⟩ := splitFooter?_split found
      obtain ⟨tail, rfl⟩ := closes_head closing
      dsimp only
      split
      · next blank =>
          obtain ⟨before, split, -⟩ := afterLast_split newline body
          have white : White (afterLast newline body) := isBlank_iff_white.mp blank
          generalize afterLast newline body = margin at split white
          subst split
          have front : (before ++ margin).take ((before ++ margin).length - margin.length) =
              before := by
            simp
          rw [front]
          constructor
          · rw [whole, List.append_assoc]
          · cases margin with
            | nil => exact .cons_right _ _ rfl
            | cons first others => exact .append_right _ (by simp) (.inr white.head)
      · exact ⟨whole, .cons_right _ _ rfl⟩

theorem frame?_split {text : Text} {frame : Frame} (found : frame? text = some frame) :
    text = frame.header ++ (frame.body ++ frame.footer) ∧
      frame.header.getLast? = some ('(' : UInt8) ∧ Seam frame.body frame.footer := by
  obtain ⟨⟨header, rest⟩, cut, rfl⟩ := Option.map_eq_some_iff.mp found
  obtain ⟨whole, last⟩ := splitHeader?_split cut
  obtain ⟨split, seam⟩ := splitBody_split rest
  refine ⟨?_, last, seam⟩
  rw [whole]
  exact congrArg (header ++ ·) split

theorem solid_frame {text : Text} {frame : Frame} (found : frame? text = some frame) :
    solid text = solid frame.header ++ (solid frame.body ++ solid frame.footer) := by
  obtain ⟨whole, last, seam⟩ := frame?_split found
  have opening : Seam frame.header (frame.body ++ frame.footer) :=
    .inl fun byte member => by
      rw [last] at member
      cases member
      rfl
  rw [whole, solid_append opening, solid_append seam]

theorem solid_list (frame : Frame) : solid frame.list = solid frame.body := by
  rw [Frame.list, trimHead]
  cases dropped : dropHead? [newline] frame.body with
  | none => rfl
  | some rest =>
      rw [Option.getD_some, dropHead?_eq_some_iff.mp dropped]
      exact (solid_cons_of_isSpace isSpace_newline rest).symm

end HdlAlign.Block
