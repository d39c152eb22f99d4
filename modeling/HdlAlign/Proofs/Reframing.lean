import HdlAlign.Proofs.Footer

/-! The frame of a port list is found again around every other list: the header ends at the same
parenthesis, and the footer begins at the same one. -/

namespace HdlAlign.Pattern

open Text

/-- A pattern that does not read over a mark.  What it reads in front of the first one does not
depend on what stands behind. -/
structure StopsAt (mark : UInt8) (p : Pattern) : Prop where
  reads : ∀ front, (∀ back, p (front ++ mark :: back) = none) ∨
    ∃ part rest, ∀ back, p (front ++ mark :: back) = some (part, rest ++ mark :: back)

namespace StopsAt

variable {mark : UInt8}

theorem run {p : UInt8 → Bool} (stops : p mark = false) : StopsAt mark (run p) := by
  constructor
  intro front
  refine .inr ⟨front.takeWhile p, front.dropWhile p, fun back => ?_⟩
  rw [run_eq_some_iff, List.takeWhile_append, List.dropWhile_append]
  constructor
  · split
    · next all =>
        rw [(List.takeWhile_prefix p).eq_of_length all, List.takeWhile_cons_of_neg (by simp [stops]),
          List.append_nil]
    · rfl
  · split
    · next none =>
        rw [List.isEmpty_iff.mp none, List.dropWhile_cons_of_neg (by simp [stops])]
        rfl
    · rfl

theorem one {p : UInt8 → Bool} (stops : p mark = false) : StopsAt mark (one p) := by
  constructor
  intro front
  cases front with
  | nil => exact .inl fun back => by rw [List.nil_append, Pattern.one, stops]; rfl
  | cons byte front =>
      cases holds : p byte with
      | false => exact .inl fun back => by rw [List.cons_append, Pattern.one, holds]; rfl
      | true =>
          exact .inr ⟨[byte], front, fun back => by rw [List.cons_append, Pattern.one, holds]; rfl⟩

theorem literal {affix : Text} (absent : mark ∉ affix) : StopsAt mark (literal affix) := by
  constructor
  intro front
  by_cases begins : affix <+: front
  · obtain ⟨rest, rfl⟩ := begins
    exact .inr ⟨affix, rest, fun back => literal_eq_some_iff.mpr ⟨rfl, List.append_assoc _ _ _⟩⟩
  · refine .inl fun back => ?_
    cases read : Pattern.literal affix (front ++ mark :: back) with
    | none => rfl
    | some found =>
        obtain ⟨-, split⟩ := literal_eq_some_iff.mp (show _ = some (found.1, found.2) from read)
        rcases List.append_eq_append_iff.mp split with ⟨more, same, behind⟩ | ⟨more, same, -⟩
        · cases more with
          | nil => exact absurd ⟨[], by simpa using same⟩ begins
          | cons byte more =>
              cases behind
              exact absurd (by simp [same]) absent
        · exact absurd ⟨more, same.symm⟩ begins

theorem optional {p : Pattern} (stops : StopsAt mark p) : StopsAt mark (optional p) := by
  constructor
  intro front
  rcases stops.reads front with none | ⟨part, rest, read⟩
  · exact .inr ⟨[], front, fun back => by rw [Pattern.optional, none]; rfl⟩
  · exact .inr ⟨part, rest, fun back => by rw [Pattern.optional, read]; rfl⟩

theorem andThen {first second : Pattern} (h : StopsAt mark first) (h' : StopsAt mark second) :
    StopsAt mark (first >> second) := by
  constructor
  intro front
  rcases h.reads front with none | ⟨part, rest, read⟩
  · exact .inl fun back => by rw [andThen_def, Pattern.andThen, none]
  · rcases h'.reads rest with none | ⟨more, tail, reads⟩
    · exact .inl fun back => by rw [andThen_def, Pattern.andThen, read]; simp [none]
    · exact .inr ⟨part ++ more, tail, fun back => by
        rw [andThen_def, Pattern.andThen, read]; simp [reads]⟩

end StopsAt

end HdlAlign.Pattern

namespace HdlAlign.Block

open Text Pattern

theorem toLastParenthesis?_append {front back : Text} (last : ('(' : UInt8) ∉ back) :
    toLastParenthesis? (front ++ ('(' : UInt8) :: back) = some (front ++ [('(' : UInt8)]) := by
  have opening : ofString "(" = [('(' : UInt8)] := by decide
  have skipped : back.reverse.dropWhile (· != ('(' : UInt8)) = [] :=
    List.dropWhile_eq_nil_iff.mpr fun byte member => by
      simpa using ne_of_mem_of_not_mem (List.mem_reverse.mp member) last
  rw [toLastParenthesis?, beforeLast?, List.reverse_append, List.reverse_cons, List.append_assoc,
    List.dropWhile_append, skipped]
  simp [opening]

theorem toLastParenthesis?_ne_none {line : Text} (member : ('(' : UInt8) ∈ line) :
    toLastParenthesis? line ≠ none := by
  simpa [toLastParenthesis?] using beforeLast?_ne_none member

theorem toLastParenthesis?_isPrefix {line part : Text} (found : toLastParenthesis? line = some part) :
    part <+: line := by
  have opening : ofString "(" = [('(' : UInt8)] := by decide
  obtain ⟨before, cut, rfl⟩ := Option.map_eq_some_iff.mp found
  obtain ⟨behind, rfl, -⟩ := beforeLast?_split cut
  exact ⟨behind, by simp [opening]⟩

theorem moduleHead_reads (front : Text) :
    (∀ back, moduleHead (front ++ ('(' : UInt8) :: back) = none) ∨
      ∃ head rest, front = head ++ rest ∧ ∀ back, moduleHead (front ++ ('(' : UInt8) :: back) =
        (toLastParenthesis? ((rest ++ ('(' : UInt8) :: back).takeWhile (· != newline))).map fun line =>
          (head ++ line, (rest ++ ('(' : UInt8) :: back).drop line.length) := by
  have leadStops : StopsAt '(' (run isIndent >> Pattern.optional (literal "macro")) :=
    .andThen (.run rfl) (.optional (.literal (by decide)))
  have wordStops : StopsAt '(' (literal "module" >> one isSpace) :=
    .andThen (.literal (by decide)) (.one rfl)
  have leadSound : Sound (run isIndent >> Pattern.optional (literal "macro")) :=
    .andThen (.run _) (.optional (.literal _))
  have wordSound : Sound (literal "module" >> one isSpace) := .andThen (.literal _) (.one _)
  obtain ⟨lead, behind, leadRead⟩ : ∃ lead behind, ∀ back,
      (run isIndent >> Pattern.optional (literal "macro")).cutFront (front ++ ('(' : UInt8) :: back) =
        (lead, behind ++ ('(' : UInt8) :: back) := by
    rcases leadStops.reads front with none | ⟨lead, behind, read⟩
    · exact ⟨[], front, fun back => by rw [cutFront, none]; rfl⟩
    · exact ⟨lead, behind, fun back => by rw [cutFront, read]; rfl⟩
  rcases wordStops.reads behind with none | ⟨word, rest, wordRead⟩
  · refine .inl fun back => ?_
    unfold moduleHead
    dsimp only
    rw [leadRead]
    dsimp only
    rw [none]
  · refine .inr ⟨lead ++ word, rest, ?_, fun back => ?_⟩
    · have leadSplit := leadSound.cutFront (front ++ [('(' : UInt8)])
      rw [leadRead] at leadSplit
      rw [wordSound _ _ _ (wordRead []), ← List.append_assoc, ← List.append_assoc] at leadSplit
      exact List.append_cancel_right leadSplit
    · unfold moduleHead
      dsimp only
      rw [leadRead]
      dsimp only
      rw [wordRead]
      dsimp only
      cases toLastParenthesis? ((rest ++ ('(' : UInt8) :: back).takeWhile (· != newline)) <;> rfl

theorem moduleHead_reread {front rest : Text} (other : Text) :
    (moduleHead (front ++ ('(' : UInt8) :: rest) = none →
      moduleHead (front ++ ('(' : UInt8) :: newline :: other) = none) ∧
    (moduleHead (front ++ ('(' : UInt8) :: rest) = some (front ++ [('(' : UInt8)], rest) →
      moduleHead (front ++ ('(' : UInt8) :: newline :: other) =
        some (front ++ [('(' : UInt8)], newline :: other)) := by
  rcases moduleHead_reads front with none | ⟨head, inner, rfl, read⟩
  · rw [none, none]
    exact ⟨id, nofun⟩
  · rw [read, read]
    by_cases broken : newline ∈ inner
    · -- The line ends in front of the parenthesis, so what follows it has no part in the header.
      obtain ⟨before, behind, rfl, absent⟩ := List.eq_append_cons_of_mem broken
      have line (back : Text) : (before ++ newline :: behind ++ ('(' : UInt8) :: back).takeWhile
          (· != newline) = before := by
        rw [List.append_assoc, List.takeWhile_append_of_pos fun byte member => by
          simpa using ne_of_mem_of_not_mem member absent]
        simp
      rw [line, line]
      cases last : toLastParenthesis? before with
      | none => exact ⟨id, nofun⟩
      | some found =>
          refine ⟨nofun, fun same => ?_⟩
          have header := congrArg (fun cut => cut.1.length) (Option.some.inj same)
          have short := (toLastParenthesis?_isPrefix last).length_le
          simp only [List.length_append, List.length_cons, List.length_nil] at header
          omega
    · have line (back : Text) : (inner ++ ('(' : UInt8) :: back).takeWhile (· != newline) =
          inner ++ ('(' : UInt8) :: back.takeWhile (· != newline) := by
        rw [List.takeWhile_append_of_pos fun byte member => by
          simpa using ne_of_mem_of_not_mem member broken]
        rfl
      have last : toLastParenthesis? (inner ++ [('(' : UInt8)]) = some (inner ++ [('(' : UInt8)]) :=
        toLastParenthesis?_append List.not_mem_nil
      have again : (newline :: other).takeWhile (· != newline) = [] := by simp
      rw [line, line, again, last]
      refine ⟨fun absent => ?_, fun _ => by simp⟩
      exact absurd (Option.map_eq_none_iff.mp absent) (toLastParenthesis?_ne_none (by simp))

theorem splitHeader?_reread {lineStart : Bool} {text header rest : Text}
    (found : splitHeader? lineStart text = some (header, rest)) (other : Text) :
    splitHeader? lineStart (header ++ newline :: other) = some (header, newline :: other) := by
  induction text generalizing lineStart header with
  | nil => cases found
  | cons byte text ih =>
      obtain ⟨whole, last⟩ := splitHeader?_split found
      obtain ⟨front, split⟩ := List.getLast?_eq_some_iff.mp last
      have head := @moduleHead_reread front rest other
      have joined (back : Text) : front ++ ('(' : UInt8) :: back = header ++ back := by simp [split]
      rw [← split, joined, joined, ← whole] at head
      rw [splitHeader?] at found
      split at found
      · next here =>
          cases found
          cases lineStart with
          | false => cases here
          | true =>
              obtain ⟨first, others, same⟩ := List.exists_cons_of_ne_nil
                (show header ++ newline :: other ≠ [] by simp)
              rw [same, splitHeader?, ← same, if_pos rfl, head.2 here]
      · next absent =>
          obtain ⟨⟨behind, rest⟩, inner, same⟩ := Option.map_eq_some_iff.mp found
          cases same
          have still : (if lineStart then moduleHead (byte :: (behind ++ newline :: other)) else none) =
              none := by
            cases lineStart with
            | false => rfl
            | true => exact head.1 absent
          rw [List.cons_append, splitHeader?, still, ih inner]
          rfl

/-! The footer. -/

inductive IsFooter : Text → Prop
  | intro {margin tail : Text} (blank : isBlank margin) (single : newline ∉ margin)
      (closing : closes tail) (once : ClosesOnce tail) : IsFooter (margin ++ tail)

theorem not_mem_afterLast (byte : UInt8) (text : Text) : byte ∉ afterLast byte text := fun member => by
  simpa using List.mem_takeWhile_imp (List.mem_reverse.mp member)

theorem isFooter_splitBody {rest : Text} (closed : (splitBody rest).2 ≠ []) :
    IsFooter (splitBody rest).2 := by
  rw [splitBody] at closed ⊢
  cases found : splitFooter? rest with
  | none => simp [found] at closed
  | some cut =>
      obtain ⟨body, footer⟩ := cut
      obtain ⟨-, closing⟩ := splitFooter?_split found
      have once := splitFooter?_last found
      dsimp only
      split
      · next blank => exact .intro blank (not_mem_afterLast _ _) closing once
      · exact @IsFooter.intro [] footer rfl List.not_mem_nil closing once

theorem splitBody_append {list footer : Text} (ends : list.getLast? = some newline)
    (isFooter : IsFooter footer) : splitBody (list ++ footer) = (list, footer) := by
  cases isFooter with
  | @intro margin tail blank single closing once =>
      rw [← List.append_assoc, splitBody, splitFooter?_append _ closing once]
      dsimp only
      rw [afterLast_append ends single, if_pos blank]
      simp

/-- A frame is found again around every other list of whole lines. -/
theorem frame?_reread {text : Text} {frame : Frame} (found : frame? text = some frame)
    (closed : frame.footer ≠ []) {list : Text} (ends : (newline :: list).getLast? = some newline) :
    frame? (frame.header ++ (newline :: list ++ frame.footer)) =
      some ⟨frame.header, newline :: list, frame.footer⟩ := by
  obtain ⟨⟨header, rest⟩, cut, rfl⟩ := Option.map_eq_some_iff.mp found
  have again := splitHeader?_reread cut (list ++ (splitBody rest).2)
  rw [frame?, List.cons_append, again, Option.map_some]
  dsimp only
  rw [← List.cons_append, splitBody_append ends (isFooter_splitBody closed)]

end HdlAlign.Block
