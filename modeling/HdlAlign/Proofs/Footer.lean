import HdlAlign.Proofs.Conservation

/-! What stands behind a port list is printed as it is. -/

namespace HdlAlign.Block

open Text Utf8

/-- The text from the parenthesis on that balances an opening one in front of it, if there is one.
Parentheses in line comments do not count; `depth` of them are open inside the outermost. -/
def balancing? : (inComment : Bool) → (depth : Nat) → Text → Option Text
  | _, _, [] => none
  | true, depth, byte :: rest => balancing? (byte != newline) depth rest
  | false, depth, byte :: rest =>
    if startsWith (byte :: rest) "//" then balancing? true depth rest
    else if byte = '(' then balancing? false (depth + 1) rest
    else if byte = ')' then
      match depth with
      | 0 => some (byte :: rest)
      | depth + 1 => balancing? false depth rest
    else balancing? false depth rest

/-- What follows the port list of a block: its text from the parenthesis on that balances the last
one of the module header. -/
def behindList? (body : Text) : Option Text :=
  match splitHeader? true body with
  | none => none
  | some (header, rest) =>
    balancing? (containsText "//" (afterLast newline header)) 0 rest

theorem balancing?_suffix {inComment : Bool} {depth : Nat} {text tail : Text}
    (found : balancing? inComment depth text = some tail) : tail <:+ text := by
  induction text generalizing inComment depth with
  | nil => cases inComment <;> cases found
  | cons byte text ih =>
      cases inComment with
      | true => exact (ih found).trans (List.suffix_cons byte text)
      | false =>
          unfold balancing? at found
          split_ifs at found with comment opening closing
          · exact (ih found).trans (List.suffix_cons byte text)
          · exact (ih found).trans (List.suffix_cons byte text)
          · cases depth with
            | zero =>
                cases found
                exact List.suffix_rfl
            | succ depth => exact (ih found).trans (List.suffix_cons byte text)
          · exact (ih found).trans (List.suffix_cons byte text)

def ClosesOnce (text : Text) : Prop := ∀ later, later <:+ text → closes later → later = text

instance (text : Text) : Decidable (ClosesOnce text) :=
  decidable_of_iff (∀ later ∈ text.tails, closes later → later = text) (by simp [ClosesOnce])

theorem splitFooter?_eq_none {text : Text} (free : ∀ later, later <:+ text → closes later = false) :
    splitFooter? text = none := by
  induction text with
  | nil => rfl
  | cons byte text ih =>
      have behind : splitFooter? text = none :=
        ih fun later suffix => free later (suffix.trans (List.suffix_cons byte text))
      rw [splitFooter?, behind]
      simp [free _ List.suffix_rfl]

theorem splitFooter?_none {text : Text} (none : splitFooter? text = none) :
    ∀ later, later <:+ text → closes later = false := by
  induction text with
  | nil =>
      intro later suffix
      rw [List.suffix_nil.mp suffix]
      rfl
  | cons byte text ih =>
      rw [splitFooter?] at none
      split at none
      · cases none
      · next behind =>
          split at none
          · cases none
          · next open_ =>
              intro later suffix
              rcases List.suffix_cons_iff.mp suffix with rfl | inside
              · simpa using open_
              · exact ih behind later inside

theorem splitFooter?_last {text body footer : Text}
    (found : splitFooter? text = some (body, footer)) : ClosesOnce footer := by
  induction text generalizing body with
  | nil => cases found
  | cons byte text ih =>
      rw [splitFooter?] at found
      split at found
      · next cut inner =>
          cases found
          exact ih inner
      · next behind =>
          split at found
          · cases found
            intro later suffix closing
            refine (List.suffix_cons_iff.mp suffix).resolve_right fun inside => ?_
            rw [splitFooter?_none behind later inside] at closing
            cases closing
          · cases found

theorem splitFooter?_append (list : Text) {tail : Text} (closing : closes tail)
    (once : ClosesOnce tail) : splitFooter? (list ++ tail) = some (list, tail) := by
  induction list with
  | nil =>
      obtain ⟨rest, rfl⟩ := closes_head closing
      have behind : splitFooter? rest = none := by
        refine splitFooter?_eq_none fun later suffix => ?_
        by_contra ends
        have whole := once later (suffix.trans (List.suffix_cons _ rest)) (by simpa using ends)
        have short := suffix.length_le
        simp [whole] at short
      rw [List.nil_append, splitFooter?, behind]
      simp [closing]
  | cons byte list ih => rw [List.cons_append, splitFooter?, ih]

theorem splitFooter?_suffix_splitBody {rest body footer : Text}
    (cut : splitFooter? rest = some (body, footer)) : footer <:+ (splitBody rest).2 := by
  rw [splitBody, cut]
  dsimp only
  split
  · exact List.suffix_append _ footer
  · exact List.suffix_rfl

theorem suffix_unlines (pieces : List Text) (last : Text) : last <:+ unlines (pieces ++ [last]) := by
  induction pieces with
  | nil => simp [unlines, join]
  | cons piece pieces ih =>
      cases pieces with
      | nil => exact ⟨piece ++ [newline], by simp [unlines, join, List.intercalate]⟩
      | cons next others =>
          refine ih.trans ⟨piece ++ [newline], ?_⟩
          simp [unlines, join, List.intercalate, List.intersperse]

theorem footer_suffix_alignPorts (options : Options) (frame : Frame) :
    frame.footer <:+ (alignPorts options frame).text := by
  rw [alignPorts_text, portParts]
  cases frame.footer with
  | nil => exact List.nil_suffix
  | cons byte footer => exact suffix_unlines _ _

/-- What follows a port list ends the output as it stands in the input, if the list is closed there
and nothing behind looks like a closing. -/
theorem behindList_suffix (options : Options) {text tail : Text}
    (mode : (align options text).mode = .ports)
    (behind : behindList? (splitFinalNewline text).1 = some tail) (closing : closes tail)
    (once : ClosesOnce tail) :
    tail ++ (splitFinalNewline text).2 <:+ format options text := by
  obtain ⟨frame, found, same⟩ := align_ports mode
  obtain ⟨⟨header, rest⟩, head, rfl⟩ := Option.map_eq_some_iff.mp found
  rw [behindList?, head] at behind
  obtain ⟨list, rfl⟩ := balancing?_suffix behind
  have footer : tail <:+ (splitBody (list ++ tail)).2 :=
    splitFooter?_suffix_splitBody (splitFooter?_append list closing once)
  obtain ⟨front, whole⟩ := footer.trans (footer_suffix_alignPorts options
    ⟨header, (splitBody (list ++ tail)).1, (splitBody (list ++ tail)).2⟩)
  exact ⟨front, by rw [same, ← List.append_assoc, whole]⟩

theorem behindList_suffix_statement :
    let text := ofString "module m (\x0Ainput a(1)\x0A) ;\x0Areg  r;\x0A"
    let tail := ofString ") ;\x0Areg  r;"
    (align {} text).mode = .ports ∧ behindList? (splitFinalNewline text).1 = some tail ∧
      closes tail ∧ ClosesOnce tail ∧ tail ++ (splitFinalNewline text).2 <:+ format {} text :=
  have mode : (align {} (ofString "module m (\x0Ainput a(1)\x0A) ;\x0Areg  r;\x0A")).mode =
      .ports := by
    decide +kernel
  have behind : behindList? (splitFinalNewline
      (ofString "module m (\x0Ainput a(1)\x0A) ;\x0Areg  r;\x0A")).1 =
        some (ofString ") ;\x0Areg  r;") := by
    decide +kernel
  have closing : closes (ofString ") ;\x0Areg  r;") := by decide +kernel
  have once : ClosesOnce (ofString ") ;\x0Areg  r;") := by decide +kernel
  ⟨mode, behind, closing, once, behindList_suffix {} mode behind closing once⟩

/-- A later instantiation takes the cut along: it is printed as a part of the list. -/
theorem behindList_changed :
    let text := ofString "module m (\x0A  input a\x0A);\x0Asub u (a);\x0A"
    let tail := ofString ");\x0Asub u (a);"
    (align {} text).mode = .ports ∧ behindList? (splitFinalNewline text).1 = some tail ∧
      closes tail ∧
      format {} text = ofString "module m (\x0A  input a\x0A);\x0Asub u (a\x0A);\x0A" ∧
      ¬ tail ++ (splitFinalNewline text).2 <:+ format {} text := by
  decide +kernel

end HdlAlign.Block
