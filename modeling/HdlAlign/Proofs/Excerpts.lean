import HdlAlign.Diagnostic.Pretty
import HdlAlign.Proofs.Access
import HdlAlign.Proofs.Offsets

/-! Showing diagnostics with checked access to the lines of their files.  Every part of a file is in
range, whatever the spans are, and of a line all but one: a column that wraps around to 0. -/

namespace HdlAlign

open Text

namespace Checked

open Diagnostic Style

/-! Lines and positions -/

def lineCount (file : SourceFile) : Option Nat :=
  if 0 < file.content.length then do
    let last ← item (file.content.length - 1) file.content
    some (file.newlines.length + if last = newline then 0 else 1)
  else some file.newlines.length

def lineStart (file : SourceFile) (number : Int) : Option Nat :=
  if number ≤ 1 ∨ (file.newlines.length : Int) ≤ number - 2 then some 0
  else (item (number - 2) file.newlines).map (· + 1)

def lineStop (file : SourceFile) (number : Int) : Option Nat :=
  if number - 1 < file.newlines.length then item (number - 1) file.newlines
  else some file.content.length

def line (file : SourceFile) (number : Int) : Option Text := do
  let count ← lineCount file
  if number < 1 ∨ (count : Int) < number then some []
  else
    let start ← lineStart file number
    let stop ← lineStop file number
    slice start stop file.content

def lineSpan (file : SourceFile) (number : Int) : Option Span := do
  let start ← lineStart file number
  let text ← line file number
  let stop := start + text.length
  if start < 0x100000000 ∧ stop < 0x100000000 then
    some ⟨file.id, start.toUInt32, stop.toUInt32⟩
  else some ⟨file.id, 0, 0⟩

def position (file : SourceFile) (offset : UInt32) : Option Position := do
  let before := (file.newlines.takeWhile (· < offset.toNat)).length
  let start : UInt32 ←
    if 0 < before then (item (before - 1) file.newlines).map (·.toUInt32 + 1) else some 0
  let number : UInt32 := if before + 1 < 0x100000000 then (before + 1).toUInt32 else 0
  some ⟨number, offset - start + 1⟩

/-! Diagnostics.  What takes no part of a text is shown as it is without the checks. -/

def markedPart (line : Text) (start stop : Position) : Option (Text × Text) := do
  let first : Int := min ((start.column.toNat : Int) - 1) line.length
  let last : Int :=
    if stop.line = start.line then
      min (max ((stop.column.toNat : Int) - 1) first) line.length
    else line.length
  let before ← slice 0 first line
  let marked ← slice first last line
  some (before, marked)

def sourceLines (file : SourceFile) (first last : Nat) (lead : Nat → Text) : Option Text :=
  ((numbersFrom first last).mapM fun (n : Nat) =>
    (line file n).map fun text => lead n ++ text ++ [newline]).map List.flatten

def contextLines (file : SourceFile) (span : Span) (context : Nat) (color : Bool) :
    Option Text := do
  let start ← position file span.start
  let stop ← position file span.stop
  let number := start.line.toNat
  let gutterWidth := (Text.decimal number).length
  let gutter (label : Text) : Text :=
    " " ++ paint color [blue] (Text.fillLeft Text.blank gutterWidth label ++ " |") ++ " "
  let source ← sourceLines file (max (number - context) 1) number fun n => gutter (Text.decimal n)
  let text ← line file number
  let (before, marked) ← markedPart text start stop
  some (source ++ gutter [] ++ underBlanks before ++
    paint color [green, bold] (underline marked) ++ [newline])

def tailOf (file : SourceFile) (stop limit : UInt32) : Option Text :=
  if stop < limit then slice stop.toNat limit.toNat file.content else some []

def previewOfEdit (file : SourceFile) (edit : Edit) : Option Preview := do
  let start ← position file edit.span.start
  let stop ← position file edit.span.stop
  let first := start.line.toNat
  let last := max stop.line.toNat first
  let before ← (numbersFrom first last).mapM fun (n : Nat) => line file n
  let firstSpan ← lineSpan file first
  let head ← slice firstSpan.start.toNat edit.span.start.toNat file.content
  let lastSpan ← lineSpan file last
  let tail ← tailOf file edit.span.stop lastSpan.stop
  some { before, after := (Text.trimTail [newline] (head ++ edit.text ++ tail)).lines }

def preview (set : Option FileSet) (edit : Edit) : Option (Except PreviewError Preview) :=
  match set with
  | none => some (.error .noFiles)
  | some set =>
    match set.get? edit.span.file with
    | none => some (.error (.unknownFile edit.span.file))
    | some file =>
      if edit.span.stop < edit.span.start || file.content.length < edit.span.stop.toNat then
        some (.error (.outsideFile edit.span))
      else (previewOfEdit file edit).map .ok

def editLines (set : Option FileSet) (color : Bool) (edit : Edit) : Option Text :=
  (preview set edit).map fun
    | .error e => "    (no preview: " ++ e.message ++ ")\n"
    | .ok p =>
      p.before.flatMap (previewLine color red "- ") ++
        p.after.flatMap (previewLine color green "+ ")

def fixLines (set : Option FileSet) (options : PrettyOptions) (fix : Fix) : Option Text := do
  let edits ← (if options.preview then fix.edits else []).mapM (editLines set options.color)
  some ("  fix: " ++ fix.title ++ "\n" ++ edits.flatten)

def contextOf (set : Option FileSet) (options : PrettyOptions) (d : Diagnostic) : Option Text :=
  match set.bind (·.get? d.span.file) with
  | none => some []
  | some file =>
    if options.context < 0 then some []
    else contextLines file d.span options.context.toNat options.color

def prettyOne (set : Option FileSet) (cwd : Text) (options : PrettyOptions) (d : Diagnostic) :
    Option Text := do
  let context ← contextOf set options d
  let notes := if options.notes || d.code = .timings then d.notes else []
  let fixes ← (if options.fixes then d.fixes else []).mapM (fixLines set options)
  some (headline set cwd options d ++ context ++ notes.flatMap (noteLine set cwd options) ++
    fixes.flatten)

def pretty (bag : Bag) (set : Option FileSet) (cwd : Text) (options : PrettyOptions) :
    Option Text :=
  ((bag.filter options.least).items.mapM (prettyOne set cwd options)).map List.flatten

end Checked

namespace SourceFile

variable {file : SourceFile}

theorem pairwise_newlinesFrom (offset : Nat) (text : Text) :
    (newlinesFrom offset text).Pairwise (· < ·) := by
  induction text generalizing offset with
  | nil => exact .nil
  | cons byte rest ih =>
      rw [newlinesFrom]
      split
      · exact List.pairwise_cons.mpr ⟨fun place member => (mem_newlinesFrom member).1, ih _⟩
      · exact ih _

theorem newlines_lt {index : Nat} {place next : Nat} (here : file.newlines[index]? = some place)
    (there : file.newlines[index + 1]? = some next) : place < next := by
  have sorted := pairwise_newlinesFrom 0 (file.content.take 0x100000000)
  rw [← newlines_eq_take] at sorted
  obtain ⟨inside, rfl⟩ := List.getElem?_eq_some_iff.mp here
  obtain ⟨inside', rfl⟩ := List.getElem?_eq_some_iff.mp there
  exact List.pairwise_iff_getElem.mp sorted _ _ inside inside' (Nat.lt_succ_self index)

end SourceFile

namespace Checked

open Diagnostic SourceFile

variable {file : SourceFile}

/-! Every line is in range -/

theorem lineCount_eq (file : SourceFile) :
    lineCount file = some file.lineCount := by
  rw [lineCount, SourceFile.lineCount]
  rcases List.eq_nil_or_concat' file.content with empty | ⟨front, byte, filled⟩
  · rw [empty]
    rfl
  · have last : ((front ++ [byte]).length : Int) - 1 = front.length := by
      rw [List.length_append, List.length_singleton]
      omega
    rw [filled, if_pos (by simp), last, item_append, List.getLast?_concat]
    rfl

theorem exists_lineCount (file : SourceFile) :
    ∃ last ≤ 1, lineCount file = some (file.newlines.length + last) := by
  refine ⟨_, ?_, lineCount_eq file⟩
  split
  · exact Nat.zero_le 1
  · split <;> decide

theorem exists_lineStart (file : SourceFile) (number : Int) :
    ∃ start, lineStart file number = some start ∧
      (start = 0 ∨ ∃ index place : Nat, number = (index : Int) + 2 ∧
        file.newlines[index]? = some place ∧ start = place + 1) := by
  rw [lineStart]
  split
  · exact ⟨0, rfl, .inl rfl⟩
  · next inside =>
      obtain ⟨index, rfl⟩ : ∃ index : Nat, number = (index : Int) + 2 :=
        ⟨(number - 2).toNat, by omega⟩
      have listed : index < file.newlines.length := by omega
      have found := List.getElem?_eq_getElem listed
      rw [Int.add_sub_cancel, item_natCast, found]
      exact ⟨_, rfl, .inr ⟨index, _, rfl, found, rfl⟩⟩

theorem exists_lineStop (file : SourceFile) (number : Int) (first : 1 ≤ number) :
    ∃ stop, lineStop file number = some stop ∧ stop ≤ file.content.length ∧
      (number ≤ file.newlines.length → file.newlines[(number - 1).toNat]? = some stop) ∧
      (file.newlines.length < number → stop = file.content.length) := by
  rw [lineStop]
  split
  · next listed =>
      have inside : (number - 1).toNat < file.newlines.length := by omega
      have found := List.getElem?_eq_getElem inside
      rw [item, if_pos (by omega), found]
      refine ⟨_, rfl, (lt_length_of_mem_newlines (List.getElem_mem inside)).le, fun _ => rfl, ?_⟩
      omega
  · next beyond => exact ⟨_, rfl, Nat.le_refl _, by omega, fun _ => rfl⟩

theorem line_inRange (file : SourceFile) (number : Int) :
    ∃ start text, lineStart file number = some start ∧ line file number = some text ∧
      start + text.length ≤ file.content.length := by
  obtain ⟨last, few, count⟩ := exists_lineCount file
  obtain ⟨start, begun, place⟩ := exists_lineStart file number
  have inside : start ≤ file.content.length := by
    rcases place with rfl | ⟨index, newline, -, listed, rfl⟩
    · exact Nat.zero_le _
    · exact lt_length_of_mem_newlines (List.mem_of_getElem? listed)
  by_cases counted : number < 1 ∨ ((file.newlines.length + last : Nat) : Int) < number
  · refine ⟨start, [], begun, ?_, inside⟩
    simp only [line, count, Option.bind_eq_bind, Option.bind_some, if_pos counted]
  · obtain ⟨first, least⟩ := not_or.mp counted
    obtain ⟨stop, ended, inside', listed', whole⟩ :=
      exists_lineStop file number (Int.not_lt.mp first)
    have ordered : start ≤ stop := by
      rcases place with rfl | ⟨index, newline, rfl, listed, rfl⟩
      · exact Nat.zero_le _
      · by_cases inner : (index : Int) + 2 ≤ file.newlines.length
        · have next := listed' inner
          rw [show ((index : Int) + 2 - 1).toNat = index + 1 by omega] at next
          exact newlines_lt listed next
        · rw [whole (Int.not_le.mp inner)]
          exact inside
    refine ⟨start, (file.content.take stop).drop start, begun, ?_, ?_⟩
    · simp only [line, count, begun, ended, Option.bind_eq_bind, Option.bind_some, if_neg counted]
      exact slice_of_le ordered inside'
    · rw [List.length_drop, List.length_take]
      omega

theorem lineSpan_inRange (file : SourceFile) (number : Int) :
    ∃ start span, lineStart file number = some start ∧ lineSpan file number = some span ∧
      span.start.toNat ≤ start ∧ span.stop.toNat ≤ file.content.length := by
  obtain ⟨start, text, begun, found, inside⟩ := line_inRange file number
  by_cases small : start < 0x100000000 ∧ start + text.length < 0x100000000
  · refine ⟨start, ⟨file.id, start.toUInt32, (start + text.length).toUInt32⟩, begun, ?_, ?_, ?_⟩
    · simp only [lineSpan, begun, found, Option.bind_eq_bind, Option.bind_some, if_pos small]
    · exact (UInt32.toNat_ofNat_of_lt' small.1).le
    · exact (UInt32.toNat_ofNat_of_lt' small.2).le.trans inside
  · refine ⟨start, ⟨file.id, 0, 0⟩, begun, ?_, Nat.zero_le _, Nat.zero_le _⟩
    simp only [lineSpan, begun, found, Option.bind_eq_bind, Option.bind_some, if_neg small]

/-! Positions -/

theorem position_eq (file : SourceFile) (offset : UInt32) :
    position file offset = some (file.position offset) := by
  have bound : (file.newlines.takeWhile (· < offset.toNat)).length ≤ offset.toNat := by
    rw [file.takeWhile_newlines_eq offset.toNat_lt.le, length_newlinesFrom]
    exact List.count_le_length.trans (List.length_take_le _ _)
  have small := offset.toNat_lt
  have begins : file.newlines.takeWhile (· < offset.toNat) <+: file.newlines :=
    List.takeWhile_prefix _
  rw [position, SourceFile.position]
  generalize file.newlines.takeWhile (· < offset.toNat) = before at bound begins
  rcases List.eq_nil_or_concat' before with rfl | ⟨front, place, rfl⟩
  · rfl
  · obtain ⟨rest, whole⟩ := begins
    have last : (((front ++ [place]).length : Int) - 1) = front.length := by
      rw [List.length_append, List.length_singleton]
      omega
    have found : item front.length file.newlines = some place := by
      rw [← whole, List.append_assoc, List.singleton_append, item_append]
    have number : (if (front ++ [place]).length + 1 < 0x100000000 then
        ((front ++ [place]).length + 1).toUInt32 else 0) =
        (front ++ [place]).length.toUInt32 + 1 := by
      split
      · exact UInt32.ofNat_add _ 1
      · next wraps =>
          have full : (front ++ [place]).length = 0xFFFFFFFF := by omega
          rw [full]
          rfl
    simp only [List.getLast?_concat, last, found, number, Option.map_some, Option.bind_eq_bind,
      Option.bind_some]
    exact if_pos (by simp)

/-- A column wraps around to 0 at the last offset of 32 bits, if no newline stands in front. -/
theorem column_eq_zero_iff (file : SourceFile) (offset : UInt32) :
    (file.position offset).column = 0 ↔
      offset = 0xFFFFFFFF ∧ newline ∉ file.content.take 0xFFFFFFFF := by
  have count := length_newlinesFrom 0 (file.content.take offset.toNat)
  have within := file.takeWhile_newlines_eq offset.toNat_lt.le
  rw [SourceFile.position]
  generalize file.newlines.takeWhile (· < offset.toNat) = before at within
  rw [← within] at count
  rcases List.eq_nil_or_concat' before with rfl | ⟨front, place, rfl⟩
  · have single : newline ∉ file.content.take offset.toNat := List.count_eq_zero.mp count.symm
    dsimp only [List.getLast?_nil]
    rw [UInt32.sub_zero]
    constructor
    · intro wraps
      obtain rfl : offset = 0xFFFFFFFF := by grind
      exact ⟨rfl, single⟩
    · rintro ⟨rfl, -⟩
      rfl
  · have member : place ∈ newlinesFrom 0 (file.content.take offset.toNat) := by
      rw [← within]
      exact List.mem_append_right _ List.mem_cons_self
    have earlier : place < offset.toNat := by
      have inside := (mem_newlinesFrom member).2
      rw [List.length_take] at inside
      omega
    have there : newline ∈ file.content.take offset.toNat := by
      rw [← List.count_pos_iff, ← count, List.length_append]
      exact Nat.succ_pos _
    have small : place < 0x100000000 := earlier.trans offset.toNat_lt
    rw [List.getLast?_concat]
    dsimp only
    constructor
    · intro wraps
      have same : offset = place.toUInt32 := by grind
      rw [same, Nat.toUInt32_eq, UInt32.toNat_ofNat_of_lt' small] at earlier
      exact absurd earlier (Nat.lt_irrefl place)
    · rintro ⟨rfl, single⟩
      exact absurd there single

theorem markedPart_eq (line : Text) (start stop : Position) :
    markedPart line start stop = Diagnostic.markedPart? line start stop := by
  rw [markedPart, Diagnostic.markedPart?]
  have most := Int.min_le_right ((start.column.toNat : Int) - 1) line.length
  generalize min ((start.column.toNat : Int) - 1) line.length = first at most
  have ordered : first ≤ (if stop.line = start.line then
      min (max ((stop.column.toNat : Int) - 1) first) line.length else line.length) ∧
      (if stop.line = start.line then
        min (max ((stop.column.toNat : Int) - 1) first) line.length else line.length) ≤
        line.length := by
    split <;> omega
  generalize (if stop.line = start.line then
    min (max ((stop.column.toNat : Int) - 1) first) line.length else line.length) = last at ordered
  by_cases wraps : first < 0
  · rw [slice, if_neg (by omega), if_pos wraps]
    rfl
  · rw [slice, if_pos (by omega), slice, if_pos (by omega), if_neg wraps]
    rfl

theorem markedPart_eq_none_iff (line : Text) (start stop : Position) :
    markedPart line start stop = none ↔ start.column = 0 := by
  have zero : start.column = 0 ↔ start.column.toNat = 0 := UInt32.toNat_inj.symm
  rw [markedPart_eq, Diagnostic.markedPart?, zero]
  split
  · next wraps => exact iff_of_true rfl (by omega)
  · next inside => exact iff_of_false nofun (by omega)

/-! Excerpts -/

theorem sourceLines_inRange (file : SourceFile) (first last : Nat) (lead : Nat → Text) :
    ∃ source, sourceLines file first last lead = some source := by
  have each (number : Nat) (_ : number ∈ numbersFrom first last) :
      ∃ shown, ((line file number).map fun text => lead number ++ text ++ [newline]) =
        some shown := by
    obtain ⟨-, text, -, found, -⟩ := line_inRange file number
    exact ⟨lead number ++ text ++ [newline], by rw [found]; rfl⟩
  obtain ⟨lines, made⟩ := exists_mapM each
  exact ⟨lines.flatten, by rw [sourceLines, made]; rfl⟩

theorem contextLines_eq_none_iff (file : SourceFile) (span : Span) (context : Nat) (color : Bool) :
    contextLines file span context color = none ↔ (file.position span.start).column = 0 := by
  obtain ⟨-, text, -, found, -⟩ := line_inRange file (file.position span.start).line.toNat
  rw [← markedPart_eq_none_iff text _ (file.position span.stop), contextLines, position_eq,
    position_eq]
  simp only [Option.bind_eq_bind, Option.bind_some, found]
  cases markedPart text (file.position span.start) (file.position span.stop) with
  | none => simp
  | some parts => simpa using sourceLines_inRange file _ _ _

theorem lineStart_le_of_position {offset : UInt32} {start : Nat}
    (begun : lineStart file (file.position offset).line.toNat = some start) :
    start ≤ offset.toNat := by
  obtain ⟨start', begun', place⟩ := exists_lineStart file (file.position offset).line.toNat
  rw [begun] at begun'
  obtain rfl := Option.some.inj begun'
  rcases place with rfl | ⟨index, place, number, listed, rfl⟩
  · exact Nat.zero_le _
  · have lines : (file.position offset).line.toNat ≤
        (file.newlines.takeWhile (· < offset.toNat)).length + 1 := by
      have few : (file.newlines.takeWhile (· < offset.toNat)).length.toUInt32.toNat ≤ _ :=
        Nat.mod_le _ _
      have wrapped : (file.position offset).line.toNat ≤ _ := Nat.mod_le _ _
      exact wrapped.trans (Nat.add_le_add_right few 1)
    have inside : index < (file.newlines.takeWhile (· < offset.toNat)).length := by omega
    obtain ⟨inside', rfl⟩ := List.getElem?_eq_some_iff.mp listed
    have same : (file.newlines.takeWhile (· < offset.toNat))[index] = file.newlines[index] :=
      (List.takeWhile_prefix _).getElem inside
    rw [← same]
    have early := List.mem_takeWhile_imp (List.getElem_mem inside)
    exact of_decide_eq_true early

theorem head_inRange (file : SourceFile) {offset : UInt32}
    (inside : offset.toNat ≤ file.content.length) :
    ∃ span, lineSpan file (file.position offset).line.toNat = some span ∧
      slice span.start.toNat offset.toNat file.content =
        some (file.slice span.start.toNat offset.toNat) := by
  obtain ⟨start, span, begun, found, early, -⟩ :=
    lineSpan_inRange file (file.position offset).line.toNat
  exact ⟨span, found, slice_of_le (early.trans (lineStart_le_of_position begun)) inside⟩

theorem tail_inRange (file : SourceFile) (number : Int) (offset : UInt32) :
    ∃ span, lineSpan file number = some span ∧
      tailOf file offset span.stop = some (file.slice offset.toNat span.stop.toNat) := by
  obtain ⟨-, span, -, found, -, late⟩ := lineSpan_inRange file number
  refine ⟨span, found, ?_⟩
  rw [tailOf]
  split
  · next behind => exact slice_of_le (UInt32.le_iff_toNat_le.mp (UInt32.le_of_lt behind)) late
  · next ended =>
      have before : span.stop.toNat ≤ offset.toNat :=
        UInt32.le_iff_toNat_le.mp (UInt32.not_lt.mp ended)
      rw [SourceFile.slice, List.drop_eq_nil_of_le ((List.length_take_le _ _).trans before)]

/-- The parts of a preview are in range. -/
theorem previewOfEdit_inRange {edit : Edit} (ordered : edit.span.start ≤ edit.span.stop)
    (inside : edit.span.stop.toNat ≤ file.content.length) :
    ∃ before firstSpan lastSpan,
      (numbersFrom (file.position edit.span.start).line.toNat
        (max (file.position edit.span.stop).line.toNat
          (file.position edit.span.start).line.toNat)).mapM (fun n : Nat => line file n) =
        some before ∧
      lineSpan file (file.position edit.span.start).line.toNat = some firstSpan ∧
      lineSpan file (max (file.position edit.span.stop).line.toNat
        (file.position edit.span.start).line.toNat : Nat) = some lastSpan ∧
      previewOfEdit file edit = some
        { before
          after := (Text.trimTail [newline] (file.slice firstSpan.start.toNat edit.span.start.toNat ++
            edit.text ++ file.slice edit.span.stop.toNat lastSpan.stop.toNat)).lines } := by
  have inside' : edit.span.start.toNat ≤ file.content.length :=
    (UInt32.le_iff_toNat_le.mp ordered).trans inside
  obtain ⟨firstSpan, first, head⟩ := head_inRange file inside'
  rw [previewOfEdit, position_eq, position_eq]
  simp only [Option.bind_eq_bind, Option.bind_some, first]
  generalize (file.position edit.span.start).line.toNat = start
  generalize max (file.position edit.span.stop).line.toNat start = stop
  obtain ⟨lastSpan, last, tail⟩ := tail_inRange file stop edit.span.stop
  obtain ⟨before, lines⟩ : ∃ before,
      (numbersFrom start stop).mapM (fun n : Nat => line file n) = some before :=
    exists_mapM fun number _ =>
      have ⟨_, text, _, found, _⟩ := line_inRange file number
      ⟨text, found⟩
  refine ⟨before, firstSpan, lastSpan, lines, rfl, last, ?_⟩
  simp only [lines, last, head, tail, Option.bind_some]

theorem preview_inRange (set : Option FileSet) (edit : Edit) :
    ∃ answer, preview set edit = some answer := by
  cases set with
  | none => exact ⟨_, rfl⟩
  | some set =>
      simp only [preview]
      split
      · exact ⟨_, rfl⟩
      · next file found =>
          split
          · exact ⟨_, rfl⟩
          · next proper =>
              simp only [Bool.or_eq_true, decide_eq_true_eq, not_or, Nat.not_lt] at proper
              obtain ⟨_, _, _, -, -, -, made⟩ :=
                previewOfEdit_inRange (UInt32.not_lt.mp proper.1) proper.2
              exact ⟨_, by rw [made]; rfl⟩

theorem editLines_inRange (set : Option FileSet) (color : Bool) (edit : Edit) :
    ∃ lines, editLines set color edit = some lines := by
  obtain ⟨answer, found⟩ := preview_inRange set edit
  exact ⟨_, by rw [editLines, found]; rfl⟩

theorem fixLines_inRange (set : Option FileSet) (options : PrettyOptions) (fix : Fix) :
    ∃ lines, fixLines set options fix = some lines := by
  obtain ⟨edits, found⟩ :=
    exists_mapM fun edit (_ : edit ∈ if options.preview then fix.edits else []) =>
      editLines_inRange set options.color edit
  exact ⟨_, by rw [fixLines, found]; rfl⟩

/-- The context of a diagnostic begins in a column that does not exist. -/
structure Wraps (set : Option FileSet) (options : PrettyOptions) (d : Diagnostic) : Prop where
  context : 0 ≤ options.context
  start : d.span.start = 0xFFFFFFFF
  file : ∃ files file, set = some files ∧ files.get? d.span.file = some file ∧
    newline ∉ file.content.take 0xFFFFFFFF

theorem contextOf_eq_none_iff {set : Option FileSet} {options : PrettyOptions} {d : Diagnostic} :
    contextOf set options d = none ↔ Wraps set options d := by
  rw [contextOf]
  cases found : set.bind (·.get? d.span.file) with
  | none =>
      refine iff_of_false nofun fun wraps => ?_
      obtain ⟨files, file, rfl, known, -⟩ := wraps.file
      rw [Option.bind_some, known] at found
      cases found
  | some file =>
      obtain ⟨files, rfl, known⟩ := Option.bind_eq_some_iff.mp found
      dsimp only
      split
      · next negative => exact iff_of_false nofun fun wraps => Int.not_le.mpr negative wraps.context
      · next shown =>
          rw [contextLines_eq_none_iff, column_eq_zero_iff]
          constructor
          · rintro ⟨start, single⟩
            exact ⟨Int.not_lt.mp shown, start, files, file, rfl, known, single⟩
          · rintro ⟨-, start, files', file', same, known', single⟩
            cases same
            rw [known] at known'
            cases known'
            exact ⟨start, single⟩

theorem prettyOne_eq_none_iff {set : Option FileSet} {cwd : Text} {options : PrettyOptions}
    {d : Diagnostic} : prettyOne set cwd options d = none ↔ Wraps set options d := by
  obtain ⟨fixes, found⟩ :=
    exists_mapM fun fix (_ : fix ∈ if options.fixes then d.fixes else []) =>
      fixLines_inRange set options fix
  rw [← contextOf_eq_none_iff, prettyOne]
  cases contextOf set options d with
  | none => exact iff_of_true rfl rfl
  | some context =>
      simp only [Option.bind_eq_bind, Option.bind_some, found]
      exact iff_of_false nofun nofun

/-! With the checks and without -/

theorem lineStart_eq (file : SourceFile) (number : Int) :
    lineStart file number = some (file.lineStart number) := by
  rw [lineStart, SourceFile.lineStart]
  by_cases first : number ≤ 1
  · rw [if_pos (.inl first), if_pos first]
  · rw [if_neg first]
    split
    · next beyond => rw [List.getElem?_eq_none (by omega)]
    · next listed =>
        have inside : (number - 2).toNat < file.newlines.length := by omega
        rw [item, if_pos (by omega), List.getElem?_eq_getElem inside]
        rfl

theorem lineStop_eq (file : SourceFile) {number : Int} (first : 1 ≤ number) :
    lineStop file number = some (file.lineStop number) := by
  rw [lineStop, SourceFile.lineStop]
  split
  · next listed =>
      have inside : (number - 1).toNat < file.newlines.length := by omega
      rw [item, if_pos (by omega), List.getElem?_eq_getElem inside]
      rfl
  · next beyond =>
      rw [List.getElem?_eq_none (by omega)]
      rfl

theorem line_eq (file : SourceFile) (number : Int) : line file number = some (file.line number) := by
  obtain ⟨-, text, -, found, -⟩ := line_inRange file number
  rw [found]
  simp only [line, lineCount_eq, lineStart_eq, Option.bind_eq_bind, Option.bind_some] at found
  by_cases counted : number < 1 ∨ (file.lineCount : Int) < number
  · rw [if_pos counted] at found
    rw [SourceFile.line, if_pos (by simpa using counted)]
    exact found.symm
  · have first : 1 ≤ number := by omega
    rw [if_neg counted, lineStop_eq file first, Option.bind_some, slice] at found
    rw [SourceFile.line, if_neg (by simpa using counted)]
    split at found
    · exact found.symm
    · cases found

theorem lineSpan_eq (file : SourceFile) (number : Int) :
    lineSpan file number = some (file.lineSpan number) := by
  simp only [lineSpan, lineStart_eq, line_eq, Option.bind_eq_bind, Option.bind_some]
  rw [SourceFile.lineSpan]
  split
  · next both => rw [if_pos both.2]
  · next beyond => rw [if_neg (by omega)]

theorem sourceLines_eq (file : SourceFile) (first last : Nat) (lead : Nat → Text) :
    sourceLines file first last lead =
      some ((numbersFrom first last).flatMap fun (n : Nat) => lead n ++ file.line n ++ [newline]) := by
  rw [sourceLines, mapM_eq_map fun (n : Nat) _ => by rw [line_eq]; rfl]
  rw [List.flatMap]
  rfl

theorem contextLines_eq (file : SourceFile) (span : Span) (context : Nat) (color : Bool) :
    contextLines file span context color = contextLines? file span context color := by
  rw [contextLines, position_eq, position_eq]
  simp only [Option.bind_eq_bind, Option.bind_some, sourceLines_eq, line_eq, markedPart_eq,
    contextLines?]
  cases markedPart? (file.line (file.position span.start).line.toNat) (file.position span.start)
    (file.position span.stop) <;> rfl

theorem previewOfEdit_eq {edit : Edit} (ordered : edit.span.start ≤ edit.span.stop)
    (inside : edit.span.stop.toNat ≤ file.content.length) :
    previewOfEdit file edit = some (.ofEdit file edit) := by
  obtain ⟨before, firstSpan, lastSpan, lines, first, last, made⟩ :=
    previewOfEdit_inRange ordered inside
  rw [mapM_eq_map fun (n : Nat) _ => line_eq file n] at lines
  rw [lineSpan_eq] at first last
  cases lines
  cases first
  cases last
  exact made

theorem preview_eq (set : Option FileSet) (edit : Edit) :
    preview set edit = some (Diagnostic.preview set edit) := by
  cases set with
  | none => rfl
  | some set =>
      simp only [preview, Diagnostic.preview]
      cases found : set.get? edit.span.file with
      | none => rfl
      | some file =>
          dsimp only
          split
          · rfl
          · next proper =>
              simp only [Bool.or_eq_true, decide_eq_true_eq, not_or, Nat.not_lt] at proper
              rw [previewOfEdit_eq (UInt32.not_lt.mp proper.1) proper.2]
              rfl

theorem editLines_eq (set : Option FileSet) (color : Bool) (edit : Edit) :
    editLines set color edit = some (Diagnostic.editLines set color edit) := by
  rw [editLines, preview_eq]
  cases shown : Diagnostic.preview set edit with
  | error e => simp only [Diagnostic.editLines, shown, Option.map_some]
  | ok p => simp only [Diagnostic.editLines, shown, Option.map_some]

theorem fixLines_eq (set : Option FileSet) (options : PrettyOptions) (fix : Fix) :
    fixLines set options fix = some (Diagnostic.fixLines set options fix) := by
  rw [fixLines, mapM_eq_map fun edit _ => editLines_eq set options.color edit, Diagnostic.fixLines]
  cases options.preview <;> rfl

theorem contextOf_eq (set : Option FileSet) (options : PrettyOptions) (d : Diagnostic) :
    contextOf set options d = contextOf? set options d := by
  rw [contextOf, contextOf?]
  cases found : set.bind (·.get? d.span.file) with
  | none => rfl
  | some file =>
      obtain ⟨files, rfl, known⟩ := Option.bind_eq_some_iff.mp found
      dsimp only
      rw [contextLines_eq]

theorem prettyOne_eq (set : Option FileSet) (cwd : Text) (options : PrettyOptions) (d : Diagnostic) :
    prettyOne set cwd options d = pretty? set cwd options d := by
  rw [prettyOne, contextOf_eq, mapM_eq_map fun fix _ => fixLines_eq set options fix, pretty?]
  cases contextOf? set options d <;> rfl

theorem pretty_eq (bag : Bag) (set : Option FileSet) (cwd : Text) (options : PrettyOptions) :
    pretty bag set cwd options = bag.pretty? set cwd options := by
  have same : prettyOne set cwd options = pretty? set cwd options :=
    funext fun d => prettyOne_eq set cwd options d
  rw [pretty, same, Bag.pretty?]

theorem exists_wraps_iff {bag : Bag} {set : Option FileSet} {cwd : Text} {options : PrettyOptions} :
    bag.pretty? set cwd options = none ↔
      ∃ d ∈ bag.items, d.severity.atLeast options.least ∧ Wraps set options d := by
  rw [← pretty_eq, pretty, Option.map_eq_none_iff, mapM_eq_none_iff, Bag.filter]
  simp only [List.mem_filter, prettyOne_eq_none_iff, and_assoc]

/-- Showing the diagnostics of a bag takes a part of a text out of range exactly if one that is
shown begins at the last offset of 32 bits, in a file with no newline in front of it. -/
theorem pretty_eq_none_iff (bag : Bag) (set : Option FileSet) (cwd : Text)
    (options : PrettyOptions) :
    (pretty bag set cwd options = none ↔
      ∃ d ∈ bag.items, d.severity.atLeast options.least ∧ Wraps set options d) ∧
    pretty bag set cwd options = bag.pretty? set cwd options := by
  rw [pretty_eq]
  exact ⟨exists_wraps_iff, rfl⟩

/-- A span behind the end of a file of one line. -/
theorem pretty_out_of_range :
    let set : FileSet := { files := [{ id := 1, path := "t.v", content := "a" }] }
    let bag : Bag := (Bag.ofLimit 10).add (.error .wouldChange ⟨1, 0xFFFFFFFF, 0xFFFFFFFF⟩ "m")
    bag.size = 1 ∧ pretty bag (some set) "/" {} = none ∧ bag.pretty? (some set) "/" {} = none := by
  decide

end Checked

end HdlAlign
