import HdlAlign.Diagnostic.Preview
import HdlAlign.Proofs.Offsets

/-! Previews of edits show the lines of a file that an edit touches, and what they are after it. -/

namespace HdlAlign

open Text

namespace Text

/-- Lines in front of a part, its own lines and those behind it are all lines, if the part begins
and ends where lines do. -/
theorem exists_lines_append {before after : Text} (start : AtLineStart before)
    (stop : AtLineEnd after) :
    ∃ front back, front.length = before.count newline ∧
      ∀ middle, lines (before ++ middle ++ after) = front ++ lines middle ++ back := by
  obtain ⟨back, behind⟩ : ∃ back, ∀ middle, lines (middle ++ after) = lines middle ++ back := by
    rcases atLineEnd_iff.mp stop with rfl | ⟨rest, rfl⟩
    · exact ⟨[], fun middle => by rw [List.append_nil, List.append_nil]⟩
    · exact ⟨lines rest, fun middle => lines_append_newline middle rest⟩
  rcases atLineStart_iff.mp start with rfl | ⟨front, rfl⟩
  · exact ⟨[], back, rfl, behind⟩
  · refine ⟨lines front, back, ?_, fun middle => ?_⟩
    · rw [length_lines, List.count_append]
      rfl
    · rw [behind, List.append_assoc, List.singleton_append, lines_append_newline]

theorem lines_replace {before after : Text} (start : AtLineStart before) (stop : AtLineEnd after)
    (old new : Text) :
    lines (before ++ new ++ after) =
      (lines (before ++ old ++ after)).take (before.count newline) ++ lines new ++
        (lines (before ++ old ++ after)).drop (before.count newline + (old.count newline + 1)) := by
  obtain ⟨front, back, length, parts⟩ := exists_lines_append start stop
  rw [parts old, parts new, ← length, ← length_lines old, ← List.length_append, List.drop_left,
    List.append_assoc front old.lines, List.take_left]

theorem lines_trimTail_newline (text : Text) :
    lines text =
      lines (trimTail [newline] text) ++ if text.getLast? = some newline then [[]] else [] := by
  rw [trimTail]
  cases dropped : dropTail? [newline] text with
  | some body =>
      obtain rfl := Assignment.dropTail?_eq_some_iff.mp dropped
      rw [if_pos List.getLast?_concat, lines_append_newline]
      rfl
  | none =>
      have other : text.getLast? ≠ some newline := fun last => by
        obtain ⟨body, rfl⟩ := List.getLast?_eq_some_iff.mp last
        rw [Assignment.dropTail?_eq_some_iff.mpr rfl] at dropped
        cases dropped
      rw [if_neg other, List.append_nil]
      rfl

end Text

namespace SourceFile

variable {file : SourceFile} {before line after : Text}

section

variable (small : file.content.length ≤ 0x100000000)

include small

theorem line_eq_of_wholeLine (whole : WholeLine file.content before line after) :
    file.line (before.count newline + 1) = line := by
  by_cases counted : before.count newline < file.lineCount
  · exact line_of_wholeLine small whole counted
  · have empty : line = [] := by
      by_contra filled
      exact counted (lt_lineCount small whole filled)
    rw [line_of_not_counted (.inr (by omega)), empty]

theorem getElem?_lines_eq_line {place : Nat} (inside : place < file.content.lines.length) :
    file.content.lines[place]? = some (file.line (place + 1)) := by
  have found := List.getElem?_eq_getElem inside
  obtain ⟨before, after, whole, rfl⟩ := wholeLine_of_getElem?_lines found
  rw [found, line_eq_of_wholeLine small whole]

theorem map_line_numbersFrom {first last : Nat} (counted : 1 ≤ first)
    (inside : last ≤ file.content.lines.length) :
    (Diagnostic.numbersFrom first last).map (fun n : Nat => file.line n) =
      (file.content.lines.take last).drop (first - 1) := by
  refine List.ext_getElem? fun place => ?_
  rw [Diagnostic.numbersFrom, List.map_map, List.getElem?_map, List.getElem?_drop,
    List.getElem?_take]
  by_cases early : place < last + 1 - first
  · rw [List.getElem?_range early, if_pos (by omega), getElem?_lines_eq_line small (by omega)]
    simp only [Option.map_some, Function.comp_apply]
    congr 2
    omega
  · rw [List.getElem?_eq_none (by rw [List.length_range]; omega), if_neg (by omega)]
    rfl

end

theorem offsets_lineSpan (small : file.content.length < 0x100000000)
    (whole : WholeLine file.content before line after) :
    (file.lineSpan (before.count newline + 1)).start.toNat = before.length ∧
      (file.lineSpan (before.count newline + 1)).stop.toNat = before.length + line.length := by
  have length := congrArg List.length whole.split
  rw [List.length_append, List.length_append] at length
  rw [lineSpan, lineStart_of_wholeLine small.le whole, line_eq_of_wholeLine small.le whole,
    if_pos (by omega)]
  constructor <;> exact UInt32.toNat_ofNat_of_lt' (by show _ < 0x100000000; omega)

/-- A span and the lines that it touches: `head` is left of the first line, `tail` of the last. -/
structure Touches (file : SourceFile) (span : Span) (before head cut tail after : Text) : Prop where
  split : file.content = before ++ (head ++ cut ++ tail) ++ after
  begun : AtLineStart before
  ended : AtLineEnd after
  singleHead : newline ∉ head
  singleTail : newline ∉ tail
  start : span.start.toNat = before.length + head.length
  stop : span.stop.toNat = before.length + head.length + cut.length

theorem exists_touches {span : Span} (ordered : span.start ≤ span.stop)
    (inside : span.stop.toNat ≤ file.content.length) :
    ∃ before head cut tail after, file.Touches span before head cut tail after := by
  have ordered' := UInt32.le_iff_toNat_le.mp ordered
  obtain ⟨before, front, begun, singleHead⟩ :=
    exists_append_afterLast (file.content.take span.start.toNat)
  generalize afterLast newline (file.content.take span.start.toNat) = head at front singleHead
  obtain ⟨tail, after, back, ended, singleTail⟩ :=
    exists_append_atLineEnd (file.content.drop span.stop.toNat)
  have length := congrArg List.length front
  rw [List.length_take, List.length_append, Nat.min_eq_left (by omega)] at length
  refine ⟨before, head, (file.content.take span.stop.toNat).drop span.start.toNat, tail, after,
    ?_, begun, ended, singleHead, singleTail, length, ?_⟩
  · have upTo : (file.content.take span.stop.toNat).take span.start.toNat = before ++ head := by
      rw [List.take_take, Nat.min_eq_left ordered', front]
    calc file.content
      _ = file.content.take span.stop.toNat ++ (tail ++ after) := by
          rw [← back, List.take_append_drop]
      _ = (before ++ head) ++ (file.content.take span.stop.toNat).drop span.start.toNat ++
            (tail ++ after) := by
          rw [← upTo, List.take_append_drop]
      _ = _ := by
          simp only [List.append_assoc]
  · rw [← length, List.length_drop, List.length_take]
    omega

namespace Touches

variable {span : Span} {head cut tail : Text} (touches : file.Touches span before head cut tail after)

include touches

theorem take_start : file.content.take span.start.toNat = before ++ head := by
  have here : file.content = (before ++ head) ++ (cut ++ tail ++ after) := by
    rw [touches.split]
    simp only [List.append_assoc]
  rw [here, touches.start, ← List.length_append, List.take_left]

theorem split_stop : file.content = (before ++ head ++ cut) ++ (tail ++ after) ∧
    span.stop.toNat = (before ++ head ++ cut).length := by
  rw [touches.split, touches.stop]
  exact ⟨by simp only [List.append_assoc], by simp only [List.length_append]⟩

theorem splice_eq (text : Text) : file.splice span.start.toNat span.stop.toNat text =
    before ++ (head ++ text ++ tail) ++ after := by
  obtain ⟨split, stop⟩ := touches.split_stop
  rw [splice, touches.take_start, split, stop, List.drop_left]
  simp only [List.append_assoc]

theorem number_start (small : file.content.length < 0xFFFFFFFF) :
    (file.position span.start).line.toNat = before.count newline + 1 := by
  have inside : span.start.toNat ≤ file.content.length := by
    rw [touches.start, touches.split]
    simp only [List.length_append]
    omega
  have marks := (marks_position small inside).line
  rw [Nat.toUInt32_eq, UInt32.ofNat_toNat, touches.take_start, List.count_append,
    List.count_eq_zero.mpr touches.singleHead] at marks
  exact marks

theorem number_stop (small : file.content.length < 0xFFFFFFFF) :
    (file.position span.stop).line.toNat = before.count newline + cut.count newline + 1 := by
  obtain ⟨split, stop⟩ := touches.split_stop
  have inside : span.stop.toNat ≤ file.content.length := by
    rw [stop, split]
    exact (List.prefix_append _ _).length_le
  have marks := (marks_position small inside).line
  rw [Nat.toUInt32_eq, UInt32.ofNat_toNat, stop, split, List.take_left, List.count_append,
    List.count_append, List.count_eq_zero.mpr touches.singleHead] at marks
  exact marks

theorem count_middle : (head ++ cut ++ tail).count newline = cut.count newline := by
  rw [List.count_append, List.count_append, List.count_eq_zero.mpr touches.singleHead,
    List.count_eq_zero.mpr touches.singleTail, Nat.zero_add, Nat.add_zero]

theorem slice_head (small : file.content.length < 0xFFFFFFFF) :
    file.slice (file.lineSpan (before.count newline + 1)).start.toNat span.start.toNat = head := by
  obtain ⟨line, behind, first, ended, single⟩ := exists_append_atLineEnd (head ++ cut ++ tail ++ after)
  have whole : WholeLine file.content before line behind :=
    ⟨by rw [touches.split, List.append_assoc, first, List.append_assoc], touches.begun, ended, single⟩
  rw [(offsets_lineSpan (by omega) whole).1, slice, touches.take_start, List.drop_left]

theorem slice_tail (small : file.content.length < 0xFFFFFFFF) :
    file.slice span.stop.toNat
      (file.lineSpan (before.count newline + cut.count newline + 1)).stop.toNat = tail := by
  obtain ⟨split, stop⟩ := touches.split_stop
  obtain ⟨front, whole, begun, single⟩ := exists_append_afterLast (before ++ head ++ cut)
  generalize afterLast newline (before ++ head ++ cut) = line at whole single
  have last : WholeLine file.content front (line ++ tail) after :=
    ⟨by rw [split, whole]; simp only [List.append_assoc], begun, touches.ended,
      by simp [single, touches.singleTail]⟩
  have number : front.count newline = before.count newline + cut.count newline := by
    have count := congrArg (List.count newline) whole
    simp only [List.count_append, List.count_eq_zero.mpr single,
      List.count_eq_zero.mpr touches.singleHead, Nat.add_zero] at count
    exact count.symm
  have reached := (offsets_lineSpan (by omega) last).2
  rw [← Nat.cast_add, ← number, reached, slice, stop, whole, last.split, ← List.length_append,
    List.take_left, ← List.append_assoc, List.drop_left]

end Touches

end SourceFile

/-- The new text ends with a newline, and nothing of the last line is left behind it. -/
def Edit.EndsLine (file : SourceFile) (edit : Edit) : Prop :=
  edit.text.getLast? = some newline ∧ AtLineEnd (file.content.drop edit.span.stop.toNat)

theorem SourceFile.Touches.endsLine_iff {file : SourceFile} {edit : Edit}
    {before head cut tail after : Text} (touches : file.Touches edit.span before head cut tail after) :
    edit.EndsLine file ↔ (head ++ edit.text ++ tail).getLast? = some newline := by
  obtain ⟨split, stop⟩ := touches.split_stop
  have behind : file.content.drop edit.span.stop.toNat = tail ++ after := by
    rw [stop, split, List.drop_left]
  rw [Edit.EndsLine, behind]
  cases tail with
  | cons byte rest =>
      -- What is left of the last line has no newline, neither at its beginning nor at its end.
      refine iff_of_false (fun ends => touches.singleTail ?_) fun last => touches.singleTail ?_
      · rw [← ends.2 byte rfl]
        exact List.mem_cons_self
      · rw [List.getLast?_append_of_ne_nil _ (List.cons_ne_nil _ _)] at last
        exact List.mem_of_getLast? last
  | nil =>
      rw [List.append_nil, List.nil_append, and_iff_left touches.ended]
      by_cases empty : edit.text = []
      · rw [empty, List.append_nil]
        exact iff_of_false (by simp) fun last => touches.singleHead (List.mem_of_getLast? last)
      · rw [List.getLast?_append_of_ne_nil _ empty]

namespace Diagnostic

variable {set : FileSet} {file : SourceFile} {edit : Edit}

/-- What a preview shows of an edit that begins on a first line and ends on a last one: these lines,
and the lines that take their place, less an empty one that the edit ends. -/
structure Preview.Shows (file : SourceFile) (edit : Edit) (first last : Nat) (shown : Preview) :
    Prop where
  before : shown.before = (file.content.lines.take last).drop (first - 1)
  after : file.content.lines.take (first - 1) ++ shown.after ++ file.content.lines.drop last =
    (file.splice edit.span.start.toNat edit.span.stop.toNat edit.text).lines ↔ ¬ edit.EndsLine file
  short : edit.EndsLine file →
    file.content.lines.take (first - 1) ++ (shown.after ++ [[]]) ++ file.content.lines.drop last =
      (file.splice edit.span.start.toNat edit.span.stop.toNat edit.text).lines

theorem Preview.ofEdit_eq {before head cut tail after : Text}
    (touches : file.Touches edit.span before head cut tail after)
    (small : file.content.length < 0xFFFFFFFF) :
    Preview.ofEdit file edit =
      { before := (file.content.lines.take (before.count newline + cut.count newline + 1)).drop
          (before.count newline)
        after := (trimTail [newline] (head ++ edit.text ++ tail)).lines } := by
  have few : before.count newline + cut.count newline + 1 ≤ file.content.lines.length := by
    rw [length_lines, touches.split]
    simp only [List.count_append]
    omega
  rw [ofEdit, touches.number_start small, touches.number_stop small,
    Nat.max_eq_left (by omega)]
  simp only [Nat.cast_add, Nat.cast_one, touches.slice_head small, touches.slice_tail small]
  rw [SourceFile.map_line_numbersFrom (by omega) (by omega) few]
  rfl

theorem preview_exact (found : set.get? edit.span.file = some file)
    (small : file.content.length < 0xFFFFFFFF) (ordered : edit.span.start ≤ edit.span.stop)
    (inside : edit.span.stop.toNat ≤ file.content.length) :
    ∃ shown, preview (some set) edit = .ok shown ∧
      shown.Shows file edit (set.resolve edit.span).1.line.toNat
        (set.resolve edit.span).2.line.toNat := by
  obtain ⟨before, head, cut, tail, after, touches⟩ := SourceFile.exists_touches ordered inside
  have answered : preview (some set) edit = .ok (.ofEdit file edit) := by
    simp only [preview, found]
    rw [if_neg]
    simp [inside, ordered]
  refine ⟨_, answered, ?_⟩
  rw [FileSet.resolve, found]
  dsimp only
  rw [touches.number_start small, touches.number_stop small, Preview.ofEdit_eq touches small]
  have replaced := lines_replace touches.begun touches.ended (head ++ cut ++ tail)
    (head ++ edit.text ++ tail)
  rw [← touches.split, ← touches.splice_eq, touches.count_middle, ← Nat.add_assoc,
    lines_trimTail_newline (head ++ edit.text ++ tail)] at replaced
  constructor
  case before => rfl
  case short =>
    intro ends
    rw [if_pos (touches.endsLine_iff.mp ends)] at replaced
    exact replaced.symm
  case after =>
    rw [touches.endsLine_iff]
    by_cases ends : (head ++ edit.text ++ tail).getLast? = some newline
    · -- The lines differ in number.
      rw [if_pos ends] at replaced
      refine iff_of_false (fun same => ?_) (not_not_intro ends)
      have length := congrArg List.length (same.trans replaced)
      simp only [List.length_append, List.length_singleton, Nat.add_sub_cancel] at length
      omega
    · rw [if_neg ends, List.append_nil] at replaced
      exact iff_of_true replaced.symm ends

/-- An edit from the middle of a line to the middle of another, with a line between them. -/
theorem preview_exact_across :
    let file : SourceFile := { id := 1, path := "t.v", content := "reg a;\n\nwire b;\n" }
    let set : FileSet := { files := [file] }
    let edit : Edit := ⟨⟨1, 4, 13⟩, "x;\nreg "⟩
    preview (some set) edit = .ok
        { before := Text.literals ["reg a;", "", "wire b;"]
          after := Text.literals ["reg x;", "reg b;"] } ∧
      (file.splice 4 13 edit.text).lines = Text.literals ["reg x;", "reg b;", ""] ∧
      ∃ shown, preview (some set) edit = .ok shown ∧
        shown.Shows file edit (set.resolve edit.span).1.line.toNat
          (set.resolve edit.span).2.line.toNat :=
  ⟨by decide, by decide, preview_exact rfl (by decide) (by decide) (by decide)⟩

/-- An edit that puts an empty line behind the first one, and a preview that shows no change. -/
theorem preview_empty_line_missing :
    let file : SourceFile := { id := 1, path := "t.v", content := "a\nb" }
    let set : FileSet := { files := [file] }
    let edit : Edit := ⟨⟨1, 1, 1⟩, "\n"⟩
    preview (some set) edit =
        .ok { before := Text.literals ["a"], after := Text.literals ["a"] } ∧
      (set.resolve edit.span).1.line = 1 ∧ (set.resolve edit.span).2.line = 1 ∧
      file.content.lines.take 0 ++ Text.literals ["a"] ++ file.content.lines.drop 1 ≠
        (file.splice 1 1 edit.text).lines := by
  decide

end Diagnostic

end HdlAlign
