import HdlAlign.Proofs.Delivery
import HdlAlign.Proofs.LineEndings

/-! What formatting some lines of a file makes of the other lines. -/

namespace HdlAlign

namespace LineRange

def before (range : LineRange) (text : Text) : Text := text.takeLines (range.first - 1).toNat

def behind (range : LineRange) (text : Text) : Text :=
  if range.last = 0 then [] else text.dropLines range.last.toNat

/-- Bytes that keep the lines of a text outside a range. -/
def Frames (range : LineRange) (text bytes : Text) : Prop :=
  ∃ middle, bytes = range.before text ++ middle ++ range.behind text

theorem before_dropReturns (range : LineRange) (text : Text) :
    range.before (dropReturns text) = dropReturns (range.before text) :=
  (dropReturns_takeLines _ _).symm

theorem behind_dropReturns (range : LineRange) (text : Text) :
    range.behind (dropReturns text) = dropReturns (range.behind text) := by
  rw [behind, behind]
  split
  · rfl
  · exact (dropReturns_dropLines _ _).symm

end LineRange

open Text

namespace SourceFile

/-! Offsets of lines.  A text of up to 2 ^ 32 bytes has no newline that is left out. -/

theorem mem_newlinesFrom {offset place : Nat} {text : Text}
    (member : place ∈ newlinesFrom offset text) : offset ≤ place ∧ place < offset + text.length := by
  induction text generalizing offset with
  | nil => cases member
  | cons byte rest ih =>
      rw [newlinesFrom] at member
      have later (member : place ∈ newlinesFrom (offset + 1) rest) :
          offset ≤ place ∧ place < offset + (byte :: rest).length := by
        obtain ⟨least, most⟩ := ih member
        rw [List.length_cons]
        omega
      split at member
      · rcases List.mem_cons.mp member with rfl | behind
        · rw [List.length_cons]
          omega
        · exact later behind
      · exact later member

theorem lt_length_of_mem_newlines {file : SourceFile} {place : Nat}
    (member : place ∈ file.newlines) : place < file.content.length := by
  simpa using (mem_newlinesFrom ((List.takeWhile_sublist _).subset member)).2

theorem lineStart_le (file : SourceFile) (line : Int) :
    file.lineStart line ≤ file.content.length := by
  rw [lineStart]
  split
  · exact Nat.zero_le _
  · split
    · exact Nat.zero_le _
    · next offset found => exact lt_length_of_mem_newlines (List.mem_of_getElem? found)

theorem lineEnd_le (file : SourceFile) (line : Int) : file.lineEnd line ≤ file.content.length := by
  rw [lineEnd]
  split
  · exact Nat.le_refl _
  · next offset found => exact lt_length_of_mem_newlines (List.mem_of_getElem? found)

theorem takeWhile_newlinesFrom (offset bound : Nat) (text : Text) :
    (newlinesFrom offset text).takeWhile (· < offset + bound) =
      newlinesFrom offset (text.take bound) := by
  induction text generalizing offset bound with
  | nil => rw [List.take_nil]; rfl
  | cons byte rest ih =>
      cases bound with
      | zero =>
          rw [List.take_zero, newlinesFrom]
          cases found : newlinesFrom offset (byte :: rest) with
          | nil => rfl
          | cons place more =>
              have least := (mem_newlinesFrom (found ▸ List.mem_cons_self : place ∈ _)).1
              exact List.takeWhile_cons_of_neg (by simpa using least)
      | succ bound =>
          have later := ih (offset + 1) bound
          rw [Nat.add_right_comm] at later
          rw [List.take_succ_cons, newlinesFrom, newlinesFrom]
          split
          · rw [List.takeWhile_cons_of_pos (by simp), ← later]
            rfl
          · exact later

theorem newlines_eq_take (file : SourceFile) :
    file.newlines = newlinesFrom 0 (file.content.take 0x100000000) := by
  have front := takeWhile_newlinesFrom 0 0x100000000 file.content
  rwa [Nat.zero_add] at front

theorem newlines_eq {file : SourceFile} (small : file.content.length ≤ 0x100000000) :
    file.newlines = newlinesFrom 0 file.content := by
  rw [newlines_eq_take, List.take_of_length_le small]

theorem takeWhile_newlines_eq (file : SourceFile) {bound : Nat} (told : bound ≤ 0x100000000) :
    file.newlines.takeWhile (· < bound) = newlinesFrom 0 (file.content.take bound) := by
  have front := takeWhile_newlinesFrom 0 bound (file.content.take 0x100000000)
  rwa [Nat.zero_add, List.take_take, Nat.min_eq_left told, ← newlines_eq_take] at front

theorem getD_newlinesFrom (offset line : Nat) (text : Text) :
    ((newlinesFrom offset text)[line]?.map (· + 1)).getD (offset + text.length) =
      offset + (text.takeLines (line + 1)).length := by
  have shifted (text : Text) {offset : Nat} :
      offset + (text.length + 1) = offset + 1 + text.length := by omega
  induction text generalizing offset line with
  | nil => rfl
  | cons byte rest ih =>
      rw [newlinesFrom, takeLines]
      split
      · cases line with
        | zero =>
            rw [takeLines_zero]
            rfl
        | succ line =>
            rw [List.getElem?_cons_succ, List.length_cons, List.length_cons, shifted rest, ih,
              shifted]
      · rw [List.length_cons, List.length_cons, shifted rest, ih, shifted]

theorem lineCount_le (file : SourceFile) : file.lineCount ≤ file.newlines.length + 1 := by
  rw [lineCount]
  split
  · exact Nat.le_succ _
  · split
    · exact Nat.le_succ _
    · exact Nat.le_refl _

section

variable {file : SourceFile} (small : file.content.length ≤ 0x100000000)

include small

theorem lineEnd_eq {line : Int} (positive : 1 ≤ line) :
    file.lineEnd line = (file.content.takeLines line.toNat).length := by
  have offset := getD_newlinesFrom 0 (line - 1).toNat file.content
  rw [show (line - 1).toNat + 1 = line.toNat by omega, Nat.zero_add, Nat.zero_add] at offset
  rw [lineEnd, newlines_eq small, ← offset]
  cases (newlinesFrom 0 file.content)[(line - 1).toNat]? <;> rfl

theorem lineStart_of_le {line : Int} (positive : 1 ≤ line)
    (few : line ≤ file.newlines.length + 1) :
    file.lineStart line = (file.content.takeLines (line - 1).toNat).length := by
  rw [lineStart]
  split
  · next first => rw [show (line - 1).toNat = 0 by omega, takeLines_zero, List.length_nil]
  · next later =>
      have offset := getD_newlinesFrom 0 (line - 2).toNat file.content
      rw [show (line - 2).toNat + 1 = (line - 1).toNat by omega, Nat.zero_add, Nat.zero_add]
        at offset
      have inside : (line - 2).toNat < file.newlines.length := by omega
      rw [← offset]
      rw [newlines_eq small] at inside ⊢
      rw [List.getElem?_eq_getElem inside]
      rfl

theorem lineStart_eq {line : Int} (positive : 1 ≤ line) (exists_ : line ≤ file.lineCount) :
    file.lineStart line = (file.content.takeLines (line - 1).toNat).length := by
  have few := file.lineCount_le
  exact lineStart_of_le small positive (by omega)

end

theorem length_newlinesFrom (offset : Nat) (text : Text) :
    (newlinesFrom offset text).length = text.count newline := by
  induction text generalizing offset with
  | nil => rfl
  | cons byte rest ih =>
      rw [newlinesFrom]
      split
      · next isNewline => rw [isNewline, List.length_cons, ih, List.count_cons_self]
      · next other => rw [ih, List.count_cons_of_ne other]

theorem dropLines_eq_nil {n : Nat} {text : Text}
    (all : text.count newline < n ∨ text.count newline ≤ n ∧ text.getLast? = some newline) :
    text.dropLines n = [] := by
  induction text generalizing n with
  | nil => cases n <;> rfl
  | cons byte rest ih =>
      have ends (last : (byte :: rest).getLast? = some newline) :
          byte = newline ∧ rest = [] ∨ rest.getLast? = some newline := by
        cases rest with
        | nil => exact .inl ⟨Option.some.inj last, rfl⟩
        | cons next rest => exact .inr last
      cases n with
      | zero =>
          obtain many | ⟨none, last⟩ := all
          · cases many
          · have member := List.count_pos_iff.mpr (List.mem_of_getLast? last)
            omega
      | succ n =>
          rw [dropLines]
          split
          · next isNewline =>
              subst isNewline
              rw [List.count_cons_self] at all
              obtain few | ⟨few, last⟩ := all
              · exact ih (.inl (by omega))
              · obtain ⟨-, rfl⟩ | last := ends last
                · cases n <;> rfl
                · exact ih (.inr ⟨by omega, last⟩)
          · next other =>
              rw [List.count_cons_of_ne other] at all
              refine ih (all.imp_right fun ended => ⟨ended.1, ?_⟩)
              exact (ends ended.2).resolve_left fun single => other single.1

theorem dropLines_lineCount {file : SourceFile} (small : file.content.length ≤ 0x100000000) {n : Nat}
    (all : file.lineCount ≤ n) : file.content.dropLines n = [] := by
  rw [lineCount, newlines_eq small, length_newlinesFrom] at all
  split at all
  · next empty =>
      rw [List.getLast?_eq_none_iff] at empty
      rw [empty]
      cases n <;> rfl
  · next last found =>
      split at all
      · next isNewline => exact dropLines_eq_nil (.inr ⟨all, isNewline ▸ found⟩)
      · exact dropLines_eq_nil (.inl all)

theorem take_length_takeLines (n : Nat) (text : Text) :
    text.take (text.takeLines n).length = text.takeLines n :=
  List.prefix_iff_eq_take.mp ⟨_, takeLines_append_dropLines n text⟩ |>.symm

theorem drop_length_takeLines (n : Nat) (text : Text) :
    text.drop (text.takeLines n).length = text.dropLines n := by
  have split : (takeLines n text ++ dropLines n text).drop (takeLines n text).length = _ :=
    List.drop_left
  rwa [takeLines_append_dropLines] at split

theorem lastLine_eq_or (file : SourceFile) (range : LineRange) :
    file.lastLine range = range.last ∧ range.last ≠ 0 ∨
      file.lastLine range = file.lineCount ∧
        (range.last = 0 ∨ (file.lineCount : Int) < range.last) := by
  rw [lastLine]
  split
  · next beyond => exact .inr ⟨rfl, by simpa using beyond⟩
  · next inside =>
      refine .inl ⟨rfl, fun none => inside ?_⟩
      simp [none]

/-- The selected lines are what stands between those in front and those behind. -/
theorem splice_of_select {file : SourceFile} (small : file.content.length ≤ 0x100000000)
    {range : LineRange} {selection : Selection} (selected : file.select range = .ok selection)
    (text : Text) :
    file.splice selection.start selection.stop text =
      range.before file.content ++ text ++ range.behind file.content := by
  rw [select] at selected
  split at selected
  · next zero =>
      cases selected
      rw [LineRange.isZero, Bool.and_eq_true, beq_iff_eq, beq_iff_eq] at zero
      rw [splice, LineRange.before, LineRange.behind, if_pos zero.2, zero.1, List.drop_length]
      rw [show ((0 : Int) - 1).toNat = 0 from rfl, takeLines_zero, List.take_zero]
  · split at selected
    · cases selected
    · next inside =>
        split at selected
        · cases selected
        · next ordered =>
            cases selected
            simp only [Bool.or_eq_true, decide_eq_true_eq, not_or, Int.not_lt] at inside ordered
            have positive : 1 ≤ file.lastLine range := Int.le_trans inside.1 ordered
            rw [splice, lineStart_eq small inside.1 inside.2, lineEnd_eq small positive,
              take_length_takeLines, drop_length_takeLines, LineRange.before]
            congr 1
            rw [LineRange.behind]
            obtain ⟨given, some⟩ | ⟨all, beyond⟩ := file.lastLine_eq_or range
            · rw [if_neg some, given]
            · rw [dropLines_lineCount small (by omega)]
              split
              · rfl
              · exact (dropLines_lineCount small (by omega)).symm

/-! The stored form -/

theorem eq_of_addStored {set : FileSet} {path raw : Text} {marks : FileMarks} {file : SourceFile}
    (plain : Storage.ofRaw raw = .plain)
    (added : (set.addStored path raw marks).1.files = set.files ++ [file]) :
    file.content = dropReturns raw ∧
      file.marks = (marks ||| if hasReturns raw then FileMarks.returns else 0) := by
  rw [FileSet.addStored, plain] at added
  have same := List.cons.inj (List.append_cancel_left added)
  rw [← same.1]
  exact ⟨rfl, by simp [FileMarks.ofStorage, Storage.decode, Storage.mark]⟩

theorem encode_of_plain {file : SourceFile} {returns : Bool} {marks : FileMarks}
    (origin : marks = 0 ∨ marks = FileMarks.virtual)
    (marked : file.marks = (marks ||| if returns then FileMarks.returns else 0)) (content : Text) :
    file.encode content = if returns then restoreReturns content else content := by
  have facts : file.marks.storage = .plain ∧ file.marks.has FileMarks.returns = returns := by
    rw [marked]
    rcases origin with rfl | rfl <;> cases returns <;> decide
  rw [encode, facts.1, facts.2]
  rfl

/-- What is stored of a file of which some lines were replaced keeps the other lines, if the file
had no carriage returns before newlines, or had them everywhere else.  A newline right behind the
lines that were replaced may lack one. -/
theorem frames_encode_iff {file : SourceFile} {raw : Text} {marks : FileMarks} {range : LineRange}
    (origin : marks = 0 ∨ marks = FileMarks.virtual) (content : file.content = dropReturns raw)
    (marked : file.marks = (marks ||| if hasReturns raw then FileMarks.returns else 0))
    (small : file.content.length ≤ 0x100000000) {selection : Selection}
    (selected : file.select range = .ok selection) (text : Text) :
    range.Frames raw (file.encode (file.splice selection.start selection.stop text)) ↔
      (hasReturns raw → Returned false (range.before raw) ∧ Returned true (range.behind raw)) := by
  rw [encode_of_plain origin marked, splice_of_select small selected, content,
    range.before_dropReturns, range.behind_dropReturns]
  cases returns : hasReturns raw with
  | false =>
      refine iff_of_true ⟨text, ?_⟩ fun without => absurd without Bool.false_ne_true
      rw [← range.before_dropReturns, ← range.behind_dropReturns,
        dropReturns_of_not_hasReturns returns]
      rfl
  | true =>
      rw [if_pos rfl, restoreReturns_append, restoreReturns_append]
      constructor
      · rintro ⟨middle, framed⟩ -
        have all : Returned false (range.before raw ++ middle ++ range.behind raw) := by
          rw [← framed, ← restoreReturns_append, ← restoreReturns_append]
          exact returned_restoreReturns false _
        exact ⟨all.left.left, all.right⟩
      · intro returned
        obtain ⟨before, behind⟩ := returned rfl
        obtain ⟨front, restored⟩ := restoreReturns_dropReturns_behind behind
        refine ⟨restoreReturns text ++ front, ?_⟩
        rw [restoreReturns_dropReturns before, restored]
        simp only [List.append_assoc]

end SourceFile

namespace Run

/-- What formatting gives back for a file, or writes in its place, keeps the lines outside the
selection exactly if the file had no carriage returns before newlines, or had them before all
newlines there.  A newline right behind the selection may lack one. -/
theorem frames_formatFile_iff (run : Run) {set : FileSet} {name raw : Text} {marks : FileMarks}
    {file : SourceFile} (plain : Storage.ofRaw raw = .plain)
    (origin : marks = 0 ∨ marks = FileMarks.virtual)
    (added : (set.addStored name raw marks).1.files = set.files ++ [file])
    (small : file.content.length ≤ 0x100000000) {request : Request}
    (kept : request.check = false) {selection : SourceFile.Selection}
    (selected : file.select request.lines = .ok selection) (path : Text) (parent : Nat) :
    ∃ bytes,
      (request.stdout →
        (run.formatFile request file path parent).2.formatted = some bytes) ∧
      (request.stdout = false → (run.formatFile request file path parent).2.changed →
        (run.formatFile request file path parent).2.error = none →
          (run.formatFile request file path parent).1.disk.read path = .ok bytes) ∧
      (request.lines.Frames raw bytes ↔
        (hasReturns raw →
          Returned false (request.lines.before raw) ∧
            Returned true (request.lines.behind raw))) := by
  obtain ⟨content, marked⟩ := SourceFile.eq_of_addStored plain added
  obtain ⟨begun, span, timer, -, formatted⟩ := run.formatFile_selected path parent selected
  rw [formatted]
  exact ⟨_, fun stdout => begun.formatted_deliver file _ selection _ span timer kept stdout,
    fun rewrites changed written =>
      begun.read_deliver file selection _ span timer kept rewrites changed written,
    SourceFile.frames_encode_iff origin content marked small selected _⟩

def mixedRaw : Text := "wire a;\r\nwire b;\nwire c;\n"

def mixedFile : SourceFile where
  id := 1
  path := "t.v"
  content := "wire a;\nwire b;\nwire c;\n"
  marks := 5

theorem frames_formatFile_iff_first :
    ∃ bytes,
      (Run.formatFile ⟨{}, {}, [], {}⟩ { stdout := true, lines := ⟨1, 1⟩ } mixedFile "t.v"
        0).2.formatted = some bytes ∧ ¬ LineRange.Frames ⟨1, 1⟩ mixedRaw bytes := by
  let request : Request := { stdout := true, lines := ⟨1, 1⟩ }
  have plain : Storage.ofRaw mixedRaw = .plain := by decide
  have added : (({} : FileSet).addStored "t.v" mixedRaw FileMarks.virtual).1.files =
      [] ++ [mixedFile] := rfl
  have kept : request.check = false := rfl
  have selected : mixedFile.select request.lines = .ok ⟨"wire a;\n", 0, 8⟩ := rfl
  obtain ⟨bytes, formatted, -, frames⟩ :=
    frames_formatFile_iff ⟨{}, {}, [], {}⟩ plain (.inr rfl) added (by decide) kept selected "t.v"
      0
  refine ⟨bytes, formatted rfl, fun framed => ?_⟩
  exact absurd (frames.mp framed rfl).2 (by decide)

/-- The newline of the second line gets a carriage return, although only the third is formatted. -/
theorem mixed_line_not_kept :
    (({} : FileSet).addRaw "t.v" mixedRaw).1.files = [mixedFile] ∧
      Storage.ofRaw mixedRaw = .plain ∧
      mixedFile.select ⟨3, 3⟩ = .ok ⟨"wire c;\n", 16, 24⟩ ∧
      ∃ bytes,
        (Run.formatFile ⟨{}, {}, [], {}⟩ { stdout := true, lines := ⟨3, 3⟩ } mixedFile "t.v"
          0).2.formatted = some bytes ∧ ¬ LineRange.Frames ⟨3, 3⟩ mixedRaw bytes := by
  refine ⟨by rfl, by rfl, by rfl, "wire a;\r\nwire b;\r\nwire c ;\r\n", by decide +kernel, ?_⟩
  rintro ⟨middle, framed⟩
  have front : (LineRange.before ⟨3, 3⟩ mixedRaw).isPrefixOf
      "wire a;\r\nwire b;\r\nwire c ;\r\n" = true := by
    rw [framed, List.isPrefixOf_iff_prefix, List.append_assoc]
    exact List.prefix_append _ _
  exact absurd front (by decide)

end Run

end HdlAlign
