import HdlAlign.Proofs.Access
import HdlAlign.Proofs.Rendering

/-! Rendering lines with checked access to anchors and to the output.  None is out of range. -/

namespace HdlAlign.Checked

open Text

/-! Widths of columns -/

def growAnchor (anchors : List Nat) (entry : Text × Nat) : Option (List Nat) :=
  let (field, index) := entry
  let anchors := if anchors.length ≤ index then anchors ++ [0] else anchors
  if 0 < field.width then do
    if (← item index anchors) < field.width + 1 then store index (field.width + 1) anchors
    else some anchors
  else some anchors

def anchors (lines : List Line) : Option (List Nat) :=
  lines.foldlM (fun anchors line =>
    match line with
    | .aligned fields _ => fields.zipIdx.foldlM growAnchor anchors
    | .verbatim _ _ => some anchors) []

theorem growAnchor_append (front tail : List Nat) (field : Text) :
    growAnchor (front ++ tail) (field, front.length) =
      some (front ++ max (tail.headD 0) (Batch.demand field) :: tail.tail) := by
  obtain ⟨old, rest, same, begins, ends⟩ : ∃ old rest,
      (if (front ++ tail).length ≤ front.length then front ++ tail ++ [0] else front ++ tail) =
        front ++ old :: rest ∧ tail.headD 0 = old ∧ tail.tail = rest := by
    cases tail with
    | nil => exact ⟨0, [], by simp, rfl, rfl⟩
    | cons old rest => exact ⟨old, rest, by simp, rfl, rfl⟩
  rw [growAnchor, same, item_append, begins, ends, Batch.demand]
  by_cases shown : 0 < field.width
  · rw [if_pos shown, if_neg (Nat.ne_of_gt shown), Option.bind_eq_bind, Option.bind_some,
      store_append]
    split
    · next less => rw [Nat.max_eq_right (Nat.le_of_lt less)]
    · next more => rw [Nat.max_eq_left (Nat.le_of_not_lt more)]
  · have hidden : field.width = 0 := Nat.eq_zero_of_not_pos shown
    rw [if_neg shown, if_pos hidden, Nat.max_zero]

theorem widen_cons (anchors : List Nat) (field : Text) (fields : List Text) :
    Batch.widen anchors (field :: fields) =
      max (anchors.headD 0) (Batch.demand field) :: Batch.widen anchors.tail fields := by
  cases anchors with
  | nil => rw [Batch.widen, List.headD_nil, Nat.zero_max, List.tail_nil]
  | cons anchor anchors => rfl

theorem growAnchors_eq (front anchors : List Nat) (fields : List Text) :
    (fields.zipIdx front.length).foldlM growAnchor (front ++ anchors) =
      some (front ++ Batch.widen anchors fields) := by
  induction fields generalizing front anchors with
  | nil => cases anchors <;> rfl
  | cons field fields ih =>
      rw [List.zipIdx_cons, List.foldlM_cons, growAnchor_append, Option.bind_eq_bind,
        Option.bind_some, widen_cons]
      have next := ih (front ++ [max (anchors.headD 0) (Batch.demand field)]) anchors.tail
      rw [List.length_append, List.append_assoc, List.append_assoc] at next
      exact next

theorem anchors_eq (lines : List Line) : anchors lines = some (Batch.anchors lines) := by
  rw [anchors, Batch.anchors]
  refine foldlM_eq_foldl (fun widths line => ?_) lines []
  cases line with
  | aligned fields source => exact growAnchors_eq [] widths fields
  | verbatim text source => rfl

/-! Rendering -/

def writeField (anchors : List Nat) (w : Writer) (entry : Text × Nat) : Option Writer := do
  let (field, index) := entry
  let width ← if index < anchors.length then item index anchors else some 0
  some (w.pad field width)

def lineEnd (text : Text) (start : Nat) : (stop : Nat) → Option Nat
  | 0 => some 0
  | before + 1 =>
    if start < before + 1 then do
      if isIndent (← item ((before + 1 : Nat) - 1) text) then lineEnd text start before
      else some (before + 1)
    else some (before + 1)

def trimLineEnd (w : Writer) : Option Writer := do
  let stop ← lineEnd w.text w.lineStart w.text.length
  let text ← slice 0 stop w.text
  some { w with text }

def render (anchors : List Nat) (indent : Text) : Line → Option Text
  | .aligned fields _ => do
    let w ← fields.zipIdx.foldlM (writeField anchors) (Writer.write {} indent)
    let w ← trimLineEnd w
    some w.text
  | .verbatim text _ => some text

def renderBatch (batch : Batch) : Option Text := do
  let anchors ← anchors batch.lines
  let lines ← batch.lines.mapM (render anchors batch.indent)
  some (unlines lines)

theorem writeFields_eq (anchors : List Nat) (fields : List Text) (index : Nat) (w : Writer) :
    (fields.zipIdx index).foldlM (writeField anchors) w =
      some (Line.writeFields w fields (anchors.drop index)) := by
  induction fields generalizing index w with
  | nil => rfl
  | cons field fields ih =>
      rw [List.zipIdx_cons, List.foldlM_cons, writeField]
      dsimp only
      by_cases inside : index < anchors.length
      · rw [if_pos inside, item_natCast, List.getElem?_eq_getElem inside,
          List.drop_eq_getElem_cons inside, Line.writeFields, ← ih]
        rfl
      · have past := List.drop_eq_nil_of_le (Nat.le_of_not_lt inside)
        have further := List.drop_eq_nil_of_le (Nat.le_succ_of_le (Nat.le_of_not_lt inside))
        have plain : w.pad field 0 = w.write field := by
          simp [Writer.pad, padRight, blanks]
        rw [if_neg inside, past, Line.writeFields, ← further, ← ih, ← plain]
        rfl

theorem lineEnd_of_le (text : Text) {start stop : Nat} (outside : stop ≤ start) :
    lineEnd text start stop = some stop := by
  cases stop with
  | zero => rfl
  | succ before => rw [lineEnd, if_neg (Nat.not_lt.mpr outside)]

theorem lineEnd_eq (front : Text) {back : Text} {length : Nat} (inside : length ≤ back.length) :
    lineEnd (front ++ back) front.length (front.length + length) =
      some (front ++ dropTailWhile isIndent (back.take length)).length := by
  induction length with
  | zero => simp [lineEnd_of_le, dropTailWhile]
  | succ length ih =>
      have last : item ((front.length + length + 1 : Nat) - 1) (front ++ back) =
          some back[length] := by
        rw [Int.natCast_succ, Int.add_sub_cancel, item_natCast,
          List.getElem?_append_right (Nat.le_add_right _ _), Nat.add_sub_cancel_left,
          List.getElem?_eq_getElem inside]
      rw [← Nat.add_assoc, lineEnd, if_pos (by omega), last, Option.bind_eq_bind,
        Option.bind_some, ← List.take_concat_get' _ _ inside]
      by_cases dropped : isIndent back[length]
      · rw [if_pos dropped, dropTailWhile_append_of_forall (by simpa using dropped)]
        exact ih (Nat.le_of_lt inside)
      · have stays : isIndent back[length] = false := by simpa using dropped
        have kept := dropTailWhile_append_cons stays (back.take length) []
        rw [if_neg dropped, kept]
        simp only [List.length_append, List.length_take, List.length_cons, dropTailWhile,
          List.reverse_nil, List.dropWhile_nil, List.length_nil]
        rw [Nat.min_eq_left (Nat.le_of_lt inside), Nat.add_assoc]

theorem trimLineEnd_eq (w : Writer) : trimLineEnd w = some w.trimLineEnd := by
  rw [trimLineEnd, Writer.trimLineEnd]
  by_cases past : w.text.length ≤ w.lineStart
  · have all := slice_front w.text []
    rw [List.append_nil] at all
    rw [lineEnd_of_le _ past, List.take_of_length_le past, List.drop_eq_nil_of_le past]
    simp [all, dropTailWhile]
  · have whole := List.take_append_drop w.lineStart w.text
    have start : (w.text.take w.lineStart).length = w.lineStart := by
      rw [List.length_take]
      omega
    have stop := lineEnd_eq (w.text.take w.lineStart) (Nat.le_refl (w.text.drop w.lineStart).length)
    rw [List.take_length, whole, start] at stop
    have length : w.lineStart + (w.text.drop w.lineStart).length = w.text.length := by
      rw [List.length_drop]
      omega
    obtain ⟨tail, -, split⟩ := dropTailWhile_split isIndent (w.text.drop w.lineStart)
    have front := slice_front (w.text.take w.lineStart ++
      dropTailWhile isIndent (w.text.drop w.lineStart)) tail
    rw [List.append_assoc, ← split, whole] at front
    rw [length] at stop
    rw [stop, Option.bind_eq_bind, Option.bind_some, front]
    rfl

theorem render_eq (anchors : List Nat) (indent : Text) (line : Line) :
    render anchors indent line = some (line.render anchors indent) := by
  cases line with
  | aligned fields source =>
      rw [render, writeFields_eq, Option.bind_eq_bind, Option.bind_some, trimLineEnd_eq]
      rfl
  | verbatim text source => rfl

theorem renderBatch_eq (batch : Batch) : renderBatch batch = some batch.render := by
  rw [renderBatch, anchors_eq, Option.bind_eq_bind, Option.bind_some,
    mapM_eq_map fun line _ => render_eq _ _ line]
  rfl

end HdlAlign.Checked
