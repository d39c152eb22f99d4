import HdlAlign.Proofs.Access
import HdlAlign.Trace.Recorder
import Mathlib.Data.List.DropRight
import Mathlib.Data.List.Rotate

/-! A ring holds the newest of the events that it received, oldest first, however often it has gone
round.  Rows of cells that are all there from the start, with a flag that tells whether each of them
was filled, hold the same. -/

namespace HdlAlign.Trace

variable {α : Type}

theorem rotate_set {cells : List α} (filled : 0 < cells.length) (turns : Nat) (a : α) :
    (cells.set (turns % cells.length) a).rotate (turns + 1) = (cells.rotate turns).tail ++ [a] := by
  have inside : turns % cells.length < cells.length := Nat.mod_lt _ filled
  obtain ⟨front, back, split, place, written⟩ : ∃ front back,
      cells = front ++ cells[turns % cells.length] :: back ∧
        front.length = turns % cells.length ∧
          cells.set (turns % cells.length) a = front ++ a :: back := List.exists_of_set inside
  generalize cells[turns % cells.length] = old at split
  have turned : cells.rotate turns = old :: back ++ front := by
    rw [← List.rotate_mod, ← place, split]
    exact List.rotate_append_length_eq _ _
  have turned' : (cells.set (turns % cells.length) a).rotate turns = a :: back ++ front := by
    rw [← List.rotate_mod, List.length_set, written, ← place]
    exact List.rotate_append_length_eq _ _
  rw [← List.rotate_rotate, turned', turned, List.cons_append, List.rotate_cons_succ,
    List.rotate_zero, List.cons_append, List.tail_cons]

theorem take_succ_set {cells : List α} {place : Nat} (inside : place < cells.length) (a : α) :
    (cells.set place a).take (place + 1) = cells.take place ++ [a] := by
  rw [List.take_add_one, List.getElem?_set_self inside, List.take_set_of_le (Nat.le_refl _)]
  rfl

theorem tail_rtake {items : List α} {count : Nat} (enough : count + 1 ≤ items.length) :
    (items.rtake (count + 1)).tail = items.rtake count := by
  rw [List.rtake, List.rtake, List.tail_drop]
  congr 1
  omega

theorem rtake_of_length_le {items : List α} {count : Nat} (few : items.length ≤ count) :
    items.rtake count = items := by
  rw [List.rtake, Nat.sub_eq_zero_of_le few, List.drop_zero]

theorem length_rtake (items : List α) (count : Nat) :
    (items.rtake count).length = min count items.length := by
  rw [List.rtake, List.length_drop]
  omega

namespace Ring

structure Follows (ring : Ring α) (past : List α) : Prop where
  next : ring.next = past.length % ring.size
  filling : past.length ≤ ring.size → ring.cells = past
  round : ring.size ≤ past.length →
    ring.cells.length = ring.size ∧ ring.cells.rotate past.length = past.rtake ring.size

variable {ring : Ring α} {past : List α}

@[simp] theorem size_push (ring : Ring α) (a : α) : (ring.push a).size = ring.size := rfl

@[simp] theorem next_push (ring : Ring α) (a : α) :
    (ring.push a).next = (ring.next + 1) % ring.size := rfl

theorem cells_push_of_lt (room : ring.cells.length < ring.size) (a : α) :
    (ring.push a).cells = ring.cells ++ [a] := if_pos room

theorem cells_push_of_le (full : ring.size ≤ ring.cells.length) (a : α) :
    (ring.push a).cells = ring.cells.set ring.next a := if_neg (Nat.not_lt_of_le full)

theorem follows_new (size : Nat) : ({ size } : Ring α).Follows [] where
  next := (Nat.zero_mod size).symm
  filling _ := rfl
  round none := by
    obtain rfl : size = 0 := Nat.le_zero.mp none
    exact ⟨rfl, rfl⟩

theorem Follows.push (follows : ring.Follows past) (positive : 0 < ring.size) (a : α) :
    (ring.push a).Follows (past ++ [a]) := by
  have length : (past ++ [a]).length = past.length + 1 := by simp
  have next : (ring.push a).next = (past ++ [a]).length % (ring.push a).size := by
    rw [next_push, size_push, follows.next, length, Nat.mod_add_mod]
  rcases Nat.lt_or_ge past.length ring.size with room | full
  · have cells : ring.cells = past := follows.filling room.le
    have added : (ring.push a).cells = past ++ [a] := by
      rw [cells_push_of_lt (by rwa [cells]), cells]
    refine ⟨next, fun _ => added, fun round => ?_⟩
    rw [size_push, length] at round
    have all : (past ++ [a]).length = ring.size := by omega
    rw [size_push, added, List.rotate_length, rtake_of_length_le all.le]
    exact ⟨all, rfl⟩
  · obtain ⟨cells, turned⟩ := follows.round full
    have written : (ring.push a).cells = ring.cells.set (past.length % ring.cells.length) a := by
      rw [cells_push_of_le cells.ge, follows.next, cells]
    refine ⟨next, fun few => ?_, fun _ => ⟨?_, ?_⟩⟩
    · rw [size_push, length] at few
      omega
    · rw [written, List.length_set, cells, size_push]
    · obtain ⟨count, size⟩ := Nat.exists_eq_add_one.mpr positive
      rw [size] at turned full
      rw [written, length, rotate_set (by rwa [cells]), turned, tail_rtake full, size_push, size,
        List.rtake_concat_succ]

theorem Follows.toList_eq (follows : ring.Follows past) (positive : 0 < ring.size) :
    ring.toList = past.rtake ring.size := by
  rw [toList]
  rcases Nat.lt_or_ge past.length ring.size with room | full
  · rw [follows.filling room.le, if_pos room, rtake_of_length_le room.le]
  · obtain ⟨cells, turned⟩ := follows.round full
    have inside : ring.next ≤ ring.cells.length := by
      rw [follows.next, cells]
      exact (Nat.mod_lt _ positive).le
    rw [if_neg (by omega), ← turned, ← List.rotate_eq_drop_append_take inside, follows.next,
      ← cells, List.rotate_mod]

end Ring

/-! Cells that are all there from the start -/

/-- A row of cells, the next one to fill, and whether each of them was filled. -/
structure Slots (α : Type) where
  cells : List α
  next : Nat := 0
  full : Bool := false

namespace Slots

def ofSize (size : Nat) (initial : α) : Slots α := { cells := List.replicate size initial }

def emit (slots : Slots α) (a : α) : Option (Slots α) := do
  let cells ← Checked.store slots.next a slots.cells
  let next := (slots.next + 1) % cells.length
  some { cells, next, full := slots.full || next == 0 }

def events? (slots : Slots α) : Option (List α) := do
  let newer ← Checked.slice 0 slots.next slots.cells
  if slots.full then
    let older ← Checked.slice slots.next slots.cells.length slots.cells
    some (older ++ newer)
  else some newer

structure Matches (slots : Slots α) (ring : Ring α) : Prop where
  size : slots.cells.length = ring.size
  next : slots.next = ring.next
  inside : ring.next < ring.size
  full : slots.full → ring.cells = slots.cells
  filling : slots.full = false → ring.cells = slots.cells.take ring.next

variable {slots : Slots α} {ring : Ring α}

theorem matches_ofSize {size : Nat} (positive : 0 < size) (initial : α) :
    (ofSize size initial).Matches { size } where
  size := List.length_replicate
  next := rfl
  inside := positive
  full := Bool.noConfusion
  filling _ := rfl

theorem Matches.next_lt (same : slots.Matches ring) : slots.next < slots.cells.length := by
  rw [same.next, same.size]
  exact same.inside

theorem Matches.length_filling (same : slots.Matches ring) (filling : slots.full = false) :
    ring.cells.length = ring.next := by
  rw [same.filling filling, List.length_take, same.size]
  exact Nat.min_eq_left same.inside.le

theorem Matches.length_full (same : slots.Matches ring) (full : slots.full) :
    ring.cells.length = ring.size := by
  rw [same.full full, same.size]

theorem Matches.cells_push_filling (same : slots.Matches ring) (filling : slots.full = false)
    (a : α) : (ring.push a).cells = (slots.cells.set slots.next a).take (ring.next + 1) := by
  have room : ring.cells.length < ring.size := by
    rw [same.length_filling filling]
    exact same.inside
  rw [Ring.cells_push_of_lt room, same.filling filling, ← same.next, take_succ_set same.next_lt]

theorem Matches.emit (same : slots.Matches ring) (a : α) :
    ∃ later, slots.emit a = some later ∧ later.Matches (ring.push a) := by
  have positive : 0 < ring.size := Nat.zero_lt_of_lt same.inside
  refine ⟨_, by rw [Slots.emit, Checked.store_natCast same.next_lt]; rfl, ?_⟩
  rw [List.length_set, same.size, same.next, ← Ring.next_push ring a]
  refine ⟨?_, rfl, Nat.mod_lt _ positive, fun full => ?_, fun filling => ?_⟩
  · rw [List.length_set, same.size, Ring.size_push]
  · cases before : slots.full with
    | true =>
        rw [Ring.cells_push_of_le (same.length_full before).ge, same.full before]
    | false =>
        -- The cell that completes the row is the last one.
        rw [before, Bool.false_or, beq_iff_eq, Ring.next_push] at full
        have all : ring.size ≤ ring.next + 1 :=
          Nat.le_of_dvd (Nat.succ_pos _) (Nat.dvd_of_mod_eq_zero full)
        rw [same.cells_push_filling before, List.take_of_length_le, same.next]
        rw [List.length_set, same.size]
        exact all
  · rw [Bool.or_eq_false_iff, beq_eq_false_iff_ne] at filling
    rw [same.cells_push_filling filling.1, same.next]
    have more : ring.next + 1 < ring.size := by
      refine Nat.lt_of_le_of_ne same.inside fun last => filling.2 ?_
      rw [Ring.next_push, last, Nat.mod_self]
    rw [Ring.next_push, Nat.mod_eq_of_lt more]

theorem Matches.events?_eq (same : slots.Matches ring) : slots.events? = some ring.toList := by
  have newer := Checked.slice_of_le (Nat.zero_le _) same.next_lt.le
  have older := Checked.slice_of_le same.next_lt.le (Nat.le_refl _)
  rw [Int.natCast_zero] at newer
  rw [events?, newer, older, Ring.toList, List.take_length]
  cases full : slots.full with
  | true =>
      rw [if_neg (same.length_full full).not_lt, same.full full, same.next]
      rfl
  | false =>
      have room : ring.cells.length < ring.size := by
        rw [same.length_filling full]
        exact same.inside
      rw [if_pos room, same.filling full, same.next]
      rfl

end Slots

/-! Runs -/

variable {slots : Slots α} {ring : Ring α} {past : List α}

@[simp] theorem Ring.size_pushAll (ring : Ring α) (items : List α) :
    (ring.pushAll items).size = ring.size := by
  induction items generalizing ring with
  | nil => rfl
  | cons a items ih => exact ih (ring.push a)

theorem Ring.Follows.pushAll (follows : ring.Follows past) (positive : 0 < ring.size)
    (items : List α) : (ring.pushAll items).Follows (past ++ items) := by
  induction items generalizing ring past with
  | nil => rwa [List.append_nil]
  | cons a items ih =>
      have later := ih (follows.push positive a) positive
      rwa [List.append_assoc, List.singleton_append] at later

theorem Ring.foldlM_push? (positive : 0 < ring.size) (items : List α) :
    items.foldlM push? ring = some (ring.pushAll items) := by
  induction items generalizing ring with
  | nil => rfl
  | cons a items ih =>
      rw [List.foldlM_cons, push?, if_neg positive.ne']
      exact ih positive

theorem Slots.Matches.exists_run (same : slots.Matches ring) (items : List α) :
    ∃ later, items.foldlM Slots.emit slots = some later ∧ later.Matches (ring.pushAll items) := by
  induction items generalizing slots ring with
  | nil => exact ⟨slots, rfl, same⟩
  | cons a items ih =>
      obtain ⟨next, emitted, same'⟩ := same.emit a
      obtain ⟨later, filled, ended⟩ := ih same'
      refine ⟨later, ?_, ended⟩
      rw [List.foldlM_cons, emitted]
      exact filled

theorem Receiver.foldl_receive_ring (level : Level) (ring : Ring Event) (events : List Event) :
    events.foldl (fun receiver event => receive event receiver) (Receiver.ring level ring) =
      Receiver.ring level (ring.pushAll events) := by
  induction events generalizing ring with
  | nil => rfl
  | cons event events ih => exact ih (ring.push event)

theorem Receiver.ofRing_of_pos (level : Level) {size : Nat} (positive : 0 < size) :
    ofRing level size = Receiver.ring level { size } := by
  rw [ofRing, if_neg (by omega), Int.toNat_natCast]

/-- A ring with a cell at least never fails to take an event, and after any number of events it holds
the newest of them, as many as it has cells, oldest first. -/
theorem events_newest {size : Nat} (positive : 1 ≤ size) (level : Level) (initial : Event)
    (events : List Event) :
    ∃ ring slots,
      events.foldlM Ring.push? { size } = some ring ∧
      events.foldlM Slots.emit (Slots.ofSize size initial) = some slots ∧
      ring.toList = events.rtake size ∧
      slots.events? = some (events.rtake size) ∧
      (events.foldl (fun receiver event => receiver.receive event)
        (Receiver.ofRing level size)).events = events.rtake size ∧
      events.rtake size <:+ events ∧ (events.rtake size).length = min size events.length := by
  have fresh : ({ size } : Ring Event).Follows [] := Ring.follows_new size
  have follows := fresh.pushAll positive events
  have kept : (Ring.pushAll { size } events).toList = events.rtake size := by
    rw [follows.toList_eq (by rwa [Ring.size_pushAll]), List.nil_append, Ring.size_pushAll]
  obtain ⟨slots, filled, same⟩ := (Slots.matches_ofSize positive initial).exists_run events
  have pushed : events.foldlM Ring.push? { size } = some (Ring.pushAll { size } events) := by
    apply Ring.foldlM_push?
    exact positive
  refine ⟨_, slots, pushed, filled, kept, ?_, ?_, ?_, ?_⟩
  · rw [same.events?_eq, kept]
  · rw [Receiver.ofRing_of_pos level positive, Receiver.foldl_receive_ring]
    exact kept
  · exact List.drop_suffix _ events
  · exact length_rtake events size

/-- A ring of three cells that has gone round twice. -/
theorem events_newest_round :
    1 ≤ 3 ∧
      let events := (List.range 6).map fun number : Nat =>
        { number, kind := .point, scope := .run, name := [] : Event }
      ((events.foldl (fun receiver event => receiver.receive event)
        (Receiver.ofRing .phase 3)).events.map Event.number) = [3, 4, 5] := by
  have positive : 1 ≤ 3 := by decide
  refine ⟨positive, ?_⟩
  intro events
  obtain ⟨-, -, -, -, -, -, kept, -⟩ := events_newest positive .phase
    { number := 0, kind := .point, scope := .run, name := [] } events
  rw [Nat.cast_ofNat] at kept
  rw [kept]
  rfl

end HdlAlign.Trace
