import HdlAlign.Proofs.Pieces

/-! Access to parts of texts and lists that fails out of range, and the loops that are made of it.
Indexes are integers, as differences of lengths are. -/

namespace HdlAlign.Checked

variable {α β : Type}

def slice (start stop : Int) (items : List α) : Option (List α) :=
  if 0 ≤ start ∧ start ≤ stop ∧ stop ≤ items.length then
    some ((items.take stop.toNat).drop start.toNat)
  else none

def item (index : Int) (items : List α) : Option α :=
  if 0 ≤ index then items[index.toNat]? else none

def store (index : Int) (value : α) (items : List α) : Option (List α) :=
  if 0 ≤ index ∧ index < items.length then some (items.set index.toNat value) else none

/-- A new list with a place for each item of another, written from front to back.  No place may
stay empty. -/
def fill (make : Nat → α → Option β) (items : List α) : Option (List β) := do
  let places ← items.zipIdx.foldlM (fun places (entry : α × Nat) => do
    let value ← make entry.2 entry.1
    store entry.2 (some value) places) (List.replicate items.length none)
  places.mapM id

theorem slice_of_le {start stop : Nat} {items : List α} (ordered : start ≤ stop)
    (inside : stop ≤ items.length) :
    slice start stop items = some ((items.take stop).drop start) := by
  rw [slice, if_pos ⟨Int.natCast_nonneg start, Int.ofNat_le.mpr ordered, Int.ofNat_le.mpr inside⟩,
    Int.toNat_natCast, Int.toNat_natCast]

theorem slice_middle (front middle back : List α) :
    slice front.length (front.length + middle.length : Nat) (front ++ (middle ++ back)) =
      some middle := by
  have inside : front.length + middle.length ≤ (front ++ (middle ++ back)).length := by
    simp only [List.length_append]
    omega
  rw [slice_of_le (Nat.le_add_right _ _) inside, List.take_append,
    List.take_of_length_le (Nat.le_add_right _ _), Nat.add_sub_cancel_left, List.take_left,
    List.drop_left]

theorem slice_front (front back : List α) : slice 0 front.length (front ++ back) = some front := by
  simpa using slice_middle [] front back

theorem slice_back (front back : List α) :
    slice front.length (front ++ back).length (front ++ back) = some back := by
  simpa using slice_middle front back []

theorem item_natCast (index : Nat) (items : List α) : item index items = items[index]? := by
  rw [item, if_pos (Int.natCast_nonneg index), Int.toNat_natCast]

theorem item_append (front : List α) (value : α) (back : List α) :
    item front.length (front ++ value :: back) = some value := by
  rw [item_natCast, List.getElem?_append_right (Nat.le_refl _), Nat.sub_self]
  rfl

theorem store_natCast {index : Nat} {items : List α} (inside : index < items.length) (value : α) :
    store index value items = some (items.set index value) := by
  rw [store, if_pos ⟨Int.natCast_nonneg index, Int.ofNat_lt.mpr inside⟩, Int.toNat_natCast]

theorem store_append (front : List α) (old new : α) (back : List α) :
    store front.length new (front ++ old :: back) = some (front ++ new :: back) := by
  rw [store_natCast (by simp), List.set_append_right _ _ (Nat.le_refl _), Nat.sub_self]
  rfl

example : slice 1 4 [true, false, true] = none ∧ item (-1) [true] = none ∧
    store 1 true [true] = none := by decide

theorem mapM_eq_map {f : α → Option β} {value : α → β} {items : List α}
    (makes : ∀ item ∈ items, f item = some (value item)) :
    items.mapM f = some (items.map value) := by
  induction items with
  | nil => rfl
  | cons item items ih =>
      rw [List.mapM_cons, makes item (by simp),
        ih fun other member => makes other (by simp [member])]
      rfl

theorem mapM_eq_none_iff {f : α → Option β} {items : List α} :
    items.mapM f = none ↔ ∃ item ∈ items, f item = none := by
  induction items with
  | nil => simp
  | cons item items ih =>
      rw [List.mapM_cons]
      cases first : f item with
      | none => exact iff_of_true rfl ⟨item, List.mem_cons_self, first⟩
      | some value =>
          have others : items.mapM f = none ↔ ∃ other ∈ item :: items, f other = none := by
            simp [ih, first]
          rw [← others]
          cases items.mapM f <;> simp

theorem exists_mapM {f : α → Option β} {items : List α}
    (makes : ∀ item ∈ items, ∃ value, f item = some value) :
    ∃ values, items.mapM f = some values := by
  rw [← Option.ne_none_iff_exists']
  intro fails
  obtain ⟨item, member, missing⟩ := mapM_eq_none_iff.mp fails
  obtain ⟨value, made⟩ := makes item member
  rw [made] at missing
  cases missing

theorem foldlM_eq_foldl {step : β → α → Option β} {next : β → α → β}
    (goes : ∀ state item, step state item = some (next state item)) (items : List α) (state : β) :
    items.foldlM step state = some (items.foldl next state) := by
  induction items generalizing state with
  | nil => rfl
  | cons item items ih =>
      rw [List.foldlM_cons, goes, List.foldl_cons]
      exact ih _

theorem fill_eq {make : Nat → α → Option β} {value : α → β} {items : List α}
    (makes : ∀ index item, items[index]? = some item → make index item = some (value item)) :
    fill make items = some (items.map value) := by
  have run (front back : List α) (whole : items = front ++ back) :
      (back.zipIdx front.length).foldlM (fun places (entry : α × Nat) => do
          let value ← make entry.2 entry.1
          store entry.2 (some value) places)
        (front.map (some ∘ value) ++ List.replicate back.length none) =
      some (items.map (some ∘ value)) := by
    induction back generalizing front with
    | nil => simp [whole]
    | cons item back ih =>
        have made : make front.length item = some (value item) :=
          makes front.length item (by simp [whole])
        have stored : store front.length (some (value item))
            (front.map (some ∘ value) ++ List.replicate (back.length + 1) none) =
              some ((front ++ [item]).map (some ∘ value) ++ List.replicate back.length none) := by
          have written := store_append (front.map (some ∘ value)) none (some (value item))
            (List.replicate back.length none)
          rw [List.length_map] at written
          rw [List.replicate_succ, written]
          simp
        rw [List.zipIdx_cons, List.foldlM_cons, List.length_cons]
        simp only [made, Option.bind_eq_bind, Option.bind_some, stored]
        simpa using ih (front ++ [item]) (by simp [whole])
  have filled := run [] items rfl
  rw [List.length_nil, List.map_nil, List.nil_append] at filled
  rw [fill, filled, Option.bind_eq_bind, Option.bind_some, List.mapM_map]
  exact mapM_eq_map fun item _ => rfl

end HdlAlign.Checked
