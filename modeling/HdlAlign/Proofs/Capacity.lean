import HdlAlign.Proofs.Access
import HdlAlign.Proofs.Reporting
import Mathlib.Data.List.Perm.Subperm

/-! A bag never holds more than its limit allows, whatever is done to it, and nothing that was not
offered to it.  What a merge keeps depends on whether 16 bits can count the items of both bags. -/

namespace HdlAlign

def Checked.merge (bag other : Bag) : Option Bag := do
  let capacity := bag.mergedCapacity other
  let room : Int := capacity.toNat - bag.size
  let more ← slice 0 (min room other.size) other.items
  some { items := bag.items ++ more, capacity }

namespace Bag

def offer (bag : Bag) (d : Diagnostic) : Bag × Bool :=
  if bag.isFull then (bag, false) else ({ bag with items := bag.items ++ [d] }, true)

inductive Operation where
  | add (d : Diagnostic)
  | merge (other : Option Bag)
  | filter (least : Severity)
  | sort

namespace Operation

def apply (bag : Bag) : Operation → Option Bag
  | add d => some (bag.offer d).1
  | merge none => some bag
  | merge (some other) => Checked.merge bag other
  | filter least => some (bag.filter least)
  | sort => some bag.sort

def offered : Operation → List Diagnostic
  | add d => [d]
  | merge none => []
  | merge (some other) => other.items
  | filter _ => []
  | sort => []

end Operation

def run (bag : Bag) (operations : List Operation) : Option Bag :=
  operations.foldlM Operation.apply bag

structure Follows (bag : Bag) (past : List Operation) : Prop where
  holds : bag.size ≤ bag.capacity.toNat
  limited : bag.capacity.toNat ≤ 65535
  offered : bag.items.Subperm (past.flatMap Operation.offered)
  inOrder : (∀ operation ∈ past, operation ≠ .sort) →
    bag.items.Sublist (past.flatMap Operation.offered)

variable {bag other later : Bag}

theorem length_items (bag : Bag) : bag.items.length = bag.size := rfl

theorem take_min_size (bag : Bag) (count : Nat) :
    bag.items.take (min count bag.size) = bag.items.take count := List.take_eq_take_min.symm

theorem offer_eq_add (d : Diagnostic) : (bag.offer d).1 = bag.add d := by
  rw [offer, add]
  split <;> rfl

theorem offer_refused_iff (holds : bag.Holds) (d : Diagnostic) :
    (bag.offer d).2 = false ↔ bag.size = bag.capacity.toNat := by
  have fits : bag.size ≤ bag.capacity.toNat := holds
  rw [offer]
  split
  · next full => exact iff_of_true rfl (Nat.le_antisymm fits (isFull_iff.mp full))
  · next room => exact iff_of_false Bool.noConfusion fun same => room (isFull_iff.mpr same.ge)

theorem offer_of_refused {d : Diagnostic} (refused : (bag.offer d).2 = false) :
    (bag.offer d).1 = bag := by
  rw [offer] at refused ⊢
  split
  · rfl
  · next room => rw [if_neg room] at refused; cases refused

/-! Merging -/

theorem capacity_le (bag : Bag) : bag.capacity.toNat ≤ 65535 :=
  Nat.le_of_lt_succ bag.capacity.toNat_lt

theorem mergedCapacity_of_le (few : bag.size + other.size ≤ 65535) :
    (bag.mergedCapacity other).toNat = max bag.capacity.toNat (bag.size + other.size) := by
  rw [mergedCapacity]
  split
  · next raised =>
      simp only [Bool.and_eq_true, decide_eq_true_eq] at raised
      rw [Nat.max_eq_right raised.2.le]
      exact UInt16.toNat_ofNat_of_lt' (Nat.lt_succ_of_le few)
  · next kept =>
      simp only [Bool.and_eq_true, decide_eq_true_eq, not_and] at kept
      exact (Nat.max_eq_left (Nat.le_of_not_lt (kept few))).symm

theorem mergedCapacity_of_lt (many : 65535 < bag.size + other.size) :
    bag.mergedCapacity other = bag.capacity := by
  rw [mergedCapacity, if_neg]
  simp only [Bool.and_eq_true, decide_eq_true_eq]
  omega

theorem capacity_le_mergedCapacity (bag other : Bag) :
    bag.capacity.toNat ≤ (bag.mergedCapacity other).toNat := by
  rcases Nat.lt_or_ge 65535 (bag.size + other.size) with many | few
  · rw [mergedCapacity_of_lt many]
  · rw [mergedCapacity_of_le few]
    exact Nat.le_max_left _ _

theorem checkedMerge_eq (holds : bag.Holds) (other : Bag) :
    Checked.merge bag other = some (bag.merge other) := by
  have fits : bag.size ≤ (bag.mergedCapacity other).toNat :=
    Nat.le_trans holds (capacity_le_mergedCapacity bag other)
  have room : min (((bag.mergedCapacity other).toNat : Int) - bag.size) other.size =
      (min ((bag.mergedCapacity other).toNat - bag.size) other.size : Nat) := by
    omega
  rw [Checked.merge]
  have inside : min ((bag.mergedCapacity other).toNat - bag.size) other.size ≤ other.items.length :=
    Nat.min_le_right _ _
  rw [room, Checked.slice, if_pos ⟨Int.le_refl 0, Int.natCast_nonneg _, Int.ofNat_le.mpr inside⟩,
    Int.toNat_natCast, take_min_size]
  rfl

/-- A merge adds the whole other bag if 16 bits can count all items, and else what the limit of the
bag leaves room for. -/
theorem items_merge_of_le (few : bag.size + other.size ≤ 65535) :
    (bag.merge other).items = bag.items ++ other.items := by
  have room : other.items.length ≤ (bag.mergedCapacity other).toNat - bag.size := by
    have most := Nat.le_max_right bag.capacity.toNat (bag.size + other.size)
    rw [← mergedCapacity_of_le few] at most
    exact Nat.le_sub_of_add_le' most
  rw [merge]
  exact congrArg (bag.items ++ ·) (List.take_of_length_le room)

theorem items_merge_of_lt (many : 65535 < bag.size + other.size) :
    (bag.merge other).items = bag.items ++ other.items.take (bag.capacity.toNat - bag.size) := by
  rw [merge, mergedCapacity_of_lt many]

theorem holds_merge (holds : bag.Holds) (other : Bag) : (bag.merge other).Holds := by
  have fits : bag.size ≤ (bag.mergedCapacity other).toNat :=
    Nat.le_trans holds (capacity_le_mergedCapacity bag other)
  rw [Holds, ← length_items, merge]
  simp only [List.length_append, List.length_take, length_items]
  omega

/-! Runs -/

structure Steps (bag : Bag) (operation : Operation) (later : Bag) : Prop where
  holds : later.Holds
  grown : bag.capacity ≤ later.capacity
  offered : later.items.Subperm (bag.items ++ operation.offered)
  inOrder : operation ≠ .sort → later.items.Sublist (bag.items ++ operation.offered)

theorem Steps.of_sublist {operation : Operation} (holds : later.Holds)
    (grown : bag.capacity ≤ later.capacity)
    (inOrder : later.items.Sublist (bag.items ++ operation.offered)) :
    bag.Steps operation later :=
  ⟨holds, grown, inOrder.subperm, fun _ => inOrder⟩

theorem exists_apply (holds : bag.Holds) (operation : Operation) :
    ∃ later, operation.apply bag = some later ∧ bag.Steps operation later := by
  cases operation with
  | add d =>
      refine ⟨_, rfl, ?_⟩
      rw [offer_eq_add]
      apply Steps.of_sublist (holds_add holds d)
      · exact UInt16.le_of_eq (capacity_add bag d).symm
      · rw [items_add holds]
        exact List.take_sublist _ _
  | merge other? =>
      cases other? with
      | none => exact ⟨bag, rfl, .of_sublist holds (UInt16.le_refl _) (List.sublist_append_left _ _)⟩
      | some other =>
          refine ⟨_, checkedMerge_eq holds other, .of_sublist (holds_merge holds other) ?_ ?_⟩
          · exact UInt16.le_iff_toNat_le.mpr (capacity_le_mergedCapacity bag other)
          · exact (List.Sublist.refl _).append (List.take_sublist _ _)
  | filter least =>
      have fewer : (bag.filter least).items.Sublist bag.items := List.filter_sublist
      refine ⟨_, rfl, .of_sublist (Nat.le_trans fewer.length_le holds) (UInt16.le_refl _) ?_⟩
      exact fewer.trans (List.sublist_append_left _ _)
  | sort =>
      have same : bag.sort.items.Perm bag.items := List.mergeSort_perm _ _
      refine ⟨_, rfl, ?_, UInt16.le_refl _, ?_, fun other => absurd rfl other⟩
      · exact Nat.le_trans same.length_eq.le holds
      · exact same.subperm.trans (List.sublist_append_left _ _).subperm

variable {past : List Operation}

theorem follows_ofLimit (limit : Int) : (ofLimit limit).Follows [] where
  holds := holds_ofLimit limit
  limited := capacity_le _
  offered := List.Subperm.refl []
  inOrder _ := List.Sublist.refl []

theorem Follows.step (follows : bag.Follows past) {operation : Operation}
    (steps : bag.Steps operation later) : later.Follows (past ++ [operation]) := by
  have all : (past ++ [operation]).flatMap Operation.offered =
      past.flatMap Operation.offered ++ operation.offered := by
    rw [List.flatMap_append, List.flatMap_singleton]
  refine ⟨steps.holds, capacity_le _, ?_, fun unsorted => ?_⟩
  · rw [all]
    exact steps.offered.trans (follows.offered.append (List.Subperm.refl _))
  · rw [all]
    have before := follows.inOrder fun other member => unsorted other (List.mem_append_left _ member)
    have last : operation ≠ .sort := unsorted operation (List.mem_append_right _ List.mem_cons_self)
    exact (steps.inOrder last).trans (before.append (List.Sublist.refl _))

theorem Follows.run (follows : bag.Follows past) (more : List Operation) :
    ∃ later, bag.run more = some later ∧ later.Follows (past ++ more) ∧
      bag.capacity ≤ later.capacity := by
  induction more generalizing bag past with
  | nil => exact ⟨bag, rfl, by rwa [List.append_nil], UInt16.le_refl _⟩
  | cons operation more ih =>
      obtain ⟨next, applied, steps⟩ := exists_apply follows.holds operation
      obtain ⟨later, rest, follows', grown⟩ := ih (follows.step steps)
      refine ⟨later, ?_, ?_, UInt16.le_trans steps.grown grown⟩
      · rw [Bag.run, List.foldlM_cons, applied]
        exact rest
      · rwa [List.append_assoc, List.singleton_append] at follows'

/-- No operation on a bag takes a part out of range.  At every point of a run the limit is kept, it
only grows, and a diagnostic is refused exactly by a full bag, which stays as it is. -/
theorem run_bounded (limit : Int) (past more : List Operation) :
    ∃ bag later, (ofLimit limit).run past = some bag ∧ bag.run more = some later ∧
      bag.Follows past ∧ later.Follows (past ++ more) ∧ bag.capacity ≤ later.capacity ∧
      ∀ d, ((bag.offer d).2 = false ↔ bag.size = bag.capacity.toNat) ∧
        ((bag.offer d).2 = false → (bag.offer d).1 = bag) := by
  obtain ⟨bag, begun, follows, -⟩ := (follows_ofLimit limit).run past
  obtain ⟨later, ended, follows', grown⟩ := follows.run more
  exact ⟨bag, later, begun, ended, follows, follows', grown,
    fun d => ⟨offer_refused_iff follows.holds d, offer_of_refused⟩⟩

/-! What merges keep -/

def Counts (bag other : Bag) : Prop := bag.size + other.size ≤ 65535 ∨ bag.capacity = 65535

theorem items_merge_of_counts (counts : bag.Counts other) :
    (bag.merge other).items = bag.items ++ other.items.take (min other.size (65535 - bag.size)) := by
  rw [Nat.min_comm, take_min_size]
  rcases Nat.lt_or_ge 65535 (bag.size + other.size) with many | few
  · have most : bag.capacity.toNat = 65535 := by
      rw [counts.resolve_left (Nat.not_le_of_lt many)]
      rfl
    rw [items_merge_of_lt many, most]
  · have whole : other.items.length ≤ 65535 - bag.size := Nat.le_sub_of_add_le' few
    rw [items_merge_of_le few, List.take_of_length_le whole]

theorem size_merge_of_counts (holds : bag.Holds) (counts : bag.Counts other) :
    (bag.merge other).size = min (bag.size + other.size) 65535 := by
  have fits : bag.size ≤ 65535 := Nat.le_trans holds (capacity_le bag)
  rw [size, items_merge_of_counts counts, List.length_append, List.length_take, length_items,
    length_items, Nat.min_right_comm, Nat.min_self, ← Nat.add_min_add_left,
    Nat.add_sub_cancel' fits]

theorem size_merge_of_lt (holds : bag.Holds) (many : 65535 < bag.size + other.size) :
    (bag.merge other).size = bag.capacity.toNat := by
  have fits : bag.size ≤ bag.capacity.toNat := holds
  have limited := capacity_le bag
  have room : bag.capacity.toNat - bag.size ≤ other.items.length :=
    Nat.sub_le_of_le_add (by rw [Nat.add_comm]; exact Nat.le_trans limited many.le)
  rw [size, items_merge_of_lt many, List.length_append, List.length_take, Nat.min_eq_left room]
  exact Nat.add_sub_cancel' fits

theorem lt_of_not_counts (fails : ¬ bag.Counts other) :
    65535 < bag.size + other.size ∧ bag.capacity.toNat < 65535 := by
  obtain ⟨many, low⟩ := not_or.mp fails
  refine ⟨Nat.lt_of_not_le many, Nat.lt_of_le_of_ne (capacity_le bag) fun same => low ?_⟩
  exact UInt16.toNat_inj.mp same

def firsts (bag : Bag) (count : Nat) : Bag := { bag with items := bag.items.take count }

theorem size_firsts (bag : Bag) (count : Nat) : (bag.firsts count).size = min count bag.size :=
  List.length_take

/-- A merge keeps as much as 16 bits allow, and with more to take in no less, exactly if 16 bits can
count the items or the limit is the highest there is.  Else it keeps what the limit has room for. -/
theorem merge_keeps_iff (holds : bag.Holds) (other : Bag) :
    ((bag.merge other).items =
        bag.items ++ other.items.take (min other.size (65535 - bag.size)) ↔
      bag.Counts other) ∧
    ((∀ count, (bag.merge (other.firsts count)).size ≤ (bag.merge other).size) ↔
      bag.Counts other) ∧
    (¬ bag.Counts other → (bag.merge other).items =
      bag.items ++ other.items.take (bag.capacity.toNat - bag.size)) := by
  have fits : bag.size ≤ 65535 := Nat.le_trans holds (capacity_le bag)
  refine ⟨⟨fun kept => ?_, items_merge_of_counts⟩, ⟨fun monotone => ?_, fun counts count => ?_⟩,
    fun fails => items_merge_of_lt (lt_of_not_counts fails).1⟩
  · by_contra fails
    obtain ⟨many, low⟩ := lt_of_not_counts fails
    have filled := size_merge_of_lt holds many
    rw [size, kept, List.length_append, List.length_take, length_items, length_items] at filled
    omega
  · by_contra fails
    obtain ⟨many, low⟩ := lt_of_not_counts fails
    -- The items that 16 bits can still count are all kept.
    have counts : bag.Counts (other.firsts (65535 - bag.size)) := by
      refine .inl ?_
      rw [size_firsts]
      omega
    have more := monotone (65535 - bag.size)
    rw [size_merge_of_counts holds counts, size_merge_of_lt holds many, size_firsts] at more
    omega
  · have fewer : (other.firsts count).size ≤ other.size := by
      rw [size_firsts]
      exact Nat.min_le_right _ _
    have counts' : bag.Counts (other.firsts count) :=
      counts.imp_left fun few => Nat.le_trans (Nat.add_le_add_left fewer _) few
    rw [size_merge_of_counts holds counts, size_merge_of_counts holds counts']
    omega

def sampleReport (message : Text) : Diagnostic :=
  { severity := .info, code := .formatInfo, message, span := {} }

/-- A full bag whose limit is raised. -/
theorem merge_keeps_iff_raised :
    let bag := (ofLimit 1).add (sampleReport "a")
    let other := ((ofLimit 3).add (sampleReport "b")).add (sampleReport "c")
    bag.Holds ∧ (bag.merge other).items = ["a", "b", "c"].map (sampleReport ∘ Text.ofString) ∧
      ((bag.merge other).items =
          bag.items ++ other.items.take (min other.size (65535 - bag.size)) ↔
        bag.Counts other) ∧
      ((∀ count, (bag.merge (other.firsts count)).size ≤ (bag.merge other).size) ↔
        bag.Counts other) ∧
      (¬ bag.Counts other → (bag.merge other).items =
        bag.items ++ other.items.take (bag.capacity.toNat - bag.size)) :=
  have holds : ((ofLimit 1).add (sampleReport "a")).Holds := holds_add (holds_ofLimit 1) _
  ⟨holds, by decide, merge_keeps_iff holds _⟩

/-- One item more than 16 bits can count, and a merge keeps none of them. -/
theorem merge_drops_all :
    let bag := (ofLimit 1).add (sampleReport "a")
    let other : Bag := { items := List.replicate 65535 (sampleReport "b"), capacity := 65535 }
    (bag.merge other).size = 1 ∧
      (bag.items ++ other.items.take (min other.size (65535 - bag.size))).length = 65535 ∧
      (bag.merge (other.firsts 65534)).size = 65535 := by
  intro bag other
  have holds : bag.Holds := holds_add (holds_ofLimit 1) _
  have one : bag.size = 1 := rfl
  have many : other.size = 65535 := List.length_replicate
  refine ⟨size_merge_of_lt holds (by omega), ?_, ?_⟩
  · rw [List.length_append, List.length_take, length_items, length_items]
    omega
  · rw [size_merge_of_counts holds (.inl (by rw [size_firsts]; omega)), size_firsts]
    omega

end Bag

end HdlAlign
