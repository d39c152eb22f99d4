import HdlAlign.Timing.Timer

/-! What a bounded bag keeps of the reports that are offered to it. -/

namespace HdlAlign

def Diagnostic.Mild (d : Diagnostic) : Prop := d.severity.atLeast .error = false

namespace Bag

def Holds (bag : Bag) : Prop := bag.size ≤ bag.capacity.toNat

theorem holds_ofLimit (limit : Int) : (ofLimit limit).Holds := Nat.zero_le _

theorem capacity_add (bag : Bag) (d : Diagnostic) : (bag.add d).capacity = bag.capacity := by
  rw [add]
  split <;> rfl

theorem capacity_foldl_add (bag : Bag) (ds : List Diagnostic) :
    (ds.foldl add bag).capacity = bag.capacity := by
  induction ds generalizing bag with
  | nil => rfl
  | cons d ds ih => rw [List.foldl_cons, ih, capacity_add]

theorem isFull_iff {bag : Bag} : bag.isFull ↔ bag.capacity.toNat ≤ bag.items.length :=
  decide_eq_true_iff

theorem items_add {bag : Bag} (holds : bag.Holds) (d : Diagnostic) :
    (bag.add d).items = (bag.items ++ [d]).take bag.capacity.toNat := by
  have fits : bag.items.length ≤ bag.capacity.toNat := holds
  rw [add]
  split
  · next full =>
      have same := Nat.le_antisymm fits (isFull_iff.mp full)
      rw [← same, List.take_left]
  · next room =>
      rw [isFull_iff] at room
      exact (List.take_of_length_le (by rw [List.length_append, List.length_singleton]; omega)).symm

theorem holds_add {bag : Bag} (holds : bag.Holds) (d : Diagnostic) : (bag.add d).Holds := by
  rw [Holds, size, items_add holds, capacity_add]
  exact List.length_take_le _ _

theorem items_foldl_add {bag : Bag} (holds : bag.Holds) (ds : List Diagnostic) :
    (ds.foldl add bag).items = (bag.items ++ ds).take bag.capacity.toNat := by
  induction ds generalizing bag with
  | nil =>
      rw [List.append_nil]
      exact (List.take_of_length_le holds).symm
  | cons d ds ih =>
      rw [List.foldl_cons, ih (holds_add holds d), items_add holds, capacity_add]
      by_cases room : bag.items.length < bag.capacity.toNat
      · have whole : (bag.items ++ [d]).length ≤ bag.capacity.toNat := by
          rw [List.length_append, List.length_singleton]
          exact room
        rw [List.take_of_length_le whole, List.append_assoc, List.singleton_append]
      · have full : bag.items.length = bag.capacity.toNat :=
          Nat.le_antisymm holds (Nat.le_of_not_lt room)
        rw [← full, List.take_left, List.take_left, List.take_left]

theorem isFull_foldl_add {bag : Bag} (holds : bag.Holds) (ds : List Diagnostic) :
    (ds.foldl add bag).isFull ↔ bag.capacity.toNat ≤ bag.items.length + ds.length := by
  rw [isFull_iff, capacity_foldl_add, items_foldl_add holds, List.length_take, List.length_append]
  exact Nat.le_min.trans (and_iff_right (Nat.le_refl _))

/-! Growth -/

/-- A bag holds the items of another and, behind them, more of one kind. -/
def Extends (later bag : Bag) (kind : Diagnostic → Prop) : Prop :=
  ∃ more, later.items = bag.items ++ more ∧ ∀ d ∈ more, kind d

variable {kind : Diagnostic → Prop}

theorem Extends.refl (bag : Bag) : bag.Extends bag kind := ⟨[], (List.append_nil _).symm, by simp⟩

theorem Extends.trans {last later bag : Bag} (second : last.Extends later kind)
    (first : later.Extends bag kind) : last.Extends bag kind := by
  obtain ⟨more, items, each⟩ := first
  obtain ⟨most, items', each'⟩ := second
  refine ⟨more ++ most, by rw [items', items, List.append_assoc], fun d member => ?_⟩
  exact (List.mem_append.mp member).elim (each d) (each' d)

theorem Extends.subset {later bag : Bag} (grown : later.Extends bag kind) :
    bag.items ⊆ later.items := by
  obtain ⟨more, items, -⟩ := grown
  rw [items]
  exact List.subset_append_left _ _

theorem Extends.mem {later bag : Bag} (grown : later.Extends bag kind) {d : Diagnostic}
    (member : d ∈ later.items) : d ∈ bag.items ∨ kind d := by
  obtain ⟨more, items, each⟩ := grown
  rw [items] at member
  exact (List.mem_append.mp member).imp_right (each d)

theorem extends_add (bag : Bag) {d : Diagnostic} (isKind : kind d) : (bag.add d).Extends bag kind := by
  rw [add]
  split
  · exact .refl bag
  · exact ⟨[d], rfl, by simpa using isKind⟩

theorem extends_addTimings (bag : Bag) {d : Diagnostic} (isKind : kind d) :
    (bag.addTimings d).Extends bag kind := by
  rw [addTimings]
  split
  · refine ⟨_, rfl, fun other member => ?_⟩
    have same : other ∈ [d] := List.mem_of_mem_take member
    rwa [List.mem_singleton.mp same]
  · exact extends_add bag isKind

/-! Errors -/

theorem hasErrors_add {bag : Bag} {d : Diagnostic} :
    (bag.add d).hasErrors ↔ bag.hasErrors ∨ bag.isFull = false ∧ d.severity.atLeast .error := by
  rw [add]
  cases full : bag.isFull <;> simp [hasErrors]

theorem hasErrors_of_extends {later bag : Bag} (grown : later.Extends bag Diagnostic.Mild) :
    later.hasErrors ↔ bag.hasErrors := by
  obtain ⟨more, items, mild⟩ := grown
  have harmless : (more.any fun d => d.severity.atLeast .error) = false := by
    refine List.any_eq_false.mpr fun d member => ?_
    rw [show d.severity.atLeast .error = false from mild d member]
    exact Bool.false_ne_true
  rw [hasErrors, items, List.any_append, harmless, Bool.or_false, hasErrors]

theorem hasErrors_add_of_mild {bag : Bag} {d : Diagnostic} (mild : d.Mild) :
    (bag.add d).hasErrors ↔ bag.hasErrors := hasErrors_of_extends (extends_add bag mild)

theorem hasErrors_foldl_add_of_mild {ds : List Diagnostic} (mild : ∀ d ∈ ds, d.Mild) (bag : Bag) :
    (ds.foldl add bag).hasErrors ↔ bag.hasErrors := by
  induction ds generalizing bag with
  | nil => exact Iff.rfl
  | cons d ds ih =>
      rw [List.foldl_cons, ih fun other member => mild other (List.mem_cons_of_mem d member)]
      exact hasErrors_add_of_mild (mild d List.mem_cons_self)

theorem hasErrors_addTimings_of_mild {bag : Bag} {d : Diagnostic} (mild : d.Mild) :
    (bag.addTimings d).hasErrors ↔ bag.hasErrors :=
  hasErrors_of_extends (extends_addTimings bag mild)

end Bag

namespace Collector

def fresh (seen : List Diagnostic) : List Diagnostic → List Diagnostic
  | [] => []
  | d :: ds =>
    if seen.any (sameReport d) then fresh seen ds else d :: fresh (seen ++ [d]) ds

theorem fresh_subset (seen ds : List Diagnostic) : fresh seen ds ⊆ ds := by
  induction ds generalizing seen with
  | nil => exact List.Subset.refl []
  | cons d ds ih =>
      rw [fresh]
      split
      · exact List.subset_cons_of_subset d (ih seen)
      · exact List.cons_subset_cons d (ih _)

theorem not_seen_of_mem_fresh {seen ds : List Diagnostic} {d : Diagnostic}
    (member : d ∈ fresh seen ds) : seen.any (sameReport d) = false := by
  induction ds generalizing seen with
  | nil => cases member
  | cons other ds ih =>
      rw [fresh] at member
      split at member
      · exact ih member
      · next unseen =>
          rcases List.mem_cons.mp member with rfl | later
          · exact eq_false_of_ne_true unseen
          · have both := ih later
            rw [List.any_append, Bool.or_eq_false_iff] at both
            exact both.1

theorem pairwise_fresh (seen ds : List Diagnostic) :
    (fresh seen ds).Pairwise fun a b => sameReport b a = false := by
  induction ds generalizing seen with
  | nil => exact .nil
  | cons d ds ih =>
      rw [fresh]
      split
      · exact ih seen
      · refine List.pairwise_cons.mpr ⟨fun later member => ?_, ih _⟩
        have both := not_seen_of_mem_fresh member
        rw [List.any_append, Bool.or_eq_false_iff] at both
        simpa using both.2

/-- A collector adds every report once, whether or not there is room for it. -/
theorem bag_foldl_report (c : Collector) (ds : List Diagnostic) :
    (ds.foldl report c).bag = (fresh c.seen ds).foldl Bag.add c.bag := by
  induction ds generalizing c with
  | nil => rfl
  | cons d ds ih =>
      rw [List.foldl_cons, ih, fresh, report]
      split <;> rfl

end Collector

end HdlAlign
