import HdlAlign.Proofs.Delivery

/-! What comes of verifying a block when the number of diagnostics is limited. -/

namespace HdlAlign

/-- The report on a block that a second pass would change stands behind all others on it, and has
to find room. -/
theorem SourceFile.hasErrors_blockBag_iff (file : SourceFile) {request : Request}
    (answer : Cache.Answer) {block : Text} (verified : request.verify)
    (unstable : (Block.stability request.options block).isStable = false) :
    (file.blockBag request answer block).hasErrors ↔
      (file.firstReports request answer).length < request.emptyBag.capacity.toNat := by
  have holds : request.emptyBag.Holds := Bag.holds_ofLimit _
  have noErrors : ¬ ((file.firstReports request answer).foldl Bag.add request.emptyBag).hasErrors := by
    rw [Bag.hasErrors_foldl_add_of_mild (file.mild_firstReports request answer)]
    exact Bool.false_ne_true
  have room : ((file.firstReports request answer).foldl Bag.add request.emptyBag).isFull = false ↔
      (file.firstReports request answer).length < request.emptyBag.capacity.toNat := by
    rw [← Bool.not_eq_true, Bag.isFull_foldl_add holds]
    show ¬ request.emptyBag.capacity.toNat ≤ 0 + _ ↔ _
    rw [Nat.zero_add, Nat.not_le]
  rw [blockBag, if_pos verified, verifyBlock, unstable, if_neg Bool.false_ne_true,
    Bag.hasErrors_add, room]
  exact ⟨fun found => found.elim (absurd · noErrors) And.left, fun few => .inr ⟨few, rfl⟩⟩

namespace Run

/-- A verified block that a second pass would change makes the file fail exactly if the other
reports on it leave room for one more, or the file cannot be written. -/
theorem isFailed_formatFile_iff (run : Run) {request : Request} {file : SourceFile} (path : Text)
    (parent : Nat) {selection : SourceFile.Selection}
    (selected : file.select request.lines = .ok selection) (verified : request.verify)
    (unstable : (Block.stability request.options selection.block).isStable = false) :
    (run.formatFile request file path parent).2.isFailed ↔
      (file.firstReports request (run.answer request selection.block).2).length <
          request.emptyBag.capacity.toNat ∨
        Unwritable (run.answer request selection.block).1 request file path
          (file.splice selection.start selection.stop
            (run.answer request selection.block).2.aligned.text) := by
  obtain ⟨begun, span, timer, disk, formatted⟩ := run.formatFile_selected path parent selected
  rw [formatted, isFailed_deliver, disk,
    ← file.hasErrors_blockBag_iff (run.answer request selection.block).2 verified unstable]
  exact Iff.rfl

def unstableFile : SourceFile := { id := 1, path := "t.v", content := "a = b;\nwire c;\nfoo\n" }

theorem isFailed_formatFile_iff_room :
    (Run.formatFile ⟨{}, {}, [], {}⟩ { verify := true, stdout := true, limit := 2 } unstableFile
      "t.v" 0).2.isFailed := by
  have selected : unstableFile.select {} =
      .ok ⟨unstableFile.content, 0, unstableFile.content.length⟩ := rfl
  exact (isFailed_formatFile_iff ⟨{}, {}, [], {}⟩ "t.v" 0 selected rfl (by decide +kernel)).mpr
    (.inl (by decide +kernel))

/-- The report on the line that is left untouched takes all the room there is. -/
theorem formatFile_unstable_passed :
    unstableFile.select {} = .ok ⟨unstableFile.content, 0, unstableFile.content.length⟩ ∧
      (Block.stability {} unstableFile.content).isStable = false ∧
      (Run.formatFile ⟨{}, {}, [], {}⟩ { verify := true, stdout := true, limit := 1 } unstableFile
        "t.v" 0).2.isFailed = false :=
  ⟨rfl, by decide +kernel, by decide +kernel⟩

end Run

end HdlAlign
