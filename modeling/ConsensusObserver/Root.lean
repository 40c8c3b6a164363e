import ConsensusObserver.Steps

/-!
# How the root moves

The root is written in two places.  The commit callback moves it forward within its epoch
(`updateRoot`), and `process_commit_decision` sets it to a decision's proof when it starts state
sync.  The second is guarded by a test against the last known block, which the source writes as
`commit_decision_epoch > last_block.epoch() || commit_decision_round > last_block.round()`: a
disjunction, where its comment ("if the commit is for a future epoch or round") describes the
lexicographic comparison.  A decision is verified only when it is of the current epoch.

* `updateRoot_key_le`: the commit callback never moves the root back.
* `late_decision_moves_root_back` and `unverified_old_epoch_decision_becomes_root`: a decision
  from the epoch before, with a higher round than the root's, passes the guard unverified; the
  root goes back to it and a sync job starts.
* `late_decision_finalizes_block_twice` and `late_decision_breaks_parent_chain`: when that job's
  notification comes, the drain hands the execution pipeline the block it had already finalized,
  after the block itself and with the root at the late decision: the block goes to
  `finalize_order` twice, the second time as a child of neither the block before it nor the root.
-/

set_option autoImplicit false

namespace Observer

/-- The commit callback's update never moves the root back. -/
theorem updateRoot_key_le (root ledgerInfo : LedgerInfoWithSignatures) :
    root.key ≤ (updateRoot root ledgerInfo).key := by
  rcases updateRoot_cases root ledgerInfo with h | ⟨h, hlt⟩ <;> rw [h]
  exact hlt.le

/-- At root `(5, 10)`, in epoch 5, a commit decision `(4, 100)` from the epoch before passes the
guard (its round is above the last block's) and moves the root back to `(4, 100)`. -/
theorem late_decision_moves_root_back :
    (runFrom ⟨true, false, 100⟩ (fun _ _ ↦ true) ⟨⟨5, 10, 10⟩, 0⟩ (some [⟨5, some 1⟩])
      [subscribeTo 7]).map (·.root.key) = some ⟨5, 10⟩ ∧
    (runFrom ⟨true, false, 100⟩ (fun _ _ ↦ true) ⟨⟨5, 10, 10⟩, 0⟩ (some [⟨5, some 1⟩])
      [subscribeTo 7, .directSend 7 (.commitDecision ⟨⟨⟨4, 100, 99⟩, 0⟩⟩)]).map (·.root.key) =
        some ⟨4, 100⟩ ∧
    (⟨4, 100⟩ : Key) < ⟨5, 10⟩ := by
  decide

/-- With a signature check that rejects everything, a commit decision of epoch 4 still becomes
the root of an observer in epoch 5 at `(5, 10)`, and a sync job to it is spawned. -/
theorem unverified_old_epoch_decision_becomes_root :
    (runFrom ⟨true, false, 100⟩ (fun _ _ ↦ false) ⟨⟨5, 10, 10⟩, 0⟩ (some [⟨5, some 1⟩])
      [subscribeTo 7, .directSend 7 (.commitDecision ⟨⟨⟨4, 100, 99⟩, 0⟩⟩)]).map
      (fun w ↦ (w.epochState, w.root, w.syncHandle, w.syncJobs)) =
    some (some ⟨5, 1⟩, ⟨⟨4, 100, 99⟩, 0⟩, some 0, [⟨⟨⟨⟨4, 100, 99⟩, 0⟩⟩, .spawned⟩]) := by
  decide

/-- The late decision of `late_decision_moves_root_back` after `sampleBlock` `(5, 11)` was
finalized on arrival; its sync job succeeds and posts `(4, 100)`, and the main loop takes the
notification. -/
def lateDecisionEvents : List Event :=
  [subscribeTo 7, .directSend 7 (.orderedBlock sampleBlock),
    .directSend 7 (.commitDecision ⟨⟨⟨4, 100, 99⟩, 0⟩⟩), .syncJobStart 0, .syncJobFinish 0 true,
    .syncNotification]

/-- The sync to the late decision pruned the pending blocks only up to `(4, 100)`, so `(5, 11)`,
finalized on arrival, is still pending and verified, and the drain finalizes it again. -/
theorem late_decision_finalizes_block_twice :
    (runFrom ⟨true, false, 100⟩ (fun _ _ ↦ true) ⟨⟨5, 10, 10⟩, 0⟩ (some [⟨5, some 1⟩])
      lateDecisionEvents).map (·.executionCalls.map (·.1)) =
    some [.startEpoch ⟨5, 1⟩, .finalizeOrder sampleBlock, .syncTo ⟨⟨4, 100, 99⟩, 0⟩,
      .finalizeOrder sampleBlock] := by
  decide

/-- The second `finalize_order` of `(5, 11)`, whose parent is block 10, follows the first, whose
last block is 11, with no `finalize_order` between them, and is made while the root is block 99 of
the late decision. -/
theorem late_decision_breaks_parent_chain :
    (runFrom ⟨true, false, 100⟩ (fun _ _ ↦ true) ⟨⟨5, 10, 10⟩, 0⟩ (some [⟨5, some 1⟩])
      lateDecisionEvents).map (fun w ↦ (w.executionCalls.map (·.1),
        w.executionCalls.getLast?.map (·.2.root.commitInfo.id))) =
      some ([.startEpoch ⟨5, 1⟩, .finalizeOrder sampleBlock, .syncTo ⟨⟨4, 100, 99⟩, 0⟩,
        .finalizeOrder sampleBlock], some 99) ∧
    sampleBlock.firstBlock.parentId = 10 ∧ sampleBlock.lastBlock.blockInfo.id = 11 := by
  decide

end Observer
