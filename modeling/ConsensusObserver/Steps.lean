import ConsensusObserver.System

/-!
# What each step can do

One lemma per handler says everything the handler can do to the world, guards included.  The run
invariants are proved from these lemmas, one case per lemma, and never unfold a handler again.

* The field lemmas of `drainPendingBlocks` and `resumeDrain` give one iteration of the drain of
  `process_sync_notification` in closed form: the next block's `finalize_order`, after the
  `send_commit_msg` of the decision of the block before it.
* `checkProgress_eq`: a progress check changes the subscription, the outbound requests and the
  unsubscribe tasks only.
* `processOrderedBlock_cases`, `processCommitDecision_cases`, `processSyncNotification_cases`,
  `resumeSyncNotification_cases`: each handler either leaves the world as it is or takes one of
  the paths of the source, with the checks that path passed.
* `StepCase` lists the paths of one step, and `step_cases` shows every step takes one.  A step of
  the main loop requires it to be idle, out of `process_sync_notification`.
-/

set_option autoImplicit false

namespace Observer

/-- The commit callback's update keeps the root, or raises it to the ledger info. -/
theorem updateRoot_cases (root ledgerInfo : LedgerInfoWithSignatures) :
    updateRoot root ledgerInfo = root ∨
      updateRoot root ledgerInfo = ledgerInfo ∧ root.key < ledgerInfo.key := by
  unfold updateRoot
  split_ifs with hne hlt
  · exact .inl rfl
  · refine .inr ⟨rfl, ?_⟩
    simp only [LedgerInfoWithSignatures.key_eq, Key.lt_def, BlockInfo.key_epoch,
      BlockInfo.key_round]
    omega
  · exact .inl rfl

namespace World

variable {cfg : ConsensusObserverConfig} {verifySignatures : SignatureCheck} {w w' : World}

/-! ## The progress check -/

/-- A progress check changes the subscription, the outbound requests and the unsubscribe tasks,
nothing else. -/
theorem checkProgress_eq (w : World) (inputs : ProgressCheckInputs) :
    ∃ subscription requests tasks, w.checkProgress inputs = { w with
      activeObserverSubscription := subscription
      networkRequests := requests
      unsubscribeTasks := tasks } := by
  have hc : ∀ (w : World) (p : Option Nat), ∃ subscription requests,
      w.createNewObserverSubscription p inputs =
        { w with activeObserverSubscription := subscription, networkRequests := requests } := by
    intro w p
    unfold createNewObserverSubscription
    split
    · exact ⟨_, _, subscribeToSortedPeers_eq_find w inputs _⟩
    · exact ⟨_, _, rfl⟩
  rcases hs : w.activeObserverSubscription with _ | subscription
  · obtain ⟨s, r, h⟩ := hc w none
    exact ⟨s, r, w.unsubscribeTasks, by simpa [checkProgress, hs] using h⟩
  · rcases hr : checkActiveSubscription subscription inputs with _ | _
    · simp only [checkProgress, hs, hr, Option.map_some', unsubscribeFromPeer, Option.isNone_none,
        if_true]
      obtain ⟨s, r, h⟩ := hc ({ w with activeObserverSubscription := none }.unsubscribeFromPeer
        subscription.peerNetworkId) (some subscription.peerNetworkId)
      exact ⟨s, r, _, h⟩
    · simp only [checkProgress, hs, hr, Option.isNone_some, Bool.false_eq_true, if_false]
      exact ⟨_, _, _, rfl⟩

/-! ## Field lemmas of the small effects -/

@[simp] theorem emit_toConsensusObserver (w : World) (c : ExecutionCall) :
    (w.emit c).toConsensusObserver = w.toConsensusObserver := rfl
@[simp] theorem emit_executionCalls (w : World) (c : ExecutionCall) :
    (w.emit c).executionCalls = w.executionCalls ++ [(c, w.toConsensusObserver)] := rfl
@[simp] theorem emit_syncJobs (w : World) (c : ExecutionCall) :
    (w.emit c).syncJobs = w.syncJobs := rfl
@[simp] theorem emit_syncNotifications (w : World) (c : ExecutionCall) :
    (w.emit c).syncNotifications = w.syncNotifications := rfl
@[simp] theorem emit_commitCallbackRuns (w : World) (c : ExecutionCall) :
    (w.emit c).commitCallbackRuns = w.commitCallbackRuns := rfl
@[simp] theorem emit_acceptedBlocks (w : World) (c : ExecutionCall) :
    (w.emit c).acceptedBlocks = w.acceptedBlocks := rfl
@[simp] theorem emit_networkRequests (w : World) (c : ExecutionCall) :
    (w.emit c).networkRequests = w.networkRequests := rfl
@[simp] theorem emit_syncNotificationAwait (w : World) (c : ExecutionCall) :
    (w.emit c).syncNotificationAwait = w.syncNotificationAwait := rfl

@[simp] theorem finalizeOrderedBlock_toConsensusObserver (w : World) (ob : OrderedBlock) :
    (w.finalizeOrderedBlock ob).toConsensusObserver = w.toConsensusObserver := rfl
@[simp] theorem finalizeOrderedBlock_executionCalls (w : World) (ob : OrderedBlock) :
    (w.finalizeOrderedBlock ob).executionCalls =
      w.executionCalls ++ [(.finalizeOrder ob, w.toConsensusObserver)] := rfl
@[simp] theorem finalizeOrderedBlock_syncJobs (w : World) (ob : OrderedBlock) :
    (w.finalizeOrderedBlock ob).syncJobs = w.syncJobs := rfl
@[simp] theorem finalizeOrderedBlock_syncNotifications (w : World) (ob : OrderedBlock) :
    (w.finalizeOrderedBlock ob).syncNotifications = w.syncNotifications := rfl
@[simp] theorem finalizeOrderedBlock_commitCallbackRuns (w : World) (ob : OrderedBlock) :
    (w.finalizeOrderedBlock ob).commitCallbackRuns = w.commitCallbackRuns := rfl
@[simp] theorem finalizeOrderedBlock_acceptedBlocks (w : World) (ob : OrderedBlock) :
    (w.finalizeOrderedBlock ob).acceptedBlocks = w.acceptedBlocks := rfl
@[simp] theorem finalizeOrderedBlock_networkRequests (w : World) (ob : OrderedBlock) :
    (w.finalizeOrderedBlock ob).networkRequests = w.networkRequests := rfl
@[simp] theorem finalizeOrderedBlock_unsubscribeTasks (w : World) (ob : OrderedBlock) :
    (w.finalizeOrderedBlock ob).unsubscribeTasks = w.unsubscribeTasks := rfl
@[simp] theorem finalizeOrderedBlock_syncNotificationAwait (w : World) (ob : OrderedBlock) :
    (w.finalizeOrderedBlock ob).syncNotificationAwait = w.syncNotificationAwait := rfl

@[simp] theorem forwardCommitDecision_toConsensusObserver (w : World) (cd : CommitDecision) :
    (w.forwardCommitDecision cd).toConsensusObserver = w.toConsensusObserver := rfl
@[simp] theorem forwardCommitDecision_executionCalls (w : World) (cd : CommitDecision) :
    (w.forwardCommitDecision cd).executionCalls =
      w.executionCalls ++ [(.sendCommitMsg cd, w.toConsensusObserver)] := rfl
@[simp] theorem forwardCommitDecision_syncJobs (w : World) (cd : CommitDecision) :
    (w.forwardCommitDecision cd).syncJobs = w.syncJobs := rfl
@[simp] theorem forwardCommitDecision_syncNotifications (w : World) (cd : CommitDecision) :
    (w.forwardCommitDecision cd).syncNotifications = w.syncNotifications := rfl
@[simp] theorem forwardCommitDecision_commitCallbackRuns (w : World) (cd : CommitDecision) :
    (w.forwardCommitDecision cd).commitCallbackRuns = w.commitCallbackRuns := rfl
@[simp] theorem forwardCommitDecision_acceptedBlocks (w : World) (cd : CommitDecision) :
    (w.forwardCommitDecision cd).acceptedBlocks = w.acceptedBlocks := rfl
@[simp] theorem forwardCommitDecision_networkRequests (w : World) (cd : CommitDecision) :
    (w.forwardCommitDecision cd).networkRequests = w.networkRequests := rfl
@[simp] theorem forwardCommitDecision_unsubscribeTasks (w : World) (cd : CommitDecision) :
    (w.forwardCommitDecision cd).unsubscribeTasks = w.unsubscribeTasks := rfl
@[simp] theorem forwardCommitDecision_syncNotificationAwait (w : World) (cd : CommitDecision) :
    (w.forwardCommitDecision cd).syncNotificationAwait = w.syncNotificationAwait := rfl

@[simp] theorem setSyncHandle_toConsensusObserver (w : World) (h : Option Nat) :
    (w.setSyncHandle h).toConsensusObserver = { w.toConsensusObserver with syncHandle := h } :=
  rfl
@[simp] theorem setSyncHandle_executionCalls (w : World) (h : Option Nat) :
    (w.setSyncHandle h).executionCalls = w.executionCalls := rfl
@[simp] theorem setSyncHandle_syncNotifications (w : World) (h : Option Nat) :
    (w.setSyncHandle h).syncNotifications = w.syncNotifications := rfl
@[simp] theorem setSyncHandle_commitCallbackRuns (w : World) (h : Option Nat) :
    (w.setSyncHandle h).commitCallbackRuns = w.commitCallbackRuns := rfl
@[simp] theorem setSyncHandle_acceptedBlocks (w : World) (h : Option Nat) :
    (w.setSyncHandle h).acceptedBlocks = w.acceptedBlocks := rfl
@[simp] theorem setSyncHandle_commitCallbacks (w : World) (h : Option Nat) :
    (w.setSyncHandle h).commitCallbacks = w.commitCallbacks := rfl
@[simp] theorem setSyncHandle_networkRequests (w : World) (h : Option Nat) :
    (w.setSyncHandle h).networkRequests = w.networkRequests := rfl
@[simp] theorem setSyncHandle_unsubscribeTasks (w : World) (h : Option Nat) :
    (w.setSyncHandle h).unsubscribeTasks = w.unsubscribeTasks := rfl
@[simp] theorem setSyncHandle_syncNotificationAwait (w : World) (h : Option Nat) :
    (w.setSyncHandle h).syncNotificationAwait = w.syncNotificationAwait := rfl

@[simp] theorem unsubscribeFromPeer_toConsensusObserver (w : World) (peer : Nat) :
    (w.unsubscribeFromPeer peer).toConsensusObserver = w.toConsensusObserver := rfl
@[simp] theorem processBlockPayload_toConsensusObserver (w : World) (bp : BlockPayload) :
    (w.processBlockPayload bp).toConsensusObserver = { w.toConsensusObserver with
      blockPayloadStore := w.blockPayloadStore.insertBlockPayload bp.block bp.transactions
        bp.limit } := rfl

@[simp] theorem syncToCommitDecision_toConsensusObserver (w : World) (cd : CommitDecision) :
    (w.syncToCommitDecision cd).toConsensusObserver =
      { w.toConsensusObserver with syncHandle := some w.syncJobs.length } := rfl
@[simp] theorem syncToCommitDecision_executionCalls (w : World) (cd : CommitDecision) :
    (w.syncToCommitDecision cd).executionCalls = w.executionCalls := rfl
@[simp] theorem syncToCommitDecision_syncNotifications (w : World) (cd : CommitDecision) :
    (w.syncToCommitDecision cd).syncNotifications = w.syncNotifications := rfl
@[simp] theorem syncToCommitDecision_commitCallbackRuns (w : World) (cd : CommitDecision) :
    (w.syncToCommitDecision cd).commitCallbackRuns = w.commitCallbackRuns := rfl
@[simp] theorem syncToCommitDecision_acceptedBlocks (w : World) (cd : CommitDecision) :
    (w.syncToCommitDecision cd).acceptedBlocks = w.acceptedBlocks := rfl
@[simp] theorem syncToCommitDecision_syncNotificationAwait (w : World) (cd : CommitDecision) :
    (w.syncToCommitDecision cd).syncNotificationAwait = w.syncNotificationAwait := rfl

/-! ## One iteration of the drain -/

section Drain

variable (l rest : List (OrderedBlock × Option CommitDecision)) (cd : Option CommitDecision)

@[simp] theorem drainPendingBlocks_toConsensusObserver (w : World) :
    (w.drainPendingBlocks l).toConsensusObserver = w.toConsensusObserver := by
  rcases l with _ | ⟨⟨_, _⟩, _⟩ <;> rfl
@[simp] theorem drainPendingBlocks_executionCalls (w : World) :
    (w.drainPendingBlocks l).executionCalls =
      w.executionCalls ++
        l.head?.toList.map fun p ↦ (.finalizeOrder p.1, w.toConsensusObserver) := by
  rcases l with _ | ⟨⟨_, _⟩, _⟩ <;> simp [drainPendingBlocks]
@[simp] theorem drainPendingBlocks_syncNotificationAwait (w : World) :
    (w.drainPendingBlocks l).syncNotificationAwait =
      l.head?.map fun p ↦ .finalizeOrder p.2 l.tail := by
  rcases l with _ | ⟨⟨_, _⟩, _⟩ <;> rfl
@[simp] theorem drainPendingBlocks_syncJobs (w : World) :
    (w.drainPendingBlocks l).syncJobs = w.syncJobs := by
  rcases l with _ | ⟨⟨_, _⟩, _⟩ <;> rfl
@[simp] theorem drainPendingBlocks_syncNotifications (w : World) :
    (w.drainPendingBlocks l).syncNotifications = w.syncNotifications := by
  rcases l with _ | ⟨⟨_, _⟩, _⟩ <;> rfl
@[simp] theorem drainPendingBlocks_commitCallbackRuns (w : World) :
    (w.drainPendingBlocks l).commitCallbackRuns = w.commitCallbackRuns := by
  rcases l with _ | ⟨⟨_, _⟩, _⟩ <;> rfl
@[simp] theorem drainPendingBlocks_acceptedBlocks (w : World) :
    (w.drainPendingBlocks l).acceptedBlocks = w.acceptedBlocks := by
  rcases l with _ | ⟨⟨_, _⟩, _⟩ <;> rfl
@[simp] theorem drainPendingBlocks_networkRequests (w : World) :
    (w.drainPendingBlocks l).networkRequests = w.networkRequests := by
  rcases l with _ | ⟨⟨_, _⟩, _⟩ <;> rfl
@[simp] theorem drainPendingBlocks_unsubscribeTasks (w : World) :
    (w.drainPendingBlocks l).unsubscribeTasks = w.unsubscribeTasks := by
  rcases l with _ | ⟨⟨_, _⟩, _⟩ <;> rfl

/-- Once a drained block's `finalize_order` returns, its decision is forwarded and the next block
finalized, both with the observer as it is then. -/
@[simp] theorem resumeDrain_toConsensusObserver (w : World) :
    (w.resumeDrain cd rest).toConsensusObserver = w.toConsensusObserver := by
  rcases cd with _ | _ <;> simp [resumeDrain]
@[simp] theorem resumeDrain_executionCalls (w : World) :
    (w.resumeDrain cd rest).executionCalls = w.executionCalls ++
      cd.toList.map (fun d ↦ (.sendCommitMsg d, w.toConsensusObserver)) ++
      rest.head?.toList.map fun p ↦ (.finalizeOrder p.1, w.toConsensusObserver) := by
  rcases cd with _ | _ <;> simp [resumeDrain]
@[simp] theorem resumeDrain_syncNotificationAwait (w : World) :
    (w.resumeDrain cd rest).syncNotificationAwait =
      rest.head?.map fun p ↦ .finalizeOrder p.2 rest.tail := by
  rcases cd with _ | _ <;> simp [resumeDrain]
@[simp] theorem resumeDrain_syncJobs (w : World) :
    (w.resumeDrain cd rest).syncJobs = w.syncJobs := by
  rcases cd with _ | _ <;> simp [resumeDrain]
@[simp] theorem resumeDrain_syncNotifications (w : World) :
    (w.resumeDrain cd rest).syncNotifications = w.syncNotifications := by
  rcases cd with _ | _ <;> simp [resumeDrain]
@[simp] theorem resumeDrain_commitCallbackRuns (w : World) :
    (w.resumeDrain cd rest).commitCallbackRuns = w.commitCallbackRuns := by
  rcases cd with _ | _ <;> simp [resumeDrain]
@[simp] theorem resumeDrain_acceptedBlocks (w : World) :
    (w.resumeDrain cd rest).acceptedBlocks = w.acceptedBlocks := by
  rcases cd with _ | _ <;> simp [resumeDrain]
@[simp] theorem resumeDrain_networkRequests (w : World) :
    (w.resumeDrain cd rest).networkRequests = w.networkRequests := by
  rcases cd with _ | _ <;> simp [resumeDrain]
@[simp] theorem resumeDrain_unsubscribeTasks (w : World) :
    (w.resumeDrain cd rest).unsubscribeTasks = w.unsubscribeTasks := by
  rcases cd with _ | _ <;> simp [resumeDrain]

/-- An iteration of the drain calls `finalize_order` only. -/
theorem forall_mem_drainCalls {P : ExecutionCall × ConsensusObserver → Prop}
    {o : ConsensusObserver} (hfinalize : ∀ ob, P (.finalizeOrder ob, o)) :
    ∀ c ∈ l.head?.toList.map fun p ↦ (ExecutionCall.finalizeOrder p.1, o), P c :=
  List.forall_mem_map.2 fun p _ ↦ hfinalize p.1

/-- Its next iteration calls `send_commit_msg` first. -/
theorem forall_mem_resumeDrainCalls {P : ExecutionCall × ConsensusObserver → Prop}
    {o : ConsensusObserver} (hsend : ∀ d, P (.sendCommitMsg d, o))
    (hfinalize : ∀ ob, P (.finalizeOrder ob, o)) :
    ∀ c ∈ cd.toList.map (fun d ↦ (ExecutionCall.sendCommitMsg d, o)) ++
      rest.head?.toList.map fun p ↦ (ExecutionCall.finalizeOrder p.1, o), P c :=
  List.forall_mem_append.2 ⟨List.forall_mem_map.2 fun d _ ↦ hsend d,
    forall_mem_drainCalls rest hfinalize⟩

end Drain

/-- Leaving sync mode: the handle is dropped, and the first verified pending block is finalized
with the observer as it is once the handle is gone; the others are left to the drain. -/
theorem exitSyncMode_eq (w : World) :
    w.exitSyncMode = (w.setSyncHandle none).drainPendingBlocks
      w.pendingOrderedBlocks.getAllVerifiedPendingBlocks := rfl

@[simp] theorem exitSyncMode_toConsensusObserver (w : World) :
    w.exitSyncMode.toConsensusObserver = { w.toConsensusObserver with syncHandle := none } := by
  simp [exitSyncMode_eq]
@[simp] theorem exitSyncMode_executionCalls (w : World) :
    w.exitSyncMode.executionCalls = w.executionCalls ++
      w.pendingOrderedBlocks.getAllVerifiedPendingBlocks.head?.toList.map fun p ↦
        (.finalizeOrder p.1, { w.toConsensusObserver with syncHandle := none }) := by
  simp [exitSyncMode_eq]
@[simp] theorem exitSyncMode_syncNotificationAwait (w : World) :
    w.exitSyncMode.syncNotificationAwait =
      w.pendingOrderedBlocks.getAllVerifiedPendingBlocks.head?.map fun p ↦
        .finalizeOrder p.2 w.pendingOrderedBlocks.getAllVerifiedPendingBlocks.tail := by
  simp [exitSyncMode_eq]
@[simp] theorem exitSyncMode_syncJobs (w : World) :
    w.exitSyncMode.syncJobs = (w.setSyncHandle none).syncJobs := by
  simp [exitSyncMode_eq]
@[simp] theorem exitSyncMode_syncNotifications (w : World) :
    w.exitSyncMode.syncNotifications = w.syncNotifications := by
  simp [exitSyncMode_eq]
@[simp] theorem exitSyncMode_commitCallbackRuns (w : World) :
    w.exitSyncMode.commitCallbackRuns = w.commitCallbackRuns := by
  simp [exitSyncMode_eq]
@[simp] theorem exitSyncMode_acceptedBlocks (w : World) :
    w.exitSyncMode.acceptedBlocks = w.acceptedBlocks := by
  simp [exitSyncMode_eq]
@[simp] theorem exitSyncMode_networkRequests (w : World) :
    w.exitSyncMode.networkRequests = w.networkRequests := by
  simp [exitSyncMode_eq]
@[simp] theorem exitSyncMode_unsubscribeTasks (w : World) :
    w.exitSyncMode.unsubscribeTasks = w.unsubscribeTasks := by
  simp [exitSyncMode_eq]

/-! ## The handlers, path by path -/

variable (cfg verifySignatures) in
theorem insertOrderedBlockIfChild_cases (w : World) (ob : OrderedBlock) (v : Bool) :
    w.insertOrderedBlockIfChild cfg ob v = w ∨
      w.getLastBlock.id = ob.firstBlock.parentId ∧
        w.insertOrderedBlockIfChild cfg ob v = w.acceptOrderedBlock cfg ob v := by
  unfold insertOrderedBlockIfChild
  split_ifs with h
  · exact .inr ⟨h, rfl⟩
  · exact .inl rfl

/-- An ordered block is dropped, or accepted as a child of the last known block — marked
verified exactly when it is of the current epoch, and then only with a verified proof. -/
theorem processOrderedBlock_cases {ob : OrderedBlock}
    (h : w.processOrderedBlock verifySignatures cfg ob = some w') :
    w' = w ∨ ∃ es v, w.epochState = some es ∧ ob.verifyOrderedBlocks = true ∧
      (v = true ↔ ob.proofBlockInfo.epoch = es.epoch) ∧
      (v = true → ob.verifyOrderedProof verifySignatures es = true) ∧
      w.getLastBlock.id = ob.firstBlock.parentId ∧ w' = w.acceptOrderedBlock cfg ob v := by
  unfold processOrderedBlock at h
  split at h
  · rename_i hob
    split at h
    · cases h
    · rename_i es hes
      have accept : ∀ v, (v = true ↔ ob.proofBlockInfo.epoch = es.epoch) →
          (v = true → ob.verifyOrderedProof verifySignatures es = true) →
          w.insertOrderedBlockIfChild cfg ob v = w' → w' = w ∨ ∃ es v, w.epochState = some es ∧
            ob.verifyOrderedBlocks = true ∧ (v = true ↔ ob.proofBlockInfo.epoch = es.epoch) ∧
            (v = true → ob.verifyOrderedProof verifySignatures es = true) ∧
            w.getLastBlock.id = ob.firstBlock.parentId ∧ w' = w.acceptOrderedBlock cfg ob v := by
        rintro v hv hp rfl
        rcases insertOrderedBlockIfChild_cases cfg w ob v with h | ⟨hg, h⟩
        · exact .inl h
        · exact .inr ⟨es, v, hes, hob, hv, hp, hg, h⟩
      split_ifs at h with h₁ h₂
      · exact accept true (iff_of_true rfl h₁) (fun _ ↦ h₂) (Option.some.inj h)
      · exact .inl (Option.some.inj h).symm
      · exact accept false (iff_of_false Bool.false_ne_true h₁) (fun h ↦ nomatch h)
          (Option.some.inj h)
  · exact .inl (Option.some.inj h).symm

/-- A commit decision is dropped, taken by a verified pending block, or offered to state sync;
only a decision of the current epoch is verified, and it must verify to go further. -/
theorem processCommitDecision_cases {cd : CommitDecision}
    (h : w.processCommitDecision verifySignatures cd = some w') :
    ∃ es, w.epochState = some es ∧ (w' = w ∨
      (cd.epoch = es.epoch ∧ cd.verifyCommitProof verifySignatures es = true ∧
        (w.processCommitDecisionForPendingBlock cd).2 = true ∧
        w' = (w.processCommitDecisionForPendingBlock cd).1) ∨
      ((cd.epoch = es.epoch → cd.verifyCommitProof verifySignatures es = true ∧
          (w.processCommitDecisionForPendingBlock cd).2 = false) ∧
        w' = w.syncIfAhead cd)) := by
  unfold processCommitDecision at h
  split at h
  · cases h
  · rename_i es hes
    refine ⟨es, hes, ?_⟩
    dsimp only at h
    split_ifs at h with h₁ h₂ h₃
    · exact .inr (.inl ⟨h₁, h₂, h₃, (Option.some.inj h).symm⟩)
    · exact .inr (.inr ⟨fun _ ↦ ⟨h₂, by simpa using h₃⟩, (Option.some.inj h).symm⟩)
    · exact .inl (Option.some.inj h).symm
    · exact .inr (.inr ⟨fun h ↦ absurd h h₁, (Option.some.inj h).symm⟩)

/-- A pending block takes a decision only when it is verified, of the decision's key, and has all
its payloads; the decision is then attached, and forwarded outside sync mode. -/
theorem processCommitDecisionForPendingBlock_taken {cd : CommitDecision}
    (h : (w.processCommitDecisionForPendingBlock cd).2 = true) :
    (∃ e ∈ w.pendingOrderedBlocks.entries, e.key = cd.key ∧ e.verified = true ∧
      w.blockPayloadStore.allPayloadsExist e.orderedBlock.blocks = true) ∧
    (w.processCommitDecisionForPendingBlock cd).1 =
      if w.syncHandle.isNone then
        ({ w with pendingOrderedBlocks :=
          w.pendingOrderedBlocks.updateCommitDecision cd } : World).forwardCommitDecision cd
      else { w with pendingOrderedBlocks := w.pendingOrderedBlocks.updateCommitDecision cd } := by
  unfold processCommitDecisionForPendingBlock at h ⊢
  split at h
  · rename_i pb hpb
    split_ifs at h with hp
    obtain ⟨e, he, hk, hv, rfl⟩ := PendingOrderedBlocks.getVerifiedPendingBlock_spec hpb
    refine ⟨⟨e, he, hk, hv, hp⟩, ?_⟩
    simp only [hpb, hp, if_true]
  · cases h

theorem syncIfAhead_cases (w : World) (cd : CommitDecision) :
    w.syncIfAhead cd = w ∨
      (w.getLastBlock.epoch < cd.epoch ∨ w.getLastBlock.round < cd.round) ∧
        w.syncIfAhead cd = ({ w with
          root := cd.commitProof
          pendingOrderedBlocks := w.pendingOrderedBlocks.removeBlocksForCommit cd.commitProof
        } : World).syncToCommitDecision cd := by
  unfold syncIfAhead
  dsimp only
  split_ifs with h
  · exact .inr ⟨h, rfl⟩
  · exact .inl rfl

/-- A sync notification is ignored, or, for the root's epoch and round, ends sync mode at once
when it is of the current epoch, and calls `end_epoch` first when it is of a later one. -/
theorem processSyncNotification_cases {epoch round : Nat}
    (h : w.processSyncNotification epoch round = some w') :
    checkRootEpochAndRound w.root epoch round = false ∧ w' = w ∨
      ∃ es, checkRootEpochAndRound w.root epoch round = true ∧ w.epochState = some es ∧
        (es.epoch < epoch ∧
            w' = { w.emit .endEpoch with syncNotificationAwait := some (.endEpoch es) } ∨
          ¬es.epoch < epoch ∧ w' = w.exitSyncMode) := by
  unfold processSyncNotification at h
  split at h
  · rename_i hroot
    split at h
    · cases h
    · rename_i es hes
      split_ifs at h with hlt <;> cases h
      · exact .inr ⟨es, hroot, hes, .inl ⟨hlt, rfl⟩⟩
      · exact .inr ⟨es, hroot, hes, .inr ⟨hlt, rfl⟩⟩
  · rename_i hroot
    exact .inl ⟨by simpa using hroot, (Option.some.inj h).symm⟩

theorem whenIdle_eq_some {next : Option World} :
    w.whenIdle next = some w' ↔ w.syncNotificationAwait = none ∧ next = some w' := by
  unfold whenIdle
  split <;> simp_all

end World

/-! ## Every step, path by path -/

/-- The paths one step can take, each with the checks it passed and the world it leaves: the
transition relation that `World.step` computes (`step_cases`).  Each step of the main loop is
taken while the loop is idle (`hidle`). -/
inductive StepCase (cfg : ConsensusObserverConfig) (verifySignatures : SignatureCheck) (w : World) :
    Event → World → Prop
  /-- A request goes to the publisher: the observer is left as it is. -/
  | request (peer : Nat) (request : ConsensusObserverRequest)
      (hidle : w.syncNotificationAwait = none) :
      StepCase cfg verifySignatures w (.request peer request) w
  /-- A message the handlers drop. -/
  | dropped (peer : Nat) (message : ConsensusObserverDirectSend)
      (hidle : w.syncNotificationAwait = none) :
      StepCase cfg verifySignatures w (.directSend peer message) w
  /-- A message from a peer that is not the subscribed one: a task is spawned to unsubscribe. -/
  | unsubscribe (peer : Nat) (message : ConsensusObserverDirectSend)
      (hforeign : ∀ s, w.activeObserverSubscription = some s → s.verifyMessageSender peer = false)
      (hidle : w.syncNotificationAwait = none) :
      StepCase cfg verifySignatures w (.directSend peer message) (w.unsubscribeFromPeer peer)
  /-- An ordered block of the current epoch whose proof verified, accepted as a child of the last
  block outside sync mode, and finalized at once. -/
  | orderedBlockFinalized (peer : Nat) (ob : OrderedBlock) (es : EpochState)
      (hes : w.epochState = some es) (hob : ob.verifyOrderedBlocks = true)
      (hepoch : ob.proofBlockInfo.epoch = es.epoch)
      (hproof : ob.verifyOrderedProof verifySignatures es = true)
      (hparent : w.getLastBlock.id = ob.firstBlock.parentId) (hsync : w.syncHandle = none)
      (hidle : w.syncNotificationAwait = none) :
      StepCase cfg verifySignatures w (.directSend peer (.orderedBlock ob))
        (({ w with
          pendingOrderedBlocks :=
            w.pendingOrderedBlocks.insertOrderedBlock cfg.maxNumPendingBlocks ob true
          acceptedBlocks := w.acceptedBlocks ++ [(ob, w.toConsensusObserver)] } :
          World).finalizeOrderedBlock ob)
  /-- An ordered block accepted as a child of the last block into the pending blocks only:
  unverified when it is of another epoch, verified (in sync mode) when it is of this one. -/
  | orderedBlockBuffered (peer : Nat) (ob : OrderedBlock) (es : EpochState) (verified : Bool)
      (hes : w.epochState = some es) (hob : ob.verifyOrderedBlocks = true)
      (hepoch : verified = true ↔ ob.proofBlockInfo.epoch = es.epoch)
      (hproof : verified = true → ob.verifyOrderedProof verifySignatures es = true)
      (hparent : w.getLastBlock.id = ob.firstBlock.parentId)
      (hsync : verified = true → w.syncHandle ≠ none) (hidle : w.syncNotificationAwait = none) :
      StepCase cfg verifySignatures w (.directSend peer (.orderedBlock ob)) { w with
        pendingOrderedBlocks :=
          w.pendingOrderedBlocks.insertOrderedBlock cfg.maxNumPendingBlocks ob verified
        acceptedBlocks := w.acceptedBlocks ++ [(ob, w.toConsensusObserver)] }
  /-- A verified commit decision of the current epoch taken by its verified pending block, and
  forwarded outside sync mode. -/
  | commitForwarded (peer : Nat) (cd : CommitDecision) (es : EpochState) (e : PendingEntry)
      (hes : w.epochState = some es) (hepoch : cd.epoch = es.epoch)
      (hproof : cd.verifyCommitProof verifySignatures es = true)
      (he : e ∈ w.pendingOrderedBlocks.entries) (hkey : e.key = cd.key)
      (hverified : e.verified = true)
      (hpayloads : w.blockPayloadStore.allPayloadsExist e.orderedBlock.blocks = true)
      (hsync : w.syncHandle = none) (hidle : w.syncNotificationAwait = none) :
      StepCase cfg verifySignatures w (.directSend peer (.commitDecision cd))
        (({ w with pendingOrderedBlocks := w.pendingOrderedBlocks.updateCommitDecision cd } :
          World).forwardCommitDecision cd)
  /-- The same in sync mode: the decision is attached to its block only. -/
  | commitAttached (peer : Nat) (cd : CommitDecision) (es : EpochState) (e : PendingEntry)
      (hes : w.epochState = some es) (hepoch : cd.epoch = es.epoch)
      (hproof : cd.verifyCommitProof verifySignatures es = true)
      (he : e ∈ w.pendingOrderedBlocks.entries) (hkey : e.key = cd.key)
      (hverified : e.verified = true)
      (hpayloads : w.blockPayloadStore.allPayloadsExist e.orderedBlock.blocks = true)
      (hsync : w.syncHandle ≠ none) (hidle : w.syncNotificationAwait = none) :
      StepCase cfg verifySignatures w (.directSend peer (.commitDecision cd))
        { w with pendingOrderedBlocks := w.pendingOrderedBlocks.updateCommitDecision cd }
  /-- A commit decision ahead of the last known block, and verified when it is of the current
  epoch: the root is set to its proof, the pending blocks pruned, and state sync started. -/
  | syncStarted (peer : Nat) (cd : CommitDecision) (es : EpochState)
      (hes : w.epochState = some es)
      (hproof : cd.epoch = es.epoch → cd.verifyCommitProof verifySignatures es = true ∧
        (w.processCommitDecisionForPendingBlock cd).2 = false)
      (hahead : w.getLastBlock.epoch < cd.epoch ∨ w.getLastBlock.round < cd.round)
      (hidle : w.syncNotificationAwait = none) :
      StepCase cfg verifySignatures w (.directSend peer (.commitDecision cd))
        (({ w with
          root := cd.commitProof
          pendingOrderedBlocks := w.pendingOrderedBlocks.removeBlocksForCommit cd.commitProof } :
          World).syncToCommitDecision cd)
  /-- A block payload is stored. -/
  | blockPayload (peer : Nat) (bp : BlockPayload) (hidle : w.syncNotificationAwait = none) :
      StepCase cfg verifySignatures w (.directSend peer (.blockPayload bp))
        (w.processBlockPayload bp)
  /-- A sync notification not for the root's epoch and round is taken off the channel. -/
  | syncIgnored (n : SyncNotification) (rest : List SyncNotification)
      (hn : w.syncNotifications = n :: rest)
      (hroot : checkRootEpochAndRound w.root n.epoch n.round = false)
      (hidle : w.syncNotificationAwait = none) :
      StepCase cfg verifySignatures w .syncNotification { w with syncNotifications := rest }
  /-- A sync notification for the root, in the current epoch, ends sync mode: the handle is
  dropped and the drain starts. -/
  | syncAccepted (n : SyncNotification) (rest : List SyncNotification) (es : EpochState)
      (hn : w.syncNotifications = n :: rest)
      (hroot : checkRootEpochAndRound w.root n.epoch n.round = true)
      (hes : w.epochState = some es) (hle : ¬es.epoch < n.epoch)
      (hidle : w.syncNotificationAwait = none) :
      StepCase cfg verifySignatures w .syncNotification
        (({ w with syncNotifications := rest } : World).exitSyncMode)
  /-- A sync notification for the root, in a later epoch: `end_epoch` is called, and the handler
  waits on it. -/
  | syncEndEpoch (n : SyncNotification) (rest : List SyncNotification) (es : EpochState)
      (hn : w.syncNotifications = n :: rest)
      (hroot : checkRootEpochAndRound w.root n.epoch n.round = true)
      (hes : w.epochState = some es) (hlt : es.epoch < n.epoch)
      (hidle : w.syncNotificationAwait = none) :
      StepCase cfg verifySignatures w .syncNotification { w with
        syncNotifications := rest
        executionCalls := w.executionCalls ++ [(.endEpoch, w.toConsensusObserver)]
        syncNotificationAwait := some (.endEpoch es) }
  /-- `end_epoch` has returned: `wait_for_epoch_start` installs the next epoch state and calls
  `start_epoch`, and the handler waits on it. -/
  | epochStarted (es es' : EpochState) (configs : List ReconfigNotification)
      (hw : w.syncNotificationAwait = some (.endEpoch es))
      (hconfigs : w.reconfigEvents.bind extractOnChainConfigs = some (es', configs)) :
      StepCase cfg verifySignatures w .resumeSyncNotification { w with
        epochState := some es'
        reconfigEvents := some configs
        executionCalls := w.executionCalls ++ [(.startEpoch es', { w.toConsensusObserver with
          epochState := some es', reconfigEvents := some configs })]
        syncNotificationAwait := some (.startEpoch es) }
  /-- `start_epoch` has returned: the pending blocks are verified against the epoch state read
  before the epoch change, the handle is dropped and the drain starts. -/
  | pendingVerified (es : EpochState) (hw : w.syncNotificationAwait = some (.startEpoch es)) :
      StepCase cfg verifySignatures w .resumeSyncNotification (({ w with
        pendingOrderedBlocks := w.pendingOrderedBlocks.verifyPendingBlocks verifySignatures es } :
        World).exitSyncMode)
  /-- A drained block's `finalize_order` has returned: its decision is forwarded, and the next
  block finalized. -/
  | drainResumed (cd : Option CommitDecision) (rest : List (OrderedBlock × Option CommitDecision))
      (hw : w.syncNotificationAwait = some (.finalizeOrder cd rest)) :
      StepCase cfg verifySignatures w .resumeSyncNotification (w.resumeDrain cd rest)
  /-- A progress check: the subscription, the outbound requests and the unsubscribe tasks
  change. -/
  | progressCheck (inputs : ProgressCheckInputs)
      (subscription : Option ConsensusObserverSubscription)
      (requests : List (Nat × ConsensusObserverRequest)) (tasks : List UnsubscribeTask)
      (h : w.checkProgress inputs = { w with
        activeObserverSubscription := subscription
        networkRequests := requests
        unsubscribeTasks := tasks })
      (hidle : w.syncNotificationAwait = none) :
      StepCase cfg verifySignatures w (.progressCheck inputs) { w with
        activeObserverSubscription := subscription
        networkRequests := requests
        unsubscribeTasks := tasks }
  /-- A spawned job calls `sync_to`. -/
  | syncJobStart (j : Nat) (job : SyncJob) (hj : w.syncJobs[j]? = some job)
      (hs : job.status = .spawned) :
      StepCase cfg verifySignatures w (.syncJobStart j)
        { w.emit (.syncTo job.commitDecision.commitProof) with
          syncJobs := w.syncJobs.set j { job with status := .syncing } }
  /-- A job's `sync_to` returns, and the job posts its decision's `(epoch, round)`. -/
  | syncJobFinish (j : Nat) (job : SyncJob) (synced : Bool) (hj : w.syncJobs[j]? = some job)
      (hs : job.status = .syncing) :
      StepCase cfg verifySignatures w (.syncJobFinish j synced) { w with
        syncJobs := w.syncJobs.set j { job with status := .finished synced }
        syncNotifications :=
          w.syncNotifications ++ [⟨job.commitDecision.epoch, job.commitDecision.round, j⟩] }
  /-- The execution pipeline invokes a commit callback it holds. -/
  | commitCallback (blocks : List PipelinedBlock) (ledgerInfo : LedgerInfoWithSignatures)
      (hc : 0 < w.commitCallbacks) :
      StepCase cfg verifySignatures w (.commitCallback blocks ledgerInfo) { w with
        commitCallbacks := w.commitCallbacks - 1
        commitCallbackRuns := w.commitCallbackRuns ++ [⟨blocks, ledgerInfo, .removePayloads⟩] }
  /-- A running callback removes its blocks' payloads. -/
  | callbackRemovePayloads (i : Nat) (run : CommitCallbackRun)
      (hi : w.commitCallbackRuns[i]? = some run) (hs : run.stage = .removePayloads) :
      StepCase cfg verifySignatures w (.commitCallbackStep i) { w with
        blockPayloadStore := w.blockPayloadStore.removeBlocks run.blocks
        commitCallbackRuns :=
          w.commitCallbackRuns.set i { run with stage := .removePendingBlocks } }
  /-- A running callback removes the pending blocks up to its ledger info. -/
  | callbackRemovePendingBlocks (i : Nat) (run : CommitCallbackRun)
      (hi : w.commitCallbackRuns[i]? = some run) (hs : run.stage = .removePendingBlocks) :
      StepCase cfg verifySignatures w (.commitCallbackStep i) { w with
        pendingOrderedBlocks := w.pendingOrderedBlocks.removeBlocksForCommit run.ledgerInfo
        commitCallbackRuns := w.commitCallbackRuns.set i { run with stage := .updateRoot } }
  /-- A running callback updates the root under its lock. -/
  | callbackUpdateRoot (i : Nat) (run : CommitCallbackRun)
      (hi : w.commitCallbackRuns[i]? = some run) (hs : run.stage = .updateRoot) :
      StepCase cfg verifySignatures w (.commitCallbackStep i) { w with
        root := updateRoot w.root run.ledgerInfo
        commitCallbackRuns := w.commitCallbackRuns.set i { run with stage := .done } }
  /-- An unsubscribe task sends its `Unsubscribe` request. -/
  | unsubscribeSend (i : Nat) (task : UnsubscribeTask) (hi : w.unsubscribeTasks[i]? = some task)
      (hs : task.sent = false) :
      StepCase cfg verifySignatures w (.unsubscribeSend i) { w with
        unsubscribeTasks := w.unsubscribeTasks.set i { task with sent := true }
        networkRequests := w.networkRequests ++ [(task.peerNetworkId, .unsubscribe)] }

namespace World

variable {cfg : ConsensusObserverConfig} {verifySignatures : SignatureCheck} {w w' : World}

theorem directSend_cases {peer : Nat} {message : ConsensusObserverDirectSend}
    (h : w.processDirectSendMessage verifySignatures cfg peer message = some w')
    (hidle : w.syncNotificationAwait = none) :
    StepCase cfg verifySignatures w (.directSend peer message) w' := by
  unfold processDirectSendMessage at h
  split at h
  · split at h
    · split at h
      · rename_i ob
        rcases processOrderedBlock_cases h with rfl | ⟨es, v, hes, hob, hepoch, hproof, hp, rfl⟩
        · exact .dropped _ _ hidle
        · unfold acceptOrderedBlock
          split_ifs with hf
          · obtain ⟨rfl, hs⟩ : v = true ∧ w.syncHandle = none := by simpa using hf
            exact .orderedBlockFinalized _ ob es hes hob (hepoch.1 rfl) (hproof rfl) hp hs hidle
          · exact .orderedBlockBuffered _ ob es v hes hob hepoch hproof hp
              (fun hv hs ↦ hf (by simp [hv, hs])) hidle
      · rename_i cd
        obtain ⟨es, hes, rfl | ⟨hepoch, hproof, ht, rfl⟩ | ⟨hproof, rfl⟩⟩ :=
          processCommitDecision_cases h
        · exact .dropped _ _ hidle
        · obtain ⟨⟨e, he, hkey, hv, hpay⟩, heq⟩ := processCommitDecisionForPendingBlock_taken ht
          rw [heq]
          split_ifs with hs
          · exact .commitForwarded _ cd es e hes hepoch hproof he hkey hv hpay (by simpa using hs)
              hidle
          · exact .commitAttached _ cd es e hes hepoch hproof he hkey hv hpay (by simpa using hs)
              hidle
        · rcases syncIfAhead_cases w cd with he | ⟨hahead, he⟩ <;> rw [he]
          · exact .dropped _ _ hidle
          · exact .syncStarted _ cd es hes hproof hahead hidle
      · cases h; exact .blockPayload _ _ hidle
    · cases h; exact .unsubscribe _ _ (fun s hs ↦ by simp_all) hidle
  · cases h; exact .unsubscribe _ _ (fun s hs ↦ by simp_all) hidle

theorem syncNotification_cases {n : SyncNotification} {rest : List SyncNotification}
    (hn : w.syncNotifications = n :: rest)
    (h : ({ w with syncNotifications := rest } : World).processSyncNotification n.epoch n.round =
      some w')
    (hidle : w.syncNotificationAwait = none) :
    StepCase cfg verifySignatures w .syncNotification w' := by
  rcases processSyncNotification_cases h with
    ⟨hroot, rfl⟩ | ⟨es, hroot, hes, ⟨hlt, rfl⟩ | ⟨hle, rfl⟩⟩
  · exact .syncIgnored n rest hn hroot hidle
  · exact .syncEndEpoch n rest es hn hroot hes hlt hidle
  · exact .syncAccepted n rest es hn hroot hes hle hidle

theorem resumeSyncNotification_cases (h : w.resumeSyncNotification verifySignatures = some w') :
    StepCase cfg verifySignatures w .resumeSyncNotification w' := by
  unfold resumeSyncNotification at h
  split at h
  · rename_i es hw
    obtain ⟨w₁, h₁, rfl⟩ := Option.map_eq_some'.1 h
    unfold waitForEpochStart at h₁
    split at h₁
    · rename_i es' configs hconfigs
      cases h₁
      exact .epochStarted es es' configs hw hconfigs
    · cases h₁
  · cases h; exact .pendingVerified _ ‹_›
  · cases h; exact .drainResumed _ _ ‹_›
  · cases h

/-- The first world of a main loop: the observer fresh from `new` with the epoch of the first
reconfiguration notification started, and nothing else done. -/
theorem started_eq {cfg : ConsensusObserverConfig} (h : Started cfg w) :
    ∃ root configs es rest, extractOnChainConfigs configs = some (es, rest) ∧ w =
      { toConsensusObserver := { ConsensusObserver.new root (some configs) with
          epochState := some es, reconfigEvents := some rest }
        executionCalls := [(.startEpoch es, { ConsensusObserver.new root (some configs) with
          epochState := some es, reconfigEvents := some rest })]
        networkRequests := [], unsubscribeTasks := [], syncNotifications := [], syncJobs := [],
        commitCallbacks := 0, commitCallbackRuns := [], acceptedBlocks := [],
        syncNotificationAwait := none } := by
  obtain ⟨root, configs, hs⟩ := h
  unfold start waitForEpochStart at hs
  split_ifs at hs
  split at hs
  · rename_i es rest hx
    cases configs with
    | none => cases hx
    | some configs => exact ⟨root, configs, es, rest, hx, (Option.some.inj hs).symm⟩
  · cases hs

/-- **Every step takes one of the paths of `StepCase`.** -/
theorem step_cases {ev : Event} (h : w.step cfg verifySignatures ev = some w') :
    StepCase cfg verifySignatures w ev w' := by
  cases ev with
  | directSend peer message =>
    obtain ⟨hidle, h⟩ := whenIdle_eq_some.1 h
    exact directSend_cases h hidle
  | request peer request =>
    obtain ⟨hidle, h⟩ := whenIdle_eq_some.1 h
    cases h; exact .request peer request hidle
  | syncNotification =>
    obtain ⟨hidle, h⟩ := whenIdle_eq_some.1 h
    split at h
    · exact syncNotification_cases ‹_› h hidle
    · cases h
  | resumeSyncNotification => exact resumeSyncNotification_cases h
  | progressCheck inputs =>
    obtain ⟨hidle, h⟩ := whenIdle_eq_some.1 h
    cases h
    obtain ⟨s, r, t, he⟩ := checkProgress_eq w inputs
    rw [he]; exact .progressCheck inputs s r t he hidle
  | syncJobStart j =>
    simp only [step, startSyncJob] at h
    split at h
    · split_ifs at h with hs; cases h; exact .syncJobStart j _ ‹_› hs
    · cases h
  | syncJobFinish j synced =>
    simp only [step, finishSyncJob] at h
    split at h
    · split_ifs at h with hs; cases h; exact .syncJobFinish j _ synced ‹_› hs
    · cases h
  | commitCallback blocks ledgerInfo =>
    simp only [step, invokeCommitCallback] at h
    split_ifs at h with hc; cases h; exact .commitCallback blocks ledgerInfo hc
  | commitCallbackStep i =>
    simp only [step] at h
    split at h
    · rename_i run hi
      unfold runCommitCallback at h
      split at h <;> cases h
      · exact .callbackRemovePayloads i run hi ‹_›
      · exact .callbackRemovePendingBlocks i run hi ‹_›
      · exact .callbackUpdateRoot i run hi ‹_›
    · cases h
  | unsubscribeSend i =>
    simp only [step, sendUnsubscribe] at h
    split at h
    · split_ifs at h with hs; cases h; exact .unsubscribeSend i _ ‹_› (by simpa using hs)
    · cases h

end World

end Observer
