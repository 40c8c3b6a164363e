import ConsensusObserver.Buffers

/-!
# The observer and its handlers

`ConsensusObserver` is the part of the Rust struct that changes while the observer runs: the
epoch state, the root, the two buffers, the sync handle, the reconfiguration listener and the
active subscription.  The observer never runs alone, so its handlers act on a `World`, which adds
what the observer's actions reach:

* `executionCalls`, every call made on the execution client, each recorded with the observer as
  it was at the moment of the call;
* `networkRequests`, the outbound `Subscribe` and `Unsubscribe` requests, in the order they are
  sent, and `unsubscribeTasks`, the tasks `unsubscribe_from_peer` spawns to send `Unsubscribe`;
* `syncJobs` and `syncNotifications`, the tasks spawned by `sync_to_commit_decision` and the
  channel they post on;
* `commitCallbacks` and `commitCallbackRuns`, the callbacks handed to `finalize_order` and those
  the execution pipeline is running;
* `acceptedBlocks`, every ordered block the parent check let into the pending buffer, with the
  observer as it was when the check was made.  No handler reads it: it is history, kept so that
  properties of runs can be stated.

Each handler keeps the name and the control flow of the method it models.  A handler returns
`none` where the source panics: `get_epoch_state` on an unset epoch state, and
`wait_for_epoch_start` without a reconfiguration notification to read.

`process_sync_notification` awaits the execution client (`end_epoch`, then `start_epoch` in
`wait_for_epoch_start`, then `finalize_order` for each drained block), and the tasks around the
main loop run while it waits.  It is cut at those awaits: `syncNotificationAwait` records where it
waits and what it has still to do, and `resumeSyncNotification` goes on from there.
-/

set_option autoImplicit false

namespace Observer

/-! ## The observer's state -/

/-- The part of `ConsensusObserverConfig` the observer reads. -/
structure ConsensusObserverConfig where
  observerEnabled : Bool
  publisherEnabled : Bool
  maxNumPendingBlocks : Nat
  deriving DecidableEq, Repr

/-- `ConsensusObserverSubscription`: the peer subscribed to.  Its timers and the synced version
it samples are read only by its own health checks, whose outcomes the progress check receives. -/
structure ConsensusObserverSubscription where
  peerNetworkId : Nat
  deriving DecidableEq, Repr

/-- Modelled from the spec: `verify_message_sender` accepts exactly the subscription's peer. -/
def ConsensusObserverSubscription.verifyMessageSender (s : ConsensusObserverSubscription)
    (peer : Nat) : Bool :=
  s.peerNetworkId == peer

/-- A reconfiguration notification, with what `extract_on_chain_configs` reads of it: the epoch
and the validator set, when the on-chain configs hold one. -/
structure ReconfigNotification where
  epoch : Nat
  validatorSet : Option Nat
  deriving DecidableEq, Repr

/-- The state of `ConsensusObserver`.  `syncHandle` is the id of the sync job whose abort handle
the `DropGuard` holds; `reconfigEvents` lists the notifications the listener will deliver. -/
structure ConsensusObserver where
  epochState : Option EpochState
  root : LedgerInfoWithSignatures
  blockPayloadStore : BlockPayloadStore
  pendingOrderedBlocks : PendingOrderedBlocks
  syncHandle : Option Nat
  reconfigEvents : Option (List ReconfigNotification)
  activeObserverSubscription : Option ConsensusObserverSubscription

/-- `ConsensusObserver::new`: the root read from storage, no epoch state, empty buffers. -/
def ConsensusObserver.new (root : LedgerInfoWithSignatures)
    (reconfigEvents : Option (List ReconfigNotification)) : ConsensusObserver where
  epochState := none
  root := root
  blockPayloadStore := .new
  pendingOrderedBlocks := .new
  syncHandle := none
  reconfigEvents := reconfigEvents
  activeObserverSubscription := none

/-! ## What the observer's actions reach -/

/-- A call on the execution client (`TExecutionClient`). -/
inductive ExecutionCall
  | startEpoch (epochState : EpochState)
  | endEpoch
  | finalizeOrder (orderedBlock : OrderedBlock)
  | sendCommitMsg (commitDecision : CommitDecision)
  | syncTo (target : LedgerInfoWithSignatures)
  deriving DecidableEq, Repr

/-- Where a sync job is: spawned, waiting on `sync_to`, done (with its result), or aborted by the
drop of its handle. -/
inductive SyncJobStatus
  | spawned
  | syncing
  | finished (synced : Bool)
  | aborted
  deriving DecidableEq, Repr

/-- A task spawned by `sync_to_commit_decision`. -/
structure SyncJob where
  commitDecision : CommitDecision
  status : SyncJobStatus
  deriving DecidableEq, Repr

/-- A notification on the sync channel.  The channel carries `(epoch, round)`; `job` records which
job posted it and is read by no handler. -/
structure SyncNotification where
  epoch : Nat
  round : Nat
  job : Nat
  deriving DecidableEq, Repr

/-- The three steps of a commit callback, and the end. -/
inductive CallbackStage
  | removePayloads
  | removePendingBlocks
  | updateRoot
  | done
  deriving DecidableEq, Repr

/-- A commit callback the execution pipeline has invoked, with its arguments and its progress. -/
structure CommitCallbackRun where
  blocks : List PipelinedBlock
  ledgerInfo : LedgerInfoWithSignatures
  stage : CallbackStage
  deriving DecidableEq, Repr

/-- A task spawned by `unsubscribe_from_peer`; `sent` once it has sent its `Unsubscribe`. -/
structure UnsubscribeTask where
  peerNetworkId : Nat
  sent : Bool
  deriving DecidableEq, Repr

/-- Where `process_sync_notification` waits, and what it has left to do: on `end_epoch` or on the
`start_epoch` of `wait_for_epoch_start`, with the epoch state read before the epoch change; or on a
drained block's `finalize_order`, with that block's commit decision and the blocks after it. -/
inductive SyncNotificationAwait
  | endEpoch (currentEpochState : EpochState)
  | startEpoch (currentEpochState : EpochState)
  | finalizeOrder (commitDecision : Option CommitDecision)
      (rest : List (OrderedBlock × Option CommitDecision))
  deriving DecidableEq, Repr

/-- The observer together with what its actions reach. -/
structure World extends ConsensusObserver where
  executionCalls : List (ExecutionCall × ConsensusObserver)
  networkRequests : List (Nat × ConsensusObserverRequest)
  unsubscribeTasks : List UnsubscribeTask
  syncNotifications : List SyncNotification
  syncJobs : List SyncJob
  commitCallbacks : Nat
  commitCallbackRuns : List CommitCallbackRun
  acceptedBlocks : List (OrderedBlock × ConsensusObserver)
  syncNotificationAwait : Option SyncNotificationAwait

/-- Abort a job, as dropping its `DropGuard` does; a finished job is left as it is. -/
def SyncJob.abort (job : SyncJob) : SyncJob :=
  match job.status with
  | .finished _ => job
  | _ => { job with status := .aborted }

/-- `get_last_block`: the last pending block, or else the root's block. -/
def ConsensusObserver.getLastBlock (o : ConsensusObserver) : BlockInfo :=
  match o.pendingOrderedBlocks.getLastPendingBlock with
  | some lastPendingBlock => lastPendingBlock
  | none => o.root.commitInfo

/-- `check_root_epoch_and_round`: the notification is for the root's epoch and round. -/
def checkRootEpochAndRound (root : LedgerInfoWithSignatures) (epoch round : Nat) : Bool :=
  root.commitInfo.epoch == epoch && root.commitInfo.round == round

/-- `extract_on_chain_configs`: the epoch state of the next notification, and the notifications
after it; `none` where the source panics (no notification, or no validator set). -/
def extractOnChainConfigs :
    List ReconfigNotification → Option (EpochState × List ReconfigNotification)
  | [] => none
  | n :: rest => n.validatorSet.map fun verifier ↦ (⟨n.epoch, verifier⟩, rest)

/-- The commit callback's root update (lines 236–254): only a ledger info of the root's epoch
and of a higher round replaces the root. -/
def updateRoot (root ledgerInfo : LedgerInfoWithSignatures) : LedgerInfoWithSignatures :=
  if ledgerInfo.commitInfo.epoch ≠ root.commitInfo.epoch then root
  else if root.commitInfo.round < ledgerInfo.commitInfo.round then ledgerInfo
  else root

namespace World

/-! ## Effects -/

/-- Record a call on the execution client, with the observer as it is at the call. -/
def emit (w : World) (call : ExecutionCall) : World :=
  { w with executionCalls := w.executionCalls ++ [(call, w.toConsensusObserver)] }

/-- `unsubscribe_from_peer`: a task is spawned to send the peer an `Unsubscribe` request. -/
def unsubscribeFromPeer (w : World) (peer : Nat) : World :=
  { w with unsubscribeTasks := w.unsubscribeTasks ++ [⟨peer, false⟩] }

/-- `finalize_ordered_block`: `finalize_order` with a fresh commit callback. -/
def finalizeOrderedBlock (w : World) (ob : OrderedBlock) : World :=
  { w.emit (.finalizeOrder ob) with commitCallbacks := w.commitCallbacks + 1 }

/-- `forward_commit_decision`: `send_commit_msg` with the decision. -/
def forwardCommitDecision (w : World) (cd : CommitDecision) : World :=
  w.emit (.sendCommitMsg cd)

/-- Replace the sync handle.  The `DropGuard` dropped aborts its job. -/
def setSyncHandle (w : World) (handle : Option Nat) : World :=
  { w with
    syncHandle := handle
    syncJobs := match w.syncHandle with
      | some job => w.syncJobs.modify SyncJob.abort job
      | none => w.syncJobs }

/-- `sync_to_commit_decision` and the installation of its abort handle: a job is spawned, and its
handle replaces the one held. -/
def syncToCommitDecision (w : World) (cd : CommitDecision) : World :=
  { w with syncJobs := w.syncJobs ++ [SyncJob.mk cd .spawned] }.setSyncHandle
    (some w.syncJobs.length)

/-- `wait_for_epoch_start`: install the epoch state of the next reconfiguration notification and
start the epoch on the execution client. -/
def waitForEpochStart (w : World) : Option World :=
  match w.reconfigEvents.bind extractOnChainConfigs with
  | some (epochState, rest) =>
    some ({ w with epochState := some epochState, reconfigEvents := some rest }.emit
      (.startEpoch epochState))
  | none => none

/-! ## Block payloads and commit decisions -/

/-- `process_block_payload`: the payload is stored, unverified. -/
def processBlockPayload (w : World) (bp : BlockPayload) : World :=
  { w with
    blockPayloadStore := w.blockPayloadStore.insertBlockPayload bp.block bp.transactions bp.limit }

/-- `process_commit_decision_for_pending_block`: the world after, and whether the decision was
taken by a verified pending block whose payloads are all present. -/
def processCommitDecisionForPendingBlock (w : World) (cd : CommitDecision) : World × Bool :=
  match w.pendingOrderedBlocks.getVerifiedPendingBlock cd.epoch cd.round with
  | some pendingBlock =>
    if w.blockPayloadStore.allPayloadsExist pendingBlock.blocks then
      let w := { w with pendingOrderedBlocks := w.pendingOrderedBlocks.updateCommitDecision cd }
      (if w.syncHandle.isNone then w.forwardCommitDecision cd else w, true)
    else (w, false)
  | none => (w, false)

/-- The end of `process_commit_decision` (lines 482–507): a decision for a later epoch, or for
a later round, than the last known block sets the root, prunes the pending blocks up to it, and
starts state sync to it. -/
def syncIfAhead (w : World) (cd : CommitDecision) : World :=
  let lastBlock := w.getLastBlock
  if lastBlock.epoch < cd.epoch ∨ lastBlock.round < cd.round then
    { w with
      root := cd.commitProof
      pendingOrderedBlocks := w.pendingOrderedBlocks.removeBlocksForCommit cd.commitProof
    }.syncToCommitDecision cd
  else w

variable (verifySignatures : SignatureCheck)

/-- `process_commit_decision`.  A decision of the current epoch is verified first and offered to
the pending blocks; any other, and one the pending blocks do not take, may start state sync. -/
def processCommitDecision (w : World) (cd : CommitDecision) : Option World :=
  match w.epochState with
  | none => none
  | some epochState =>
    if cd.epoch = epochState.epoch then
      if cd.verifyCommitProof verifySignatures epochState then
        let r := w.processCommitDecisionForPendingBlock cd
        if r.2 then some r.1 else some (w.syncIfAhead cd)
      else some w
    else some (w.syncIfAhead cd)

/-! ## Ordered blocks -/

variable (cfg : ConsensusObserverConfig)

/-- Lines 664–679 of `process_ordered_block`: the block is inserted into the pending blocks,
and finalized at once when its proof is verified and the observer is not syncing. -/
def acceptOrderedBlock (w : World) (ob : OrderedBlock) (verifiedOrderedProof : Bool) : World :=
  let w' := { w with
    pendingOrderedBlocks :=
      w.pendingOrderedBlocks.insertOrderedBlock cfg.maxNumPendingBlocks ob verifiedOrderedProof
    acceptedBlocks := w.acceptedBlocks ++ [(ob, w.toConsensusObserver)] }
  if verifiedOrderedProof && w.syncHandle.isNone then w'.finalizeOrderedBlock ob else w'

/-- The end of `process_ordered_block` (lines 662–687): only a child of the last known block is
accepted. -/
def insertOrderedBlockIfChild (w : World) (ob : OrderedBlock) (verifiedOrderedProof : Bool) :
    World :=
  if w.getLastBlock.id = ob.firstBlock.parentId then
    w.acceptOrderedBlock cfg ob verifiedOrderedProof
  else w

/-- `process_ordered_block`.  A block of the current epoch must carry a verified proof; a block of
another epoch is kept unverified. -/
def processOrderedBlock (w : World) (ob : OrderedBlock) : Option World :=
  if ob.verifyOrderedBlocks then
    match w.epochState with
    | none => none
    | some epochState =>
      if ob.proofBlockInfo.epoch = epochState.epoch then
        if ob.verifyOrderedProof verifySignatures epochState then
          some (w.insertOrderedBlockIfChild cfg ob true)
        else some w
      else some (w.insertOrderedBlockIfChild cfg ob false)
  else some w

/-- `process_direct_send_message`: a message from any peer but the subscribed one is answered by
an `Unsubscribe` and dropped. -/
def processDirectSendMessage (w : World) (peer : Nat) (message : ConsensusObserverDirectSend) :
    Option World :=
  match w.activeObserverSubscription with
  | some subscription =>
    if subscription.verifyMessageSender peer then
      match message with
      | .orderedBlock ob => w.processOrderedBlock verifySignatures cfg ob
      | .commitDecision cd => w.processCommitDecision verifySignatures cd
      | .blockPayload bp => some (w.processBlockPayload bp)
    else some (w.unsubscribeFromPeer peer)
  | none => some (w.unsubscribeFromPeer peer)

/-! ## Sync notifications -/

/-- The pending buffer's `verify_pending_blocks`, called at line 751 with `current_epoch_state`:
the epoch state read at line 743, before the epoch change. -/
def verifyPendingBlocks (w : World) (currentEpochState : EpochState) : World :=
  { w with pendingOrderedBlocks :=
      w.pendingOrderedBlocks.verifyPendingBlocks verifySignatures currentEpochState }

/-- An iteration of the loop at the end of `process_sync_notification`: finalize the next block and
wait on the call, with its commit decision and the blocks after it left to do.  With no block
left, the handler returns. -/
def drainPendingBlocks (w : World) : List (OrderedBlock × Option CommitDecision) → World
  | [] => { w with syncNotificationAwait := none }
  | (ob, cd) :: rest =>
    { w.finalizeOrderedBlock ob with syncNotificationAwait := some (.finalizeOrder cd rest) }

/-- The rest of an iteration once `finalize_order` has returned: forward the block's commit
decision if it has one, and go on with the next block. -/
def resumeDrain (w : World) (cd : Option CommitDecision)
    (rest : List (OrderedBlock × Option CommitDecision)) : World :=
  (match cd with
    | some cd => w.forwardCommitDecision cd
    | none => w).drainPendingBlocks rest

/-- Lines 754–769 of `process_sync_notification`: drop the sync handle, then finalize the verified
pending blocks in key order. -/
def exitSyncMode (w : World) : World :=
  let w := w.setSyncHandle none
  w.drainPendingBlocks w.pendingOrderedBlocks.getAllVerifiedPendingBlocks

/-- `process_sync_notification` up to its first await.  A notification for the root's epoch and
round ends sync mode; for a later epoch than the current one, `end_epoch` is called first, and
the handler waits on it. -/
def processSyncNotification (w : World) (epoch round : Nat) : Option World :=
  if checkRootEpochAndRound w.root epoch round then
    match w.epochState with
    | none => none
    | some currentEpochState =>
      if currentEpochState.epoch < epoch then
        some { w.emit .endEpoch with syncNotificationAwait := some (.endEpoch currentEpochState) }
      else some w.exitSyncMode
  else some w

/-- `process_sync_notification` goes on once the call it waits on returns: after `end_epoch`,
`wait_for_epoch_start`; after `start_epoch`, the pending blocks are verified against the epoch
state read before the epoch change, and sync mode is left; after a drained block's
`finalize_order`, the rest of the loop. -/
def resumeSyncNotification (w : World) : Option World :=
  match w.syncNotificationAwait with
  | some (.endEpoch currentEpochState) =>
    w.waitForEpochStart.map fun w ↦
      { w with syncNotificationAwait := some (.startEpoch currentEpochState) }
  | some (.startEpoch currentEpochState) =>
    some (w.verifyPendingBlocks verifySignatures currentEpochState).exitSyncMode
  | some (.finalizeOrder cd rest) => some (w.resumeDrain cd rest)
  | none => none

end World

end Observer
