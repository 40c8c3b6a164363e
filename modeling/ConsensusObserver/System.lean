import ConsensusObserver.Subscription

/-!
# Runs of the observer

The observer's main loop handles one event at a time: a message from the network, a notification
from the sync channel, or a progress tick.  Around it run the tasks it has spawned or handed out:
the sync jobs, the unsubscribe tasks, and the commit callbacks, which the execution pipeline
invokes on its own task.  `World.step` is one step of any of them, and `Event` says which, with
every choice the environment makes (the message and its sender, the tick's inputs, the job's
`sync_to` result, the callback's arguments).

While `process_sync_notification` waits on the execution client, the main loop takes no new
event (`whenIdle`); the other tasks go on, and `resumeSyncNotification` is the loop going on with
the handler once the call returns.

A commit callback runs in three separate critical sections (payload store, pending blocks, root),
so each is a step of its own, and the observer's steps may fall between them.  A sync job calls
`sync_to` and, once it returns, posts its `(epoch, round)`; an abort can come in between.

`ReachableUnder Init Allowed` is the set of worlds reached from a world of `Init` by steps whose
events `Allowed` admits; `Reachable` admits every event from every `start`.  The restricted sets
state what a property needs of the environment, such as ids that bind keys.
-/

set_option autoImplicit false

namespace Observer

/-- What can happen next. -/
inductive Event
  /-- A direct-send message arrives from `peer`. -/
  | directSend (peer : Nat) (message : ConsensusObserverDirectSend)
  /-- A `Subscribe` or `Unsubscribe` request arrives; it goes to the publisher. -/
  | request (peer : Nat) (request : ConsensusObserverRequest)
  /-- The main loop takes the first notification off the sync channel. -/
  | syncNotification
  /-- The call `process_sync_notification` waits on returns, and the main loop goes on with it. -/
  | resumeSyncNotification
  /-- The progress ticker fires. -/
  | progressCheck (inputs : ProgressCheckInputs)
  /-- A spawned sync job calls `sync_to`. -/
  | syncJobStart (job : Nat)
  /-- A job's `sync_to` returns (`synced` is whether it succeeded) and the job posts. -/
  | syncJobFinish (job : Nat) (synced : Bool)
  /-- The execution pipeline invokes one of the commit callbacks it holds. -/
  | commitCallback (blocks : List PipelinedBlock) (ledgerInfo : LedgerInfoWithSignatures)
  /-- A running commit callback takes its next step. -/
  | commitCallbackStep (run : Nat)
  /-- A spawned unsubscribe task sends its `Unsubscribe` request. -/
  | unsubscribeSend (task : Nat)

namespace World

/-- The next step of a running commit callback (the closure of `create_commit_callback`): remove
the committed blocks' payloads, then the pending blocks up to the ledger info, then update the
root under its lock. -/
def runCommitCallback (w : World) (i : Nat) (run : CommitCallbackRun) : Option World :=
  match run.stage with
  | .removePayloads => some { w with
      blockPayloadStore := w.blockPayloadStore.removeBlocks run.blocks
      commitCallbackRuns := w.commitCallbackRuns.set i { run with stage := .removePendingBlocks } }
  | .removePendingBlocks => some { w with
      pendingOrderedBlocks := w.pendingOrderedBlocks.removeBlocksForCommit run.ledgerInfo
      commitCallbackRuns := w.commitCallbackRuns.set i { run with stage := .updateRoot } }
  | .updateRoot => some { w with
      root := updateRoot w.root run.ledgerInfo
      commitCallbackRuns := w.commitCallbackRuns.set i { run with stage := .done } }
  | .done => none

/-- A spawned sync job calls `sync_to` on its commit decision's proof. -/
def startSyncJob (w : World) (j : Nat) : Option World :=
  match w.syncJobs[j]? with
  | some job =>
    if job.status = .spawned then
      some { w.emit (.syncTo job.commitDecision.commitProof) with
        syncJobs := w.syncJobs.set j { job with status := .syncing } }
    else none
  | none => none

/-- A job's `sync_to` returns.  Whatever it returned, the job then posts its decision's
`(epoch, round)` on the sync channel. -/
def finishSyncJob (w : World) (j : Nat) (synced : Bool) : Option World :=
  match w.syncJobs[j]? with
  | some job =>
    if job.status = .syncing then
      some { w with
        syncJobs := w.syncJobs.set j { job with status := .finished synced }
        syncNotifications :=
          w.syncNotifications ++ [⟨job.commitDecision.epoch, job.commitDecision.round, j⟩] }
    else none
  | none => none

/-- An unsubscribe task sends its request; it then waits for the response, which only it reads. -/
def sendUnsubscribe (w : World) (i : Nat) : Option World :=
  match w.unsubscribeTasks[i]? with
  | some task =>
    if task.sent then none
    else some { w with
      unsubscribeTasks := w.unsubscribeTasks.set i { task with sent := true }
      networkRequests := w.networkRequests ++ [(task.peerNetworkId, .unsubscribe)] }
  | none => none

/-- The execution pipeline invokes a commit callback it holds (each is called once). -/
def invokeCommitCallback (w : World) (blocks : List PipelinedBlock)
    (ledgerInfo : LedgerInfoWithSignatures) : Option World :=
  if 0 < w.commitCallbacks then
    some { w with
      commitCallbacks := w.commitCallbacks - 1
      commitCallbackRuns := w.commitCallbackRuns ++ [⟨blocks, ledgerInfo, .removePayloads⟩] }
  else none

/-- The main loop takes its next event only once the handler it is in has returned: while
`process_sync_notification` waits, the loop's `select!` is not polled. -/
def whenIdle (w : World) (next : Option World) : Option World :=
  match w.syncNotificationAwait with
  | none => next
  | some _ => none

variable (cfg : ConsensusObserverConfig) (verifySignatures : SignatureCheck)

/-- One step of the system; `none` when the event cannot happen, or the observer panics. -/
def step (w : World) : Event → Option World
  | .directSend peer message =>
    w.whenIdle (w.processDirectSendMessage verifySignatures cfg peer message)
  | .request _ _ => w.whenIdle (some w)
  | .syncNotification =>
    w.whenIdle <| match w.syncNotifications with
    | n :: rest => { w with syncNotifications := rest }.processSyncNotification n.epoch n.round
    | [] => none
  | .resumeSyncNotification => w.resumeSyncNotification verifySignatures
  | .progressCheck inputs => w.whenIdle (some (w.checkProgress inputs))
  | .syncJobStart j => w.startSyncJob j
  | .syncJobFinish j synced => w.finishSyncJob j synced
  | .commitCallback blocks ledgerInfo => w.invokeCommitCallback blocks ledgerInfo
  | .commitCallbackStep i =>
    match w.commitCallbackRuns[i]? with
    | some run => w.runCommitCallback i run
    | none => none
  | .unsubscribeSend i => w.sendUnsubscribe i

/-- A sequence of steps. -/
def run (w : World) : List Event → Option World
  | [] => some w
  | ev :: evs => (w.step cfg verifySignatures ev).bind (·.run evs)

end World

/-- `start`, up to its main loop: unless only the publisher is enabled, wait for the epoch to
start.  `none` when the publisher-forwarding loop runs instead, or when the wait panics. -/
def start (cfg : ConsensusObserverConfig) (o : ConsensusObserver) : Option World :=
  if cfg.publisherEnabled && !cfg.observerEnabled then none
  else World.waitForEpochStart
    { toConsensusObserver := o, executionCalls := [], networkRequests := [],
      unsubscribeTasks := [], syncNotifications := [], syncJobs := [], commitCallbacks := 0,
      commitCallbackRuns := [], acceptedBlocks := [], syncNotificationAwait := none }

/-- The first world of a main loop: `start` of an observer fresh from `new`. -/
def Started (cfg : ConsensusObserverConfig) (w : World) : Prop :=
  ∃ root reconfigEvents, start cfg (ConsensusObserver.new root reconfigEvents) = some w

variable (cfg : ConsensusObserverConfig) (verifySignatures : SignatureCheck)

/-- The worlds reached from a world of `Init` by steps whose events `Allowed` admits. -/
inductive ReachableUnder (Init : World → Prop) (Allowed : World → Event → Prop) : World → Prop
  | init {w : World} : Init w → ReachableUnder Init Allowed w
  | step {w w' : World} {ev : Event} : ReachableUnder Init Allowed w → Allowed w ev →
      w.step cfg verifySignatures ev = some w' → ReachableUnder Init Allowed w'

/-- The worlds of every run of the main loop, under any interleaving. -/
def Reachable : World → Prop :=
  ReachableUnder cfg verifySignatures (Started cfg) fun _ _ ↦ True

theorem Reachable.step {w w' : World} {ev : Event} (h : Reachable cfg verifySignatures w)
    (hs : w.step cfg verifySignatures ev = some w') : Reachable cfg verifySignatures w' :=
  ReachableUnder.step h trivial hs

theorem Reachable.run {w w' : World} {evs : List Event} (h : Reachable cfg verifySignatures w)
    (hr : w.run cfg verifySignatures evs = some w') : Reachable cfg verifySignatures w' := by
  induction evs generalizing w with
  | nil => cases hr; exact h
  | cons ev evs ih =>
    obtain ⟨w₁, h₁, h₂⟩ := Option.bind_eq_some.1 hr
    exact ih (h.step cfg verifySignatures h₁) h₂

/-- `run`, stopped at the first event that `Allowed` refuses at the world it meets. -/
def World.runUnder (Allowed : World → Event → Prop) [∀ w ev, Decidable (Allowed w ev)]
    (w : World) : List Event → Option World
  | [] => some w
  | ev :: evs =>
    if Allowed w ev then (w.step cfg verifySignatures ev).bind (·.runUnder Allowed evs) else none

theorem ReachableUnder.runUnder {Init : World → Prop} {Allowed : World → Event → Prop}
    [∀ w ev, Decidable (Allowed w ev)] {w w' : World} {evs : List Event}
    (h : ReachableUnder cfg verifySignatures Init Allowed w)
    (hr : w.runUnder cfg verifySignatures Allowed evs = some w') :
    ReachableUnder cfg verifySignatures Init Allowed w' := by
  induction evs generalizing w with
  | nil => cases hr; exact h
  | cons ev evs ih =>
    simp only [World.runUnder] at hr
    split_ifs at hr with ha
    obtain ⟨w₁, h₁, h₂⟩ := Option.bind_eq_some.1 hr
    exact ih (h.step ha h₁) h₂

/-- The world a fresh observer reaches through `events`, if every step goes through. -/
def runFrom (root : LedgerInfoWithSignatures) (reconfigEvents : Option (List ReconfigNotification))
    (events : List Event) : Option World :=
  (start cfg (ConsensusObserver.new root reconfigEvents)).bind (·.run cfg verifySignatures events)

theorem Reachable.of_runFrom {root : LedgerInfoWithSignatures}
    {reconfigEvents : Option (List ReconfigNotification)} {events : List Event} {w : World}
    (h : runFrom cfg verifySignatures root reconfigEvents events = some w) :
    Reachable cfg verifySignatures w := by
  obtain ⟨w₀, h₀, h⟩ := Option.bind_eq_some.1 h
  exact Reachable.run cfg verifySignatures (ReachableUnder.init ⟨root, reconfigEvents, h₀⟩) h

theorem start_root {o : ConsensusObserver} {w : World} (h : start cfg o = some w) :
    w.root = o.root := by
  unfold start World.waitForEpochStart at h
  split_ifs at h
  split at h
  · cases h; rfl
  · cases h

/-- The world a fresh observer reaches through `events` when `Allowed` admits each of them. -/
def runFromUnder (Allowed : World → Event → Prop) [∀ w ev, Decidable (Allowed w ev)]
    (root : LedgerInfoWithSignatures) (reconfigEvents : Option (List ReconfigNotification))
    (events : List Event) : Option World :=
  (start cfg (ConsensusObserver.new root reconfigEvents)).bind
    (·.runUnder cfg verifySignatures Allowed events)

theorem ReachableUnder.of_runFromUnder {Init : World → Prop} {Allowed : World → Event → Prop}
    [∀ w ev, Decidable (Allowed w ev)] {root : LedgerInfoWithSignatures}
    {reconfigEvents : Option (List ReconfigNotification)} {events : List Event} {w : World}
    (hinit : ∀ w₀, start cfg (ConsensusObserver.new root reconfigEvents) = some w₀ → Init w₀)
    (h : runFromUnder cfg verifySignatures Allowed root reconfigEvents events = some w) :
    ReachableUnder cfg verifySignatures Init Allowed w := by
  obtain ⟨w₀, h₀, h⟩ := Option.bind_eq_some.1 h
  exact (ReachableUnder.init (hinit w₀ h₀)).runUnder cfg verifySignatures h

/-- A progress tick at which `peer` is the only connected peer, and accepts the subscription. -/
def subscribeTo (peer : Nat) : Event :=
  .progressCheck ⟨some [(peer, ⟨0, 1⟩)], .ok (), .ok (), .ok (), [], fun _ ↦ some .subscribeAck⟩

/-- The block `(5, 11)`, a child of block 10. -/
def sampleBlock : OrderedBlock := ⟨[⟨⟨5, 11, 11⟩, 10⟩], ⟨⟨5, 11, 11⟩, 0⟩⟩

/-- The commit decision for `sampleBlock`. -/
def sampleDecision : CommitDecision := ⟨⟨⟨5, 11, 11⟩, 0⟩⟩

/-- The block `(5, 12)`, a child of `sampleBlock`. -/
def sampleChild : OrderedBlock := ⟨[⟨⟨5, 12, 12⟩, 11⟩], ⟨⟨5, 12, 12⟩, 0⟩⟩

/-- A short run: the observer subscribes to peer 7, which sends `sampleBlock`, its payload and its
commit decision, and then `sampleChild`. -/
def sampleEvents : List Event :=
  [subscribeTo 7, .directSend 7 (.orderedBlock sampleBlock),
    .directSend 7 (.blockPayload ⟨⟨5, 11, 11⟩, [], none⟩),
    .directSend 7 (.commitDecision sampleDecision), .directSend 7 (.orderedBlock sampleChild)]

/-- `sampleEvents` from a fresh observer at root `(5, 10)`, with a signature check that accepts
everything. -/
def sampleRun : Option World :=
  runFrom ⟨true, false, 100⟩ (fun _ _ ↦ true) ⟨⟨5, 10, 10⟩, 0⟩ (some [⟨5, some 1⟩]) sampleEvents

/-- Each block is finalized on arrival, and the decision forwarded once its payload is there. -/
example : sampleRun.map (·.executionCalls.map (·.1)) = some [.startEpoch ⟨5, 1⟩,
    .finalizeOrder sampleBlock, .sendCommitMsg sampleDecision, .finalizeOrder sampleChild] := by
  decide

/-- `sampleEvents` from the same observer, each admitted by `Allowed`. -/
def sampleRunUnder (Allowed : World → Event → Prop) [∀ w ev, Decidable (Allowed w ev)] :
    Option World :=
  runFromUnder ⟨true, false, 100⟩ (fun _ _ ↦ true) Allowed ⟨⟨5, 10, 10⟩, 0⟩ (some [⟨5, some 1⟩])
    sampleEvents

theorem reachable_sampleRun :
    Reachable ⟨true, false, 100⟩ (fun _ _ ↦ true) (sampleRun.get (by decide)) :=
  Reachable.of_runFrom _ _ (Option.some_get _).symm

/-- The block `(5, 21)`, a child of block 20. -/
def syncedBlock : OrderedBlock := ⟨[⟨⟨5, 21, 21⟩, 20⟩], ⟨⟨5, 21, 21⟩, 0⟩⟩

/-- The commit decision for `syncedBlock`. -/
def syncedDecision : CommitDecision := ⟨⟨⟨5, 21, 21⟩, 0⟩⟩

/-- A sync episode: the decision `(5, 20)` sets the root and starts state sync; `syncedBlock`, a
child of the new root, arrives with its payload and its decision and waits in the pending blocks;
the job syncs and posts, and the notification drains the block, whose decision is forwarded once
its `finalize_order` has returned. -/
def syncEpisodeEvents : List Event :=
  [subscribeTo 7, .directSend 7 (.commitDecision ⟨⟨⟨5, 20, 20⟩, 0⟩⟩),
    .directSend 7 (.orderedBlock syncedBlock),
    .directSend 7 (.blockPayload ⟨⟨5, 21, 21⟩, [], none⟩),
    .directSend 7 (.commitDecision syncedDecision), .syncJobStart 0, .syncJobFinish 0 true,
    .syncNotification, .resumeSyncNotification]

/-- `syncEpisodeEvents` from the observer of `sampleRun`. -/
def syncEpisodeRun : Option World :=
  runFrom ⟨true, false, 100⟩ (fun _ _ ↦ true) ⟨⟨5, 10, 10⟩, 0⟩ (some [⟨5, some 1⟩])
    syncEpisodeEvents

/-- The block and its decision reach the execution client only after the sync. -/
example : syncEpisodeRun.map (·.executionCalls.map (·.1)) = some [.startEpoch ⟨5, 1⟩,
    .syncTo ⟨⟨5, 20, 20⟩, 0⟩, .finalizeOrder syncedBlock, .sendCommitMsg syncedDecision] := by
  decide

theorem reachable_syncEpisodeRun :
    Reachable ⟨true, false, 100⟩ (fun _ _ ↦ true) (syncEpisodeRun.get (by decide)) :=
  Reachable.of_runFrom _ _ (Option.some_get _).symm

/-- The `i`-th call of a log splits the log around it. -/
theorem split_at_call {calls : List (ExecutionCall × ConsensusObserver)} {i : Nat}
    {c : ExecutionCall} (h : (calls.map (·.1))[i]? = some c) :
    ∃ o, calls = calls.take i ++ (c, o) :: calls.drop (i + 1) := by
  rw [List.getElem?_map] at h
  obtain ⟨⟨c', o⟩, hi, rfl⟩ := Option.map_eq_some'.1 h
  obtain ⟨hlt, hget⟩ := List.getElem?_eq_some.1 hi
  refine ⟨o, ?_⟩
  rw [← hget, ← List.drop_eq_getElem_cons hlt, List.take_append_drop]

/-- A commit callback racing a re-sent block: block `(5, 11)`, a child of the root `(5, 10)`, is
finalized; its commit callback removes it from the pending blocks; the peer sends the block again
before the callback updates the root, and the block, a child of the root once more, is accepted and
finalized again; then the callback sets the root to `(5, 11)`. -/
def callbackRaceEvents : List Event :=
  [subscribeTo 7, .directSend 7 (.orderedBlock sampleBlock),
    .commitCallback sampleBlock.blocks sampleBlock.orderedProof, .commitCallbackStep 0,
    .commitCallbackStep 0, .directSend 7 (.orderedBlock sampleBlock), .commitCallbackStep 0]

end Observer
