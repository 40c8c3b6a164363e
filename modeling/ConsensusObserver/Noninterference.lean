import ConsensusObserver.Steps

/-!
# Messages from other peers do not interfere

`process_direct_send_message` answers a message from any peer but the subscribed one (or any
message at all when there is no subscription) by spawning a task that sends the peer an
`Unsubscribe` request, and drops the message.  The task only talks to the network, and nothing in
the observer reads back what it sends, so such messages cannot change what the observer does.

* `eraseRequests` forgets the outbound requests and the unsubscribe tasks.  No handler reads them:
  every handler but those that send requests commutes with `eraseRequests` exactly
  (`emit_eraseRequests`, …, `resumeSyncNotification_eraseRequests`), and those that do send
  commute up to the requests they send (`checkProgress_eraseRequests`,
  `processDirectSendMessage_eraseRequests`).
* `step_eraseRequests`: every step of the system but an unsubscribe task's send commutes with
  `eraseRequests`, and `eraseRequests_of_isNetworkOnly`: a foreign message, and the send of an
  unsubscribe task, change the requests only.
* `runKept` is `run` that also returns the events that were not network-only where they arrived;
  `foreign_messages_do_not_interfere` says that two runs from one world with the same such events
  end in the same observer state with the same calls on the execution client.
-/

set_option autoImplicit false

namespace Observer

namespace World

/-! ## The world without its outbound requests -/

/-- The world without its log of outbound requests and its unsubscribe tasks, which the handlers
only ever append to. -/
def eraseRequests (w : World) : World := { w with networkRequests := [], unsubscribeTasks := [] }

@[simp] theorem eraseRequests_toConsensusObserver (w : World) :
    w.eraseRequests.toConsensusObserver = w.toConsensusObserver := rfl
@[simp] theorem eraseRequests_syncNotifications (w : World) :
    w.eraseRequests.syncNotifications = w.syncNotifications := rfl
@[simp] theorem eraseRequests_syncNotificationAwait (w : World) :
    w.eraseRequests.syncNotificationAwait = w.syncNotificationAwait := rfl
@[simp] theorem eraseRequests_syncJobs (w : World) : w.eraseRequests.syncJobs = w.syncJobs := rfl
@[simp] theorem eraseRequests_commitCallbacks (w : World) :
    w.eraseRequests.commitCallbacks = w.commitCallbacks := rfl
@[simp] theorem eraseRequests_commitCallbackRuns (w : World) :
    w.eraseRequests.commitCallbackRuns = w.commitCallbackRuns := rfl
@[simp] theorem eraseRequests_eraseRequests (w : World) :
    w.eraseRequests.eraseRequests = w.eraseRequests := rfl

theorem map_eraseRequests_eraseRequests (o : Option World) :
    (o.map eraseRequests).map eraseRequests = o.map eraseRequests := by
  cases o <;> rfl

/-! ## Handlers that send no request -/

variable (cfg : ConsensusObserverConfig) (verifySignatures : SignatureCheck)

theorem emit_eraseRequests (w : World) (c : ExecutionCall) :
    w.eraseRequests.emit c = (w.emit c).eraseRequests := rfl

theorem waitForEpochStart_eraseRequests (w : World) :
    w.eraseRequests.waitForEpochStart = w.waitForEpochStart.map eraseRequests := by
  unfold waitForEpochStart
  simp only [eraseRequests_toConsensusObserver]
  split <;> rfl

theorem processCommitDecisionForPendingBlock_eraseRequests (w : World) (cd : CommitDecision) :
    w.eraseRequests.processCommitDecisionForPendingBlock cd =
      (w.processCommitDecisionForPendingBlock cd).map eraseRequests id := by
  unfold processCommitDecisionForPendingBlock
  simp only [eraseRequests_toConsensusObserver]
  split
  · split_ifs <;> rfl
  · rfl

theorem syncIfAhead_eraseRequests (w : World) (cd : CommitDecision) :
    w.eraseRequests.syncIfAhead cd = (w.syncIfAhead cd).eraseRequests := by
  unfold syncIfAhead
  simp only [eraseRequests_toConsensusObserver]
  split_ifs <;> rfl

theorem processCommitDecision_eraseRequests (w : World) (cd : CommitDecision) :
    w.eraseRequests.processCommitDecision verifySignatures cd =
      (w.processCommitDecision verifySignatures cd).map eraseRequests := by
  unfold processCommitDecision
  simp only [eraseRequests_toConsensusObserver, processCommitDecisionForPendingBlock_eraseRequests,
    syncIfAhead_eraseRequests]
  split
  · rfl
  · split_ifs <;> simp_all

theorem insertOrderedBlockIfChild_eraseRequests (w : World) (ob : OrderedBlock) (v : Bool) :
    w.eraseRequests.insertOrderedBlockIfChild cfg ob v =
      (w.insertOrderedBlockIfChild cfg ob v).eraseRequests := by
  unfold insertOrderedBlockIfChild acceptOrderedBlock
  simp only [eraseRequests_toConsensusObserver]
  split_ifs <;> rfl

theorem processOrderedBlock_eraseRequests (w : World) (ob : OrderedBlock) :
    w.eraseRequests.processOrderedBlock verifySignatures cfg ob =
      (w.processOrderedBlock verifySignatures cfg ob).map eraseRequests := by
  unfold processOrderedBlock
  simp only [eraseRequests_toConsensusObserver, insertOrderedBlockIfChild_eraseRequests]
  split_ifs
  · split
    · rfl
    · split_ifs <;> rfl
  · rfl

theorem drainPendingBlocks_eraseRequests (w : World)
    (l : List (OrderedBlock × Option CommitDecision)) :
    w.eraseRequests.drainPendingBlocks l = (w.drainPendingBlocks l).eraseRequests := by
  cases l <;> rfl

theorem resumeDrain_eraseRequests (w : World) (cd : Option CommitDecision)
    (rest : List (OrderedBlock × Option CommitDecision)) :
    w.eraseRequests.resumeDrain cd rest = (w.resumeDrain cd rest).eraseRequests := by
  rcases cd with _ | cd
  · exact drainPendingBlocks_eraseRequests w rest
  · exact drainPendingBlocks_eraseRequests (w.forwardCommitDecision cd) rest

theorem exitSyncMode_eraseRequests (w : World) :
    w.eraseRequests.exitSyncMode = w.exitSyncMode.eraseRequests :=
  drainPendingBlocks_eraseRequests (w.setSyncHandle none) _

theorem processSyncNotification_eraseRequests (w : World) (epoch round : Nat) :
    w.eraseRequests.processSyncNotification epoch round =
      (w.processSyncNotification epoch round).map eraseRequests := by
  unfold processSyncNotification
  simp only [eraseRequests_toConsensusObserver]
  split_ifs
  · split
    · rfl
    · split_ifs
      · rfl
      · exact congrArg some (exitSyncMode_eraseRequests w)
  · rfl

theorem resumeSyncNotification_eraseRequests (w : World) :
    w.eraseRequests.resumeSyncNotification verifySignatures =
      (w.resumeSyncNotification verifySignatures).map eraseRequests := by
  unfold resumeSyncNotification
  simp only [eraseRequests_syncNotificationAwait]
  split
  · rw [waitForEpochStart_eraseRequests]
    cases w.waitForEpochStart <;> rfl
  · exact congrArg some (exitSyncMode_eraseRequests (w.verifyPendingBlocks verifySignatures _))
  · exact congrArg some (resumeDrain_eraseRequests w _ _)
  · rfl

/-! ## Handlers that send requests -/

/-- Spawning an unsubscribe task changes nothing but the tasks. -/
theorem unsubscribeFromPeer_eraseRequests (w : World) (peer : Nat) :
    (w.unsubscribeFromPeer peer).eraseRequests = w.eraseRequests := rfl

/-- The subscribe loop of two worlds that differ in their requests only. -/
theorem subscribeToSortedPeers_eraseRequests {v v' : World}
    (h : v.eraseRequests = v'.eraseRequests) (inputs : ProgressCheckInputs) (peers : List Nat) :
    (v.subscribeToSortedPeers inputs peers).eraseRequests =
      (v'.subscribeToSortedPeers inputs peers).eraseRequests := by
  have hs : v.activeObserverSubscription = v'.activeObserverSubscription :=
    congrArg (·.activeObserverSubscription) h
  rw [subscribeToSortedPeers_eq_find, subscribeToSortedPeers_eq_find, hs]
  exact congrArg (fun u : World ↦ ({ u with activeObserverSubscription := _ } : World)) h

theorem checkProgress_eraseRequests (w : World) (inputs : ProgressCheckInputs) :
    (w.eraseRequests.checkProgress inputs).eraseRequests =
      (w.checkProgress inputs).eraseRequests := by
  unfold checkProgress createNewObserverSubscription
  rcases h : w.activeObserverSubscription with _ | s
  · simp only [eraseRequests_toConsensusObserver, h, Option.isNone_none, if_true,
      Option.map_none']
    split
    · exact subscribeToSortedPeers_eraseRequests (by rfl) _ _
    · rfl
  · simp only [eraseRequests_toConsensusObserver, h]
    rcases checkActiveSubscription s inputs with _ | ⟨⟩
    · simp only [unsubscribeFromPeer_toConsensusObserver, Option.isNone_none, if_true]
      split
      · exact subscribeToSortedPeers_eraseRequests (by rfl) _ _
      · rfl
    · simp [h]

theorem processDirectSendMessage_eraseRequests (w : World) (peer : Nat)
    (message : ConsensusObserverDirectSend) :
    (w.eraseRequests.processDirectSendMessage verifySignatures cfg peer message).map
        eraseRequests =
      (w.processDirectSendMessage verifySignatures cfg peer message).map eraseRequests := by
  unfold processDirectSendMessage
  simp only [eraseRequests_toConsensusObserver]
  split
  · split_ifs
    · cases message with
      | orderedBlock ob =>
        simp only [processOrderedBlock_eraseRequests, map_eraseRequests_eraseRequests]
      | commitDecision cd =>
        simp only [processCommitDecision_eraseRequests, map_eraseRequests_eraseRequests]
      | blockPayload bp => rfl
    · rfl
  · rfl

/-! ## One step -/

theorem whenIdle_eraseRequests (w : World) {o o' : Option World}
    (h : o.map eraseRequests = o'.map eraseRequests) :
    (w.eraseRequests.whenIdle o).map eraseRequests = (w.whenIdle o').map eraseRequests := by
  unfold whenIdle
  simp only [eraseRequests_syncNotificationAwait]
  split
  · exact h
  · rfl

theorem startSyncJob_eraseRequests (w : World) (j : Nat) :
    w.eraseRequests.startSyncJob j = (w.startSyncJob j).map eraseRequests := by
  unfold startSyncJob
  simp only [eraseRequests_syncJobs]
  split
  · split_ifs <;> rfl
  · rfl

theorem finishSyncJob_eraseRequests (w : World) (j : Nat) (synced : Bool) :
    w.eraseRequests.finishSyncJob j synced = (w.finishSyncJob j synced).map eraseRequests := by
  unfold finishSyncJob
  simp only [eraseRequests_syncJobs]
  split
  · split_ifs <;> rfl
  · rfl

theorem invokeCommitCallback_eraseRequests (w : World) (blocks : List PipelinedBlock)
    (ledgerInfo : LedgerInfoWithSignatures) :
    w.eraseRequests.invokeCommitCallback blocks ledgerInfo =
      (w.invokeCommitCallback blocks ledgerInfo).map eraseRequests := by
  unfold invokeCommitCallback
  simp only [eraseRequests_commitCallbacks]
  split_ifs <;> rfl

theorem runCommitCallback_eraseRequests (w : World) (i : Nat) (run : CommitCallbackRun) :
    w.eraseRequests.runCommitCallback i run = (w.runCommitCallback i run).map eraseRequests := by
  unfold runCommitCallback
  split <;> rfl

/-- **One step commutes with forgetting the requests.**  What a step does to the world, requests
aside, does not depend on the requests sent before it — save the send of an unsubscribe task,
which reads the task it sends. -/
theorem step_eraseRequests (w : World) (ev : Event) (hev : ∀ i, ev ≠ .unsubscribeSend i) :
    (w.eraseRequests.step cfg verifySignatures ev).map eraseRequests =
      (w.step cfg verifySignatures ev).map eraseRequests := by
  cases ev with
  | directSend peer message =>
    exact whenIdle_eraseRequests w (processDirectSendMessage_eraseRequests _ _ w peer message)
  | request => exact whenIdle_eraseRequests w rfl
  | syncNotification =>
    refine whenIdle_eraseRequests w ?_
    simp only [eraseRequests_syncNotifications]
    split
    · rename_i rest _
      rw [show ({ w.eraseRequests with syncNotifications := rest } : World) =
        ({ w with syncNotifications := rest } : World).eraseRequests from rfl,
        processSyncNotification_eraseRequests, map_eraseRequests_eraseRequests]
    · rfl
  | resumeSyncNotification =>
    simp only [step, resumeSyncNotification_eraseRequests, map_eraseRequests_eraseRequests]
  | progressCheck inputs =>
    exact whenIdle_eraseRequests w (congrArg some (checkProgress_eraseRequests w inputs))
  | syncJobStart j =>
    simp only [step, startSyncJob_eraseRequests, map_eraseRequests_eraseRequests]
  | syncJobFinish j synced =>
    simp only [step, finishSyncJob_eraseRequests, map_eraseRequests_eraseRequests]
  | commitCallback blocks ledgerInfo =>
    simp only [step, invokeCommitCallback_eraseRequests, map_eraseRequests_eraseRequests]
  | commitCallbackStep i =>
    simp only [step, eraseRequests_commitCallbackRuns]
    split
    · simp only [runCommitCallback_eraseRequests, map_eraseRequests_eraseRequests]
    · rfl
  | unsubscribeSend i => exact absurd rfl (hev i)

/-- Two worlds that differ in their requests only take the same step, requests aside. -/
theorem step_eraseRequests_congr {v w v' w' : World} {ev : Event}
    (hev : ∀ i, ev ≠ .unsubscribeSend i) (h : v.eraseRequests = w.eraseRequests)
    (hv : v.step cfg verifySignatures ev = some v')
    (hw : w.step cfg verifySignatures ev = some w') : v'.eraseRequests = w'.eraseRequests := by
  have := (step_eraseRequests cfg verifySignatures v ev hev).symm.trans
    (h ▸ step_eraseRequests cfg verifySignatures w ev hev)
  rw [hv, hw] at this
  exact Option.some.inj this

/-! ## Events that only reach the network -/

/-- A direct-send message from a peer the subscription does not accept, or one that arrives with
no subscription; or the send of an unsubscribe task. -/
def isNetworkOnly (w : World) : Event → Bool
  | .directSend peer _ => !w.activeObserverSubscription.any (·.verifyMessageSender peer)
  | .unsubscribeSend _ => true
  | _ => false

/-- **A network-only event changes the requests only.**  A foreign message only spawns a task to
send its peer an `Unsubscribe`, and such a task only sends it. -/
theorem eraseRequests_of_isNetworkOnly {w w' : World} {ev : Event}
    (h : w.isNetworkOnly ev = true) (hs : w.step cfg verifySignatures ev = some w') :
    w'.eraseRequests = w.eraseRequests := by
  cases ev with
  | directSend peer message =>
    obtain ⟨-, hs⟩ := whenIdle_eq_some.1 hs
    simp only [processDirectSendMessage] at hs
    rcases ha : w.activeObserverSubscription with _ | s <;> rw [ha] at hs
    · cases hs
      exact unsubscribeFromPeer_eraseRequests w peer
    · simp only [isNetworkOnly, ha, Option.any_some, Bool.not_eq_true'] at h
      simp only [h, Bool.false_eq_true, if_false, Option.some.injEq] at hs
      rw [← hs]
      exact unsubscribeFromPeer_eraseRequests w peer
  | unsubscribeSend i =>
    simp only [step, sendUnsubscribe] at hs
    split at hs
    · split_ifs at hs
      cases hs
      rfl
    · cases hs
  | _ => cases h

/-- `run`, returning with the last world the events that were not network-only where they
arrived. -/
def runKept (w : World) : List Event → Option (World × List Event)
  | [] => some (w, [])
  | ev :: evs => (w.step cfg verifySignatures ev).bind fun w' ↦
    (w'.runKept evs).map fun r ↦ (r.1, if w.isNetworkOnly ev then r.2 else ev :: r.2)

theorem runKept_fst (w : World) (evs : List Event) :
    (w.runKept cfg verifySignatures evs).map (·.1) = w.run cfg verifySignatures evs := by
  induction evs generalizing w with
  | nil => rfl
  | cons ev evs ih =>
    simp only [runKept, run, Option.map_bind]
    congr 1
    funext w'
    rw [← ih, Function.comp_apply, Option.map_map]
    rfl

/-- A run ends where it started, requests aside, when it keeps no event; otherwise its first kept
event, not the send of an unsubscribe task, is taken by a world that differs from the first one in
its requests only. -/
theorem runKept_cases {w w' : World} {evs kept : List Event}
    (h : w.runKept cfg verifySignatures evs = some (w', kept)) :
    kept = [] ∧ w'.eraseRequests = w.eraseRequests ∨
      ∃ (ev : Event) (kept' : List Event) (u u' : World) (rest : List Event),
        kept = ev :: kept' ∧ (∀ i, ev ≠ .unsubscribeSend i) ∧ u.eraseRequests = w.eraseRequests ∧
        u.step cfg verifySignatures ev = some u' ∧
        u'.runKept cfg verifySignatures rest = some (w', kept') := by
  induction evs generalizing w kept with
  | nil =>
    cases h
    exact .inl ⟨rfl, rfl⟩
  | cons ev evs ih =>
    simp only [runKept, Option.bind_eq_some, Option.map_eq_some', Prod.mk.injEq] at h
    obtain ⟨w₁, hs, ⟨w'', kept₁⟩, hr, rfl, rfl⟩ := h
    split
    · rw [← eraseRequests_of_isNetworkOnly cfg verifySignatures ‹_› hs]
      exact ih hr
    · refine .inr ⟨ev, kept₁, w, w₁, evs, rfl, ?_, rfl, hs, hr⟩
      rintro i rfl
      simp [isNetworkOnly] at *

/-- Two runs from worlds that differ in their requests only, with the same kept events, end in
worlds that differ in their requests only. -/
theorem runKept_eraseRequests {kept : List Event} :
    ∀ {v w v' w' : World} {evs₁ evs₂ : List Event}, v.eraseRequests = w.eraseRequests →
      v.runKept cfg verifySignatures evs₁ = some (v', kept) →
      w.runKept cfg verifySignatures evs₂ = some (w', kept) →
      v'.eraseRequests = w'.eraseRequests := by
  induction kept with
  | nil =>
    intro v w v' w' _ _ h h₁ h₂
    obtain ⟨-, e₁⟩ | ⟨_, _, _, _, _, hk, -⟩ := runKept_cases cfg verifySignatures h₁
    · obtain ⟨-, e₂⟩ | ⟨_, _, _, _, _, hk, -⟩ := runKept_cases cfg verifySignatures h₂
      · rw [e₁, e₂, h]
      · cases hk
    · cases hk
  | cons ev kept ih =>
    intro v w v' w' _ _ h h₁ h₂
    obtain ⟨hk, -⟩ | ⟨_, _, u₁, u₁', _, hk₁, hev, e₁, hs₁, hr₁⟩ :=
      runKept_cases cfg verifySignatures h₁
    · cases hk
    obtain ⟨hk, -⟩ | ⟨_, _, u₂, u₂', _, hk₂, -, e₂, hs₂, hr₂⟩ :=
      runKept_cases cfg verifySignatures h₂
    · cases hk
    obtain ⟨rfl, rfl⟩ := List.cons.inj hk₁
    obtain ⟨rfl, rfl⟩ := List.cons.inj hk₂
    exact ih (step_eraseRequests_congr cfg verifySignatures hev (e₁.trans (h.trans e₂.symm)) hs₁
      hs₂) hr₁ hr₂

end World

/-! ## Two runs -/

/-- **Messages from other peers do not interfere.**  Two runs from one world whose events are the
same once the foreign direct-send messages are left out (those from a peer the subscription does
not accept where they arrive, or that arrive with no subscription), and the sends of the
unsubscribe tasks with them, end with the same root, epoch state, pending blocks, payload store
and sync handle, and have made the same calls, in the same order and with the same observer
state, on the execution client. -/
theorem foreign_messages_do_not_interfere (cfg : ConsensusObserverConfig)
    (verifySignatures : SignatureCheck) {w₀ w₁ w₂ : World} {evs₁ evs₂ kept : List Event}
    (h₁ : w₀.runKept cfg verifySignatures evs₁ = some (w₁, kept))
    (h₂ : w₀.runKept cfg verifySignatures evs₂ = some (w₂, kept)) :
    w₁.root = w₂.root ∧ w₁.epochState = w₂.epochState ∧
      w₁.pendingOrderedBlocks = w₂.pendingOrderedBlocks ∧
      w₁.blockPayloadStore = w₂.blockPayloadStore ∧ w₁.syncHandle = w₂.syncHandle ∧
      w₁.executionCalls = w₂.executionCalls := by
  have h := World.runKept_eraseRequests cfg verifySignatures rfl h₁ h₂
  have ho : w₁.toConsensusObserver = w₂.toConsensusObserver := congrArg (·.toConsensusObserver) h
  exact ⟨congrArg (·.root) ho, congrArg (·.epochState) ho, congrArg (·.pendingOrderedBlocks) ho,
    congrArg (·.blockPayloadStore) ho, congrArg (·.syncHandle) ho, congrArg (·.executionCalls) h⟩

/-- `sampleEvents` with a block from peer 9, to which the observer is not subscribed, delivered
right after the subscription to peer 7. -/
def sampleEventsWithForeign : List Event :=
  subscribeTo 7 :: .directSend 9 (.orderedBlock sampleChild) :: sampleEvents.tail

theorem foreign_block_ignored_in_sampleRun :
    ∃ w₁ w₂, ((start ⟨true, false, 100⟩ (ConsensusObserver.new ⟨⟨5, 10, 10⟩, 0⟩
        (some [⟨5, some 1⟩]))).get (by decide)).runKept ⟨true, false, 100⟩ (fun _ _ ↦ true)
          sampleEvents = some (w₁, sampleEvents) ∧
      ((start ⟨true, false, 100⟩ (ConsensusObserver.new ⟨⟨5, 10, 10⟩, 0⟩
        (some [⟨5, some 1⟩]))).get (by decide)).runKept ⟨true, false, 100⟩ (fun _ _ ↦ true)
          sampleEventsWithForeign = some (w₂, sampleEvents) ∧
      w₁.root = w₂.root ∧ w₁.epochState = w₂.epochState ∧
      w₁.pendingOrderedBlocks = w₂.pendingOrderedBlocks ∧
      w₁.blockPayloadStore = w₂.blockPayloadStore ∧ w₁.syncHandle = w₂.syncHandle ∧
      w₁.executionCalls = w₂.executionCalls := by
  have h₁ : (((start ⟨true, false, 100⟩ (ConsensusObserver.new ⟨⟨5, 10, 10⟩, 0⟩
      (some [⟨5, some 1⟩]))).get (by decide)).runKept ⟨true, false, 100⟩ (fun _ _ ↦ true)
        sampleEvents).map (·.2) = some sampleEvents := by
    rfl
  have h₂ : (((start ⟨true, false, 100⟩ (ConsensusObserver.new ⟨⟨5, 10, 10⟩, 0⟩
      (some [⟨5, some 1⟩]))).get (by decide)).runKept ⟨true, false, 100⟩ (fun _ _ ↦ true)
        sampleEventsWithForeign).map (·.2) = some sampleEvents := by
    rfl
  obtain ⟨⟨w₁, k₁⟩, e₁, hk₁⟩ := Option.map_eq_some'.1 h₁
  obtain ⟨⟨w₂, k₂⟩, e₂, hk₂⟩ := Option.map_eq_some'.1 h₂
  cases hk₁
  cases hk₂
  exact ⟨w₁, w₂, e₁, e₂, foreign_messages_do_not_interfere _ _ e₁ e₂⟩

end Observer
