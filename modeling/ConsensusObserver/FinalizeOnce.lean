import ConsensusObserver.Chain
import ConsensusObserver.Pending
import ConsensusObserver.Root
import ConsensusObserver.SyncJobs

/-!
# No block is finalized twice

A block reaches `finalize_order` at most once when three things hold: a block is accepted only
once, a block finalized on arrival is pruned before the observer enters sync mode, and the drain
at the end of a sync episode takes each verified pending block once, none of them finalized
before.  None holds of every run:

* a block the commit callback has removed from the pending blocks passes the parent check again
  while the callback has not yet updated the root, and is finalized again (the race of
  `callbackRaceEvents`);
* a decision of an earlier epoch with a higher round passes the guard of `process_commit_decision`
  without being ahead of the last block, leaves the blocks finalized on arrival pending, and the
  drain finalizes them again (the run of `lateDecisionEvents`).

`block_finalized_at_most_once` proves that no block is finalized twice in the runs that exclude
these: block ids bind keys and no ordered block arrives inside a commit callback's window
(`BoundAndUnraced`), no commit decision behind the last known block passes the
guard, and the peer never sends again a block the observer has accepted.  Besides the invariants
of `Chain.lean`, `Pending.lean` and `Release.lean`, the proof carries:

* `SyncModeInvariant`: only the job whose handle is installed is live, every job's target is at
  or below the root, and a notification at the root is the installed job's, so sync mode is left
  only from sync mode; while the epoch change waits on the execution client, the handle is still
  installed, no job is live and no notification is at the root;
* `FreshInSync`: in sync mode no pending block has been finalized;
* `OnceCalls`: each block is finalized once, and the blocks the drain has left have distinct
  proofs, none of them finalized.
-/

set_option autoImplicit false

namespace Observer

/-! ## The runs -/

/-- No commit decision passes the guard while behind the last known block, and no ordered block
that was accepted is sent again. -/
def NotStaleNorResent (w : World) : Event → Prop
  | .directSend _ (.orderedBlock ob) =>
    ∀ p ∈ w.acceptedBlocks, p.1.proofBlockInfo ≠ ob.proofBlockInfo
  | .directSend _ (.commitDecision cd) =>
    ¬(cd.epoch < w.getLastBlock.epoch ∧ w.getLastBlock.round < cd.round)
  | _ => True

instance (w : World) : DecidablePred (NotStaleNorResent w)
  | .directSend _ (.orderedBlock _) => inferInstanceAs (Decidable (∀ p ∈ w.acceptedBlocks, _))
  | .directSend _ (.commitDecision _) => inferInstanceAs (Decidable (¬(_ ∧ _)))
  | .directSend _ (.blockPayload _) | .request .. | .syncNotification | .resumeSyncNotification
  | .progressCheck _ | .syncJobStart _ | .syncJobFinish .. | .commitCallback ..
  | .commitCallbackStep _ | .unsubscribeSend _ => isTrue trivial

/-- The runs of `block_finalized_at_most_once`. -/
def OnceAllowed (keyOf : Nat → Key) (w : World) (ev : Event) : Prop :=
  BoundAndUnraced keyOf w ev ∧ NotStaleNorResent w ev

instance (keyOf : Nat → Key) (w : World) (ev : Event) : Decidable (OnceAllowed keyOf w ev) :=
  inferInstanceAs (Decidable (_ ∧ _))

/-- The guard of `process_commit_decision`, on a decision that is not behind the last block, is
the lexicographic comparison. -/
theorem key_lt_of_guard {b : BlockInfo} {cd : CommitDecision}
    (hguard : b.epoch < cd.epoch ∨ b.round < cd.round)
    (hstale : ¬(cd.epoch < b.epoch ∧ b.round < cd.round)) : b.key < cd.key := by
  simp only [CommitDecision.key_eq, LedgerInfoWithSignatures.key_eq, Key.lt_def,
    BlockInfo.key_epoch, BlockInfo.key_round]
  simp only [CommitDecision.epoch, CommitDecision.round] at hguard hstale
  omega

/-- Every pending block is at or below the last known block. -/
theorem key_le_getLastBlock {o : ConsensusObserver}
    (h : ∀ e ∈ o.pendingOrderedBlocks.entries, e.orderedBlock.verifyOrderedBlocks = true) :
    ∀ e ∈ o.pendingOrderedBlocks.entries, e.key ≤ o.getLastBlock.key := by
  intro e he
  unfold ConsensusObserver.getLastBlock
  split
  · rename_i b hb
    obtain ⟨e', he', rfl, hmax⟩ := PendingOrderedBlocks.getLastPendingBlock_spec hb
    rw [OrderedBlock.lastBlock_blockInfo (h e' he')]
    exact hmax e he
  · rename_i hb
    rw [PendingOrderedBlocks.getLastPendingBlock_eq_none hb] at he
    cases he

/-! ## Sync mode is left only from sync mode -/

/-- The main loop waits on `end_epoch` or on `start_epoch`. -/
def World.ChangingEpoch (w : World) : Prop :=
  ∃ es, w.syncNotificationAwait = some (.endEpoch es) ∨
    w.syncNotificationAwait = some (.startEpoch es)

/-- What carries "sync mode is left only from sync mode" from step to step. -/
structure SyncModeInvariant (w : World) : Prop where
  /-- Every notification on the channel was posted by a finished job. -/
  posted : NotificationsPosted w
  /-- No two notifications on the channel come from one job. -/
  distinct : (w.syncNotifications.map (·.job)).Nodup
  /-- A live job is the one whose handle is installed. -/
  live : ∀ (j : Nat) (job : SyncJob), w.syncJobs[j]? = some job → job.IsLive →
    w.syncHandle = some j
  /-- Every job's decision is at or below the root. -/
  targets : ∀ (j : Nat) (job : SyncJob), w.syncJobs[j]? = some job →
    job.commitDecision.key ≤ w.root.key
  /-- A notification at the root comes from the job whose handle is installed. -/
  atRoot : ∀ n ∈ w.syncNotifications, (⟨n.epoch, n.round⟩ : Key) = w.root.key →
    w.syncHandle = some n.job
  /-- While the epoch change waits, the handle is still installed, no job is live, and no
  notification is at the root. -/
  changing : w.ChangingEpoch → w.syncHandle ≠ none ∧
    (∀ (j : Nat) (job : SyncJob), w.syncJobs[j]? = some job → ¬job.IsLive) ∧
    ∀ n ∈ w.syncNotifications, (⟨n.epoch, n.round⟩ : Key) ≠ w.root.key

namespace SyncModeInvariant

variable {w : World}

theorem notification_le (h : SyncModeInvariant w) {n : SyncNotification}
    (hn : n ∈ w.syncNotifications) : (⟨n.epoch, n.round⟩ : Key) ≤ w.root.key := by
  obtain ⟨job, ⟨hj, -⟩, he, hr⟩ := h.posted n hn
  have hk : (⟨n.epoch, n.round⟩ : Key) = job.commitDecision.key := by
    rw [he, hr]
    rfl
  exact hk ▸ h.targets _ job hj

/-- A notification that passes the root check comes from the installed job. -/
theorem handle_of_accept (h : SyncModeInvariant w) {n : SyncNotification}
    {rest : List SyncNotification} (hn : w.syncNotifications = n :: rest)
    (hroot : checkRootEpochAndRound w.root n.epoch n.round = true) :
    w.syncHandle = some n.job := by
  simp only [checkRootEpochAndRound, Bool.and_eq_true, beq_iff_eq] at hroot
  exact h.atRoot n (hn ▸ List.mem_cons_self _ _) (by
    rw [LedgerInfoWithSignatures.key_eq, ← hroot.1, ← hroot.2]
    rfl)

/-- The notification at the head of the channel is the only one of its job. -/
theorem distinct_cons (h : SyncModeInvariant w) {n : SyncNotification}
    {rest : List SyncNotification} (hn : w.syncNotifications = n :: rest) :
    n.job ∉ rest.map (·.job) ∧ (rest.map (·.job)).Nodup := by
  have hdistinct := h.distinct
  rwa [hn, List.map_cons, List.nodup_cons] at hdistinct

/-- Once the installed job's notification is taken off the channel, no other is at the root. -/
theorem not_atRoot_of_accept (h : SyncModeInvariant w) {n : SyncNotification}
    {rest : List SyncNotification} (hn : w.syncNotifications = n :: rest)
    (hroot : checkRootEpochAndRound w.root n.epoch n.round = true) :
    ∀ m ∈ rest, (⟨m.epoch, m.round⟩ : Key) ≠ w.root.key := by
  intro m hm hmroot
  have := h.atRoot m (hn ▸ List.mem_cons_of_mem _ hm) hmroot
  rw [h.handle_of_accept hn hroot, Option.some.injEq] at this
  exact (h.distinct_cons hn).1 (this ▸ List.mem_map_of_mem _ hm)

end SyncModeInvariant

/-- Leaving sync mode, with no notification at the root and every live job the installed one's,
drops the handle and aborts that job: the invariant holds after it. -/
theorem SyncModeInvariant.exitSyncMode {w : World} (hposted : NotificationsPosted w.exitSyncMode)
    (hdistinct : (w.syncNotifications.map (·.job)).Nodup)
    (hlive : ∀ (j : Nat) (job : SyncJob), w.syncJobs[j]? = some job → job.IsLive →
      w.syncHandle = some j)
    (htargets : ∀ (j : Nat) (job : SyncJob), w.syncJobs[j]? = some job →
      job.commitDecision.key ≤ w.root.key)
    (hnone : ∀ n ∈ w.syncNotifications, (⟨n.epoch, n.round⟩ : Key) ≠ w.root.key) :
    SyncModeInvariant w.exitSyncMode := by
  refine ⟨hposted, by simpa using hdistinct, fun k job hk hl ↦ ?_, fun k job hk ↦ ?_,
    fun m hm hmroot ↦ absurd (by simpa using hmroot) (hnone m (by simpa using hm)),
    fun ⟨es, hw⟩ ↦ by simp at hw⟩
  · rw [World.exitSyncMode_syncJobs] at hk
    obtain ⟨hj, hne⟩ := World.isLive_of_setSyncHandle hk hl
    exact absurd (hlive k job hj hl) hne
  · rw [World.exitSyncMode_syncJobs] at hk
    obtain ⟨job₀, hj₀, hcd⟩ := World.commitDecision_of_setSyncHandle hk
    simpa [hcd] using htargets k job₀ hj₀

variable {cfg : ConsensusObserverConfig} {verifySignatures : SignatureCheck} {w w' : World}
  {ev : Event} {keyOf : Nat → Key}

/-- **Each step keeps sync mode left only from sync mode**, when the pending blocks are above the
root and no decision behind the last block arrives: a sync start then raises the root above every
job's target. -/
theorem syncModeInvariant_step (h : SyncModeInvariant w) (habove : AboveRoot keyOf w)
    (hfresh : NotStaleNorResent w ev) (hs : w.step cfg verifySignatures ev = some w') :
    SyncModeInvariant w' := by
  have hposted := notificationsPosted_step h.posted hs
  cases World.step_cases hs with
  | syncStarted peer cd es hes hproof hahead hidle =>
    have hlt : w.root.key < cd.key :=
      habove.chainBound.getLastBlock.2.trans_lt (key_lt_of_guard hahead hfresh)
    refine ⟨hposted, h.distinct, fun k job hk hl ↦ ?_, fun k job hk ↦ ?_,
      fun n hn hnroot ↦ absurd hnroot (h.notification_le hn |>.trans_lt hlt).ne,
      fun ⟨_, hw⟩ ↦ by simp [hidle] at hw⟩
    · obtain ⟨hj, hne⟩ := World.isLive_of_setSyncHandle hk hl
      have hj : (w.syncJobs ++ [⟨cd, .spawned⟩])[k]? = some job := hj
      have hlen := (List.getElem?_eq_some.1 hj).1
      rw [List.length_append, List.length_singleton] at hlen
      rcases Nat.lt_or_ge k w.syncJobs.length with hk' | hk'
      · rw [List.getElem?_append_left hk'] at hj
        exact absurd (h.live k job hj hl) hne
      · show some w.syncJobs.length = some k
        congr 1
        omega
    · obtain ⟨job₀, hj₀, hcd⟩ := World.commitDecision_of_setSyncHandle hk
      rw [hcd]
      rcases List.mem_append.1 (List.getElem?_mem hj₀) with hm | hm
      · obtain ⟨k₀, hk₀⟩ := List.mem_iff_getElem?.1 hm
        exact (h.targets k₀ job₀ hk₀).trans hlt.le
      · rw [List.mem_singleton.1 hm]
        exact le_rfl
  | syncIgnored n rest hn _ hidle =>
    exact ⟨hposted, (h.distinct_cons hn).2, h.live, h.targets,
      fun m hm ↦ h.atRoot m (hn ▸ List.mem_cons_of_mem _ hm), fun ⟨_, hw⟩ ↦ by simp [hidle] at hw⟩
  | syncAccepted n rest es hn hroot =>
    exact SyncModeInvariant.exitSyncMode hposted (h.distinct_cons hn).2 h.live h.targets
      (h.not_atRoot_of_accept hn hroot)
  | syncEndEpoch n rest es hn hroot =>
    have hcur := h.handle_of_accept hn hroot
    obtain ⟨job, ⟨hj, synced, hfin⟩, -⟩ := h.posted n (hn ▸ List.mem_cons_self _ _)
    refine ⟨hposted, (h.distinct_cons hn).2, h.live, h.targets,
      fun m hm ↦ h.atRoot m (hn ▸ List.mem_cons_of_mem _ hm), fun _ ↦ ⟨by simp [hcur],
        fun k job' hk hl ↦ ?_, h.not_atRoot_of_accept hn hroot⟩⟩
    obtain rfl : n.job = k := Option.some.inj (hcur.symm.trans (h.live k job' hk hl))
    rw [hj, Option.some.injEq] at hk
    subst hk
    rcases hl with hl | hl <;> rw [hfin] at hl <;> cases hl
  | epochStarted es es' configs hw =>
    exact ⟨hposted, h.distinct, h.live, h.targets, h.atRoot, fun _ ↦ h.changing ⟨es, .inl hw⟩⟩
  | pendingVerified es hw =>
    exact SyncModeInvariant.exitSyncMode hposted h.distinct h.live h.targets
      (h.changing ⟨es, .inr hw⟩).2.2
  | drainResumed cd rest hw =>
    refine ⟨hposted, by simpa using h.distinct, fun k job hk hl ↦ ?_, fun k job hk ↦ ?_,
      fun m hm hmroot ↦ ?_, fun ⟨_, hw'⟩ ↦ by simp at hw'⟩
    · rw [World.resumeDrain_syncJobs] at hk
      simpa using h.live k job hk hl
    · rw [World.resumeDrain_syncJobs] at hk
      simpa using h.targets k job hk
    · rw [World.resumeDrain_syncNotifications] at hm
      simpa using h.atRoot m hm (by simpa using hmroot)
  | syncJobStart j job hj hstatus =>
    refine ⟨hposted, h.distinct, fun k job' hk hl ↦ ?_, fun k job' hk ↦ ?_, h.atRoot,
      fun hc ↦ absurd (.inl hstatus) ((h.changing hc).2.1 j job hj)⟩
      <;> rcases getElem?_set_eq_some hk with ⟨rfl, rfl⟩ | ⟨-, hk⟩
    · exact h.live _ job hj (.inl hstatus)
    · exact h.live k job' hk hl
    · exact h.targets _ job hj
    · exact h.targets k job' hk
  | syncJobFinish j job synced hj hstatus =>
    have hnew : j ∉ w.syncNotifications.map (·.job) := by
      intro hm
      obtain ⟨n, hn, rfl⟩ := List.mem_map.1 hm
      obtain ⟨job', ⟨hjob, synced', hfin⟩, -⟩ := h.posted n hn
      rw [hj, Option.some.injEq] at hjob
      rw [← hjob, hstatus] at hfin
      cases hfin
    refine ⟨hposted, ?_, fun k job' hk hl ↦ ?_, fun k job' hk ↦ ?_, fun m hm hmroot ↦ ?_,
      fun hc ↦ absurd (.inr hstatus) ((h.changing hc).2.1 j job hj)⟩
    · rw [List.map_append, List.nodup_append_comm]
      exact List.nodup_cons.2 ⟨hnew, h.distinct⟩
    · rcases getElem?_set_eq_some hk with ⟨rfl, rfl⟩ | ⟨-, hk⟩
      · rcases hl with hl | hl <;> cases hl
      · exact h.live k job' hk hl
    · rcases getElem?_set_eq_some hk with ⟨rfl, rfl⟩ | ⟨-, hk⟩
      · exact h.targets _ job hj
      · exact h.targets k job' hk
    · rcases List.mem_append.1 hm with hm | hm
      · exact h.atRoot m hm hmroot
      · rw [List.mem_singleton.1 hm]
        exact h.live j job hj (.inr hstatus)
  | callbackUpdateRoot i run hi hstage =>
    have hraised : ∀ m ∈ w.syncNotifications,
        (⟨m.epoch, m.round⟩ : Key) = (updateRoot w.root run.ledgerInfo).key →
        (⟨m.epoch, m.round⟩ : Key) = w.root.key := by
      intro m hm hmroot
      rcases updateRoot_cases w.root run.ledgerInfo with he | ⟨he, hlt⟩ <;> rw [he] at hmroot
      · exact hmroot
      · exact absurd hmroot (h.notification_le hm |>.trans_lt hlt).ne
    refine ⟨hposted, h.distinct, h.live,
      fun k job hk ↦ (h.targets k job hk).trans (updateRoot_key_le _ _),
      fun m hm hmroot ↦ h.atRoot m hm (hraised m hm hmroot), fun hc ↦ ?_⟩
    obtain ⟨hne, hnolive, hnone⟩ := h.changing hc
    exact ⟨hne, hnolive, fun m hm hmroot ↦ hnone m hm (hraised m hm hmroot)⟩
  | _ => exact { h with }

/-! ## Each block is finalized once -/

/-- No call of the log finalized a block with the proof of `ob`. -/
def NotFinalizedIn (calls : List (ExecutionCall × ConsensusObserver)) (ob : OrderedBlock) :
    Prop :=
  ∀ ob' o, (.finalizeOrder ob', o) ∈ calls → ob'.proofBlockInfo ≠ ob.proofBlockInfo

/-- A `finalize_order` call finalizes a block that no call before it finalized. -/
def FinalizedOnce (pre : List (ExecutionCall × ConsensusObserver))
    (c : ExecutionCall × ConsensusObserver) : Prop :=
  ∀ ob, c.1 = .finalizeOrder ob → NotFinalizedIn pre ob

/-- In sync mode no pending block has been finalized. -/
def FreshInSync (w : World) : Prop :=
  w.syncHandle ≠ none →
    ∀ e ∈ w.pendingOrderedBlocks.entries, NotFinalizedIn w.executionCalls e.orderedBlock

/-- Each block is finalized once, and the blocks the drain has left will be finalized once. -/
structure OnceCalls (w : World) : Prop where
  /-- Every `finalize_order` call finalizes a block no call before it finalized. -/
  once : EachCall FinalizedOnce w.executionCalls
  /-- The blocks the drain has left have distinct proofs, and none has been finalized. -/
  draining : ∀ cd rest, w.syncNotificationAwait = some (.finalizeOrder cd rest) →
    (rest.map (·.1.proofBlockInfo)).Nodup ∧ ∀ p ∈ rest, NotFinalizedIn w.executionCalls p.1

theorem notFinalizedIn_append {l₁ l₂ : List (ExecutionCall × ConsensusObserver)}
    {ob : OrderedBlock} :
    NotFinalizedIn (l₁ ++ l₂) ob ↔ NotFinalizedIn l₁ ob ∧ NotFinalizedIn l₂ ob := by
  simp only [NotFinalizedIn, List.mem_append, or_imp, forall_and]

/-- Calls that finalize nothing leave every block unfinalized. -/
theorem notFinalizedIn_of_forall {l : List (ExecutionCall × ConsensusObserver)}
    (hl : ∀ c ∈ l, ∀ ob, c.1 ≠ .finalizeOrder ob) (ob : OrderedBlock) : NotFinalizedIn l ob :=
  fun ob' _ hc ↦ absurd rfl (hl _ hc ob')

/-- An accepted block that is not sent again has not been finalized. -/
theorem AcceptedInvariant.notFinalizedIn (h : AcceptedInvariant w) {ob : OrderedBlock}
    (hnew : ∀ p ∈ w.acceptedBlocks, p.1.proofBlockInfo ≠ ob.proofBlockInfo) :
    NotFinalizedIn w.executionCalls ob := fun ob' o hc ↦
  let ⟨_, hp⟩ := h.finalized ob' o hc
  hnew _ hp

/-- The blocks the drain takes have distinct proofs: their keys increase. -/
theorem PendingOrderedBlocks.nodup_getAllVerifiedPendingBlocks (p : PendingOrderedBlocks) :
    (p.getAllVerifiedPendingBlocks.map (·.1.proofBlockInfo)).Nodup := by
  have hkeys : ((p.entries.filter (·.verified)).map PendingEntry.key).Nodup :=
    (List.pairwise_map.2 (p.sorted.filter _)).imp ne_of_lt
  refine List.Nodup.of_map BlockInfo.key ?_
  simpa only [PendingOrderedBlocks.getAllVerifiedPendingBlocks, List.map_map] using hkeys

namespace OnceCalls

/-- A step that finalizes nothing and does not start a drain keeps the invariant. -/
theorem of_frame (h : OnceCalls w)
    (hawait : ∀ cd rest, w'.syncNotificationAwait = some (.finalizeOrder cd rest) →
      w.syncNotificationAwait = some (.finalizeOrder cd rest))
    (new : List (ExecutionCall × ConsensusObserver))
    (hcalls : w'.executionCalls = w.executionCalls ++ new)
    (hnew : ∀ c ∈ new, ∀ ob, c.1 ≠ .finalizeOrder ob) : OnceCalls w' := by
  refine ⟨hcalls ▸ h.once.append_of_forall fun c hc _ ob hob ↦ absurd hob (hnew c hc ob),
    fun cd rest hw ↦ ?_⟩
  obtain ⟨hnodup, hfresh⟩ := h.draining cd rest (hawait cd rest hw)
  exact ⟨hnodup, fun p hp ↦
    hcalls ▸ notFinalizedIn_append.2 ⟨hfresh p hp, notFinalizedIn_of_forall hnew _⟩⟩

/-- An iteration of the drain over blocks of distinct proofs, none of them finalized, finalizes
the first once and leaves the others unfinalized. -/
theorem drainPendingBlocks (h : EachCall FinalizedOnce w.executionCalls)
    {l : List (OrderedBlock × Option CommitDecision)} (hl : (l.map (·.1.proofBlockInfo)).Nodup)
    (hfresh : ∀ p ∈ l, NotFinalizedIn w.executionCalls p.1) :
    OnceCalls (w.drainPendingBlocks l) := by
  rcases l with _ | ⟨q, rest⟩
  · exact ⟨by simpa using h, fun _ _ hw ↦ by simp at hw⟩
  rw [List.map_cons, List.nodup_cons] at hl
  have hcalls : (w.drainPendingBlocks (q :: rest)).executionCalls =
      w.executionCalls ++ [(.finalizeOrder q.1, w.toConsensusObserver)] := by
    simp
  refine ⟨hcalls ▸ h.snoc fun ob hob ↦ ?_, fun cd rest' hw ↦ ?_⟩
  · cases hob
    exact hfresh q (List.mem_cons_self _ _)
  obtain ⟨-, rfl⟩ : q.2 = cd ∧ rest = rest' := by simpa using hw
  refine ⟨hl.2, fun p hp ↦ hcalls ▸ notFinalizedIn_append.2
    ⟨hfresh p (List.mem_cons_of_mem _ hp), fun ob' o hc heq ↦ ?_⟩⟩
  obtain ⟨hob, -⟩ := Prod.mk.inj (List.mem_singleton.1 hc)
  cases hob
  exact hl.1 (heq ▸ List.mem_map_of_mem _ hp)

/-- Leaving sync mode finalizes each drained block once, when none of the pending blocks has
been finalized. -/
theorem exitSyncMode (h : EachCall FinalizedOnce w.executionCalls)
    (hfresh : ∀ e ∈ w.pendingOrderedBlocks.entries,
      NotFinalizedIn w.executionCalls e.orderedBlock) :
    OnceCalls w.exitSyncMode := by
  rw [World.exitSyncMode_eq]
  refine drainPendingBlocks (w := w.setSyncHandle none) h
    (PendingOrderedBlocks.nodup_getAllVerifiedPendingBlocks _) fun p hp ↦ ?_
  obtain ⟨e, he, -, hob, -⟩ := PendingOrderedBlocks.mem_getAllVerifiedPendingBlocks.1 hp
  exact hob ▸ hfresh e he

/-- The drain goes on with the blocks it has left; the decision it forwards finalizes nothing. -/
theorem resumeDrain (h : OnceCalls w) {cd : Option CommitDecision}
    {rest : List (OrderedBlock × Option CommitDecision)}
    (hw : w.syncNotificationAwait = some (.finalizeOrder cd rest)) :
    OnceCalls (w.resumeDrain cd rest) := by
  rcases cd with _ | d
  · obtain ⟨hnodup, hfresh⟩ := h.draining none rest hw
    exact drainPendingBlocks h.once hnodup hfresh
  · have hd : OnceCalls (w.forwardCommitDecision d) :=
      h.of_frame (fun _ _ hw' ↦ by simpa using hw') _ rfl (by simp)
    obtain ⟨hnodup, hfresh⟩ := hd.draining (some d) rest (by simpa using hw)
    exact drainPendingBlocks hd.once hnodup hfresh

end OnceCalls

/-- **Each step keeps the pending blocks fresh in sync mode.**  A sync start empties the pending
blocks, since they are all at or below the last known block and the decision is ahead of it. -/
theorem freshInSync_step (h : FreshInSync w) (hacc : AcceptedInvariant w)
    (habove : AboveRoot keyOf w) (hdrain : DrainingOutsideSync w) (hnr : NotStaleNorResent w ev)
    (hs : w.step cfg verifySignatures ev = some w') : FreshInSync w' := by
  cases World.step_cases hs with
  | orderedBlockFinalized _ _ _ _ _ _ _ _ hsync => exact fun hne ↦ absurd hsync hne
  | orderedBlockBuffered _ ob =>
    intro hne e he
    rcases PendingOrderedBlocks.mem_insertOrderedBlock he with he | rfl
    · exact h hne e he
    · exact hacc.notFinalizedIn hnr
  | commitForwarded _ _ _ _ _ _ _ _ _ _ _ hsync => exact fun hne ↦ absurd hsync hne
  | commitAttached _ cd =>
    intro hne e he
    obtain ⟨e₀, he₀, rfl⟩ := PendingOrderedBlocks.mem_updateCommitDecision.1 he
    simpa using h hne e₀ he₀
  | syncStarted _ cd _ _ _ hahead =>
    intro _ e he
    obtain ⟨he, hlt⟩ := PendingOrderedBlocks.mem_removeBlocksForCommit.1 he
    have hle := key_le_getLastBlock (fun e he ↦ (habove.blocksBound e he).1) e he
    exact absurd (hlt.trans_le hle) (key_lt_of_guard hahead hnr).not_lt
  | syncAccepted | pendingVerified => simp [FreshInSync]
  | drainResumed cd rest hw => exact fun hne ↦ absurd (hdrain cd rest hw) (by simpa using hne)
  | syncEndEpoch | epochStarted | syncJobStart =>
    exact fun hne e he ↦
      notFinalizedIn_append.2 ⟨h hne e he, notFinalizedIn_of_forall (by simp) _⟩
  | callbackRemovePendingBlocks =>
    exact fun hne e he ↦ h hne e (PendingOrderedBlocks.mem_removeBlocksForCommit.1 he).1
  | _ => exact h

/-- **Each step finalizes only blocks not finalized before**, and keeps the blocks the drain has
left unfinalized. -/
theorem onceCalls_step (h : OnceCalls w) (hacc : AcceptedInvariant w)
    (hsync : SyncModeInvariant w) (hfresh : FreshInSync w) (hnr : NotStaleNorResent w ev)
    (hs : w.step cfg verifySignatures ev = some w') : OnceCalls w' := by
  cases World.step_cases hs with
  | orderedBlockFinalized _ ob _ _ _ _ _ _ _ hidle =>
    refine ⟨h.once.snoc fun ob' hob ↦ ?_, fun _ _ hw ↦ by simp [hidle] at hw⟩
    cases hob
    exact hacc.notFinalizedIn hnr
  | commitForwarded _ _ _ _ _ _ _ _ _ _ _ _ hidle =>
    exact h.of_frame (fun _ _ hw ↦ by simp [hidle] at hw) _ rfl (by simp)
  | syncEndEpoch | epochStarted => exact h.of_frame (fun _ _ hw ↦ by simp at hw) _ rfl (by simp)
  | syncJobStart => exact h.of_frame (fun _ _ hw ↦ by simpa using hw) _ rfl (by simp)
  | syncAccepted n rest es hn hroot =>
    have hne : w.syncHandle ≠ none := by simp [hsync.handle_of_accept hn hroot]
    exact OnceCalls.exitSyncMode h.once (hfresh hne)
  | pendingVerified es hw =>
    refine OnceCalls.exitSyncMode h.once fun e' he' ↦ ?_
    obtain ⟨e, he, hp⟩ := PendingOrderedBlocks.mem_verifyPendingBlocks.1 he'
    rw [(PendingEntry.promote_spec hp).1]
    exact hfresh (hsync.changing ⟨es, .inr hw⟩).1 e he
  | drainResumed cd rest hw => exact h.resumeDrain hw
  | _ => exact { h with }

/-- What the proof of `block_finalized_at_most_once` carries from step to step. -/
structure OnceInvariant (keyOf : Nat → Key) (w : World) : Prop where
  /-- The pending blocks are above the root, and a sync start raises the root above them. -/
  above : AboveRoot keyOf w
  /-- Every block pending, left to the drain or finalized was accepted. -/
  accepted : AcceptedInvariant w
  /-- Sync mode is left only from sync mode. -/
  syncMode : SyncModeInvariant w
  /-- The drain runs with the handle unset. -/
  outside : DrainingOutsideSync w
  fresh : FreshInSync w
  calls : OnceCalls w

theorem onceInvariant_step (h : OnceInvariant keyOf w) (ha : OnceAllowed keyOf w ev)
    (hs : w.step cfg verifySignatures ev = some w') : OnceInvariant keyOf w' :=
  ⟨aboveRoot_step h.above ha.1 hs, acceptedInvariant_step h.accepted hs,
    syncModeInvariant_step h.syncMode h.above ha.2 hs, drainingOutsideSync_step h.outside hs,
    freshInSync_step h.fresh h.accepted h.above h.outside ha.2 hs,
    onceCalls_step h.calls h.accepted h.syncMode h.fresh ha.2 hs⟩

theorem onceInvariant_init (h : Started cfg w) (hroot : w.root.commitInfo.BoundBy keyOf) :
    OnceInvariant keyOf w := by
  obtain ⟨root, configs, es, rest, -, rfl⟩ := World.started_eq h
  exact ⟨⟨nofun, nofun, hroot, nofun, nofun⟩, ⟨nofun, nofun, by simp⟩,
    ⟨nofun, List.nodup_nil, fun _ _ h ↦ by simp at h, fun _ _ h ↦ by simp at h, nofun,
      fun ⟨_, h⟩ ↦ by simp at h⟩,
    nofun, fun h ↦ absurd rfl h, ⟨eachCall_singleton fun _ ↦ nofun, nofun⟩⟩

variable (cfg verifySignatures) in
/-- **No block is finalized twice** in a run in which block ids bind keys, no ordered block
arrives inside a commit callback's window, no commit decision behind the last known block passes
the guard, and no accepted block is sent again: every block passed to `finalize_order` has a proof
other than that of every block passed to it before. -/
theorem block_finalized_at_most_once (keyOf : Nat → Key) {w : World}
    (h : ReachableUnder cfg verifySignatures
      (fun w ↦ Started cfg w ∧ w.root.commitInfo.BoundBy keyOf) (OnceAllowed keyOf) w) :
    ∀ pre ob o post, w.executionCalls = pre ++ (.finalizeOrder ob, o) :: post →
      ∀ ob' o', (.finalizeOrder ob', o') ∈ pre → ob'.proofBlockInfo ≠ ob.proofBlockInfo := by
  have hi : OnceInvariant keyOf w := by
    induction h with
    | init hw => exact onceInvariant_init hw.1 hw.2
    | step _ ha hs ih => exact onceInvariant_step ih ha hs
  exact fun pre ob o post e ↦ hi.calls.once pre _ post e ob rfl

/-- `syncEpisodeEvents` from the observer of `sampleRun`, each admitted by `OnceAllowed`. -/
def syncEpisodeRunOnce : Option World :=
  runFromUnder ⟨true, false, 100⟩ (fun _ _ ↦ true) (OnceAllowed fun id ↦ ⟨5, id⟩)
    ⟨⟨5, 10, 10⟩, 0⟩ (some [⟨5, some 1⟩]) syncEpisodeEvents

theorem synced_block_finalized_once_in_syncEpisodeRun :
    ReachableUnder ⟨true, false, 100⟩ (fun _ _ ↦ true)
      (fun w ↦ Started ⟨true, false, 100⟩ w ∧ w.root.commitInfo.BoundBy fun id ↦ ⟨5, id⟩)
      (OnceAllowed fun id ↦ ⟨5, id⟩) (syncEpisodeRunOnce.get (by decide)) ∧
    ∃ pre o post, (syncEpisodeRunOnce.get (by decide)).executionCalls =
      pre ++ (.finalizeOrder syncedBlock, o) :: post ∧
      ∀ ob' o', (.finalizeOrder ob', o') ∈ pre →
        ob'.proofBlockInfo ≠ syncedBlock.proofBlockInfo := by
  have hr : ReachableUnder ⟨true, false, 100⟩ (fun _ _ ↦ true)
      (fun w ↦ Started ⟨true, false, 100⟩ w ∧ w.root.commitInfo.BoundBy fun id ↦ ⟨5, id⟩)
      (OnceAllowed fun id ↦ ⟨5, id⟩) (syncEpisodeRunOnce.get (by decide)) :=
    ReachableUnder.of_runFromUnder _ _ (fun _ h₀ ↦ ⟨⟨_, _, h₀⟩, by rw [start_root _ h₀]; decide⟩)
      (Option.some_get _).symm
  have hc : ((syncEpisodeRunOnce.get (by decide)).executionCalls.map (·.1))[2]? =
      some (.finalizeOrder syncedBlock) := by
    decide
  obtain ⟨o, e⟩ := split_at_call hc
  exact ⟨hr, _, o, _, e, block_finalized_at_most_once _ _ _ hr _ _ o _ e⟩

end Observer
