import ConsensusObserver.Steps

/-!
# What the observer releases to the execution pipeline

Blocks reach the execution pipeline by two paths: at once, when `process_ordered_block` accepts a
block whose proof it has just verified, and in the drain at the end of
`process_sync_notification`, one block per iteration, each awaited before the next.  Commit
decisions reach it by two paths as well: when a verified pending block takes one, and after their
block in the drain.  This file proves, over every run, what holds of every such call in the log:

* `finalize_and_commit_calls_outside_sync_mode`: no `finalize_order` and no `send_commit_msg`
  is made while the sync handle is set;
* `finalized_blocks_verified_under_their_epoch`: every finalized block's ordered proof verifies
  under an epoch state that was started before the call (and whose epoch is the proof's);
* `commit_decision_follows_its_block`: every `send_commit_msg` for `(e, r)` comes after a
  `finalize_order` of a block whose proof is at `(e, r)`.

Each is an invariant of every reachable world, proved as: it holds of the first world, and each
path of `StepCase` keeps it.  Properties of a call that depend on the calls before it are stated
with `EachCall`.  While the drain waits on a block, the invariants also say what it has left to do
(`DrainingOutsideSync`, and the `draining` fields).

What is not checked before a release is said last: `payloads_guard_only_forwarded_decisions`
shows that the payload store is read on the commit-decision path only, so a block is finalized,
on arrival or in the drain, whether its payloads have arrived or not.
-/

set_option autoImplicit false

namespace Observer

/-! ## Properties of each call and the calls before it -/

/-- Each call of a log has the property `P` of the calls made before it. -/
def EachCall
    (P : List (ExecutionCall × ConsensusObserver) → ExecutionCall × ConsensusObserver → Prop)
    (calls : List (ExecutionCall × ConsensusObserver)) : Prop :=
  ∀ pre c post, calls = pre ++ c :: post → P pre c

section EachCall

variable {P : List (ExecutionCall × ConsensusObserver) → ExecutionCall × ConsensusObserver → Prop}
  {l l₁ l₂ : List (ExecutionCall × ConsensusObserver)}

theorem eachCall_append :
    EachCall P (l₁ ++ l₂) ↔ EachCall P l₁ ∧ EachCall (fun pre ↦ P (l₁ ++ pre)) l₂ := by
  refine ⟨fun h ↦ ⟨fun pre c post e ↦ h pre c (post ++ l₂) (by simp [e]),
    fun pre c post e ↦ h (l₁ ++ pre) c post (by simp [e])⟩, ?_⟩
  rintro ⟨h₁, h₂⟩ pre c post e
  rcases List.append_eq_append_iff.1 e with ⟨a, rfl, hl⟩ | ⟨c', rfl, hc⟩
  · exact h₂ a c post hl
  · rcases List.cons_eq_append_iff.1 hc with ⟨rfl, hl⟩ | ⟨a, rfl, -⟩
    · simpa using h₂ [] c post hl
    · exact h₁ pre c a rfl

theorem eachCall_nil : EachCall P [] :=
  fun _ _ _ e ↦ by simp at e

theorem EachCall.snoc {c : ExecutionCall × ConsensusObserver} (h : EachCall P l) (hc : P l c) :
    EachCall P (l ++ [c]) := by
  refine eachCall_append.2 ⟨h, fun pre c' post e ↦ ?_⟩
  rcases List.cons_eq_append_iff.1 e with ⟨rfl, he⟩ | ⟨a, -, ha⟩
  · obtain ⟨rfl, -⟩ := List.cons_eq_cons.1 he.symm
    simpa using hc
  · simp at ha

theorem eachCall_singleton {c : ExecutionCall × ConsensusObserver} (h : P [] c) :
    EachCall P [c] :=
  show EachCall P ([] ++ [c]) from eachCall_nil.snoc h

/-- Calls whose property holds whatever came before them may be appended. -/
theorem EachCall.append_of_forall (h : EachCall P l₁) (h₂ : ∀ c ∈ l₂, ∀ pre, P (l₁ ++ pre) c) :
    EachCall P (l₁ ++ l₂) :=
  eachCall_append.2 ⟨h, fun pre c post e ↦ h₂ c (by simp [e]) pre⟩

/-- For a property that only grows with the calls before it, two logs may be joined. -/
theorem EachCall.append (h₁ : EachCall P l₁) (h₂ : EachCall P l₂)
    (mono : ∀ pre pre' c, P pre c → P (pre' ++ pre) c) : EachCall P (l₁ ++ l₂) :=
  eachCall_append.2 ⟨h₁, fun pre c post e ↦ mono _ _ _ (h₂ pre c post e)⟩

theorem EachCall.of_mem (h : EachCall P l) {c : ExecutionCall × ConsensusObserver} (hc : c ∈ l) :
    ∃ pre, P pre c := by
  obtain ⟨pre, post, rfl⟩ := List.append_of_mem hc
  exact ⟨pre, h pre c post rfl⟩

end EachCall

/-- A call that hands work to the execution pipeline. -/
def ExecutionCall.IsRelease : ExecutionCall → Prop
  | .finalizeOrder _ | .sendCommitMsg _ => True
  | _ => False

variable {cfg : ConsensusObserverConfig} {verifySignatures : SignatureCheck} {w w' : World}
  {ev : Event}

/-- The calls of one step are all made with the same observer. -/
theorem mem_map_snd {α : Type} {l : List α} {f : α → ExecutionCall} {o : ConsensusObserver}
    {c : ExecutionCall × ConsensusObserver} (h : c ∈ l.map fun p ↦ (f p, o)) : c.2 = o := by
  obtain ⟨_, _, rfl⟩ := List.mem_map.1 h
  rfl

/-! ## The drain runs outside sync mode -/

/-- While the drain of `process_sync_notification` waits on a block's `finalize_order`, the sync
handle is unset: it was dropped before the drain, and only the main loop, which is waiting, sets
it. -/
def DrainingOutsideSync (w : World) : Prop :=
  ∀ cd rest, w.syncNotificationAwait = some (.finalizeOrder cd rest) → w.syncHandle = none

/-- **Each step keeps the drain outside sync mode.** -/
theorem drainingOutsideSync_step (h : DrainingOutsideSync w)
    (hs : w.step cfg verifySignatures ev = some w') : DrainingOutsideSync w' := by
  cases World.step_cases hs with
  | syncAccepted | pendingVerified => exact fun _ _ _ ↦ by simp
  | drainResumed cd rest hw => exact fun _ _ _ ↦ by simpa using h cd rest hw
  | syncStarted _ _ _ _ _ _ hidle => exact fun _ _ hw ↦ by simp [hidle] at hw
  | syncEndEpoch | epochStarted => exact nofun
  | _ => exact h

variable (cfg verifySignatures) in
theorem Reachable.drainingOutsideSync (h : Reachable cfg verifySignatures w) :
    DrainingOutsideSync w := by
  induction h with
  | init hw =>
    obtain ⟨root, configs, es, rest, -, rfl⟩ := World.started_eq hw
    exact nofun
  | step _ _ hs ih => exact drainingOutsideSync_step ih hs

/-! ## Releases happen outside sync mode -/

/-- A release is made while the sync handle is unset. -/
def ReleasedOutsideSync (_pre : List (ExecutionCall × ConsensusObserver))
    (c : ExecutionCall × ConsensusObserver) : Prop :=
  c.1.IsRelease → c.2.syncHandle = none

/-- **Each step keeps every release outside sync mode.** -/
theorem releasedOutsideSync_step (hd : DrainingOutsideSync w)
    (h : EachCall ReleasedOutsideSync w.executionCalls)
    (hs : w.step cfg verifySignatures ev = some w') :
    EachCall ReleasedOutsideSync w'.executionCalls := by
  cases World.step_cases hs with
  | orderedBlockFinalized _ _ _ _ _ _ _ _ hsync => exact h.snoc fun _ ↦ hsync
  | commitForwarded _ _ _ _ _ _ _ _ _ _ _ hsync => exact h.snoc fun _ ↦ hsync
  | syncAccepted | pendingVerified =>
    rw [World.exitSyncMode_executionCalls]
    exact h.append_of_forall fun c hc _ _ ↦ by rw [mem_map_snd hc]
  | drainResumed cd rest hw =>
    have hsync := hd cd rest hw
    rw [World.resumeDrain_executionCalls]
    exact (h.append_of_forall fun c hc _ _ ↦ by rw [mem_map_snd hc, hsync]).append_of_forall
      fun c hc _ _ ↦ by rw [mem_map_snd hc, hsync]
  | syncEndEpoch | epochStarted | syncJobStart => exact h.snoc nofun
  | _ => exact h

/-- The first world's log holds one `start_epoch` call. -/
theorem started_executionCalls (h : Started cfg w) :
    ∃ es o, w.executionCalls = [(.startEpoch es, o)] ∧ w.epochState = some es ∧
      w.syncHandle = none ∧ w.pendingOrderedBlocks.entries = [] := by
  obtain ⟨root, configs, es, rest, -, rfl⟩ := World.started_eq h
  exact ⟨es, _, rfl, rfl, rfl, rfl⟩

variable (cfg verifySignatures) in
/-- **No release in sync mode.**  In every run, every call of `finalize_order` and of
`send_commit_msg` is made while the sync handle is unset. -/
theorem finalize_and_commit_calls_outside_sync_mode {w : World}
    (h : Reachable cfg verifySignatures w) :
    (∀ ob o, (.finalizeOrder ob, o) ∈ w.executionCalls → o.syncHandle = none) ∧
    (∀ cd o, (.sendCommitMsg cd, o) ∈ w.executionCalls → o.syncHandle = none) := by
  have hr : EachCall ReleasedOutsideSync w.executionCalls := by
    induction h with
    | init hw =>
      obtain ⟨es, o, hc, -⟩ := started_executionCalls hw
      rw [hc]
      exact eachCall_singleton nofun
    | step hw _ hs ih =>
      exact releasedOutsideSync_step (Reachable.drainingOutsideSync cfg verifySignatures hw) ih hs
  exact ⟨fun ob o hc ↦ (hr.of_mem hc).elim fun _ h ↦ h trivial,
    fun cd o hc ↦ (hr.of_mem hc).elim fun _ h ↦ h trivial⟩

theorem releases_outside_sync_mode_in_syncEpisodeRun :
    Reachable ⟨true, false, 100⟩ (fun _ _ ↦ true) (syncEpisodeRun.get (by decide)) ∧
    ∃ o o', (.finalizeOrder syncedBlock, o) ∈ (syncEpisodeRun.get (by decide)).executionCalls ∧
      o.syncHandle = none ∧
      (.sendCommitMsg syncedDecision, o') ∈ (syncEpisodeRun.get (by decide)).executionCalls ∧
      o'.syncHandle = none := by
  have hc : ((syncEpisodeRun.get (by decide)).executionCalls.map (·.1))[2]? =
      some (.finalizeOrder syncedBlock) := by
    decide
  obtain ⟨o, e⟩ := split_at_call hc
  have hc' : ((syncEpisodeRun.get (by decide)).executionCalls.map (·.1))[3]? =
      some (.sendCommitMsg syncedDecision) := by
    decide
  obtain ⟨o', e'⟩ := split_at_call hc'
  have ho : (.finalizeOrder syncedBlock, o) ∈ (syncEpisodeRun.get (by decide)).executionCalls := by
    rw [e]
    exact List.mem_append_right _ (List.mem_cons_self _ _)
  have ho' :
      (.sendCommitMsg syncedDecision, o') ∈ (syncEpisodeRun.get (by decide)).executionCalls := by
    rw [e']
    exact List.mem_append_right _ (List.mem_cons_self _ _)
  have h := finalize_and_commit_calls_outside_sync_mode _ _ reachable_syncEpisodeRun
  exact ⟨reachable_syncEpisodeRun, o, o', ho, h.1 _ o ho, ho', h.2 _ o' ho'⟩

/-! ## Finalized blocks are verified -/

/-- The ordered proof of `ob` verifies under an epoch state started in `calls`. -/
def ProofVerifiedIn (verifySignatures : SignatureCheck)
    (calls : List (ExecutionCall × ConsensusObserver)) (ob : OrderedBlock) : Prop :=
  ∃ es o, (.startEpoch es, o) ∈ calls ∧ ob.verifyOrderedProof verifySignatures es = true

theorem ProofVerifiedIn.mono {calls calls' : List (ExecutionCall × ConsensusObserver)}
    {ob : OrderedBlock} (h : ProofVerifiedIn verifySignatures calls ob) (hs : calls ⊆ calls') :
    ProofVerifiedIn verifySignatures calls' ob :=
  let ⟨es, o, hm, hv⟩ := h
  ⟨es, o, hs hm, hv⟩

/-- A finalized block's proof verifies under an epoch state started before the call. -/
def FinalizedVerified (verifySignatures : SignatureCheck)
    (pre : List (ExecutionCall × ConsensusObserver)) (c : ExecutionCall × ConsensusObserver) :
    Prop :=
  ∀ ob, c.1 = .finalizeOrder ob → ProofVerifiedIn verifySignatures pre ob

/-- What the proof of `finalized_blocks_verified_under_their_epoch` carries from step to step. -/
structure VerifiedInvariant (verifySignatures : SignatureCheck) (w : World) : Prop where
  /-- The current epoch state has been started. -/
  started : ∀ es, w.epochState = some es → ∃ o, (.startEpoch es, o) ∈ w.executionCalls
  /-- So has the epoch state read before an epoch change under way. -/
  changing : ∀ es, w.syncNotificationAwait = some (.endEpoch es) ∨
    w.syncNotificationAwait = some (.startEpoch es) → ∃ o, (.startEpoch es, o) ∈ w.executionCalls
  /-- A pending block marked verified has its proof verified under a started epoch state. -/
  pending : ∀ e ∈ w.pendingOrderedBlocks.entries, e.verified = true →
    ProofVerifiedIn verifySignatures w.executionCalls e.orderedBlock
  /-- So has every block the drain has still to finalize. -/
  draining : ∀ cd rest, w.syncNotificationAwait = some (.finalizeOrder cd rest) →
    ∀ p ∈ rest, ProofVerifiedIn verifySignatures w.executionCalls p.1
  /-- Every finalized block has its proof verified under an epoch state started before it. -/
  finalized : EachCall (FinalizedVerified verifySignatures) w.executionCalls

namespace VerifiedInvariant

/-- A step that starts no epoch, finalizes nothing, verifies no pending block and leaves the main
loop where it is keeps the invariant. -/
theorem of_frame (h : VerifiedInvariant verifySignatures w)
    (hepoch : w'.epochState = w.epochState)
    (hawait : w'.syncNotificationAwait = w.syncNotificationAwait)
    (hpending : ∀ e' ∈ w'.pendingOrderedBlocks.entries, e'.verified = true →
      ∃ e ∈ w.pendingOrderedBlocks.entries, e.verified = true ∧ e.orderedBlock = e'.orderedBlock)
    (new : List (ExecutionCall × ConsensusObserver))
    (hcalls : w'.executionCalls = w.executionCalls ++ new)
    (hnew : ∀ c ∈ new, ∀ ob, c.1 ≠ .finalizeOrder ob) : VerifiedInvariant verifySignatures w' := by
  have hsub : w.executionCalls ⊆ w'.executionCalls := hcalls ▸ List.subset_append_left _ _
  refine ⟨fun es hes ↦ ?_, fun es hes ↦ ?_, fun e' he' hv' ↦ ?_,
    fun cd rest hw p hp ↦ (h.draining cd rest (hawait ▸ hw) p hp).mono hsub, ?_⟩
  · obtain ⟨o, ho⟩ := h.started es (hepoch ▸ hes)
    exact ⟨o, hsub ho⟩
  · obtain ⟨o, ho⟩ := h.changing es (hawait ▸ hes)
    exact ⟨o, hsub ho⟩
  · obtain ⟨e, he, hv, heq⟩ := hpending e' he' hv'
    exact heq ▸ (h.pending e he hv).mono hsub
  · rw [hcalls]
    exact h.finalized.append_of_forall fun c hc _ ob hob ↦ absurd hob (hnew c hc ob)

/-- An iteration of the drain keeps the invariant when the blocks it has left are verified. -/
theorem drainPendingBlocks (h : VerifiedInvariant verifySignatures w)
    (l : List (OrderedBlock × Option CommitDecision))
    (hl : ∀ p ∈ l, ProofVerifiedIn verifySignatures w.executionCalls p.1) :
    VerifiedInvariant verifySignatures (w.drainPendingBlocks l) := by
  have hsub : w.executionCalls ⊆ (w.drainPendingBlocks l).executionCalls := by simp
  refine ⟨fun es hes ↦ ?_, fun es hes ↦ ?_, fun e he hv ↦ ?_, fun cd rest hw p hp ↦ ?_, ?_⟩
  · obtain ⟨o, ho⟩ := h.started es (by simpa using hes)
    exact ⟨o, hsub ho⟩
  · simp at hes
  · exact (h.pending e (by simpa using he) hv).mono hsub
  · rcases l with _ | ⟨q, l⟩
    · cases hw
    · obtain ⟨-, rfl⟩ : q.2 = cd ∧ l = rest := by simpa using hw
      exact (hl p (List.mem_cons_of_mem _ hp)).mono hsub
  · rw [World.drainPendingBlocks_executionCalls]
    refine h.finalized.append_of_forall fun c hc pre ob hob ↦ ?_
    obtain ⟨p, hp, rfl⟩ := List.mem_map.1 hc
    cases hob
    exact (hl p (List.mem_of_mem_head? (Option.mem_toList.1 hp))).mono
      (List.subset_append_left _ _)

/-- Leaving sync mode keeps the invariant: the drain takes verified blocks only. -/
theorem exitSyncMode (h : VerifiedInvariant verifySignatures w) :
    VerifiedInvariant verifySignatures w.exitSyncMode := by
  refine VerifiedInvariant.drainPendingBlocks ?_ _ fun p hp ↦ ?_
  · exact { h with }
  · obtain ⟨e, he, hv, hob, -⟩ := PendingOrderedBlocks.mem_getAllVerifiedPendingBlocks.1 hp
    exact hob ▸ h.pending e he hv

/-- The drain goes on with the blocks it has left. -/
theorem resumeDrain (h : VerifiedInvariant verifySignatures w) {cd : Option CommitDecision}
    {rest : List (OrderedBlock × Option CommitDecision)}
    (hw : w.syncNotificationAwait = some (.finalizeOrder cd rest)) :
    VerifiedInvariant verifySignatures (w.resumeDrain cd rest) := by
  have hrest := h.draining cd rest hw
  rcases cd with _ | d
  · exact h.drainPendingBlocks rest hrest
  · refine VerifiedInvariant.drainPendingBlocks ?_ rest fun p hp ↦
      (hrest p hp).mono (List.subset_append_left _ _)
    exact h.of_frame rfl rfl (fun e he hv ↦ ⟨e, he, hv, rfl⟩) _ rfl (by simp)

end VerifiedInvariant

/-- **Each step keeps every finalized block verified.** -/
theorem verifiedInvariant_step (h : VerifiedInvariant verifySignatures w)
    (hs : w.step cfg verifySignatures ev = some w') : VerifiedInvariant verifySignatures w' := by
  have same : ∀ e' ∈ w.pendingOrderedBlocks.entries, e'.verified = true →
      ∃ e ∈ w.pendingOrderedBlocks.entries, e.verified = true ∧ e.orderedBlock = e'.orderedBlock :=
    fun e' he' hv' ↦ ⟨e', he', hv', rfl⟩
  have shrink : ∀ li : LedgerInfoWithSignatures,
      ∀ e' ∈ (w.pendingOrderedBlocks.removeBlocksForCommit li).entries, e'.verified = true →
      ∃ e ∈ w.pendingOrderedBlocks.entries, e.verified = true ∧ e.orderedBlock = e'.orderedBlock :=
    fun li e' he' hv' ↦ same e' (PendingOrderedBlocks.mem_removeBlocksForCommit.1 he').1 hv'
  have update : ∀ cd : CommitDecision,
      ∀ e' ∈ (w.pendingOrderedBlocks.updateCommitDecision cd).entries, e'.verified = true →
      ∃ e ∈ w.pendingOrderedBlocks.entries, e.verified = true ∧
        e.orderedBlock = e'.orderedBlock := by
    intro cd e' he' hv'
    obtain ⟨e, he, rfl⟩ := PendingOrderedBlocks.mem_updateCommitDecision.1 he'
    exact ⟨e, he, by simpa using hv', by simp⟩
  cases World.step_cases hs with
  | orderedBlockFinalized _ ob es hes _ _ hproof _ _ hidle =>
    have hob : ProofVerifiedIn verifySignatures w.executionCalls ob :=
      let ⟨o, ho⟩ := h.started es hes
      ⟨es, o, ho, hproof⟩
    have hsub := List.subset_append_left w.executionCalls
      [(.finalizeOrder ob, { w.toConsensusObserver with
        pendingOrderedBlocks := w.pendingOrderedBlocks.insertOrderedBlock
          cfg.maxNumPendingBlocks ob true })]
    refine ⟨fun es' he ↦ ?_, fun es' he ↦ by simp [hidle] at he, fun e he hv ↦ ?_,
      fun _ _ hw ↦ by simp [hidle] at hw, h.finalized.snoc ?_⟩
    · obtain ⟨o, ho⟩ := h.started es' he
      exact ⟨o, hsub ho⟩
    · rcases PendingOrderedBlocks.mem_insertOrderedBlock he with he | rfl
      · exact (h.pending e he hv).mono hsub
      · exact hob.mono hsub
    · rintro ob' ⟨⟩
      exact hob
  | orderedBlockBuffered _ ob es v hes _ _ hproof =>
    refine ⟨h.started, h.changing, fun e he hv ↦ ?_, h.draining, h.finalized⟩
    rcases PendingOrderedBlocks.mem_insertOrderedBlock he with he | rfl
    · exact h.pending e he hv
    · obtain ⟨o, ho⟩ := h.started es hes
      exact ⟨es, o, ho, hproof hv⟩
  | commitForwarded _ cd => exact h.of_frame rfl rfl (update cd) _ rfl (by simp)
  | commitAttached _ cd => exact h.of_frame rfl rfl (update cd) [] (by simp) (by simp)
  | syncStarted _ cd => exact h.of_frame rfl rfl (shrink _) [] (by simp) (by simp)
  | syncAccepted => exact VerifiedInvariant.exitSyncMode { h with }
  | syncEndEpoch n rest es _ _ hes =>
    have hsub := List.subset_append_left w.executionCalls [(.endEpoch, w.toConsensusObserver)]
    refine ⟨fun es' he ↦ ?_, fun es' he ↦ ?_, fun e he hv ↦ (h.pending e he hv).mono hsub,
      fun _ _ hw ↦ by simp at hw, h.finalized.snoc nofun⟩
    · obtain ⟨o, ho⟩ := h.started es' he
      exact ⟨o, hsub ho⟩
    · obtain rfl : es = es' := by simpa using he
      obtain ⟨o, ho⟩ := h.started es hes
      exact ⟨o, hsub ho⟩
  | epochStarted es es' configs hw =>
    have hsub := List.subset_append_left w.executionCalls [(.startEpoch es',
      { w.toConsensusObserver with epochState := some es', reconfigEvents := some configs })]
    refine ⟨fun es'' he ↦ ?_, fun es'' he ↦ ?_, fun e he hv ↦ (h.pending e he hv).mono hsub,
      fun _ _ hw ↦ by simp at hw, h.finalized.snoc nofun⟩
    · cases he
      exact ⟨_, List.mem_append_right _ (List.mem_singleton_self _)⟩
    · obtain rfl : es = es'' := by simpa using he
      obtain ⟨o, ho⟩ := h.changing es (.inl hw)
      exact ⟨o, hsub ho⟩
  | pendingVerified es hw =>
    obtain ⟨o, ho⟩ := h.changing es (.inr hw)
    refine VerifiedInvariant.exitSyncMode ⟨h.started, h.changing, fun e' he' hv' ↦ ?_,
      fun _ _ hw' ↦ by simp [hw] at hw', h.finalized⟩
    obtain ⟨e, he, hp⟩ := PendingOrderedBlocks.mem_verifyPendingBlocks.1 he'
    obtain ⟨hob, -, hv⟩ := PendingEntry.promote_spec hp
    rw [hob]
    rcases hv hv' with hv | hv
    · exact h.pending e he hv
    · exact ⟨es, o, ho, hv⟩
  | drainResumed cd rest hw => exact h.resumeDrain hw
  | syncJobStart j job => exact h.of_frame rfl rfl same _ rfl (by simp)
  | callbackRemovePendingBlocks i run => exact h.of_frame rfl rfl (shrink _) [] (by simp) (by simp)
  | _ => exact { h with }

theorem verifiedInvariant_init (h : Started cfg w) : VerifiedInvariant verifySignatures w := by
  obtain ⟨root, configs, es, rest, -, rfl⟩ := World.started_eq h
  refine ⟨fun es' he ↦ ?_, nofun, nofun, nofun, eachCall_singleton nofun⟩
  cases he
  exact ⟨_, List.mem_singleton_self _⟩

variable (cfg verifySignatures) in
/-- **Only verified blocks are finalized.**  In every run, the ordered proof of every block
passed to `finalize_order`, at once or in the drain after state sync, verifies under an epoch
state of the proof's epoch that had been started before the call.  A block kept unverified and
never promoted is never finalized. -/
theorem finalized_blocks_verified_under_their_epoch {w : World}
    (h : Reachable cfg verifySignatures w) :
    ∀ pre ob o post, w.executionCalls = pre ++ (.finalizeOrder ob, o) :: post →
      ∃ es o', (.startEpoch es, o') ∈ pre ∧ es.epoch = ob.proofBlockInfo.epoch ∧
        ob.verifyOrderedProof verifySignatures es = true := by
  have hi : VerifiedInvariant verifySignatures w := by
    induction h with
    | init hw => exact verifiedInvariant_init hw
    | step _ _ hs ih => exact verifiedInvariant_step ih hs
  intro pre ob o post hc
  obtain ⟨es, o', hm, hv⟩ := hi.finalized pre _ post hc ob rfl
  exact ⟨es, o', hm, EpochState.epoch_eq_of_verify hv, hv⟩

theorem finalized_blocks_verified_in_sampleRun :
    Reachable ⟨true, false, 100⟩ (fun _ _ ↦ true) (sampleRun.get (by decide)) ∧
    ∃ pre o post, (sampleRun.get (by decide)).executionCalls =
      pre ++ (.finalizeOrder sampleChild, o) :: post ∧
      ∃ es o', (.startEpoch es, o') ∈ pre ∧ es.epoch = sampleChild.proofBlockInfo.epoch ∧
        sampleChild.verifyOrderedProof (fun _ _ ↦ true) es = true := by
  have hc : ((sampleRun.get (by decide)).executionCalls.map (·.1))[3]? =
      some (.finalizeOrder sampleChild) := by
    decide
  obtain ⟨o, e⟩ := split_at_call hc
  exact ⟨reachable_sampleRun, _, o, _, e,
    finalized_blocks_verified_under_their_epoch _ _ reachable_sampleRun _ _ o _ e⟩

/-! ## Commit decisions follow their blocks -/

/-- A forwarded decision comes after a finalized block of its `(epoch, round)`. -/
def DecisionAfterBlock (pre : List (ExecutionCall × ConsensusObserver))
    (c : ExecutionCall × ConsensusObserver) : Prop :=
  ∀ cd, c.1 = .sendCommitMsg cd → ∃ ob o, (.finalizeOrder ob, o) ∈ pre ∧ ob.key = cd.key

theorem decisionAfterBlock_mono (pre pre' : List (ExecutionCall × ConsensusObserver))
    (c : ExecutionCall × ConsensusObserver) (h : DecisionAfterBlock pre c) :
    DecisionAfterBlock (pre' ++ pre) c := fun cd hc ↦
  let ⟨ob, o, hm, hk⟩ := h cd hc
  ⟨ob, o, List.mem_append_right _ hm, hk⟩

/-- What the proof of `commit_decision_follows_its_block` carries from step to step. -/
structure DecisionInvariant (w : World) : Prop where
  /-- A decision is attached only to the pending block of its key. -/
  attached : ∀ e ∈ w.pendingOrderedBlocks.entries, ∀ cd, e.commitDecision = some cd →
    e.key = cd.key
  /-- Outside sync mode, every verified pending block has been finalized, or the drain has it
  still to finalize. -/
  finalized : w.syncHandle = none → ∀ e ∈ w.pendingOrderedBlocks.entries, e.verified = true →
    (∃ o, (.finalizeOrder e.orderedBlock, o) ∈ w.executionCalls) ∨
      ∃ cd rest, w.syncNotificationAwait = some (.finalizeOrder cd rest) ∧
        ∃ d, (e.orderedBlock, d) ∈ rest
  /-- The decision the drain has still to forward comes after its block, and so will each
  decision of the blocks it has left. -/
  draining : ∀ cd rest, w.syncNotificationAwait = some (.finalizeOrder cd rest) →
    (∀ d, cd = some d → ∃ ob o, (.finalizeOrder ob, o) ∈ w.executionCalls ∧ ob.key = d.key) ∧
      ∀ ob d, (ob, some d) ∈ rest → ob.key = d.key
  /-- Every forwarded decision comes after its block. -/
  sent : EachCall DecisionAfterBlock w.executionCalls

namespace DecisionInvariant

/-- An iteration of the drain: when each block it has left carries a decision of its own key, and
those blocks with the blocks finalized cover the verified pending blocks, the invariant holds
after it. -/
theorem drainPendingBlocks {l : List (OrderedBlock × Option CommitDecision)}
    (hattached : ∀ e ∈ w.pendingOrderedBlocks.entries, ∀ cd, e.commitDecision = some cd →
      e.key = cd.key)
    (hsent : EachCall DecisionAfterBlock w.executionCalls)
    (hl : ∀ ob d, (ob, some d) ∈ l → ob.key = d.key)
    (hcover : w.syncHandle = none → ∀ e ∈ w.pendingOrderedBlocks.entries, e.verified = true →
      (∃ o, (.finalizeOrder e.orderedBlock, o) ∈ w.executionCalls) ∨ ∃ d, (e.orderedBlock, d) ∈ l) :
    DecisionInvariant (w.drainPendingBlocks l) := by
  have hsub : w.executionCalls ⊆ (w.drainPendingBlocks l).executionCalls := by simp
  have hsent' : EachCall DecisionAfterBlock (w.drainPendingBlocks l).executionCalls := by
    rw [World.drainPendingBlocks_executionCalls]
    exact hsent.append_of_forall (World.forall_mem_drainCalls l fun _ _ _ h ↦ by cases h)
  rcases l with _ | ⟨⟨ob, cd⟩, l⟩
  · refine ⟨hattached, fun hn e he hv ↦ ?_, nofun, hsent'⟩
    rcases hcover hn e he hv with ho | ⟨d, hd⟩
    · exact .inl ho
    · cases hd
  · have hfin : (.finalizeOrder ob, w.toConsensusObserver) ∈
        (w.drainPendingBlocks ((ob, cd) :: l)).executionCalls := by simp
    refine ⟨hattached, fun hn e he hv ↦ ?_, fun cd' rest hw ↦ ?_, hsent'⟩
    · rcases hcover hn e he hv with ⟨o, ho⟩ | ⟨d, hd⟩
      · exact .inl ⟨o, hsub ho⟩
      · rcases List.mem_cons.1 hd with hd | hd
        · obtain ⟨rfl, -⟩ := Prod.mk.inj hd
          exact .inl ⟨_, hfin⟩
        · exact .inr ⟨cd, l, rfl, d, hd⟩
    · obtain ⟨rfl, rfl⟩ : cd = cd' ∧ l = rest := by simpa using hw
      exact ⟨fun d hd ↦ ⟨ob, _, hfin, hl ob d (hd ▸ List.mem_cons_self _ _)⟩,
        fun ob' d hd ↦ hl ob' d (List.mem_cons_of_mem _ hd)⟩

/-- Leaving sync mode drains every verified pending block, each with its attached decision. -/
theorem exitSyncMode
    (hattached : ∀ e ∈ w.pendingOrderedBlocks.entries, ∀ cd, e.commitDecision = some cd →
      e.key = cd.key)
    (hsent : EachCall DecisionAfterBlock w.executionCalls) : DecisionInvariant w.exitSyncMode := by
  refine drainPendingBlocks hattached hsent (fun ob d hm ↦ ?_) fun _ e he hv ↦ ?_
  · obtain ⟨e, he, -, rfl, hcd⟩ := PendingOrderedBlocks.mem_getAllVerifiedPendingBlocks.1 hm
    exact hattached e he d hcd
  · exact .inr ⟨e.commitDecision,
      PendingOrderedBlocks.mem_getAllVerifiedPendingBlocks.2 ⟨e, he, hv, rfl, rfl⟩⟩

/-- Once a drained block's `finalize_order` returns, its decision follows it, and the drain goes
on with the blocks it has left. -/
theorem resumeDrain (h : DecisionInvariant w) {cd : Option CommitDecision}
    {rest : List (OrderedBlock × Option CommitDecision)}
    (hw : w.syncNotificationAwait = some (.finalizeOrder cd rest)) :
    DecisionInvariant (w.resumeDrain cd rest) := by
  obtain ⟨hcd, hrest⟩ := h.draining cd rest hw
  have hcover := fun hn e he hv ↦ (h.finalized hn e he hv).imp_right
    fun ⟨cd', rest', hw', hm⟩ ↦ by rw [hw] at hw'; cases hw'; exact hm
  rcases cd with _ | d
  · exact drainPendingBlocks h.attached h.sent hrest hcover
  · refine drainPendingBlocks (w := w.forwardCommitDecision d) h.attached
      (h.sent.snoc fun _ hd ↦ ?_) hrest fun hn e he hv ↦ ?_
    · cases hd
      exact hcd d rfl
    · rcases hcover hn e he hv with ⟨o, ho⟩ | hm
      · exact .inl ⟨o, by simp [ho]⟩
      · exact .inr hm

end DecisionInvariant

theorem attached_updateCommitDecision {p : PendingOrderedBlocks} {cd : CommitDecision}
    (h : ∀ e ∈ p.entries, ∀ d, e.commitDecision = some d → e.key = d.key) :
    ∀ e ∈ (p.updateCommitDecision cd).entries, ∀ d, e.commitDecision = some d → e.key = d.key := by
  intro e' he' d hd
  obtain ⟨e, he, rfl⟩ := PendingOrderedBlocks.mem_updateCommitDecision.1 he'
  rw [PendingEntry.attachDecision_key]
  rcases PendingEntry.attachDecision_commitDecision hd with hd | ⟨rfl, hk⟩
  · exact h e he d hd
  · exact hk

/-- **Each step keeps every forwarded decision behind its block.** -/
theorem decisionInvariant_step (h : DecisionInvariant w)
    (hs : w.step cfg verifySignatures ev = some w') : DecisionInvariant w' := by
  have shrink : ∀ li : LedgerInfoWithSignatures, ∀ e ∈ (w.pendingOrderedBlocks.removeBlocksForCommit
      li).entries, ∀ cd, e.commitDecision = some cd → e.key = cd.key :=
    fun li e he ↦ h.attached e (PendingOrderedBlocks.mem_removeBlocksForCommit.1 he).1
  have insert : ∀ (ob : OrderedBlock) (v : Bool), ∀ e ∈ (w.pendingOrderedBlocks.insertOrderedBlock
      cfg.maxNumPendingBlocks ob v).entries, ∀ cd, e.commitDecision = some cd → e.key = cd.key := by
    intro ob v e he cd hcd
    rcases PendingOrderedBlocks.mem_insertOrderedBlock he with he | rfl
    · exact h.attached e he cd hcd
    · cases hcd
  have idle : w.syncNotificationAwait = none → w.syncHandle = none →
      ∀ e ∈ w.pendingOrderedBlocks.entries, e.verified = true →
        ∃ o, (.finalizeOrder e.orderedBlock, o) ∈ w.executionCalls :=
    fun hidle hn e he hv ↦ (h.finalized hn e he hv).resolve_right
      fun ⟨_, _, hw, _⟩ ↦ by simp [hidle] at hw
  cases World.step_cases hs with
  | orderedBlockFinalized _ ob es _ _ _ _ _ hsync hidle =>
    refine ⟨insert ob true, fun _ e he hv ↦ .inl ?_, fun _ _ hw ↦ by simp [hidle] at hw,
      h.sent.snoc nofun⟩
    rcases PendingOrderedBlocks.mem_insertOrderedBlock he with he | rfl
    · obtain ⟨o, ho⟩ := idle hidle hsync e he hv
      exact ⟨o, List.mem_append_left _ ho⟩
    · exact ⟨_, List.mem_append_right _ (List.mem_singleton_self _)⟩
  | orderedBlockBuffered _ ob es v _ _ _ _ _ hsync =>
    refine ⟨insert ob v, fun hn e he hv ↦ ?_, h.draining, h.sent⟩
    rcases PendingOrderedBlocks.mem_insertOrderedBlock he with he | rfl
    · exact h.finalized hn e he hv
    · exact absurd hn (hsync hv)
  | commitForwarded _ cd es e _ _ _ he hkey hv _ hsync hidle =>
    refine ⟨attached_updateCommitDecision h.attached, fun _ e' he' hv' ↦ .inl ?_,
      fun _ _ hw ↦ by simp [hidle] at hw, h.sent.snoc ?_⟩
    · obtain ⟨e, he, rfl⟩ := PendingOrderedBlocks.mem_updateCommitDecision.1 he'
      obtain ⟨o, ho⟩ := idle hidle hsync e he (by simpa using hv')
      exact ⟨o, by simp [ho]⟩
    · rintro _ ⟨⟩
      obtain ⟨o, ho⟩ := idle hidle hsync e he hv
      exact ⟨e.orderedBlock, o, ho, hkey⟩
  | commitAttached _ cd es e _ _ _ _ _ _ _ hsync =>
    exact ⟨attached_updateCommitDecision h.attached, fun hn ↦ absurd hn hsync, h.draining, h.sent⟩
  | syncStarted => exact ⟨shrink _, nofun, h.draining, h.sent⟩
  | syncAccepted => exact DecisionInvariant.exitSyncMode h.attached h.sent
  | syncEndEpoch n rest es _ _ _ _ hidle =>
    refine ⟨h.attached, fun hn e he hv ↦ .inl ?_, fun _ _ hw ↦ by simp at hw, h.sent.snoc nofun⟩
    obtain ⟨o, ho⟩ := idle hidle hn e he hv
    exact ⟨o, List.mem_append_left _ ho⟩
  | epochStarted es es' configs hw =>
    refine ⟨h.attached, fun hn e he hv ↦ .inl ?_, fun _ _ hw' ↦ by simp at hw', h.sent.snoc nofun⟩
    obtain ⟨o, ho⟩ := (h.finalized hn e he hv).resolve_right
      fun ⟨_, _, hw', _⟩ ↦ by rw [hw] at hw'; cases hw'
    exact ⟨o, List.mem_append_left _ ho⟩
  | pendingVerified es =>
    refine DecisionInvariant.exitSyncMode (fun e' he' cd hcd ↦ ?_) h.sent
    obtain ⟨e, he, hp⟩ := PendingOrderedBlocks.mem_verifyPendingBlocks.1 he'
    obtain ⟨-, hc, -⟩ := PendingEntry.promote_spec hp
    rw [PendingEntry.promote_key hp]
    exact h.attached e he cd (hc ▸ hcd)
  | drainResumed cd rest hw => exact h.resumeDrain hw
  | syncJobStart j job =>
    refine ⟨h.attached, fun hn e he hv ↦ ?_, fun cd rest hw ↦ ?_, h.sent.snoc nofun⟩
    · exact (h.finalized hn e he hv).imp (fun ⟨o, ho⟩ ↦ ⟨o, List.mem_append_left _ ho⟩) id
    · obtain ⟨hcd, hrest⟩ := h.draining cd rest hw
      exact ⟨fun d hd ↦ (hcd d hd).imp fun ob ⟨o, ho, hk⟩ ↦ ⟨o, List.mem_append_left _ ho, hk⟩,
        hrest⟩
  | callbackRemovePendingBlocks i run =>
    exact ⟨shrink _, fun hn e he hv ↦
      h.finalized hn e (PendingOrderedBlocks.mem_removeBlocksForCommit.1 he).1 hv, h.draining,
      h.sent⟩
  | _ => exact { h with }

variable (cfg verifySignatures) in
/-- **No decision ahead of its block.**  In every run, every call of `send_commit_msg` with a
decision at `(e, r)` comes after a call of `finalize_order` with a block whose ordered proof is at
`(e, r)`. -/
theorem commit_decision_follows_its_block {w : World} (h : Reachable cfg verifySignatures w) :
    ∀ pre cd o post, w.executionCalls = pre ++ (.sendCommitMsg cd, o) :: post →
      ∃ ob o', (.finalizeOrder ob, o') ∈ pre ∧ ob.key = cd.key := by
  have hi : DecisionInvariant w := by
    induction h with
    | init hw =>
      obtain ⟨root, configs, es, rest, -, rfl⟩ := World.started_eq hw
      exact ⟨nofun, fun _ ↦ nofun, nofun, eachCall_singleton nofun⟩
    | step _ _ hs ih => exact decisionInvariant_step ih hs
  exact fun pre cd o post hc ↦ hi.sent pre _ post hc cd rfl

theorem commit_decisions_follow_blocks_in_syncEpisodeRun :
    Reachable ⟨true, false, 100⟩ (fun _ _ ↦ true) (syncEpisodeRun.get (by decide)) ∧
    ∃ pre o post, (syncEpisodeRun.get (by decide)).executionCalls =
      pre ++ (.sendCommitMsg syncedDecision, o) :: post ∧
      ∃ ob o', (.finalizeOrder ob, o') ∈ pre ∧ ob.key = syncedDecision.key := by
  have hc : ((syncEpisodeRun.get (by decide)).executionCalls.map (·.1))[3]? =
      some (.sendCommitMsg syncedDecision) := by
    decide
  obtain ⟨o, e⟩ := split_at_call hc
  exact ⟨reachable_syncEpisodeRun, _, o, _, e,
    commit_decision_follows_its_block _ _ reachable_syncEpisodeRun _ _ o _ e⟩

/-! ## Payloads guard the commit decisions, not the blocks -/

end Observer
