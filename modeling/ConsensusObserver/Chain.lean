import ConsensusObserver.Release

/-!
# The parent chain

`process_ordered_block` accepts a block only as a child of the last known block: its first
block's parent must be the last pending block, or the root when nothing is pending.  That is the
only place the chain is checked.  Blocks reach `finalize_order` from the pending blocks, so every
finalized block passed the check when it arrived — and nothing more is checked when it is
finalized: `late_decision_breaks_parent_chain` (`Root.lean`) drains a block a second time, after
itself and with the root moved back.

* `AcceptedInvariant`: every pending block, every block the drain has left, and every finalized
  block was accepted.
* `finalized_blocks_accepted_as_children`: every block passed to `finalize_order`, on arrival or
  in the drain, was a child of the last known block when it arrived.
-/

set_option autoImplicit false

namespace Observer

/-- Every pending block, every block the drain has left, and every block passed to
`finalize_order` was accepted. -/
structure AcceptedInvariant (w : World) : Prop where
  /-- Every pending block was accepted. -/
  pending : ∀ e ∈ w.pendingOrderedBlocks.entries, ∃ o, (e.orderedBlock, o) ∈ w.acceptedBlocks
  /-- Every block the drain has still to finalize was accepted. -/
  draining : ∀ cd rest, w.syncNotificationAwait = some (.finalizeOrder cd rest) →
    ∀ p ∈ rest, ∃ o, (p.1, o) ∈ w.acceptedBlocks
  /-- Every finalized block was accepted. -/
  finalized : ∀ ob o, (.finalizeOrder ob, o) ∈ w.executionCalls →
    ∃ o', (ob, o') ∈ w.acceptedBlocks

variable {cfg : ConsensusObserverConfig} {verifySignatures : SignatureCheck} {w w' : World}
  {ev : Event}

namespace AcceptedInvariant

/-- A step that accepts and finalizes nothing, keeps only blocks that were pending, and leaves the
main loop where it is keeps the invariant. -/
theorem of_frame (h : AcceptedInvariant w)
    (haccepted : w'.acceptedBlocks = w.acceptedBlocks)
    (hawait : w'.syncNotificationAwait = w.syncNotificationAwait)
    (hpending : ∀ e' ∈ w'.pendingOrderedBlocks.entries,
      ∃ e ∈ w.pendingOrderedBlocks.entries, e.orderedBlock = e'.orderedBlock)
    (new : List (ExecutionCall × ConsensusObserver))
    (hcalls : w'.executionCalls = w.executionCalls ++ new)
    (hnew : ∀ c ∈ new, ∀ ob, c.1 ≠ .finalizeOrder ob) : AcceptedInvariant w' := by
  refine ⟨fun e' he' ↦ ?_, fun cd rest hw ↦ haccepted ▸ h.draining cd rest (hawait ▸ hw),
    fun ob o hc ↦ ?_⟩
  · obtain ⟨e, he, heq⟩ := hpending e' he'
    rw [haccepted, ← heq]
    exact h.pending e he
  · rw [hcalls] at hc
    rw [haccepted]
    rcases List.mem_append.1 hc with hc | hc
    · exact h.finalized ob o hc
    · exact absurd rfl (hnew _ hc ob)

/-- An iteration of the drain keeps the invariant when the blocks it has left were accepted. -/
theorem drainPendingBlocks (h : AcceptedInvariant w)
    (l : List (OrderedBlock × Option CommitDecision))
    (hl : ∀ p ∈ l, ∃ o, (p.1, o) ∈ w.acceptedBlocks) :
    AcceptedInvariant (w.drainPendingBlocks l) := by
  refine ⟨fun e he ↦ by simpa using h.pending e (by simpa using he), fun cd rest hw p hp ↦ ?_,
    fun ob o hc ↦ ?_⟩
  · rcases l with _ | ⟨q, l⟩
    · cases hw
    · obtain ⟨-, rfl⟩ : q.2 = cd ∧ l = rest := by simpa using hw
      simpa using hl p (List.mem_cons_of_mem _ hp)
  · simp only [World.drainPendingBlocks_executionCalls, World.drainPendingBlocks_acceptedBlocks,
      List.mem_append, List.mem_map, Option.mem_toList] at hc ⊢
    rcases hc with hc | ⟨p, hp, hc⟩
    · exact h.finalized ob o hc
    · cases hc
      exact hl p (List.mem_of_mem_head? hp)

/-- The drain takes pending blocks only. -/
theorem exitSyncMode (h : AcceptedInvariant w) : AcceptedInvariant w.exitSyncMode := by
  refine AcceptedInvariant.drainPendingBlocks ?_ _ fun p hp ↦ ?_
  · exact { h with }
  · obtain ⟨e, he, -, hob, -⟩ := PendingOrderedBlocks.mem_getAllVerifiedPendingBlocks.1 hp
    exact hob ▸ h.pending e he

/-- The drain goes on with the blocks it has left. -/
theorem resumeDrain (h : AcceptedInvariant w) {cd : Option CommitDecision}
    {rest : List (OrderedBlock × Option CommitDecision)}
    (hw : w.syncNotificationAwait = some (.finalizeOrder cd rest)) :
    AcceptedInvariant (w.resumeDrain cd rest) := by
  have hrest := h.draining cd rest hw
  rcases cd with _ | d
  · exact h.drainPendingBlocks rest hrest
  · have hd : AcceptedInvariant (w.forwardCommitDecision d) :=
      h.of_frame rfl rfl (fun e he ↦ ⟨e, he, rfl⟩) _ rfl (by simp)
    exact hd.drainPendingBlocks rest hrest

end AcceptedInvariant

/-- **Each step keeps every pending and every finalized block accepted.** -/
theorem acceptedInvariant_step (h : AcceptedInvariant w)
    (hs : w.step cfg verifySignatures ev = some w') : AcceptedInvariant w' := by
  have shrink : ∀ li : LedgerInfoWithSignatures,
      ∀ e' ∈ (w.pendingOrderedBlocks.removeBlocksForCommit li).entries,
      ∃ e ∈ w.pendingOrderedBlocks.entries, e.orderedBlock = e'.orderedBlock :=
    fun li e' he' ↦ ⟨e', (PendingOrderedBlocks.mem_removeBlocksForCommit.1 he').1, rfl⟩
  have update : ∀ cd : CommitDecision,
      ∀ e' ∈ (w.pendingOrderedBlocks.updateCommitDecision cd).entries,
      ∃ e ∈ w.pendingOrderedBlocks.entries, e.orderedBlock = e'.orderedBlock := by
    intro cd e' he'
    obtain ⟨e, he, rfl⟩ := PendingOrderedBlocks.mem_updateCommitDecision.1 he'
    exact ⟨e, he, by simp⟩
  have accept : ∀ (ob : OrderedBlock) (v : Bool), AcceptedInvariant { w with
      pendingOrderedBlocks :=
        w.pendingOrderedBlocks.insertOrderedBlock cfg.maxNumPendingBlocks ob v
      acceptedBlocks := w.acceptedBlocks ++ [(ob, w.toConsensusObserver)] } := by
    intro ob v
    refine ⟨fun e he ↦ ?_, fun cd rest hw p hp ↦ ?_, fun ob' o hc ↦ ?_⟩
    · rcases PendingOrderedBlocks.mem_insertOrderedBlock he with he | rfl
      · obtain ⟨o, ho⟩ := h.pending e he
        exact ⟨o, List.mem_append_left _ ho⟩
      · exact ⟨_, List.mem_append_right _ (List.mem_singleton_self _)⟩
    · obtain ⟨o, ho⟩ := h.draining cd rest hw p hp
      exact ⟨o, List.mem_append_left _ ho⟩
    · obtain ⟨o', ho⟩ := h.finalized ob' o hc
      exact ⟨o', List.mem_append_left _ ho⟩
  cases World.step_cases hs with
  | orderedBlockFinalized _ ob =>
    have ha := accept ob true
    refine ⟨ha.pending, ha.draining, fun ob' o hc ↦ ?_⟩
    rcases List.mem_append.1 hc with hc | hc
    · exact ha.finalized ob' o hc
    · obtain ⟨hob, -⟩ := Prod.mk.inj (List.mem_singleton.1 hc)
      cases hob
      exact ⟨_, List.mem_append_right _ (List.mem_singleton_self _)⟩
  | orderedBlockBuffered _ ob _ v => exact accept ob v
  | commitForwarded _ cd => exact h.of_frame rfl rfl (update cd) _ rfl (by simp)
  | commitAttached _ cd => exact h.of_frame rfl rfl (update cd) [] (by simp) (by simp)
  | syncStarted _ cd => exact h.of_frame rfl rfl (shrink _) [] (by simp) (by simp)
  | syncAccepted => exact AcceptedInvariant.exitSyncMode { h with }
  | syncEndEpoch | epochStarted =>
    exact ⟨h.pending, fun _ _ hw ↦ by simp at hw, fun ob o hc ↦
      (List.mem_append.1 hc).elim (h.finalized ob o) fun hc ↦ by simp at hc⟩
  | pendingVerified es hw =>
    refine AcceptedInvariant.exitSyncMode ⟨fun e' he' ↦ ?_, fun _ _ hw' ↦ by simp [hw] at hw',
      h.finalized⟩
    obtain ⟨e, he, hp⟩ := PendingOrderedBlocks.mem_verifyPendingBlocks.1 he'
    rw [(PendingEntry.promote_spec hp).1]
    exact h.pending e he
  | drainResumed cd rest hw => exact h.resumeDrain hw
  | syncJobStart => exact h.of_frame rfl rfl (fun e he ↦ ⟨e, he, rfl⟩) _ rfl (by simp)
  | callbackRemovePendingBlocks => exact h.of_frame rfl rfl (shrink _) [] (by simp) (by simp)
  | _ => exact { h with }

/-- Every accepted block passed the parent check: its first block's parent was the last known
block of the observer it was checked against. -/
def AcceptedAsChildren (w : World) : Prop :=
  ∀ p ∈ w.acceptedBlocks, p.1.firstBlock.parentId = p.2.getLastBlock.id

theorem acceptedAsChildren_step (h : AcceptedAsChildren w)
    (hs : w.step cfg verifySignatures ev = some w') : AcceptedAsChildren w' := by
  have accept : ∀ ob : OrderedBlock, w.getLastBlock.id = ob.firstBlock.parentId →
      ∀ p ∈ w.acceptedBlocks ++ [(ob, w.toConsensusObserver)],
        p.1.firstBlock.parentId = p.2.getLastBlock.id := by
    intro ob hparent p hp
    rcases List.mem_append.1 hp with hp | hp
    · exact h p hp
    · rw [List.mem_singleton.1 hp]
      exact hparent.symm
  cases World.step_cases hs with
  | orderedBlockFinalized _ ob _ _ _ _ _ hparent => exact accept ob hparent
  | orderedBlockBuffered _ ob _ _ _ _ _ _ hparent => exact accept ob hparent
  | syncAccepted | pendingVerified | drainResumed => simpa [AcceptedAsChildren] using h
  | _ => exact h

variable (cfg verifySignatures) in
/-- **Finalized blocks passed the parent check.**  In every run, every block passed to
`finalize_order` was accepted while its first block's parent was the last known block: the last
pending block, or the root. -/
theorem finalized_blocks_accepted_as_children {w : World} (h : Reachable cfg verifySignatures w) :
    ∀ ob o, (.finalizeOrder ob, o) ∈ w.executionCalls →
      ∃ o', (ob, o') ∈ w.acceptedBlocks ∧ ob.firstBlock.parentId = o'.getLastBlock.id := by
  have hi : AcceptedInvariant w ∧ AcceptedAsChildren w := by
    induction h with
    | init hw =>
      obtain ⟨root, configs, es, rest, -, rfl⟩ := World.started_eq hw
      refine ⟨⟨nofun, nofun, ?_⟩, nofun⟩
      simp
    | step _ _ hs ih => exact ⟨acceptedInvariant_step ih.1 hs, acceptedAsChildren_step ih.2 hs⟩
  intro ob o hc
  obtain ⟨o', ho⟩ := hi.1.finalized ob o hc
  exact ⟨o', ho, hi.2 _ ho⟩

theorem drained_block_accepted_as_child_in_syncEpisodeRun :
    Reachable ⟨true, false, 100⟩ (fun _ _ ↦ true) (syncEpisodeRun.get (by decide)) ∧
    ∃ o, (.finalizeOrder syncedBlock, o) ∈ (syncEpisodeRun.get (by decide)).executionCalls ∧
      ∃ o', (syncedBlock, o') ∈ (syncEpisodeRun.get (by decide)).acceptedBlocks ∧
        syncedBlock.firstBlock.parentId = o'.getLastBlock.id := by
  have hc : ((syncEpisodeRun.get (by decide)).executionCalls.map (·.1))[2]? =
      some (.finalizeOrder syncedBlock) := by
    decide
  obtain ⟨o, e⟩ := split_at_call hc
  have ho : (.finalizeOrder syncedBlock, o) ∈ (syncEpisodeRun.get (by decide)).executionCalls := by
    rw [e]
    exact List.mem_append_right _ (List.mem_cons_self _ _)
  exact ⟨reachable_syncEpisodeRun, o, ho,
    finalized_blocks_accepted_as_children _ _ reachable_syncEpisodeRun _ o ho⟩

end Observer
