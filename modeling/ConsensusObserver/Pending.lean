import ConsensusObserver.Steps

/-!
# The pending blocks stay above the root

Every pending block should be above the root: a block enters the buffer only as a child of the
last known block, state sync prunes the buffer up to its new root, and a commit callback prunes it
up to the ledger info it then makes the root.  The first step needs block ids to bind keys — the
observer compares ids, and only the ids' binding says a child's `(epoch, round)` is above its
parent's.  `keyOf` is that binding, and `Event.BoundBy keyOf` the runs in which every block and
ledger info the observer receives respects it.

The callback prunes and updates the root in two critical sections, and the observer may run
between them.  Then the root is still the pruned block's parent, the block may arrive again, pass
the parent check, and be pending when the callback sets the root to it
(`pending_block_at_root_after_callback_race`).  Only the arrival of an ordered block adds pending
blocks, so only it has to stay out of that window: every other step of the observer keeps or
prunes the pending blocks.  What holds is:

* `root_key_lt_of_child`: a bound block accepted as a child of the last known block is above the
  root;
* `pending_blocks_above_root`: in every run where ids bind keys and no ordered block arrives between
  a callback's pending-block removal and its root update, every pending block is above the root.
-/

set_option autoImplicit false

namespace Observer

/-! ## Ids that bind keys -/

/-- A block info is bound by `keyOf` when it is at the key its id names. -/
def BlockInfo.BoundBy (keyOf : Nat → Key) (b : BlockInfo) : Prop :=
  keyOf b.id = b.key

/-- A block is bound when it is at the key its id names, above the key its parent's id names. -/
def PipelinedBlock.BoundBy (keyOf : Nat → Key) (b : PipelinedBlock) : Prop :=
  b.blockInfo.BoundBy keyOf ∧ keyOf b.parentId < b.blockInfo.key

/-- An event is bound when every block and every ledger info it carries is. -/
def Event.BoundBy (keyOf : Nat → Key) : Event → Prop
  | .directSend _ (.orderedBlock ob) => ∀ b ∈ ob.blocks, b.BoundBy keyOf
  | .directSend _ (.commitDecision cd) => cd.commitProof.commitInfo.BoundBy keyOf
  | .commitCallback _ ledgerInfo => ledgerInfo.commitInfo.BoundBy keyOf
  | _ => True

instance (keyOf : Nat → Key) (b : BlockInfo) : Decidable (b.BoundBy keyOf) :=
  inferInstanceAs (Decidable (_ = _))

instance (keyOf : Nat → Key) (b : PipelinedBlock) : Decidable (b.BoundBy keyOf) :=
  inferInstanceAs (Decidable (_ ∧ _))

instance (keyOf : Nat → Key) : DecidablePred (Event.BoundBy keyOf)
  | .directSend _ (.orderedBlock ob) => inferInstanceAs (Decidable (∀ b ∈ ob.blocks, _))
  | .directSend _ (.commitDecision _) => inferInstanceAs (Decidable (BlockInfo.BoundBy _ _))
  | .commitCallback _ _ => inferInstanceAs (Decidable (BlockInfo.BoundBy _ _))
  | .directSend _ (.blockPayload _) | .request .. | .syncNotification | .resumeSyncNotification
  | .progressCheck _ | .syncJobStart _ | .syncJobFinish .. | .commitCallbackStep _
  | .unsubscribeSend _ => isTrue trivial

variable {keyOf : Nat → Key}

/-- Along bound blocks each naming the one before as its parent, keys go up. -/
theorem key_le_getLastD_of_chain :
    ∀ (b : PipelinedBlock) (l : List PipelinedBlock), (∀ x ∈ b :: l, x.BoundBy keyOf) →
      ((b :: l).zip l).all (fun p ↦ p.2.parentId == p.1.blockInfo.id) = true →
      b.blockInfo.key ≤ ((b :: l).getLastD default).blockInfo.key
  | _, [], _, _ => le_rfl
  | b, c :: l, hb, hc => by
    simp only [List.zip_cons_cons, List.all_cons, Bool.and_eq_true, beq_iff_eq] at hc
    have hbc : b.blockInfo.key < c.blockInfo.key := by
      have hparent := (hb c (List.mem_cons_of_mem _ (List.mem_cons_self _ _))).2
      rwa [hc.1, (hb b (List.mem_cons_self _ _)).1] at hparent
    exact hbc.le.trans (key_le_getLastD_of_chain c l (fun x hx ↦ hb x (List.mem_cons_of_mem _ hx))
      hc.2)

namespace OrderedBlock

theorem blocks_ne_nil {ob : OrderedBlock} (h : ob.verifyOrderedBlocks = true) : ob.blocks ≠ [] := by
  rintro hb
  simp [verifyOrderedBlocks, hb] at h

theorem lastBlock_mem {ob : OrderedBlock} (h : ob.verifyOrderedBlocks = true) :
    ob.lastBlock ∈ ob.blocks := by
  rw [lastBlock, List.getLastD_eq_getLast?, List.getLast?_eq_getLast _ (blocks_ne_nil h)]
  exact List.getLast_mem _

theorem firstBlock_mem {ob : OrderedBlock} (h : ob.verifyOrderedBlocks = true) :
    ob.firstBlock ∈ ob.blocks := by
  rcases hb : ob.blocks with _ | ⟨b, l⟩
  · exact absurd hb (blocks_ne_nil h)
  · simp [firstBlock, hb]

/-- A checked block of bound blocks is at or above its first block. -/
theorem firstBlock_key_le {ob : OrderedBlock} (h : ob.verifyOrderedBlocks = true)
    (hb : ∀ b ∈ ob.blocks, b.BoundBy keyOf) : ob.firstBlock.blockInfo.key ≤ ob.key := by
  have hlast := lastBlock_blockInfo h
  simp only [verifyOrderedBlocks, Bool.and_eq_true] at h
  rcases hbl : ob.blocks with _ | ⟨b, l⟩
  · simp [hbl] at h
  · rw [hbl] at h hb
    rw [key, ← hlast, lastBlock, firstBlock, hbl]
    exact key_le_getLastD_of_chain b l hb h.2

end OrderedBlock

/-! ## Children of the last known block -/

/-- What the parent check needs of an observer: the root is bound, and the pending blocks are
checked, bound, and at or above the root. -/
structure ChainBound (keyOf : Nat → Key) (o : ConsensusObserver) : Prop where
  /-- The root is bound. -/
  root : o.root.commitInfo.BoundBy keyOf
  /-- Every pending block passed `verify_ordered_blocks`, and its blocks are bound. -/
  blocks : ∀ e ∈ o.pendingOrderedBlocks.entries,
    e.orderedBlock.verifyOrderedBlocks = true ∧ ∀ b ∈ e.orderedBlock.blocks, b.BoundBy keyOf
  /-- Every pending block is at or above the root. -/
  above : ∀ e ∈ o.pendingOrderedBlocks.entries, o.root.key ≤ e.key

/-- The last known block is bound, and at or above the root. -/
theorem ChainBound.getLastBlock {o : ConsensusObserver} (h : ChainBound keyOf o) :
    o.getLastBlock.BoundBy keyOf ∧ o.root.key ≤ o.getLastBlock.key := by
  unfold ConsensusObserver.getLastBlock
  split
  · rename_i b hb
    obtain ⟨e, he, rfl, -⟩ := PendingOrderedBlocks.getLastPendingBlock_spec hb
    obtain ⟨hv, hbound⟩ := h.blocks e he
    refine ⟨(hbound _ (OrderedBlock.lastBlock_mem hv)).1, ?_⟩
    rw [OrderedBlock.lastBlock_blockInfo hv]
    exact h.above e he
  · exact ⟨h.root, le_rfl⟩

/-- **A child of the last known block is above the root.** -/
theorem root_key_lt_of_child {o : ConsensusObserver} {ob : OrderedBlock} (h : ChainBound keyOf o)
    (hob : ob.verifyOrderedBlocks = true) (hb : ∀ b ∈ ob.blocks, b.BoundBy keyOf)
    (hparent : o.getLastBlock.id = ob.firstBlock.parentId) : o.root.key < ob.key := by
  obtain ⟨hlast, hle⟩ := h.getLastBlock
  calc o.root.key ≤ o.getLastBlock.key := hle
    _ = keyOf ob.firstBlock.parentId := by rw [← hparent, hlast]
    _ < ob.firstBlock.blockInfo.key := (hb _ (OrderedBlock.firstBlock_mem hob)).2
    _ ≤ ob.key := OrderedBlock.firstBlock_key_le hob hb

/-! ## The invariant -/

/-- An ordered block arrives only while no commit callback has pruned the pending blocks without
yet updating the root. -/
def Event.OrderedBlockOutsideCallbacks (w : World) : Event → Prop
  | .directSend _ (.orderedBlock _) => ∀ run ∈ w.commitCallbackRuns, run.stage ≠ .updateRoot
  | _ => True

instance (w : World) : DecidablePred (Event.OrderedBlockOutsideCallbacks w)
  | .directSend _ (.orderedBlock _) => inferInstanceAs (Decidable (∀ run ∈ _, _))
  | .directSend _ (.commitDecision _) | .directSend _ (.blockPayload _) | .request ..
  | .syncNotification | .resumeSyncNotification | .progressCheck _ | .syncJobStart _
  | .syncJobFinish .. | .commitCallback .. | .commitCallbackStep _ | .unsubscribeSend _ =>
    isTrue trivial

/-- Every event is bound, and no ordered block arrives inside a commit callback's window. -/
def BoundAndUnraced (keyOf : Nat → Key) (w : World) (ev : Event) : Prop :=
  ev.BoundBy keyOf ∧ ev.OrderedBlockOutsideCallbacks w

instance (keyOf : Nat → Key) (w : World) (ev : Event) : Decidable (BoundAndUnraced keyOf w ev) :=
  inferInstanceAs (Decidable (_ ∧ _))

/-- What the proof of `pending_blocks_above_root` carries from step to step. -/
structure AboveRoot (keyOf : Nat → Key) (w : World) : Prop where
  /-- Every pending block is above the root. -/
  above : ∀ e ∈ w.pendingOrderedBlocks.entries, w.root.key < e.key
  /-- A callback about to update the root has pruned the pending blocks up to its ledger info. -/
  removed : ∀ run ∈ w.commitCallbackRuns, run.stage = .updateRoot →
    ∀ e ∈ w.pendingOrderedBlocks.entries, run.ledgerInfo.key < e.key
  /-- The root is bound. -/
  rootBound : w.root.commitInfo.BoundBy keyOf
  /-- Every running callback's ledger info is bound. -/
  runsBound : ∀ run ∈ w.commitCallbackRuns, run.ledgerInfo.commitInfo.BoundBy keyOf
  /-- Every pending block passed `verify_ordered_blocks`, and its blocks are bound. -/
  blocksBound : ∀ e ∈ w.pendingOrderedBlocks.entries,
    e.orderedBlock.verifyOrderedBlocks = true ∧ ∀ b ∈ e.orderedBlock.blocks, b.BoundBy keyOf

theorem AboveRoot.chainBound {w : World} (h : AboveRoot keyOf w) :
    ChainBound keyOf w.toConsensusObserver :=
  ⟨h.rootBound, h.blocksBound, fun e he ↦ (h.above e he).le⟩

variable {cfg : ConsensusObserverConfig} {verifySignatures : SignatureCheck} {w w' : World}
  {ev : Event}

/-- A step that keeps the root and the callbacks, and keeps only pending blocks that were
there, keeps the invariant. -/
theorem AboveRoot.of_pending (h : AboveRoot keyOf w) (hroot : w'.root = w.root)
    (hruns : w'.commitCallbackRuns = w.commitCallbackRuns)
    (hpending : ∀ e' ∈ w'.pendingOrderedBlocks.entries,
      ∃ e ∈ w.pendingOrderedBlocks.entries, e.key = e'.key ∧ e.orderedBlock = e'.orderedBlock) :
    AboveRoot keyOf w' := by
  refine ⟨fun e' he' ↦ ?_, fun run hr hs e' he' ↦ ?_, hroot ▸ h.rootBound, hruns ▸ h.runsBound,
    fun e' he' ↦ ?_⟩ <;> obtain ⟨e, he, hk, hob⟩ := hpending e' he'
  · exact hroot ▸ hk ▸ h.above e he
  · exact hk ▸ h.removed run (hruns ▸ hr) hs e he
  · exact hob ▸ h.blocksBound e he

/-- A step that keeps the root and the pending blocks, and adds or changes only callback runs that
are not about to update the root, keeps the invariant. -/
theorem AboveRoot.of_runs (h : AboveRoot keyOf w) (hroot : w'.root = w.root)
    (hpending : w'.pendingOrderedBlocks = w.pendingOrderedBlocks)
    (hruns : ∀ run ∈ w'.commitCallbackRuns, run ∈ w.commitCallbackRuns ∨
      run.stage ≠ .updateRoot ∧ run.ledgerInfo.commitInfo.BoundBy keyOf) :
    AboveRoot keyOf w' := by
  refine ⟨hroot ▸ hpending ▸ h.above, fun run hr hst ↦ ?_, hroot ▸ h.rootBound,
    fun run hr ↦ ?_, hpending ▸ h.blocksBound⟩ <;> rcases hruns run hr with hr | hr
  · exact hpending ▸ h.removed run hr hst
  · exact absurd hst hr.1
  · exact h.runsBound run hr
  · exact hr.2

theorem AboveRoot.drainPendingBlocks (h : AboveRoot keyOf w)
    (l : List (OrderedBlock × Option CommitDecision)) : AboveRoot keyOf (w.drainPendingBlocks l) :=
  h.of_pending (by simp) (by simp) fun e he ↦ ⟨e, by simpa using he, rfl, rfl⟩

theorem AboveRoot.exitSyncMode (h : AboveRoot keyOf w) : AboveRoot keyOf w.exitSyncMode :=
  h.of_pending (by simp) (by simp) fun e he ↦ ⟨e, by simpa using he, rfl, rfl⟩

/-- An ordered block accepted as a child of the last known block, with its blocks bound, keeps
the invariant while no callback is about to update the root. -/
theorem AboveRoot.accept (h : AboveRoot keyOf w) {ob : OrderedBlock} (v : Bool) (n : Nat)
    (hob : ob.verifyOrderedBlocks = true) (hb : ∀ b ∈ ob.blocks, b.BoundBy keyOf)
    (hparent : w.getLastBlock.id = ob.firstBlock.parentId)
    (hruns : ∀ run ∈ w.commitCallbackRuns, run.stage ≠ .updateRoot) :
    AboveRoot keyOf { w with
      pendingOrderedBlocks := w.pendingOrderedBlocks.insertOrderedBlock n ob v
      acceptedBlocks := w.acceptedBlocks ++ [(ob, w.toConsensusObserver)] } := by
  have hlt := root_key_lt_of_child h.chainBound hob hb hparent
  refine ⟨fun e he ↦ ?_, fun run hr hst ↦ absurd hst (hruns run hr), h.rootBound, h.runsBound,
    fun e he ↦ ?_⟩ <;> rcases PendingOrderedBlocks.mem_insertOrderedBlock he with he | rfl
  · exact h.above e he
  · exact hlt
  · exact h.blocksBound e he
  · exact ⟨hob, hb⟩

/-- **Each step of a bound run with no ordered block inside a callback's window keeps the pending
blocks above the root.** -/
theorem aboveRoot_step (h : AboveRoot keyOf w) (ha : BoundAndUnraced keyOf w ev)
    (hs : w.step cfg verifySignatures ev = some w') : AboveRoot keyOf w' := by
  have update : ∀ cd : CommitDecision,
      ∀ e' ∈ (w.pendingOrderedBlocks.updateCommitDecision cd).entries,
      ∃ e ∈ w.pendingOrderedBlocks.entries, e.key = e'.key ∧ e.orderedBlock = e'.orderedBlock := by
    intro cd e' he'
    obtain ⟨e, he, rfl⟩ := PendingOrderedBlocks.mem_updateCommitDecision.1 he'
    exact ⟨e, he, by simp, by simp⟩
  cases World.step_cases hs with
  | orderedBlockFinalized _ _ _ _ hob _ _ hparent =>
    exact { h.accept true _ hob ha.1 hparent ha.2 with }
  | orderedBlockBuffered _ _ _ v _ hob _ _ hparent =>
    exact h.accept v _ hob ha.1 hparent ha.2
  | commitForwarded _ cd => exact h.of_pending rfl rfl (update cd)
  | commitAttached _ cd => exact h.of_pending rfl rfl (update cd)
  | syncStarted _ cd =>
    refine ⟨fun e he ↦ ?_, fun run hr hst e he ↦ ?_, ha.1, h.runsBound, fun e he ↦ ?_⟩ <;>
      obtain ⟨he, hk⟩ := PendingOrderedBlocks.mem_removeBlocksForCommit.1 he
    · exact hk
    · exact h.removed run hr hst e he
    · exact h.blocksBound e he
  | syncAccepted => exact AboveRoot.exitSyncMode { h with }
  | pendingVerified =>
    refine AboveRoot.exitSyncMode (h.of_pending rfl rfl fun e' he' ↦ ?_)
    obtain ⟨e, he, hp⟩ := PendingOrderedBlocks.mem_verifyPendingBlocks.1 he'
    exact ⟨e, he, (PendingEntry.promote_key hp).symm, (PendingEntry.promote_spec hp).1.symm⟩
  | drainResumed cd rest =>
    rcases cd with _ | d
    · exact h.drainPendingBlocks rest
    · have hd : AboveRoot keyOf (w.forwardCommitDecision d) :=
        h.of_pending rfl rfl fun e he ↦ ⟨e, he, rfl, rfl⟩
      exact hd.drainPendingBlocks rest
  | commitCallback blocks ledgerInfo =>
    refine h.of_runs rfl rfl fun run hr ↦ (List.mem_append.1 hr).imp_right fun hr ↦ ?_
    rw [List.mem_singleton.1 hr]
    exact ⟨nofun, ha.1⟩
  | callbackRemovePayloads i run hi =>
    refine h.of_runs rfl rfl fun run' hr ↦ (List.mem_or_eq_of_mem_set hr).imp_right ?_
    rintro rfl
    exact ⟨nofun, h.runsBound run (List.getElem?_mem hi)⟩
  | callbackRemovePendingBlocks i run hi =>
    refine ⟨fun e he ↦ h.above e (PendingOrderedBlocks.mem_removeBlocksForCommit.1 he).1,
      fun run' hr hst e he ↦ ?_, h.rootBound, fun run' hr ↦ ?_,
      fun e he ↦ h.blocksBound e (PendingOrderedBlocks.mem_removeBlocksForCommit.1 he).1⟩
      <;> rcases List.mem_or_eq_of_mem_set hr with hr | rfl
    · exact h.removed run' hr hst e (PendingOrderedBlocks.mem_removeBlocksForCommit.1 he).1
    · exact (PendingOrderedBlocks.mem_removeBlocksForCommit.1 he).2
    · exact h.runsBound run' hr
    · exact h.runsBound run (List.getElem?_mem hi)
  | callbackUpdateRoot i run hi hstage =>
    have hrun := List.getElem?_mem hi
    have hroot := (updateRoot_cases w.root run.ledgerInfo).imp_right And.left
    refine ⟨fun e he ↦ ?_, fun run' hr hst ↦ ?_, ?_, fun run' hr ↦ ?_, h.blocksBound⟩
    · rcases hroot with hr | hr <;> rw [hr]
      · exact h.above e he
      · exact h.removed run hrun hstage e he
    · rcases List.mem_or_eq_of_mem_set hr with hr | rfl
      · exact h.removed run' hr hst
      · cases hst
    · rcases hroot with hr | hr <;> rw [hr]
      · exact h.rootBound
      · exact h.runsBound run hrun
    · rcases List.mem_or_eq_of_mem_set hr with hr | rfl
      · exact h.runsBound run' hr
      · exact h.runsBound run hrun
  | _ => exact { h with }

variable (cfg verifySignatures) in
/-- **The pending blocks stay above the root.**  In every run in which block ids bind keys (the
root and every block and ledger info received are bound by `keyOf`) and no ordered block arrives
between a commit callback's pending-block removal and its root update, every pending block's
`(epoch, round)` is above the root's. -/
theorem pending_blocks_above_root (keyOf : Nat → Key) {w : World}
    (h : ReachableUnder cfg verifySignatures
      (fun w ↦ Started cfg w ∧ w.root.commitInfo.BoundBy keyOf) (BoundAndUnraced keyOf) w) :
    ∀ e ∈ w.pendingOrderedBlocks.entries, w.root.key < e.key := by
  have hi : AboveRoot keyOf w := by
    induction h with
    | init hw =>
      obtain ⟨hs, hb⟩ := hw
      obtain ⟨root, configs, es, rest, -, rfl⟩ := World.started_eq hs
      exact ⟨nofun, nofun, hb, nofun, nofun⟩
    | step _ ha hs ih => exact aboveRoot_step ih ha hs
  exact hi.above

theorem pending_blocks_above_root_in_sampleRun :
    ReachableUnder ⟨true, false, 100⟩ (fun _ _ ↦ true)
      (fun w ↦ Started ⟨true, false, 100⟩ w ∧ w.root.commitInfo.BoundBy fun id ↦ ⟨5, id⟩)
      (BoundAndUnraced fun id ↦ ⟨5, id⟩)
      ((sampleRunUnder (BoundAndUnraced fun id ↦ ⟨5, id⟩)).get (by decide)) ∧
    (⟨sampleChild, true, none⟩ : PendingEntry) ∈
      ((sampleRunUnder (BoundAndUnraced fun id ↦ ⟨5, id⟩)).get
        (by decide)).pendingOrderedBlocks.entries ∧
    ((sampleRunUnder (BoundAndUnraced fun id ↦ ⟨5, id⟩)).get (by decide)).root.key <
      (⟨sampleChild, true, none⟩ : PendingEntry).key := by
  have hr : ReachableUnder ⟨true, false, 100⟩ (fun _ _ ↦ true)
      (fun w ↦ Started ⟨true, false, 100⟩ w ∧ w.root.commitInfo.BoundBy fun id ↦ ⟨5, id⟩)
      (BoundAndUnraced fun id ↦ ⟨5, id⟩)
      ((sampleRunUnder (BoundAndUnraced fun id ↦ ⟨5, id⟩)).get (by decide)) :=
    ReachableUnder.of_runFromUnder _ _ (fun _ h₀ ↦ ⟨⟨_, _, h₀⟩, by rw [start_root _ h₀]; decide⟩)
      (Option.some_get _).symm
  have hm : (⟨sampleChild, true, none⟩ : PendingEntry) ∈
      ((sampleRunUnder (BoundAndUnraced fun id ↦ ⟨5, id⟩)).get
        (by decide)).pendingOrderedBlocks.entries := by
    decide
  exact ⟨hr, hm, pending_blocks_above_root _ _ _ hr _ hm⟩

/-- In the race of `callbackRaceEvents`, with ids naming keys of epoch 5 (`keyOf id = (5, id)`),
the root and every event are bound, and the run ends with the root at `(5, 11)` and the block
`(5, 11)` pending: a pending block that is not above the root. -/
theorem pending_block_at_root_after_callback_race :
    BlockInfo.BoundBy (fun id ↦ ⟨5, id⟩) ⟨5, 10, 10⟩ ∧
    (∀ ev ∈ callbackRaceEvents, ev.BoundBy fun id ↦ ⟨5, id⟩) ∧
    (runFrom ⟨true, false, 100⟩ (fun _ _ ↦ true) ⟨⟨5, 10, 10⟩, 0⟩ (some [⟨5, some 1⟩])
      callbackRaceEvents).map (fun w ↦ (w.root.key, w.pendingOrderedBlocks.entries.map (·.key))) =
      some (⟨5, 11⟩, [⟨5, 11⟩]) := by
  decide

end Observer
