import ConsensusObserver.Types

/-!
# The payload store and the pending ordered blocks

The observer keeps two buffers, both shared with the commit callback.  Neither is part of the
source (`payload_store.rs` and `pending_blocks.rs` are missing from it), so both are modelled from
the spec's description of them, §4.1 and §4.2.

* `BlockPayloadStore` maps a block id to the block's transaction payload.
* `PendingOrderedBlocks` is an ordered map from `(epoch, round)` to an entry: the ordered block,
  whether its ordered proof has been verified, and the commit decision attached to it.  It is a
  list of entries whose keys strictly increase; the structure carries that invariant, so a
  pending buffer with two entries of one key, or out of order, cannot be built.

Each operation comes with the lemma that says which entries it can leave behind
(`mem_insertOrderedBlock`, `mem_removeBlocksForCommit`, …).  The run invariants of the observer
are proved from those lemmas and never unfold the operations again.
-/

set_option autoImplicit false

namespace Observer

/-! ## The payload store -/

/-- Modelled from the spec: `BlockPayloadStore` maps a block id to the block's payload. -/
structure BlockPayloadStore where
  blockPayloads : List (Nat × BlockTransactionPayload)
  deriving DecidableEq, Repr

namespace BlockPayloadStore

/-- The empty store of `ConsensusObserver::new`. -/
def new : BlockPayloadStore := ⟨[]⟩

/-- Modelled from the spec: `insert_block_payload` records the payload under the block's id,
in place of any earlier one. -/
def insertBlockPayload (s : BlockPayloadStore) (block : BlockInfo) (transactions : List Nat)
    (limit : Option Nat) : BlockPayloadStore :=
  ⟨(block.id, ⟨transactions, limit⟩) :: s.blockPayloads.filter (·.1 ≠ block.id)⟩

/-- Modelled from the spec: `all_payloads_exist` holds when every block has a payload. -/
def allPayloadsExist (s : BlockPayloadStore) (blocks : List PipelinedBlock) : Bool :=
  blocks.all fun b ↦ s.blockPayloads.any (·.1 == b.blockInfo.id)

/-- Modelled from the spec: `remove_blocks` drops the payloads of the given blocks. -/
def removeBlocks (s : BlockPayloadStore) (blocks : List PipelinedBlock) : BlockPayloadStore :=
  ⟨s.blockPayloads.filter fun p ↦ !blocks.any (·.blockInfo.id == p.1)⟩

end BlockPayloadStore

/-! ## Entries of the pending buffer -/

/-- An entry of the pending buffer. -/
structure PendingEntry where
  orderedBlock : OrderedBlock
  verified : Bool
  commitDecision : Option CommitDecision
  deriving DecidableEq, Repr

namespace PendingEntry

/-- An entry is keyed by the `(epoch, round)` of its ordered block. -/
def key (e : PendingEntry) : Key := e.orderedBlock.key

/-- `update_commit_decision` on one entry: the decision is attached to the entry of its key. -/
def attachDecision (cd : CommitDecision) (e : PendingEntry) : PendingEntry :=
  if e.key = cd.key then { e with commitDecision := some cd } else e

@[simp] theorem attachDecision_orderedBlock (cd : CommitDecision) (e : PendingEntry) :
    (e.attachDecision cd).orderedBlock = e.orderedBlock := by
  unfold attachDecision; split <;> rfl

@[simp] theorem attachDecision_verified (cd : CommitDecision) (e : PendingEntry) :
    (e.attachDecision cd).verified = e.verified := by
  unfold attachDecision; split <;> rfl

@[simp] theorem attachDecision_key (cd : CommitDecision) (e : PendingEntry) :
    (e.attachDecision cd).key = e.key := by
  simp only [key, attachDecision_orderedBlock]

theorem attachDecision_commitDecision {cd d : CommitDecision} {e : PendingEntry}
    (h : (e.attachDecision cd).commitDecision = some d) :
    e.commitDecision = some d ∨ d = cd ∧ e.key = cd.key := by
  unfold attachDecision at h
  split at h
  · exact .inr ⟨(Option.some.inj h).symm, ‹_›⟩
  · exact .inl h

/-- Modelled from the spec: what `verify_pending_blocks` does to one entry, with the one epoch
state the call passes.  The spec promotes an entry that verifies under the new epoch state and
drops one that verifies under neither; `process_sync_notification` passes only the state it read
before the epoch change, so that state is all the buffer has: an unverified entry is promoted when
its ordered proof verifies under it and dropped otherwise. -/
def promote (verifySignatures : SignatureCheck) (epochState : EpochState) (e : PendingEntry) :
    Option PendingEntry :=
  if e.verified then some e
  else if epochState.verify verifySignatures e.orderedBlock.orderedProof then
    some { e with verified := true }
  else none

/-- Everything `promote` can do: keep the block and its decision, and raise the flag only on a
proof that verifies under the epoch state given. -/
theorem promote_spec {verifySignatures : SignatureCheck} {epochState : EpochState}
    {e e' : PendingEntry} (h : e.promote verifySignatures epochState = some e') :
    e'.orderedBlock = e.orderedBlock ∧ e'.commitDecision = e.commitDecision ∧
      (e'.verified = true → e.verified = true ∨
        epochState.verify verifySignatures e.orderedBlock.orderedProof = true) := by
  unfold promote at h
  split_ifs at h with h1 h2
  · cases h; exact ⟨rfl, rfl, fun _ ↦ .inl h1⟩
  · cases h; exact ⟨rfl, rfl, fun _ ↦ .inr h2⟩

theorem promote_key {verifySignatures : SignatureCheck} {epochState : EpochState}
    {e e' : PendingEntry} (h : e.promote verifySignatures epochState = some e') :
    e'.key = e.key := by
  simp only [key, (promote_spec h).1]

end PendingEntry

/-! ## Sorted insertion -/

/-- Insert an entry into a list of entries with increasing keys: at its place when its key is
new, in place of the entry of the same key when it raises `verified` from false to true, and
not at all otherwise. -/
def insertEntry (e : PendingEntry) : List PendingEntry → List PendingEntry
  | [] => [e]
  | x :: xs =>
    if e.key < x.key then e :: x :: xs
    else if e.key = x.key then (if !x.verified && e.verified then e :: xs else x :: xs)
    else x :: insertEntry e xs

theorem mem_insertEntry {e y : PendingEntry} {l : List PendingEntry} (h : y ∈ insertEntry e l) :
    y = e ∨ y ∈ l := by
  induction l with
  | nil => simpa [insertEntry] using h
  | cons x xs ih =>
    rw [insertEntry] at h
    split_ifs at h
    · simpa using h
    · rcases List.mem_cons.1 h with h | h
      · exact .inl h
      · exact .inr (List.mem_cons_of_mem x h)
    · exact .inr h
    · rcases List.mem_cons.1 h with h | h
      · exact .inr (h ▸ List.mem_cons_self x xs)
      · exact (ih h).imp_right (List.mem_cons_of_mem x)

theorem sorted_insertEntry (e : PendingEntry) {l : List PendingEntry}
    (h : l.Sorted fun a b ↦ a.key < b.key) :
    (insertEntry e l).Sorted fun a b ↦ a.key < b.key := by
  induction l with
  | nil => simp [insertEntry]
  | cons x xs ih =>
    rw [List.sorted_cons] at h
    rw [insertEntry]
    split_ifs with hlt heq
    · refine List.sorted_cons.2 ⟨fun y hy ↦ ?_, List.sorted_cons.2 h⟩
      rcases List.mem_cons.1 hy with rfl | hy
      · exact hlt
      · exact lt_trans hlt (h.1 y hy)
    · exact List.sorted_cons.2 ⟨fun y hy ↦ heq ▸ h.1 y hy, h.2⟩
    · exact List.sorted_cons.2 h
    · refine List.sorted_cons.2 ⟨fun y hy ↦ ?_, ih h.2⟩
      rcases mem_insertEntry hy with rfl | hy
      · exact lt_of_le_of_ne (not_lt.1 hlt) (Ne.symm heq)
      · exact h.1 y hy

/-! ## The pending buffer -/

/-- Modelled from the spec: `PendingOrderedBlocks`, an ordered mapping from `(epoch, round)` to
entries, kept as a list of entries with strictly increasing keys. -/
structure PendingOrderedBlocks where
  entries : List PendingEntry
  sorted : entries.Sorted fun a b ↦ a.key < b.key

namespace PendingOrderedBlocks

/-- The empty buffer of `ConsensusObserver::new`. -/
def new : PendingOrderedBlocks := ⟨[], List.sorted_nil⟩

/-- Modelled from the spec: `insert_ordered_block`.  Beyond the configured maximum the new block
is dropped; below it the insertion is idempotent on the key, except that an entry is replaced
when the new one raises `verified` from false to true. -/
def insertOrderedBlock (maxNumPendingBlocks : Nat) (p : PendingOrderedBlocks)
    (ob : OrderedBlock) (verified : Bool) : PendingOrderedBlocks :=
  if maxNumPendingBlocks ≤ p.entries.length then p
  else ⟨insertEntry ⟨ob, verified, none⟩ p.entries, sorted_insertEntry _ p.sorted⟩

/-- Modelled from the spec: `update_commit_decision` attaches the decision to the entry of its
`(epoch, round)`, if there is one. -/
def updateCommitDecision (p : PendingOrderedBlocks) (cd : CommitDecision) :
    PendingOrderedBlocks :=
  ⟨p.entries.map (PendingEntry.attachDecision cd),
    p.sorted.map _ fun a b h ↦ by simpa only [PendingEntry.attachDecision_key] using h⟩

/-- Modelled from the spec: `get_verified_pending_block` returns the ordered block of the given
`(epoch, round)` when its proof has been verified. -/
def getVerifiedPendingBlock (p : PendingOrderedBlocks) (epoch round : Nat) :
    Option OrderedBlock :=
  match p.entries.find? (·.key = ⟨epoch, round⟩) with
  | some e => if e.verified then some e.orderedBlock else none
  | none => none

/-- Modelled from the spec: `get_last_pending_block` is the last block of the entry of the
highest key. -/
def getLastPendingBlock (p : PendingOrderedBlocks) : Option BlockInfo :=
  p.entries.getLast?.map (·.orderedBlock.lastBlock.blockInfo)

/-- Modelled from the spec: `remove_blocks_for_commit` removes every entry at or below the
ledger info's `(epoch, round)`. -/
def removeBlocksForCommit (p : PendingOrderedBlocks) (li : LedgerInfoWithSignatures) :
    PendingOrderedBlocks :=
  ⟨p.entries.filter (li.key < ·.key), p.sorted.filter _⟩

/-- Modelled from the spec: `verify_pending_blocks`, applied to every entry (`promote`). -/
def verifyPendingBlocks (verifySignatures : SignatureCheck) (epochState : EpochState)
    (p : PendingOrderedBlocks) : PendingOrderedBlocks :=
  ⟨p.entries.filterMap (PendingEntry.promote verifySignatures epochState),
    p.sorted.filterMap _ fun _ _ h _ hx _ hy ↦ by
      rw [PendingEntry.promote_key hx, PendingEntry.promote_key hy]; exact h⟩

/-- Modelled from the spec: `get_all_verified_pending_blocks`, the verified entries in key order,
each with its commit decision. -/
def getAllVerifiedPendingBlocks (p : PendingOrderedBlocks) :
    List (OrderedBlock × Option CommitDecision) :=
  (p.entries.filter (·.verified)).map fun e ↦ (e.orderedBlock, e.commitDecision)

/-! ### What each operation leaves in the buffer -/

theorem mem_insertOrderedBlock {n : Nat} {p : PendingOrderedBlocks} {ob : OrderedBlock}
    {v : Bool} {y : PendingEntry} (h : y ∈ (p.insertOrderedBlock n ob v).entries) :
    y ∈ p.entries ∨ y = ⟨ob, v, none⟩ := by
  unfold insertOrderedBlock at h
  split at h
  · exact .inl h
  · exact (mem_insertEntry h).symm

theorem mem_updateCommitDecision {p : PendingOrderedBlocks} {cd : CommitDecision}
    {y : PendingEntry} :
    y ∈ (p.updateCommitDecision cd).entries ↔ ∃ x ∈ p.entries, x.attachDecision cd = y :=
  List.mem_map

@[simp] theorem mem_removeBlocksForCommit {p : PendingOrderedBlocks}
    {li : LedgerInfoWithSignatures} {y : PendingEntry} :
    y ∈ (p.removeBlocksForCommit li).entries ↔ y ∈ p.entries ∧ li.key < y.key := by
  simp [removeBlocksForCommit]

theorem mem_verifyPendingBlocks {verifySignatures : SignatureCheck} {epochState : EpochState}
    {p : PendingOrderedBlocks} {y : PendingEntry} :
    y ∈ (p.verifyPendingBlocks verifySignatures epochState).entries ↔
      ∃ x ∈ p.entries, x.promote verifySignatures epochState = some y :=
  List.mem_filterMap

theorem mem_getAllVerifiedPendingBlocks {p : PendingOrderedBlocks} {ob : OrderedBlock}
    {cd : Option CommitDecision} :
    (ob, cd) ∈ p.getAllVerifiedPendingBlocks ↔
      ∃ e ∈ p.entries, e.verified = true ∧ e.orderedBlock = ob ∧ e.commitDecision = cd := by
  simp [getAllVerifiedPendingBlocks, and_assoc]

theorem getVerifiedPendingBlock_spec {p : PendingOrderedBlocks} {epoch round : Nat}
    {ob : OrderedBlock} (h : p.getVerifiedPendingBlock epoch round = some ob) :
    ∃ e ∈ p.entries, e.key = ⟨epoch, round⟩ ∧ e.verified = true ∧ e.orderedBlock = ob := by
  unfold getVerifiedPendingBlock at h
  split at h
  · rename_i e he
    split at h
    · exact ⟨e, List.mem_of_find?_eq_some he, by simpa using List.find?_some he, ‹_›,
        Option.some.inj h⟩
    · cases h
  · cases h

/-- The last pending block is the last block of the entry of the highest key. -/
theorem getLastPendingBlock_spec {p : PendingOrderedBlocks} {b : BlockInfo}
    (h : p.getLastPendingBlock = some b) :
    ∃ e ∈ p.entries, e.orderedBlock.lastBlock.blockInfo = b ∧ ∀ y ∈ p.entries, y.key ≤ e.key := by
  unfold getLastPendingBlock at h
  obtain ⟨e, he, rfl⟩ := Option.map_eq_some'.1 h
  refine ⟨e, List.mem_of_getLast?_eq_some he, rfl, fun y hy ↦ ?_⟩
  obtain ⟨l, hl⟩ := List.getLast?_eq_some_iff.1 he
  have hs := p.sorted
  rw [hl] at hs hy
  rcases List.mem_append.1 hy with hy | hy
  · exact le_of_lt ((List.pairwise_append.1 hs).2.2 y hy e (List.mem_singleton_self e))
  · rw [List.mem_singleton.1 hy]

theorem getLastPendingBlock_eq_none {p : PendingOrderedBlocks}
    (h : p.getLastPendingBlock = none) : p.entries = [] := by
  simpa [getLastPendingBlock] using h

end PendingOrderedBlocks

end Observer
