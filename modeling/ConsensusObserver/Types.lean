import Mathlib.Order.Defs.LinearOrder
import Mathlib.Data.List.Sort

/-!
# The observer's data model

The consensus observer follows a validator peer: it receives ordered blocks, commit decisions and
block payloads, and hands them on to the execution pipeline.  This file fixes the data it reads.

Only `observer.rs` is part of the source.  The message types (`network_message.rs`) and the
`aptos_types` records are modelled with exactly the fields the observer reads: a `BlockInfo` is
its epoch, round and id, a `PipelinedBlock` adds its parent's id, a ledger info is a `BlockInfo`
and an opaque aggregated signature.  Everything else those records carry (executed state ids,
versions, timestamps, the blocks' transactions) is never read by a function modelled here.

* `Key` is the `(epoch, round)` pair the observer orders blocks by.  Rust compares such pairs as
  tuples, so `Key` carries the lexicographic order, as a `LinearOrder`.
* `SignatureCheck` stands for the aggregated-signature check.  The cryptography is outside the
  observer, so it is a parameter, and every result about the observer holds for every check.
* `OrderedBlock.verifyOrderedBlocks`, `OrderedBlock.verifyOrderedProof` and
  `CommitDecision.verifyCommitProof` are the three message checks the observer calls.
-/

set_option autoImplicit false

namespace Observer

/-! ## The order on `(epoch, round)` -/

/-- An `(epoch, round)` pair, ordered as Rust orders the tuple `(u64, Round)`. -/
structure Key where
  epoch : Nat
  round : Nat
  deriving DecidableEq, Repr

namespace Key

instance : LT Key := ⟨fun a b ↦ a.epoch < b.epoch ∨ a.epoch = b.epoch ∧ a.round < b.round⟩
instance : LE Key := ⟨fun a b ↦ a.epoch < b.epoch ∨ a.epoch = b.epoch ∧ a.round ≤ b.round⟩

theorem lt_def {a b : Key} :
    a < b ↔ a.epoch < b.epoch ∨ a.epoch = b.epoch ∧ a.round < b.round :=
  Iff.rfl

theorem le_def {a b : Key} :
    a ≤ b ↔ a.epoch < b.epoch ∨ a.epoch = b.epoch ∧ a.round ≤ b.round :=
  Iff.rfl

instance : LinearOrder Key where
  le_refl _ := le_def.2 (by omega)
  le_trans _ _ _ h₁ h₂ := le_def.2 (by rw [le_def] at h₁ h₂; omega)
  le_antisymm a b h₁ h₂ := by
    have h₁ := le_def.1 h₁
    have h₂ := le_def.1 h₂
    cases a; cases b
    simp only [mk.injEq] at *
    omega
  le_total _ _ := Or.imp le_def.2 le_def.2 (by omega)
  lt_iff_le_not_le _ _ :=
    lt_def.trans (Iff.trans (by omega) (and_congr le_def (not_congr le_def)).symm)
  decidableLE _ _ := inferInstanceAs (Decidable (_ ∨ _))
  decidableLT _ _ := inferInstanceAs (Decidable (_ ∨ _))
  decidableEq := inferInstance

end Key

/-! ## Blocks and ledger infos -/

/-- `BlockInfo`, with the fields the observer reads. -/
structure BlockInfo where
  epoch : Nat
  round : Nat
  id : Nat
  deriving DecidableEq, Repr, Inhabited

/-- The `(epoch, round)` of a block. -/
def BlockInfo.key (b : BlockInfo) : Key := ⟨b.epoch, b.round⟩

/-- A block of an ordered block: its information and the id of its parent. -/
structure PipelinedBlock where
  blockInfo : BlockInfo
  parentId : Nat
  deriving DecidableEq, Repr, Inhabited

/-- A ledger info over `commitInfo`, with an aggregated signature that is opaque here. -/
structure LedgerInfoWithSignatures where
  commitInfo : BlockInfo
  signatures : Nat
  deriving DecidableEq, Repr

/-- The `(epoch, round)` a ledger info is for. -/
def LedgerInfoWithSignatures.key (li : LedgerInfoWithSignatures) : Key := li.commitInfo.key

/-- `EpochState`: an epoch and the validator verifier of that epoch (opaque). -/
structure EpochState where
  epoch : Nat
  verifier : Nat
  deriving DecidableEq, Repr

/-- The check of a ledger info's aggregated signature against a validator verifier. -/
def SignatureCheck : Type := LedgerInfoWithSignatures → Nat → Bool

/-- `EpochState::verify`: the ledger info is of this epoch and its aggregated signature verifies
under this epoch's validators. -/
def EpochState.verify (verifySignatures : SignatureCheck) (es : EpochState)
    (li : LedgerInfoWithSignatures) : Bool :=
  es.epoch == li.commitInfo.epoch && verifySignatures li es.verifier

theorem EpochState.epoch_eq_of_verify {verifySignatures : SignatureCheck} {es : EpochState}
    {li : LedgerInfoWithSignatures} (h : es.verify verifySignatures li = true) :
    es.epoch = li.commitInfo.epoch := by
  simp only [verify, Bool.and_eq_true, beq_iff_eq] at h
  exact h.1

/-! ## Messages -/

/-- An ordered block: a sequence of blocks and the ordered proof over the last of them. -/
structure OrderedBlock where
  blocks : List PipelinedBlock
  orderedProof : LedgerInfoWithSignatures
  deriving DecidableEq, Repr

namespace OrderedBlock

/-- `proof_block_info`: the block information the ordered proof is over. -/
def proofBlockInfo (ob : OrderedBlock) : BlockInfo := ob.orderedProof.commitInfo

/-- The `(epoch, round)` of an ordered block: that of its ordered proof. -/
def key (ob : OrderedBlock) : Key := ob.proofBlockInfo.key

/-- `first_block`.  The source unwraps the first element; it is only read once
`verifyOrderedBlocks` has accepted the block, so the list is non-empty there. -/
def firstBlock (ob : OrderedBlock) : PipelinedBlock := ob.blocks.headD default

/-- `last_block`, read, like `firstBlock`, only of accepted blocks. -/
def lastBlock (ob : OrderedBlock) : PipelinedBlock := ob.blocks.getLastD default

/-- Modelled from the spec: `verify_ordered_blocks` (in `network_message.rs`, which is not part of
the source) is the structural check — the blocks are non-empty, each one's parent is the block
before it, and the ordered proof is over the last block's information. -/
def verifyOrderedBlocks (ob : OrderedBlock) : Bool :=
  ob.blocks.getLast?.map (·.blockInfo) == some ob.orderedProof.commitInfo &&
    (ob.blocks.zip ob.blocks.tail).all fun p ↦ p.2.parentId == p.1.blockInfo.id

/-- Modelled from the spec: `verify_ordered_proof` checks the aggregated signature on the ordered
proof under an epoch state. -/
def verifyOrderedProof (verifySignatures : SignatureCheck) (ob : OrderedBlock)
    (es : EpochState) : Bool :=
  es.verify verifySignatures ob.orderedProof

theorem lastBlock_blockInfo {ob : OrderedBlock} (h : ob.verifyOrderedBlocks = true) :
    ob.lastBlock.blockInfo = ob.proofBlockInfo := by
  simp only [verifyOrderedBlocks, Bool.and_eq_true, beq_iff_eq] at h
  rw [lastBlock, List.getLastD_eq_getLast?, proofBlockInfo]
  cases hl : ob.blocks.getLast? with
  | none => rw [hl] at h; simp at h
  | some b => rw [hl] at h; simpa using h.1

end OrderedBlock

/-- A commit decision: the ledger info that commits a block. -/
structure CommitDecision where
  commitProof : LedgerInfoWithSignatures
  deriving DecidableEq, Repr

namespace CommitDecision

/-- The epoch the decision commits in. -/
def epoch (cd : CommitDecision) : Nat := cd.commitProof.commitInfo.epoch

/-- The round the decision commits. -/
def round (cd : CommitDecision) : Nat := cd.commitProof.commitInfo.round

/-- The `(epoch, round)` of the decision. -/
def key (cd : CommitDecision) : Key := cd.commitProof.key

/-- Modelled from the spec: `verify_commit_proof` checks the aggregated signature on the commit
proof under an epoch state. -/
def verifyCommitProof (verifySignatures : SignatureCheck) (cd : CommitDecision)
    (es : EpochState) : Bool :=
  es.verify verifySignatures cd.commitProof

end CommitDecision

/-- A block's transaction payload: its transactions (opaque) and the optional limit. -/
structure BlockTransactionPayload where
  transactions : List Nat
  limit : Option Nat
  deriving DecidableEq, Repr

/-- `BlockPayload`: a payload for the block `block`. -/
structure BlockPayload where
  block : BlockInfo
  transactions : List Nat
  limit : Option Nat
  deriving DecidableEq, Repr

/-- `ConsensusObserverDirectSend`: what the subscribed peer sends. -/
inductive ConsensusObserverDirectSend
  | orderedBlock (orderedBlock : OrderedBlock)
  | commitDecision (commitDecision : CommitDecision)
  | blockPayload (blockPayload : BlockPayload)
  deriving DecidableEq, Repr

/-- `ConsensusObserverRequest`: the RPC requests between observers and publishers. -/
inductive ConsensusObserverRequest
  | subscribe
  | unsubscribe
  deriving DecidableEq, Repr

/-- `ConsensusObserverResponse`: the answers to those requests. -/
inductive ConsensusObserverResponse
  | subscribeAck
  | unsubscribeAck
  deriving DecidableEq, Repr

/-- The errors the observer's health checks report (`error.rs`), each with its message. -/
inductive Error
  | subscriptionDisconnected (message : String)
  | subscriptionTimeout (message : String)
  | subscriptionProgressStopped (message : String)
  | subscriptionSuboptimal (message : String)
  deriving DecidableEq, Repr

/-- What the network layer knows of a connected peer, as the ranking reads it. -/
structure PeerMetadata where
  distanceFromValidators : Nat
  latency : Nat
  deriving DecidableEq, Repr

/-! ## Simp lemmas for the accessors -/

@[simp] theorem BlockInfo.key_epoch (b : BlockInfo) : b.key.epoch = b.epoch := rfl
@[simp] theorem BlockInfo.key_round (b : BlockInfo) : b.key.round = b.round := rfl
@[simp] theorem LedgerInfoWithSignatures.key_eq (li : LedgerInfoWithSignatures) :
    li.key = li.commitInfo.key := rfl
@[simp] theorem OrderedBlock.key_eq (ob : OrderedBlock) : ob.key = ob.orderedProof.key := rfl
@[simp] theorem CommitDecision.key_eq (cd : CommitDecision) : cd.key = cd.commitProof.key := rfl

end Observer
