import ConsensusObserver.Release
import ConsensusObserver.SyncJobs

/-!
# The observer's side of its protocols

Besides the blocks it releases, the observer talks to two more parties: the execution client, and
the state-sync jobs it spawns.  Each conversation has a shape the other party relies on, and this
file proves that the observer keeps to it in every run, whatever the messages, ticks, job steps
and commit callbacks, and in whatever order they interleave:

* `execution_client_epochs_bracketed`: the calls the main loop makes on the execution client (all
  but `sync_to`, which the spawned jobs make) start an epoch first; every `end_epoch` is followed
  at once by a `start_epoch` — unless `process_sync_notification` is still waiting on it — and
  every `start_epoch` but the first comes right after an `end_epoch`; and the last `start_epoch`
  carries the epoch state the observer holds.  A job's `sync_to` is not bracketed: it may fall
  between `end_epoch` and `start_epoch`.
* `epochs_started_follow_reconfigurations`: the epochs started are those of the reconfiguration
  notifications, in the order the listener delivers them, one each and none skipped.
* `at_most_one_live_sync_job`: a sync job that has neither finished nor been aborted is the one
  whose handle the observer holds, and that is the latest job spawned.  Replacing or dropping the
  handle aborts the job behind it (the `DropGuard`), so no two `sync_to` calls run at once, and
  every `sync_to` is called in sync mode.
* `forwarded_decisions_verified_under_their_epoch`: every commit decision handed to
  `send_commit_msg`, at once or from the drain after state sync, has a commit proof that verifies
  under an epoch state started before the call.
* `verified_pending_blocks_finalized_outside_sync_mode`: outside sync mode no verified block is
  held back from the execution client: it has been finalized, or the drain has it still to do.

Each is an invariant of the runs: it holds of the first world, and each path of `StepCase`
keeps it.
-/

set_option autoImplicit false

namespace Observer

variable {cfg : ConsensusObserverConfig} {verifySignatures : SignatureCheck} {w w' : World}
  {ev : Event}

/-! ## The epochs the execution client sees

Only `start` and the epoch change of `process_sync_notification` open or close an epoch on the
execution client.  The epoch change calls `end_epoch`, waits on it, and only then calls
`start_epoch`; the main loop takes no event meanwhile, but the sync jobs go on.  `EpochProtocol`
states what the client sees of the main loop's calls, position by position;
`ReconfigurationsConsumed` says where the epoch states it is started with come from. -/

/-- `start_epoch` and `end_epoch`: the calls that open and close an epoch on the client. -/
def ExecutionCall.isEpochCall : ExecutionCall → Bool
  | .startEpoch _ | .endEpoch => true
  | _ => false

/-- `sync_to`: the call a spawned sync job makes, not the main loop. -/
def ExecutionCall.isSyncTo : ExecutionCall → Bool
  | .syncTo _ => true
  | _ => false

/-- The calls the main loop makes on the execution client, in order: all but `sync_to`. -/
def mainLoopCalls (calls : List (ExecutionCall × ConsensusObserver)) : List ExecutionCall :=
  (calls.map (·.1)).filter fun c ↦ !c.isSyncTo

@[simp] theorem mainLoopCalls_append (l m : List (ExecutionCall × ConsensusObserver)) :
    mainLoopCalls (l ++ m) = mainLoopCalls l ++ mainLoopCalls m := by
  simp [mainLoopCalls, List.filter_append]

/-- A log of calls on the execution client that brackets its epochs, with `current` the epoch
state of the epoch it is in. -/
structure EpochProtocol (calls : List ExecutionCall) (current : EpochState) : Prop where
  /-- The first call starts an epoch. -/
  first : ∃ es, calls.head? = some (.startEpoch es)
  /-- Every `end_epoch` is followed at once by a `start_epoch`. -/
  endThenStart : ∀ i, calls[i]? = some .endEpoch → ∃ es, calls[i + 1]? = some (.startEpoch es)
  /-- Every `start_epoch` but the first comes right after an `end_epoch`. -/
  startAfterEnd : ∀ i es, calls[i + 1]? = some (.startEpoch es) → calls[i]? = some .endEpoch
  /-- The last call that opens or closes an epoch starts `current`. -/
  lastStart : ∃ pre post, calls = pre ++ .startEpoch current :: post ∧
    ∀ c ∈ post, c.isEpochCall = false

section EpochProtocol

variable {l m : List ExecutionCall} {es : EpochState}

theorem endThenStart_append
    (hl : ∀ i, l[i]? = some .endEpoch → ∃ es, l[i + 1]? = some (.startEpoch es))
    (hm : ∀ i, m[i]? = some .endEpoch → ∃ es, m[i + 1]? = some (.startEpoch es)) :
    ∀ i, (l ++ m)[i]? = some .endEpoch → ∃ es, (l ++ m)[i + 1]? = some (.startEpoch es) := by
  intro i hi
  rcases Nat.lt_or_ge i l.length with hlt | hge
  · rw [List.getElem?_append_left hlt] at hi
    obtain ⟨es, hes⟩ := hl i hi
    exact ⟨es, by rw [List.getElem?_append_left (List.getElem?_eq_some.1 hes).1, hes]⟩
  · rw [List.getElem?_append_right hge] at hi
    obtain ⟨es, hes⟩ := hm _ hi
    exact ⟨es, by rw [List.getElem?_append_right (by omega), Nat.sub_add_comm hge, hes]⟩

theorem startAfterEnd_append
    (hl : ∀ i es, l[i + 1]? = some (.startEpoch es) → l[i]? = some .endEpoch)
    (hm : ∀ i es, m[i + 1]? = some (.startEpoch es) → m[i]? = some .endEpoch)
    (hhead : ∀ es, m.head? ≠ some (.startEpoch es)) :
    ∀ i es, (l ++ m)[i + 1]? = some (.startEpoch es) → (l ++ m)[i]? = some .endEpoch := by
  intro i es hi
  rcases Nat.lt_or_ge (i + 1) l.length with hlt | hge
  · rw [List.getElem?_append_left hlt] at hi
    rw [List.getElem?_append_left (by omega)]
    exact hl i es hi
  · rw [List.getElem?_append_right hge] at hi
    rcases Nat.lt_or_ge i l.length with hlt' | hge'
    · have : i + 1 - l.length = 0 := by omega
      rw [this, ← List.head?_eq_getElem?] at hi
      exact absurd hi (hhead es)
    · rw [List.getElem?_append_right hge']
      rw [show i + 1 - l.length = i - l.length + 1 by omega] at hi
      exact hm _ es hi

/-- Calls within an epoch may follow. -/
theorem EpochProtocol.append_calls (h : EpochProtocol l es)
    (hm : ∀ c ∈ m, c.isEpochCall = false) : EpochProtocol (l ++ m) es := by
  have hnone : ∀ i (c : ExecutionCall), m[i]? = some c → c.isEpochCall = true → False :=
    fun i c hi hc ↦ by simpa [hc] using hm c (List.getElem?_mem hi)
  obtain ⟨es₀, hfirst⟩ := h.first
  obtain ⟨pre, post, hl, hpost⟩ := h.lastStart
  refine ⟨⟨es₀, by simp [hfirst]⟩,
    endThenStart_append h.endThenStart fun i hi ↦ (hnone i _ hi rfl).elim,
    startAfterEnd_append h.startAfterEnd (fun i _ hi ↦ (hnone _ _ hi rfl).elim)
      fun es' he ↦ hnone 0 (.startEpoch es') (by rwa [← List.head?_eq_getElem?]) rfl,
    pre, post ++ m, by simp [hl], fun c hc ↦ ?_⟩
  rcases List.mem_append.1 hc with hc | hc
  · exact hpost c hc
  · exact hm c hc

/-- An epoch change: `end_epoch`, then `start_epoch` of the next. -/
theorem EpochProtocol.rollover (h : EpochProtocol l es) (es' : EpochState) :
    EpochProtocol (l ++ [.endEpoch, .startEpoch es']) es' := by
  obtain ⟨es₀, hfirst⟩ := h.first
  refine ⟨⟨es₀, by simpa using hfirst⟩, endThenStart_append h.endThenStart ?_,
    startAfterEnd_append h.startAfterEnd ?_ (by simp), l ++ [.endEpoch], [], by simp, by simp⟩
  · rintro (_ | _ | i) hi <;> simp at hi ⊢
  · rintro (_ | i) es'' hi <;> simp at hi ⊢

theorem epochProtocol_singleton (es : EpochState) : EpochProtocol [.startEpoch es] es :=
  ⟨⟨es, rfl⟩, by rintro (_ | i) hi <;> simp at hi, fun i es' hi ↦ by simp at hi, [], [], rfl,
    nofun⟩

end EpochProtocol

/-- The observer holds the epoch state the execution client was last started in, and the main
loop's calls bracket the client's epochs — but for an `end_epoch` that `process_sync_notification`
is waiting on, whose `start_epoch` is still to come. -/
def EpochAgrees (w : World) : Prop :=
  ∃ es, w.epochState = some es ∧
    ((∀ c, w.syncNotificationAwait ≠ some (.endEpoch c)) ∧
        EpochProtocol (mainLoopCalls w.executionCalls) es ∨
      (∃ c, w.syncNotificationAwait = some (.endEpoch c)) ∧
        ∃ l, mainLoopCalls w.executionCalls = l ++ [.endEpoch] ∧ EpochProtocol l es)

namespace EpochAgrees

/-- Calls within an epoch, made while no `end_epoch` is waited on, keep the agreement. -/
theorem append_calls (h : EpochAgrees w) (hes : w'.epochState = w.epochState)
    (hidle : ∀ c, w.syncNotificationAwait ≠ some (.endEpoch c))
    (hidle' : ∀ c, w'.syncNotificationAwait ≠ some (.endEpoch c))
    (new : List (ExecutionCall × ConsensusObserver))
    (hcalls : w'.executionCalls = w.executionCalls ++ new)
    (hnew : ∀ c ∈ new, c.1.isEpochCall = false) : EpochAgrees w' := by
  obtain ⟨es, hes₀, ⟨-, hp⟩ | ⟨⟨c, hc⟩, -⟩⟩ := h
  · refine ⟨es, hes ▸ hes₀, .inl ⟨hidle', ?_⟩⟩
    rw [hcalls, mainLoopCalls_append]
    refine hp.append_calls fun c hc ↦ ?_
    obtain ⟨⟨c, o⟩, hm, rfl⟩ := List.mem_map.1 (List.mem_filter.1 hc).1
    exact hnew _ hm
  · exact absurd hc (hidle c)

/-- A `sync_to` leaves the main loop's calls as they are. -/
theorem of_mainLoopCalls (h : EpochAgrees w) (hes : w'.epochState = w.epochState)
    (hawait : w'.syncNotificationAwait = w.syncNotificationAwait)
    (hcalls : mainLoopCalls w'.executionCalls = mainLoopCalls w.executionCalls) :
    EpochAgrees w' := by
  rw [EpochAgrees, hes, hawait, hcalls]
  exact h

end EpochAgrees

/-- **Each step keeps the client's epochs bracketed.**  The main loop makes its calls within an
epoch, but for the epoch change, which calls `end_epoch` and, once it has returned, `start_epoch`
of the next epoch. -/
theorem epochAgrees_step (h : EpochAgrees w) (hs : w.step cfg verifySignatures ev = some w') :
    EpochAgrees w' := by
  cases World.step_cases hs with
  | orderedBlockFinalized | commitForwarded =>
    exact h.append_calls rfl (by simp [*]) (by simp [*]) _ rfl
      (by simp [ExecutionCall.isEpochCall])
  | syncJobStart => exact h.of_mainLoopCalls rfl rfl (by simp [mainLoopCalls, ExecutionCall.isSyncTo])
  | syncAccepted =>
    exact h.append_calls (by simp) (by simp [*]) (by simp) _ (World.exitSyncMode_executionCalls _)
      (World.forall_mem_drainCalls _ fun _ ↦ rfl)
  | pendingVerified es hw =>
    exact h.append_calls (by simp) (by simp [hw]) (by simp) _ (World.exitSyncMode_executionCalls _)
      (World.forall_mem_drainCalls _ fun _ ↦ rfl)
  | drainResumed cd rest hw =>
    exact h.append_calls (by simp) (by simp [hw]) (by simp) _
      (by rw [World.resumeDrain_executionCalls, List.append_assoc])
      (World.forall_mem_resumeDrainCalls _ _ (fun _ ↦ rfl) fun _ ↦ rfl)
  | syncEndEpoch n rest es hn hroot hes hlt hidle =>
    obtain ⟨es₀, hes₀, ⟨-, hp⟩ | ⟨⟨c, hc⟩, -⟩⟩ := h
    · exact ⟨es₀, hes₀, .inr ⟨⟨es, rfl⟩, _, by simp [mainLoopCalls, ExecutionCall.isSyncTo], hp⟩⟩
    · simp [hidle] at hc
  | epochStarted es es' configs hw =>
    obtain ⟨es₀, -, ⟨hne, -⟩ | ⟨-, l, hl, hp⟩⟩ := h
    · exact absurd hw (hne es)
    · refine ⟨es', rfl, .inl ⟨by simp, ?_⟩⟩
      rw [mainLoopCalls_append, hl]
      simpa [mainLoopCalls, ExecutionCall.isSyncTo] using hp.rollover es'
  | _ => exact h

variable (cfg verifySignatures) in
/-- **The execution client sees its epochs bracketed.**  In every run the calls the main loop
makes on the execution client start with `start_epoch`; every `end_epoch` is followed at once by a
`start_epoch`, and every `start_epoch` but the first comes right after an `end_epoch`, so no block
or decision reaches the client between two epochs; and the last `start_epoch` was made with the
epoch state the observer holds — or `process_sync_notification` waits on an `end_epoch`, and all
this holds of the calls before it. -/
theorem execution_client_epochs_bracketed (h : Reachable cfg verifySignatures w) :
    ∃ es, w.epochState = some es ∧
      ((∀ c, w.syncNotificationAwait ≠ some (.endEpoch c)) ∧
          EpochProtocol (mainLoopCalls w.executionCalls) es ∨
        (∃ c, w.syncNotificationAwait = some (.endEpoch c)) ∧
          ∃ l, mainLoopCalls w.executionCalls = l ++ [.endEpoch] ∧ EpochProtocol l es) := by
  induction h with
  | init hw =>
    obtain ⟨root, configs, es, rest, -, rfl⟩ := World.started_eq hw
    exact ⟨es, rfl, .inl ⟨nofun, epochProtocol_singleton es⟩⟩
  | step _ _ hs ih => exact epochAgrees_step ih hs

/-- Root `(5, 10)` in epoch 5, with epoch 6 next: a decision of epoch 6 starts state sync, and its
job's notification changes the epoch once the main loop has gone on after `end_epoch` and after
`start_epoch`. -/
def epochChangeRun : Option World :=
  runFrom ⟨true, false, 100⟩ (fun _ _ ↦ true) ⟨⟨5, 10, 10⟩, 0⟩ (some [⟨5, some 1⟩, ⟨6, some 2⟩])
    [subscribeTo 7, .directSend 7 (.commitDecision ⟨⟨⟨6, 3, 63⟩, 0⟩⟩), .syncJobStart 0,
      .syncJobFinish 0 true, .syncNotification, .resumeSyncNotification, .resumeSyncNotification]

theorem epochs_bracketed_in_epochChangeRun :
    Reachable ⟨true, false, 100⟩ (fun _ _ ↦ true) (epochChangeRun.get (by decide)) ∧
      mainLoopCalls (epochChangeRun.get (by decide)).executionCalls =
        [.startEpoch ⟨5, 1⟩, .endEpoch, .startEpoch ⟨6, 2⟩] ∧
      ∃ es, (epochChangeRun.get (by decide)).epochState = some es ∧
        ((∀ c, (epochChangeRun.get (by decide)).syncNotificationAwait ≠ some (.endEpoch c)) ∧
            EpochProtocol (mainLoopCalls (epochChangeRun.get (by decide)).executionCalls) es ∨
          (∃ c, (epochChangeRun.get (by decide)).syncNotificationAwait = some (.endEpoch c)) ∧
            ∃ l, mainLoopCalls (epochChangeRun.get (by decide)).executionCalls = l ++ [.endEpoch] ∧
              EpochProtocol l es) := by
  have hr : Reachable ⟨true, false, 100⟩ (fun _ _ ↦ true) (epochChangeRun.get (by decide)) :=
    Reachable.of_runFrom _ _ (Option.some_get _).symm
  exact ⟨hr, by decide, execution_client_epochs_bracketed _ _ hr⟩

/-- A `sync_to` between two epochs.  Root `(5, 10)`, epochs 5 and 6: job 0 syncs to `(6, 3)` and
posts; the late decision `(4, 30)` moves the root back and starts job 1, and `(6, 3)` again starts
job 2; job 0's notification still passes the root check, and while the loop waits on `end_epoch`,
job 2 calls `sync_to`. -/
example : (runFrom ⟨true, false, 100⟩ (fun _ _ ↦ true) ⟨⟨5, 10, 10⟩, 0⟩
    (some [⟨5, some 1⟩, ⟨6, some 2⟩])
    [subscribeTo 7, .directSend 7 (.commitDecision ⟨⟨⟨6, 3, 63⟩, 0⟩⟩), .syncJobStart 0,
      .syncJobFinish 0 true, .directSend 7 (.commitDecision ⟨⟨⟨4, 30, 30⟩, 0⟩⟩),
      .directSend 7 (.commitDecision ⟨⟨⟨6, 3, 63⟩, 0⟩⟩), .syncNotification, .syncJobStart 2,
      .resumeSyncNotification]).map (·.executionCalls.map (·.1)) =
    some [.startEpoch ⟨5, 1⟩, .syncTo ⟨⟨6, 3, 63⟩, 0⟩, .endEpoch, .syncTo ⟨⟨6, 3, 63⟩, 0⟩,
      .startEpoch ⟨6, 2⟩] := by
  decide

/-- The epoch state a call starts, if it is a `start_epoch`. -/
def ExecutionCall.startedEpochState : ExecutionCall → Option EpochState
  | .startEpoch es => some es
  | _ => none

/-- The observer has started, in order, the epochs of the first `k` notifications of `configs`,
each with the epoch state `extract_on_chain_configs` reads off it, and holds the rest. -/
def ReconfigurationsConsumed (configs : List ReconfigNotification) (w : World) : Prop :=
  ∃ k, w.reconfigEvents = some (configs.drop k) ∧
    List.Forall₂ (fun es n ↦ extractOnChainConfigs [n] = some (es, []))
      ((w.executionCalls.map (·.1)).filterMap ExecutionCall.startedEpochState) (configs.take k)

/-- `extract_on_chain_configs` takes the first notification and leaves the others. -/
theorem extractOnChainConfigs_eq_some {l rest : List ReconfigNotification} {es : EpochState}
    (h : extractOnChainConfigs l = some (es, rest)) :
    ∃ n, l = n :: rest ∧ extractOnChainConfigs [n] = some (es, []) := by
  cases l with
  | nil => cases h
  | cons n rest' =>
    obtain ⟨v, hv, he⟩ := Option.map_eq_some'.1 h
    cases he
    exact ⟨n, rfl, by simp [extractOnChainConfigs, hv]⟩

/-- Calls that start no epoch add no started epoch state. -/
theorem startedEpochStates_append {l new : List (ExecutionCall × ConsensusObserver)}
    (hnew : ∀ c ∈ new, c.1.startedEpochState = none) :
    ((l ++ new).map (·.1)).filterMap ExecutionCall.startedEpochState =
      (l.map (·.1)).filterMap ExecutionCall.startedEpochState := by
  have hnil : (new.map (·.1)).filterMap ExecutionCall.startedEpochState = [] :=
    List.filterMap_eq_nil_iff.2 (by simpa using hnew)
  rw [List.map_append, List.filterMap_append, hnil, List.append_nil]

/-- **Each step consumes the reconfiguration notifications in order.**  An epoch change takes the
next notification and starts its epoch; no other step reads a notification or starts an epoch. -/
theorem reconfigurationsConsumed_step {configs : List ReconfigNotification}
    (h : ReconfigurationsConsumed configs w) (hs : w.step cfg verifySignatures ev = some w') :
    ReconfigurationsConsumed configs w' := by
  obtain ⟨k, hk, hf⟩ := h
  have within : ∀ new : List (ExecutionCall × ConsensusObserver),
      (∀ c ∈ new, c.1.startedEpochState = none) →
      List.Forall₂ (fun es n ↦ extractOnChainConfigs [n] = some (es, []))
        (((w.executionCalls ++ new).map (·.1)).filterMap ExecutionCall.startedEpochState)
        (configs.take k) := fun new hnew ↦ by
    rwa [startedEpochStates_append hnew]
  cases World.step_cases hs with
  | orderedBlockFinalized | commitForwarded | syncJobStart | syncEndEpoch =>
    exact ⟨k, hk, within _ (by simp [ExecutionCall.startedEpochState])⟩
  | syncAccepted | pendingVerified =>
    refine ⟨k, by simpa using hk, ?_⟩
    rw [World.exitSyncMode_executionCalls]
    exact within _ (World.forall_mem_drainCalls _ fun _ ↦ rfl)
  | drainResumed =>
    refine ⟨k, by simpa using hk, ?_⟩
    rw [World.resumeDrain_executionCalls, List.append_assoc]
    exact within _ (World.forall_mem_resumeDrainCalls _ _ (fun _ ↦ rfl) fun _ ↦ rfl)
  | epochStarted es es' configs' hw hconfigs =>
    rw [hk] at hconfigs
    obtain ⟨n', hdrop, hn'⟩ := extractOnChainConfigs_eq_some hconfigs
    have hnext : configs[k]? = some n' := by rw [← List.head?_drop, hdrop]; rfl
    refine ⟨k + 1, by simp [← List.tail_drop, hdrop], ?_⟩
    rw [List.take_succ, hnext, List.map_append, List.filterMap_append]
    exact List.rel_append hf (.cons hn' .nil)
  | _ => exact ⟨k, hk, hf⟩

variable (cfg verifySignatures) in
/-- **The epochs follow the reconfiguration notifications.**  In every run of an observer whose
reconfiguration listener delivers `configs`, the `start_epoch` calls, in order, carry the epoch
states of the first notifications of `configs`, one each, none skipped and none repeated, and the
listener still holds the others.  An epoch change takes the next notification, whatever the epoch
state sync reached. -/
theorem epochs_started_follow_reconfigurations {root : LedgerInfoWithSignatures}
    {configs : List ReconfigNotification} {events : List Event}
    (h : runFrom cfg verifySignatures root (some configs) events = some w) :
    ∃ k, w.reconfigEvents = some (configs.drop k) ∧
      List.Forall₂ (fun es n ↦ extractOnChainConfigs [n] = some (es, []))
        ((w.executionCalls.map (·.1)).filterMap ExecutionCall.startedEpochState)
        (configs.take k) := by
  obtain ⟨w₀, h₀, hr⟩ := Option.bind_eq_some.1 h
  have hstart : ReconfigurationsConsumed configs w₀ := by
    unfold start World.waitForEpochStart at h₀
    split_ifs at h₀
    split at h₀
    · rename_i es rest hx
      obtain ⟨n, rfl, hn⟩ := extractOnChainConfigs_eq_some hx
      cases h₀
      exact ⟨1, rfl, .cons hn .nil⟩
    · cases h₀
  clear h h₀
  induction events generalizing w₀ with
  | nil => cases hr; exact hstart
  | cons ev evs ih =>
    obtain ⟨w₁, h₁, h₂⟩ := Option.bind_eq_some.1 hr
    exact ih _ h₂ (reconfigurationsConsumed_step hstart h₁)

theorem epochChangeRun_starts_both_epochs :
    epochChangeRun = some (epochChangeRun.get (by decide)) ∧
      ((epochChangeRun.get (by decide)).executionCalls.map (·.1)).filterMap
        ExecutionCall.startedEpochState = [⟨5, 1⟩, ⟨6, 2⟩] ∧
      ∃ k, (epochChangeRun.get (by decide)).reconfigEvents =
          some (([⟨5, some 1⟩, ⟨6, some 2⟩] : List ReconfigNotification).drop k) ∧
        List.Forall₂ (fun es n ↦ extractOnChainConfigs [n] = some (es, []))
          (((epochChangeRun.get (by decide)).executionCalls.map (·.1)).filterMap
            ExecutionCall.startedEpochState)
          (([⟨5, some 1⟩, ⟨6, some 2⟩] : List ReconfigNotification).take k) :=
  ⟨(Option.some_get _).symm, by decide,
    epochs_started_follow_reconfigurations _ _ (Option.some_get _).symm⟩

/-! ## One live sync job

`sync_to_commit_decision` spawns a job and installs its handle in place of the one held, and the
main loop drops the handle when it leaves sync mode.  The handle is a `DropGuard`: dropping it
aborts the job it guards, unless that job has finished. -/

/-- What `at_most_one_live_sync_job` carries from step to step. -/
structure SyncHandleInvariant (w : World) : Prop where
  /-- A live job is the one whose handle is installed. -/
  live : ∀ j job, w.syncJobs[j]? = some job → job.IsLive → w.syncHandle = some j
  /-- The installed handle is the latest job's. -/
  latest : ∀ j, w.syncHandle = some j → j + 1 = w.syncJobs.length
  /-- Every `sync_to` was called in sync mode. -/
  syncTo : ∀ li o, (.syncTo li, o) ∈ w.executionCalls → o.syncHandle.isSome

namespace SyncHandleInvariant

/-- A step that touches no job and no handle, and calls no `sync_to`, keeps the invariant. -/
theorem of_frame (h : SyncHandleInvariant w) (hjobs : w'.syncJobs = w.syncJobs)
    (hhandle : w'.syncHandle = w.syncHandle) (new : List (ExecutionCall × ConsensusObserver))
    (hcalls : w'.executionCalls = w.executionCalls ++ new)
    (hnew : ∀ c ∈ new, ∀ li, c.1 ≠ .syncTo li) : SyncHandleInvariant w' := by
  refine ⟨fun j job hj hl ↦ hhandle ▸ h.live j job (hjobs ▸ hj) hl,
    fun j hj ↦ hjobs ▸ h.latest j (hhandle ▸ hj), fun li o hm ↦ ?_⟩
  rcases List.mem_append.1 (hcalls ▸ hm) with hm | hm
  · exact h.syncTo li o hm
  · exact absurd rfl (hnew _ hm li)

/-- Leaving sync mode drops the handle, which aborts its job: no job is left live. -/
theorem exitSyncMode (h : SyncHandleInvariant w) : SyncHandleInvariant w.exitSyncMode := by
  refine ⟨fun k job hk hl ↦ ?_, fun j hj ↦ by simp at hj, fun li o hm ↦ ?_⟩
  · rw [World.exitSyncMode_syncJobs] at hk
    obtain ⟨hj, hne⟩ := World.isLive_of_setSyncHandle hk hl
    exact absurd (h.live k job hj hl) hne
  · rw [World.exitSyncMode_executionCalls] at hm
    rcases List.mem_append.1 hm with hm | hm
    · exact h.syncTo li o hm
    · simp at hm

/-- Spawning a job installs its handle and aborts the job of the handle it replaces. -/
theorem syncToCommitDecision (h : SyncHandleInvariant w) (cd : CommitDecision) :
    SyncHandleInvariant (w.syncToCommitDecision cd) := by
  refine ⟨fun k job hk hl ↦ ?_, fun j hj ↦ ?_, fun li o hm ↦ h.syncTo li o (by simpa using hm)⟩
  · obtain ⟨hj, hne⟩ := World.isLive_of_setSyncHandle hk hl
    have hj : (w.syncJobs ++ [⟨cd, .spawned⟩])[k]? = some job := hj
    have hlen := (List.getElem?_eq_some.1 hj).1
    rw [List.length_append, List.length_singleton] at hlen
    rcases Nat.lt_or_ge k w.syncJobs.length with hk' | hk'
    · rw [List.getElem?_append_left hk'] at hj
      exact absurd (h.live k job hj hl) hne
    · show some w.syncJobs.length = some k
      congr 1
      omega
  · cases hj
    simp [World.syncToCommitDecision, World.setSyncHandle_syncJobs_length]

end SyncHandleInvariant

/-- **Each step keeps a single live sync job.** -/
theorem syncHandleInvariant_step (h : SyncHandleInvariant w)
    (hs : w.step cfg verifySignatures ev = some w') : SyncHandleInvariant w' := by
  cases World.step_cases hs with
  | orderedBlockFinalized | commitForwarded | syncEndEpoch | epochStarted =>
    exact h.of_frame rfl rfl _ rfl (by simp)
  | drainResumed =>
    refine h.of_frame (by simp) (by simp) _
      (by rw [World.resumeDrain_executionCalls, List.append_assoc]) ?_
    exact World.forall_mem_resumeDrainCalls _ _ (fun _ _ ↦ nofun) fun _ _ ↦ nofun
  | syncStarted _ cd =>
    refine SyncHandleInvariant.syncToCommitDecision ?_ cd
    exact { h with }
  | syncAccepted | pendingVerified => exact SyncHandleInvariant.exitSyncMode { h with }
  | syncJobStart j job hj hstatus =>
    have hcur : w.syncHandle = some j := h.live j job hj (.inl hstatus)
    refine ⟨fun k job' hk hl ↦ ?_, fun k hk ↦ by simpa using h.latest k hk, fun li o hm ↦ ?_⟩
    · rcases getElem?_set_eq_some hk with ⟨rfl, -⟩ | ⟨-, hk⟩
      · exact hcur
      · exact h.live k job' hk hl
    · rcases List.mem_append.1 hm with hm | hm
      · exact h.syncTo li o hm
      · obtain ⟨-, rfl⟩ := Prod.mk.inj (List.mem_singleton.1 hm)
        simp [hcur]
  | syncJobFinish j job synced hj =>
    refine ⟨fun k job' hk hl ↦ ?_, fun k hk ↦ by simpa using h.latest k hk, h.syncTo⟩
    rcases getElem?_set_eq_some hk with ⟨rfl, rfl⟩ | ⟨-, hk⟩
    · rcases hl with hl | hl <;> cases hl
    · exact h.live k job' hk hl
  | _ => exact { h with }

variable (cfg verifySignatures) in
/-- **At most one sync job is live.**  In every run, a sync job that has neither finished nor been
aborted is the one whose handle the observer holds, and that handle is the latest job's: a job
whose handle is replaced or dropped is aborted, so no two `sync_to` calls are ever outstanding at
once, and none is outside sync mode.  Every `sync_to` is called while the observer holds a sync
handle. -/
theorem at_most_one_live_sync_job (h : Reachable cfg verifySignatures w) :
    (∀ j job, w.syncJobs[j]? = some job → job.IsLive → w.syncHandle = some j) ∧
    (∀ j, w.syncHandle = some j → j + 1 = w.syncJobs.length) ∧
    (∀ li o, (.syncTo li, o) ∈ w.executionCalls → o.syncHandle.isSome) := by
  have hi : SyncHandleInvariant w := by
    induction h with
    | init hw =>
      obtain ⟨root, configs, es, rest, -, rfl⟩ := World.started_eq hw
      exact ⟨fun _ _ h ↦ by simp at h, nofun, fun li o hm ↦ by simp at hm⟩
    | step _ _ hs ih => exact syncHandleInvariant_step ih hs
  exact ⟨hi.live, hi.latest, hi.syncTo⟩

/-- Root `(5, 10)` in epoch 5: a decision `(6, 3)` starts a sync job, a decision `(6, 5)` replaces
it with a second one, which then calls `sync_to`. -/
def resyncRun : Option World :=
  runFrom ⟨true, false, 100⟩ (fun _ _ ↦ true) ⟨⟨5, 10, 10⟩, 0⟩ (some [⟨5, some 1⟩, ⟨6, some 2⟩])
    [subscribeTo 7, .directSend 7 (.commitDecision ⟨⟨⟨6, 3, 63⟩, 0⟩⟩),
      .directSend 7 (.commitDecision ⟨⟨⟨6, 5, 65⟩, 0⟩⟩), .syncJobStart 1]

theorem replaced_sync_job_aborted_in_resyncRun :
    Reachable ⟨true, false, 100⟩ (fun _ _ ↦ true) (resyncRun.get (by decide)) ∧
      (resyncRun.get (by decide)).syncJobs.map (·.status) = [.aborted, .syncing] ∧
      (∀ j job, (resyncRun.get (by decide)).syncJobs[j]? = some job → job.IsLive →
        (resyncRun.get (by decide)).syncHandle = some j) ∧
      (∀ j, (resyncRun.get (by decide)).syncHandle = some j →
        j + 1 = (resyncRun.get (by decide)).syncJobs.length) ∧
      (∀ li o, (.syncTo li, o) ∈ (resyncRun.get (by decide)).executionCalls →
        o.syncHandle.isSome) := by
  have hr : Reachable ⟨true, false, 100⟩ (fun _ _ ↦ true) (resyncRun.get (by decide)) :=
    Reachable.of_runFrom _ _ (Option.some_get _).symm
  exact ⟨hr, by decide, at_most_one_live_sync_job _ _ hr⟩

/-! ## Forwarded decisions are verified

A commit decision reaches `send_commit_msg` by two paths: at once, when a verified pending block of
the current epoch takes it, and in the drain, from the block it was attached to.  Either way its
proof was verified when it was attached, under the epoch state of that moment. -/

/-- The commit proof of `cd` verifies under an epoch state started in `calls`. -/
def DecisionVerifiedIn (verifySignatures : SignatureCheck)
    (calls : List (ExecutionCall × ConsensusObserver)) (cd : CommitDecision) : Prop :=
  ∃ es o, (.startEpoch es, o) ∈ calls ∧ cd.verifyCommitProof verifySignatures es = true

theorem DecisionVerifiedIn.mono {calls calls' : List (ExecutionCall × ConsensusObserver)}
    {cd : CommitDecision} (h : DecisionVerifiedIn verifySignatures calls cd)
    (hs : calls ⊆ calls') : DecisionVerifiedIn verifySignatures calls' cd :=
  let ⟨es, o, hm, hv⟩ := h
  ⟨es, o, hs hm, hv⟩

/-- A forwarded decision's proof verifies under an epoch state started before the call. -/
def ForwardedVerified (verifySignatures : SignatureCheck)
    (pre : List (ExecutionCall × ConsensusObserver)) (c : ExecutionCall × ConsensusObserver) :
    Prop :=
  ∀ cd, c.1 = .sendCommitMsg cd → DecisionVerifiedIn verifySignatures pre cd

/-- What `forwarded_decisions_verified_under_their_epoch` carries from step to step, beside the
started epoch state that `VerifiedInvariant` carries. -/
structure DecisionVerifiedInvariant (verifySignatures : SignatureCheck) (w : World) : Prop where
  /-- A decision attached to a pending block verifies under a started epoch state. -/
  attached : ∀ e ∈ w.pendingOrderedBlocks.entries, ∀ cd, e.commitDecision = some cd →
    DecisionVerifiedIn verifySignatures w.executionCalls cd
  /-- So does every decision the drain has still to forward. -/
  draining : ∀ cd rest, w.syncNotificationAwait = some (.finalizeOrder cd rest) →
    (∀ d, cd = some d → DecisionVerifiedIn verifySignatures w.executionCalls d) ∧
      ∀ ob d, (ob, some d) ∈ rest → DecisionVerifiedIn verifySignatures w.executionCalls d
  /-- Every forwarded decision verifies under an epoch state started before it. -/
  sent : EachCall (ForwardedVerified verifySignatures) w.executionCalls

namespace DecisionVerifiedInvariant

/-- A step that attaches no decision, forwards none, and starts no drain keeps the invariant. -/
theorem of_frame (h : DecisionVerifiedInvariant verifySignatures w)
    (hpending : ∀ e' ∈ w'.pendingOrderedBlocks.entries, ∀ cd, e'.commitDecision = some cd →
      ∃ e ∈ w.pendingOrderedBlocks.entries, e.commitDecision = some cd)
    (hawait : ∀ cd rest, w'.syncNotificationAwait = some (.finalizeOrder cd rest) →
      w.syncNotificationAwait = some (.finalizeOrder cd rest))
    (new : List (ExecutionCall × ConsensusObserver))
    (hcalls : w'.executionCalls = w.executionCalls ++ new)
    (hnew : ∀ c ∈ new, ∀ cd, c.1 ≠ .sendCommitMsg cd) :
    DecisionVerifiedInvariant verifySignatures w' := by
  have hsub : w.executionCalls ⊆ w'.executionCalls := hcalls ▸ List.subset_append_left _ _
  refine ⟨fun e' he' cd hcd ↦ ?_, fun cd rest hw ↦ ?_, ?_⟩
  · obtain ⟨e, he, hcd⟩ := hpending e' he' cd hcd
    exact (h.attached e he cd hcd).mono hsub
  · obtain ⟨hcd, hrest⟩ := h.draining cd rest (hawait cd rest hw)
    exact ⟨fun d hd ↦ (hcd d hd).mono hsub, fun ob d hd ↦ (hrest ob d hd).mono hsub⟩
  · rw [hcalls]
    exact h.sent.append_of_forall fun c hc _ cd hcd ↦ absurd hcd (hnew c hc cd)

/-- An iteration of the drain keeps the invariant when the decisions of the blocks it has left
verify. -/
theorem drainPendingBlocks (h : DecisionVerifiedInvariant verifySignatures w)
    (l : List (OrderedBlock × Option CommitDecision))
    (hl : ∀ ob d, (ob, some d) ∈ l → DecisionVerifiedIn verifySignatures w.executionCalls d) :
    DecisionVerifiedInvariant verifySignatures (w.drainPendingBlocks l) := by
  have hsub : w.executionCalls ⊆ (w.drainPendingBlocks l).executionCalls := by
    rw [World.drainPendingBlocks_executionCalls]
    exact List.subset_append_left _ _
  refine ⟨fun e he cd hcd ↦ (h.attached e (by simpa using he) cd hcd).mono hsub,
    fun cd rest hw ↦ ?_, ?_⟩
  · rcases l with _ | ⟨⟨ob, cd'⟩, l⟩
    · cases hw
    · obtain ⟨rfl, rfl⟩ : cd' = cd ∧ l = rest := by simpa using hw
      exact ⟨fun d hd ↦ (hl ob d (hd ▸ List.mem_cons_self _ _)).mono hsub,
        fun ob' d hd ↦ (hl ob' d (List.mem_cons_of_mem _ hd)).mono hsub⟩
  · rw [World.drainPendingBlocks_executionCalls]
    exact h.sent.append_of_forall (World.forall_mem_drainCalls _ fun _ _ _ h ↦ by cases h)

/-- The drain at the end of sync mode keeps the invariant: it forwards attached decisions only. -/
theorem exitSyncMode (h : DecisionVerifiedInvariant verifySignatures w) :
    DecisionVerifiedInvariant verifySignatures w.exitSyncMode := by
  refine DecisionVerifiedInvariant.drainPendingBlocks ?_ _ fun ob d hd ↦ ?_
  · exact { h with }
  · obtain ⟨e, he, -, -, hcd⟩ := PendingOrderedBlocks.mem_getAllVerifiedPendingBlocks.1 hd
    exact h.attached e he d hcd

/-- The drain goes on: the decision of the block just finalized is forwarded. -/
theorem resumeDrain (h : DecisionVerifiedInvariant verifySignatures w)
    {cd : Option CommitDecision} {rest : List (OrderedBlock × Option CommitDecision)}
    (hw : w.syncNotificationAwait = some (.finalizeOrder cd rest)) :
    DecisionVerifiedInvariant verifySignatures (w.resumeDrain cd rest) := by
  obtain ⟨hcd, hrest⟩ := h.draining cd rest hw
  rcases cd with _ | d
  · exact h.drainPendingBlocks rest hrest
  · have hsub : w.executionCalls ⊆ (w.forwardCommitDecision d).executionCalls :=
      List.subset_append_left _ _
    have hd : DecisionVerifiedInvariant verifySignatures (w.forwardCommitDecision d) :=
      ⟨fun e he cd hcd ↦ (h.attached e he cd hcd).mono hsub, fun _ _ hw' ↦
        (h.draining _ _ hw').imp (fun hd d' hd' ↦ (hd d' hd').mono hsub)
          fun hr ob d' hd' ↦ (hr ob d' hd').mono hsub,
        h.sent.snoc fun _ hd' ↦ by cases hd'; exact hcd d rfl⟩
    exact hd.drainPendingBlocks rest fun ob d' hd' ↦ (hrest ob d' hd').mono hsub

end DecisionVerifiedInvariant

/-- **Each step forwards verified decisions only.**  A decision is attached to its pending block,
or forwarded at once, only after its proof verified under the current epoch state, which
`VerifiedInvariant` shows was started. -/
theorem decisionVerifiedInvariant_step (h : DecisionVerifiedInvariant verifySignatures w)
    (hv : VerifiedInvariant verifySignatures w) (hs : w.step cfg verifySignatures ev = some w') :
    DecisionVerifiedInvariant verifySignatures w' := by
  have keep : ∀ e ∈ w.pendingOrderedBlocks.entries, ∀ cd, e.commitDecision = some cd →
      ∃ e' ∈ w.pendingOrderedBlocks.entries, e'.commitDecision = some cd :=
    fun e he cd hcd ↦ ⟨e, he, hcd⟩
  have shrink : ∀ li : LedgerInfoWithSignatures,
      ∀ e' ∈ (w.pendingOrderedBlocks.removeBlocksForCommit li).entries, ∀ cd,
        e'.commitDecision = some cd →
        ∃ e ∈ w.pendingOrderedBlocks.entries, e.commitDecision = some cd :=
    fun li e' he' ↦ keep e' (PendingOrderedBlocks.mem_removeBlocksForCommit.1 he').1
  have insert : ∀ (ob : OrderedBlock) (v : Bool), ∀ e' ∈ (w.pendingOrderedBlocks.insertOrderedBlock
      cfg.maxNumPendingBlocks ob v).entries, ∀ cd, e'.commitDecision = some cd →
        ∃ e ∈ w.pendingOrderedBlocks.entries, e.commitDecision = some cd := by
    intro ob v e' he' cd hcd
    rcases PendingOrderedBlocks.mem_insertOrderedBlock he' with he' | rfl
    · exact ⟨e', he', hcd⟩
    · cases hcd
  have attach : ∀ (cd : CommitDecision) (es : EpochState), w.epochState = some es →
      cd.verifyCommitProof verifySignatures es = true →
      ∀ e' ∈ (w.pendingOrderedBlocks.updateCommitDecision cd).entries, ∀ d,
        e'.commitDecision = some d → DecisionVerifiedIn verifySignatures w.executionCalls d := by
    intro cd es hes hproof e' he' d hd
    obtain ⟨e, he, rfl⟩ := PendingOrderedBlocks.mem_updateCommitDecision.1 he'
    rcases PendingEntry.attachDecision_commitDecision hd with hd | ⟨rfl, -⟩
    · exact h.attached e he d hd
    · obtain ⟨o, ho⟩ := hv.started es hes
      exact ⟨es, o, ho, hproof⟩
  cases World.step_cases hs with
  | orderedBlockFinalized _ ob => exact h.of_frame (insert ob true) (fun _ _ ↦ id) _ rfl (by simp)
  | orderedBlockBuffered _ ob _ v =>
    exact h.of_frame (insert ob v) (fun _ _ ↦ id) [] (by simp) (by simp)
  | commitForwarded _ cd es _ hes _ hproof _ _ _ _ _ hidle =>
    refine ⟨fun e he d hd ↦ (attach cd es hes hproof e he d hd).mono
      (List.subset_append_left _ _), fun _ _ hw ↦ by simp [hidle] at hw, h.sent.snoc ?_⟩
    rintro _ ⟨⟩
    obtain ⟨o, ho⟩ := hv.started es hes
    exact ⟨es, o, ho, hproof⟩
  | commitAttached _ cd es _ hes _ hproof => exact ⟨attach cd es hes hproof, h.draining, h.sent⟩
  | syncStarted | callbackRemovePendingBlocks =>
    exact h.of_frame (shrink _) (fun _ _ ↦ id) [] (by simp) (by simp)
  | syncEndEpoch | epochStarted => exact h.of_frame keep (by simp) _ rfl (by simp)
  | syncAccepted => exact DecisionVerifiedInvariant.exitSyncMode { h with }
  | pendingVerified =>
    refine DecisionVerifiedInvariant.exitSyncMode (h.of_frame (fun e' he' cd hcd ↦ ?_)
      (fun _ _ ↦ id) [] (by simp) (by simp))
    obtain ⟨e, he, hp⟩ := PendingOrderedBlocks.mem_verifyPendingBlocks.1 he'
    obtain ⟨-, hc, -⟩ := PendingEntry.promote_spec hp
    exact ⟨e, he, hc ▸ hcd⟩
  | drainResumed cd rest hw => exact h.resumeDrain hw
  | syncJobStart => exact h.of_frame keep (fun _ _ ↦ id) _ rfl (by simp)
  | _ => exact { h with }

variable (cfg verifySignatures) in
/-- **Only verified commit decisions are forwarded.**  In every run, every commit decision passed
to `send_commit_msg`, at once or in the drain after state sync, has a commit proof that verifies
under an epoch state of the decision's epoch that had been started before the call. -/
theorem forwarded_decisions_verified_under_their_epoch (h : Reachable cfg verifySignatures w) :
    ∀ pre cd o post, w.executionCalls = pre ++ (.sendCommitMsg cd, o) :: post →
      ∃ es o', (.startEpoch es, o') ∈ pre ∧ es.epoch = cd.epoch ∧
        cd.verifyCommitProof verifySignatures es = true := by
  have hi :
      VerifiedInvariant verifySignatures w ∧ DecisionVerifiedInvariant verifySignatures w := by
    induction h with
    | init hw =>
      refine ⟨verifiedInvariant_init hw, ?_⟩
      obtain ⟨root, configs, es, rest, -, rfl⟩ := World.started_eq hw
      exact ⟨nofun, nofun, eachCall_singleton nofun⟩
    | step _ _ hs ih =>
      exact ⟨verifiedInvariant_step ih.1 hs, decisionVerifiedInvariant_step ih.2 ih.1 hs⟩
  intro pre cd o post hc
  obtain ⟨es, o', hm, hv⟩ := hi.2.sent pre _ post hc cd rfl
  exact ⟨es, o', hm, EpochState.epoch_eq_of_verify hv, hv⟩

theorem drained_decision_verified_in_syncEpisodeRun :
    Reachable ⟨true, false, 100⟩ (fun _ _ ↦ true) (syncEpisodeRun.get (by decide)) ∧
    ∃ pre o post, (syncEpisodeRun.get (by decide)).executionCalls =
      pre ++ (.sendCommitMsg syncedDecision, o) :: post ∧
      ∃ es o', (.startEpoch es, o') ∈ pre ∧ es.epoch = syncedDecision.epoch ∧
        syncedDecision.verifyCommitProof (fun _ _ ↦ true) es = true := by
  have hc : ((syncEpisodeRun.get (by decide)).executionCalls.map (·.1))[3]? =
      some (.sendCommitMsg syncedDecision) := by
    decide
  obtain ⟨o, e⟩ := split_at_call hc
  exact ⟨reachable_syncEpisodeRun, _, o, _, e,
    forwarded_decisions_verified_under_their_epoch _ _ reachable_syncEpisodeRun _ _ o _ e⟩

/-! ## No verified block is held back

A verified block waits in the pending blocks only while the observer syncs: outside sync mode it
is finalized on arrival, and leaving sync mode drains every verified block, one `finalize_order`
at a time. -/

variable (cfg verifySignatures) in
/-- **Outside sync mode, no verified pending block is held back.**  In every run, while the
observer holds no sync handle, each pending block marked verified has already been passed to
`finalize_order`, or the drain is under way and has it still to finalize; only the blocks kept
unverified, of another epoch, wait for an epoch change. -/
theorem verified_pending_blocks_finalized_outside_sync_mode
    (h : Reachable cfg verifySignatures w) (hsync : w.syncHandle = none) :
    ∀ e ∈ w.pendingOrderedBlocks.entries, e.verified = true →
      (∃ o, (.finalizeOrder e.orderedBlock, o) ∈ w.executionCalls) ∨
        ∃ cd rest, w.syncNotificationAwait = some (.finalizeOrder cd rest) ∧
          ∃ d, (e.orderedBlock, d) ∈ rest := by
  have hi : DecisionInvariant w := by
    clear hsync
    induction h with
    | init hw =>
      obtain ⟨root, configs, es, rest, -, rfl⟩ := World.started_eq hw
      exact ⟨nofun, fun _ ↦ nofun, nofun, eachCall_singleton nofun⟩
    | step _ _ hs ih => exact decisionInvariant_step ih hs
  exact hi.finalized hsync

theorem synced_block_finalized_in_syncEpisodeRun :
    Reachable ⟨true, false, 100⟩ (fun _ _ ↦ true) (syncEpisodeRun.get (by decide)) ∧
      (syncEpisodeRun.get (by decide)).syncHandle = none ∧
      (syncEpisodeRun.get (by decide)).pendingOrderedBlocks.entries =
        [⟨syncedBlock, true, some syncedDecision⟩] ∧
      ∀ e ∈ (syncEpisodeRun.get (by decide)).pendingOrderedBlocks.entries, e.verified = true →
        (∃ o, (.finalizeOrder e.orderedBlock, o) ∈
          (syncEpisodeRun.get (by decide)).executionCalls) ∨
        ∃ cd rest, (syncEpisodeRun.get (by decide)).syncNotificationAwait =
          some (.finalizeOrder cd rest) ∧ ∃ d, (e.orderedBlock, d) ∈ rest := by
  have hsync : (syncEpisodeRun.get (by decide)).syncHandle = none := by
    decide
  exact ⟨reachable_syncEpisodeRun, hsync, by decide,
    verified_pending_blocks_finalized_outside_sync_mode _ _ reachable_syncEpisodeRun hsync⟩

end Observer
