import ConsensusObserver.Steps

/-!
# Sync jobs and their notifications

`sync_to_commit_decision` spawns a job that calls `sync_to` and then, whatever `sync_to`
returned, posts the decision's `(epoch, round)` on the sync channel.  The main loop accepts a
notification when it is for the root's epoch and round (`check_root_epoch_and_round`); the channel
carries nothing else, so the loop cannot tell which job posted it, nor whether its `sync_to`
succeeded.

* `notificationsPosted_step`: every notification on the channel was posted by a job that has
  finished, with that job's decision's `(epoch, round)`.  Aborting a job never touches a finished
  one, so this holds in every run.
* `accepted_notification_posted_by_finished_job`: the notification the loop accepts was posted by a
  finished job whose decision is at the root's `(epoch, round)` — and by nothing more.
* `failed_sync_ends_sync_mode`: a job whose `sync_to` failed still ends sync mode.
* `stale_notification_ends_newer_sync`: once the root has moved back (`Root.lean`), the
  notification of a replaced job is accepted while a newer job holds the handle.
-/

set_option autoImplicit false

namespace Observer

/-- Job `k` of `jobs` is `job`, and it has finished. -/
def FinishedAt (jobs : List SyncJob) (k : Nat) (job : SyncJob) : Prop :=
  jobs[k]? = some job ∧ ∃ synced, job.status = .finished synced

/-- The notification `n` was posted by a finished job of `jobs`, with its decision's
`(epoch, round)`. -/
def PostedBy (jobs : List SyncJob) (n : SyncNotification) : Prop :=
  ∃ job, FinishedAt jobs n.job job ∧ n.epoch = job.commitDecision.epoch ∧
    n.round = job.commitDecision.round

/-- Every notification on the channel was posted by a finished job. -/
def NotificationsPosted (w : World) : Prop :=
  ∀ n ∈ w.syncNotifications, PostedBy w.syncJobs n

section FinishedAt

variable {jobs jobs' : List SyncJob} {k : Nat} {job : SyncJob}

theorem PostedBy.mono {n : SyncNotification}
    (hj : ∀ k job, FinishedAt jobs k job → FinishedAt jobs' k job) (h : PostedBy jobs n) :
    PostedBy jobs' n :=
  let ⟨job, hf, he, hr⟩ := h
  ⟨job, hj _ _ hf, he, hr⟩

/-- An abort leaves a finished job as it is. -/
theorem FinishedAt.modify_abort (h : FinishedAt jobs k job) (i : Nat) :
    FinishedAt (jobs.modify SyncJob.abort i) k job := by
  obtain ⟨hk, synced, hs⟩ := h
  refine ⟨?_, synced, hs⟩
  rw [List.getElem?_modify, hk]
  split_ifs <;> simp [SyncJob.abort, hs]

theorem FinishedAt.append (h : FinishedAt jobs k job) (l : List SyncJob) :
    FinishedAt (jobs ++ l) k job :=
  ⟨List.getElem?_append_left (List.getElem?_eq_some.1 h.1).1 ▸ h.1, h.2⟩

/-- Setting job `j`, which has not finished, leaves every finished job as it is. -/
theorem FinishedAt.set (h : FinishedAt jobs k job) {j : Nat} {old : SyncJob}
    (hj : jobs[j]? = some old) (hold : ∀ synced, old.status ≠ .finished synced) (new : SyncJob) :
    FinishedAt (jobs.set j new) k job := by
  obtain ⟨hk, synced, hs⟩ := h
  have hne : j ≠ k := by
    rintro rfl
    rw [hj] at hk
    cases hk
    exact hold synced hs
  exact ⟨(List.getElem?_set_ne hne).trans hk, synced, hs⟩

end FinishedAt

variable {cfg : ConsensusObserverConfig} {verifySignatures : SignatureCheck} {w w' : World}
  {ev : Event}

theorem FinishedAt.setSyncHandle {k : Nat} {job : SyncJob} (h : FinishedAt w.syncJobs k job)
    (handle : Option Nat) : FinishedAt (w.setSyncHandle handle).syncJobs k job := by
  unfold World.setSyncHandle
  split
  · exact h.modify_abort _
  · exact h

/-! ## Live jobs -/

/-- A job that has not finished and has not been aborted. -/
def SyncJob.IsLive (job : SyncJob) : Prop :=
  job.status = .spawned ∨ job.status = .syncing

theorem SyncJob.not_isLive_abort (job : SyncJob) : ¬job.abort.IsLive := by
  unfold SyncJob.abort IsLive
  split <;> rename_i hs <;> simp [hs]

theorem World.setSyncHandle_syncJobs_getElem? (w : World) (handle : Option Nat) (k : Nat) :
    (w.setSyncHandle handle).syncJobs[k]? =
      (if w.syncHandle = some k then SyncJob.abort else id) <$> w.syncJobs[k]? := by
  unfold World.setSyncHandle
  split <;> rename_i j hj
  · by_cases hk : j = k <;> simp [hj, hk, List.getElem?_modify]
  · simp [hj]

theorem SyncJob.abort_commitDecision (job : SyncJob) :
    job.abort.commitDecision = job.commitDecision := by
  unfold SyncJob.abort
  split <;> rfl

theorem World.setSyncHandle_syncJobs_length (w : World) (handle : Option Nat) :
    (w.setSyncHandle handle).syncJobs.length = w.syncJobs.length := by
  unfold World.setSyncHandle
  split <;> simp

/-- After a handle is installed, a live job was live before, and its handle was not the one
replaced. -/
theorem World.isLive_of_setSyncHandle {w : World} {handle : Option Nat} {k : Nat}
    {job : SyncJob} (hk : (w.setSyncHandle handle).syncJobs[k]? = some job) (hl : job.IsLive) :
    w.syncJobs[k]? = some job ∧ w.syncHandle ≠ some k := by
  rw [World.setSyncHandle_syncJobs_getElem?] at hk
  obtain ⟨job₀, hj₀, rfl⟩ := Option.map_eq_some'.1 hk
  split_ifs at hl ⊢ with habort
  · exact absurd hl (SyncJob.not_isLive_abort job₀)
  · exact ⟨hj₀, habort⟩

/-- Installing a handle keeps every job's decision. -/
theorem World.commitDecision_of_setSyncHandle {w : World} {handle : Option Nat} {k : Nat}
    {job : SyncJob} (hk : (w.setSyncHandle handle).syncJobs[k]? = some job) :
    ∃ job₀, w.syncJobs[k]? = some job₀ ∧ job.commitDecision = job₀.commitDecision := by
  rw [World.setSyncHandle_syncJobs_getElem?] at hk
  obtain ⟨job₀, hj₀, rfl⟩ := Option.map_eq_some'.1 hk
  refine ⟨job₀, hj₀, ?_⟩
  split_ifs
  · exact SyncJob.abort_commitDecision job₀
  · rfl

theorem getElem?_set_eq_some {α : Type} {l : List α} {i k : Nat} {a b : α}
    (h : (l.set i a)[k]? = some b) : i = k ∧ a = b ∨ i ≠ k ∧ l[k]? = some b := by
  rw [List.getElem?_set'] at h
  split_ifs at h with hik
  · obtain ⟨_, -, rfl⟩ := Option.map_eq_some'.1 h
    exact .inl ⟨hik, rfl⟩
  · exact .inr ⟨hik, h⟩

/-- **Each step keeps every notification on the channel posted by a finished job.** -/
theorem notificationsPosted_step (h : NotificationsPosted w)
    (hs : w.step cfg verifySignatures ev = some w') : NotificationsPosted w' := by
  cases World.step_cases hs with
  | syncStarted peer cd =>
    intro n hn
    refine (h n hn).mono fun k job hk ↦ ?_
    unfold World.syncToCommitDecision
    apply FinishedAt.setSyncHandle
    exact hk.append _
  | syncIgnored n rest hn => exact fun m hm ↦ h m (hn ▸ List.mem_cons_of_mem _ hm)
  | syncAccepted n rest es hn =>
    intro m hm
    simp only [World.exitSyncMode_syncNotifications, World.exitSyncMode_syncJobs] at hm ⊢
    exact (h m (hn ▸ List.mem_cons_of_mem _ hm)).mono fun k job hk ↦ hk.setSyncHandle _
  | syncEndEpoch n rest es hn => exact fun m hm ↦ h m (hn ▸ List.mem_cons_of_mem _ hm)
  | pendingVerified =>
    intro m hm
    simp only [World.exitSyncMode_syncNotifications, World.exitSyncMode_syncJobs] at hm ⊢
    exact (h m hm).mono fun k job hk ↦ hk.setSyncHandle _
  | drainResumed => simpa [NotificationsPosted] using h
  | syncJobStart j job hj hstatus =>
    exact fun n hn ↦ (h n hn).mono fun k job' hk ↦
      hk.set hj (fun _ h ↦ by rw [hstatus] at h; cases h) _
  | syncJobFinish j job synced hj hstatus =>
    intro n hn
    rcases List.mem_append.1 hn with hn | hn
    · exact (h n hn).mono fun k job' hk ↦ hk.set hj (fun _ h ↦ by rw [hstatus] at h; cases h) _
    · rw [List.mem_singleton] at hn
      subst hn
      exact ⟨_, ⟨List.getElem?_set_self (List.getElem?_eq_some.1 hj).1, synced, rfl⟩, rfl, rfl⟩
  | _ => exact h

variable (cfg verifySignatures) in
/-- **The notification the loop accepts.**  In every run, when the notification at the head of
the sync channel passes the root check, it was posted by a job that has finished — successful or
not — and whose commit decision is at the root's `(epoch, round)`.  Nothing else ties it to the
job whose handle is installed. -/
theorem accepted_notification_posted_by_finished_job {w : World}
    (h : Reachable cfg verifySignatures w) {n : SyncNotification} {rest : List SyncNotification}
    (hn : w.syncNotifications = n :: rest)
    (hroot : checkRootEpochAndRound w.root n.epoch n.round = true) :
    ∃ job synced, w.syncJobs[n.job]? = some job ∧ job.status = .finished synced ∧
      job.commitDecision.epoch = w.root.commitInfo.epoch ∧
      job.commitDecision.round = w.root.commitInfo.round := by
  have hi : NotificationsPosted w := by
    clear hn hroot
    induction h with
    | init hw =>
      obtain ⟨root, configs, es, rest, -, rfl⟩ := World.started_eq hw
      exact nofun
    | step _ _ hs ih => exact notificationsPosted_step ih hs
  obtain ⟨job, ⟨hj, synced, hs⟩, he, hr⟩ := hi n (hn ▸ List.mem_cons_self _ _)
  simp only [checkRootEpochAndRound, Bool.and_eq_true, beq_iff_eq] at hroot
  exact ⟨job, synced, hj, hs, (hroot.1.trans he).symm, (hroot.2.trans hr).symm⟩

/-- A decision `(6, 3)` from the next epoch starts job 0, whose `sync_to` fails; its notification
waits at the head of the channel. -/
def finishedJobRun : Option World :=
  runFrom ⟨true, false, 100⟩ (fun _ _ ↦ true) ⟨⟨5, 10, 10⟩, 0⟩ (some [⟨5, some 1⟩, ⟨6, some 2⟩])
    [subscribeTo 7, .directSend 7 (.commitDecision ⟨⟨⟨6, 3, 63⟩, 0⟩⟩), .syncJobStart 0,
      .syncJobFinish 0 false]

theorem finished_job_notification_at_root :
    Reachable ⟨true, false, 100⟩ (fun _ _ ↦ true) (finishedJobRun.get (by decide)) ∧
      (finishedJobRun.get (by decide)).syncNotifications = [⟨6, 3, 0⟩] ∧
      checkRootEpochAndRound (finishedJobRun.get (by decide)).root 6 3 = true ∧
      ∃ job synced, (finishedJobRun.get (by decide)).syncJobs[0]? = some job ∧
        job.status = .finished synced ∧
        job.commitDecision.epoch = (finishedJobRun.get (by decide)).root.commitInfo.epoch ∧
        job.commitDecision.round = (finishedJobRun.get (by decide)).root.commitInfo.round := by
  have hr : Reachable ⟨true, false, 100⟩ (fun _ _ ↦ true) (finishedJobRun.get (by decide)) :=
    Reachable.of_runFrom _ _ (Option.some_get _).symm
  have hn : (finishedJobRun.get (by decide)).syncNotifications = [⟨6, 3, 0⟩] := by
    decide
  have hroot : checkRootEpochAndRound (finishedJobRun.get (by decide)).root 6 3 = true := by
    decide
  exact ⟨hr, hn, hroot, accepted_notification_posted_by_finished_job _ _ hr hn hroot⟩

/-- A decision `(6, 3)` from the next epoch starts job 0, whose `sync_to` fails; the job posts
all the same, and its notification takes the observer out of sync mode into epoch 6, once
`end_epoch` and `start_epoch` have returned. -/
theorem failed_sync_ends_sync_mode :
    (runFrom ⟨true, false, 100⟩ (fun _ _ ↦ true) ⟨⟨5, 10, 10⟩, 0⟩
      (some [⟨5, some 1⟩, ⟨6, some 2⟩])
      [subscribeTo 7, .directSend 7 (.commitDecision ⟨⟨⟨6, 3, 63⟩, 0⟩⟩), .syncJobStart 0,
        .syncJobFinish 0 false]).map (fun w ↦ (w.syncHandle, w.syncNotifications)) =
      some (some 0, [⟨6, 3, 0⟩]) ∧
    (runFrom ⟨true, false, 100⟩ (fun _ _ ↦ true) ⟨⟨5, 10, 10⟩, 0⟩
      (some [⟨5, some 1⟩, ⟨6, some 2⟩])
      [subscribeTo 7, .directSend 7 (.commitDecision ⟨⟨⟨6, 3, 63⟩, 0⟩⟩), .syncJobStart 0,
        .syncJobFinish 0 false, .syncNotification, .resumeSyncNotification,
        .resumeSyncNotification]).map
      (fun w ↦ (w.syncHandle, w.epochState, w.syncJobs.map (·.status))) =
      some (none, some ⟨6, 2⟩, [.finished false]) := by
  decide

/-- Job 0 syncs to `(5, 20)` and posts.  A decision `(4, 30)` then moves the root back and starts
job 1, and `(5, 20)` again starts job 2, which holds the handle.  Job 0's notification, still on
the channel, passes the root check and ends sync mode. -/
theorem stale_notification_ends_newer_sync :
    (runFrom ⟨true, false, 100⟩ (fun _ _ ↦ true) ⟨⟨5, 10, 10⟩, 0⟩ (some [⟨5, some 1⟩])
      [subscribeTo 7, .directSend 7 (.commitDecision ⟨⟨⟨5, 20, 20⟩, 0⟩⟩), .syncJobStart 0,
        .syncJobFinish 0 true, .directSend 7 (.commitDecision ⟨⟨⟨4, 30, 30⟩, 0⟩⟩),
        .directSend 7 (.commitDecision ⟨⟨⟨5, 20, 20⟩, 0⟩⟩)]).map
      (fun w ↦ (w.syncHandle, w.syncNotifications)) = some (some 2, [⟨5, 20, 0⟩]) ∧
    (runFrom ⟨true, false, 100⟩ (fun _ _ ↦ true) ⟨⟨5, 10, 10⟩, 0⟩ (some [⟨5, some 1⟩])
      [subscribeTo 7, .directSend 7 (.commitDecision ⟨⟨⟨5, 20, 20⟩, 0⟩⟩), .syncJobStart 0,
        .syncJobFinish 0 true, .directSend 7 (.commitDecision ⟨⟨⟨4, 30, 30⟩, 0⟩⟩),
        .directSend 7 (.commitDecision ⟨⟨⟨5, 20, 20⟩, 0⟩⟩), .syncNotification]).map
      (fun w ↦ (w.syncHandle, w.syncJobs.map (·.status))) =
      some (none, [.finished true, .aborted, .aborted]) := by
  decide

end Observer
