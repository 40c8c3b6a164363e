import ConsensusObserver.Observer

/-!
# The progress check and the subscription

On every tick `check_progress` checks the active subscription and, when there is none left,
subscribes anew.  The subscription's own health checks live in `subscription.rs`, which is not
part of the source: their outcomes are inputs of the tick (`ProgressCheckInputs`), as are the
connected peers, the peers subscribed to this node, and the answers to the `Subscribe` requests.

`check_progress_keeps_or_resubscribes` gives a tick in closed form: a healthy subscription is kept
and nothing is sent; otherwise a task is spawned to send its peer an `Unsubscribe`, and `Subscribe`
requests go down the sorted candidates up to the first that acks
(`World.subscribeToSortedPeers_eq_find`).  The `Subscribe` requests are sent by the tick itself,
the `Unsubscribe` whenever the spawned task runs.
-/

set_option autoImplicit false

namespace Observer

/-- What a progress check reads from outside the observer. -/
structure ProgressCheckInputs where
  /-- `get_connected_peers_and_metadata`, or `none` when it fails. -/
  connectedPeers : Option (List (Nat × PeerMetadata))
  /-- The outcome of `check_subscription_timeout`. -/
  subscriptionTimeout : Except Error Unit
  /-- The outcome of `check_syncing_progress`. -/
  syncingProgress : Except Error Unit
  /-- The outcome of `check_subscription_peer_optimality`. -/
  peerOptimality : Except Error Unit
  /-- The publisher's active subscribers (none without a publisher). -/
  activeSubscribers : List Nat
  /-- The answer of each peer to a `Subscribe` request; `none` is an RPC error. -/
  subscribeResponse : Nat → Option ConsensusObserverResponse

/-- `check_active_subscription`: the peer must still be connected, and the subscription must pass
its timeout, progress and optimality checks, in that order. -/
def checkActiveSubscription (subscription : ConsensusObserverSubscription)
    (inputs : ProgressCheckInputs) : Except Error Unit :=
  if (inputs.connectedPeers.map fun peers ↦
      peers.any (·.1 == subscription.peerNetworkId)).getD false then do
    inputs.subscriptionTimeout
    inputs.syncingProgress
    match inputs.connectedPeers with
    | some _ => inputs.peerOptimality
    | none => pure ()
  else .error (.subscriptionDisconnected "The peer is no longer connected!")

/-- The order `sort_peers_by_distance_and_latency` ranks peers in: distance from the validators,
then latency, then the peer id. -/
def peerRankLe (a b : Nat × PeerMetadata) : Bool :=
  a.2.distanceFromValidators < b.2.distanceFromValidators ||
    (a.2.distanceFromValidators == b.2.distanceFromValidators &&
      (a.2.latency < b.2.latency || (a.2.latency == b.2.latency && a.1 ≤ b.1)))

/-- Modelled from the spec: `sort_peers_by_distance_and_latency` (in `subscription.rs`) sorts the
peers by validator distance, then latency, ties broken by peer id. -/
def sortPeersByDistanceAndLatency (peers : List (Nat × PeerMetadata)) : List Nat :=
  (peers.insertionSort fun a b ↦ peerRankLe a b = true).map (·.1)

/-- `sort_peers_for_subscription`: the connected peers but the previous one and those subscribed
to this node, sorted; `none` when the connected peers cannot be read. -/
def sortPeersForSubscription (previousSubscriptionPeer : Option Nat)
    (inputs : ProgressCheckInputs) : Option (List Nat) :=
  inputs.connectedPeers.map fun peers ↦ sortPeersByDistanceAndLatency
    (peers.filter fun p ↦
      previousSubscriptionPeer ≠ some p.1 && !inputs.activeSubscribers.contains p.1)

namespace World

/-- The loop of `create_new_observer_subscription`: a `Subscribe` request to each peer in turn,
until one answers `SubscribeAck`. -/
def subscribeToSortedPeers (w : World) (inputs : ProgressCheckInputs) : List Nat → World
  | [] => w
  | peer :: rest =>
    let w := { w with
      networkRequests := w.networkRequests ++ [(peer, ConsensusObserverRequest.subscribe)] }
    match inputs.subscribeResponse peer with
    | some .subscribeAck => { w with activeObserverSubscription := some ⟨peer⟩ }
    | _ => w.subscribeToSortedPeers inputs rest

/-- `create_new_observer_subscription`. -/
def createNewObserverSubscription (w : World) (previousSubscriptionPeer : Option Nat)
    (inputs : ProgressCheckInputs) : World :=
  match sortPeersForSubscription previousSubscriptionPeer inputs with
  | some sortedPeers => w.subscribeToSortedPeers inputs sortedPeers
  | none => w

/-- `check_progress`: an unhealthy subscription is dropped and its peer unsubscribed from;
without a subscription, a new one is sought among the other peers. -/
def checkProgress (w : World) (inputs : ProgressCheckInputs) : World :=
  let activeSubscriptionPeer := w.activeObserverSubscription.map (·.peerNetworkId)
  let w := match w.activeObserverSubscription with
    | some subscription =>
      match checkActiveSubscription subscription inputs with
      | .ok () => w
      | .error _ =>
        { w with activeObserverSubscription := none }.unsubscribeFromPeer
          subscription.peerNetworkId
    | none => w
  if w.activeObserverSubscription.isNone then
    w.createNewObserverSubscription activeSubscriptionPeer inputs
  else w

end World

/-! ## What a progress check does -/

/-- Whether `peer` answered its `Subscribe` request with `SubscribeAck`. -/
def ProgressCheckInputs.acked (inputs : ProgressCheckInputs) (peer : Nat) : Bool :=
  inputs.subscribeResponse peer == some .subscribeAck

/-- The subscribe loop in closed form: it asks the peers in order up to the first that acks, and
subscribes to that one. -/
theorem World.subscribeToSortedPeers_eq_find (w : World) (inputs : ProgressCheckInputs) :
    ∀ peers : List Nat, w.subscribeToSortedPeers inputs peers = { w with
      activeObserverSubscription :=
        ((peers.find? inputs.acked).map ConsensusObserverSubscription.mk).or
          w.activeObserverSubscription
      networkRequests := w.networkRequests ++
        (peers.take (peers.findIdx inputs.acked + 1)).map (·, .subscribe) }
  | [] => by simp [subscribeToSortedPeers]
  | peer :: rest => by
    unfold subscribeToSortedPeers
    split <;> rename_i hr
    · have hack : inputs.acked peer = true := by simp [ProgressCheckInputs.acked, hr]
      simp [List.find?_cons, List.findIdx_cons, hack]
    · have hack : inputs.acked peer = false := by
        cases h : inputs.subscribeResponse peer with
        | none => simp [ProgressCheckInputs.acked, h]
        | some r => cases r <;> simp_all [ProgressCheckInputs.acked]
      rw [World.subscribeToSortedPeers_eq_find _ inputs rest]
      simp [List.find?_cons, List.findIdx_cons, hack]

/-- With the connected peers `S` read, the active subscription to `p` passes its check exactly when
`p` is connected and the timeout, progress and optimality checks pass. -/
theorem checkActiveSubscription_eq_ok {inputs : ProgressCheckInputs}
    {S : List (Nat × PeerMetadata)} (hS : inputs.connectedPeers = some S)
    (s : ConsensusObserverSubscription) :
    checkActiveSubscription s inputs = .ok () ↔ s.peerNetworkId ∈ S.map (·.1) ∧
      inputs.subscriptionTimeout = .ok () ∧ inputs.syncingProgress = .ok () ∧
      inputs.peerOptimality = .ok () := by
  unfold checkActiveSubscription
  simp only [hS, Option.map_some', Option.getD_some]
  split <;> rename_i hany
  · have hc : s.peerNetworkId ∈ S.map (·.1) := by simpa [List.any_eq_true] using hany
    rcases inputs.subscriptionTimeout with _ | ⟨⟩ <;> rcases inputs.syncingProgress with _ | ⟨⟩ <;>
      rcases inputs.peerOptimality with _ | ⟨⟩ <;>
      simp [hc, bind, Except.bind, pure, Except.pure]
  · have hc : s.peerNetworkId ∉ S.map (·.1) := by simpa [List.any_eq_true] using hany
    simp [hc]

/-- `sort_peers_for_subscription` with the connected peers `S` read: `S` without the previous
peer and without the peers subscribed to this node, sorted. -/
theorem sortPeersForSubscription_eq {inputs : ProgressCheckInputs}
    {S : List (Nat × PeerMetadata)} (hS : inputs.connectedPeers = some S) (p : Option Nat) :
    sortPeersForSubscription p inputs = some (sortPeersByDistanceAndLatency
      (S.filter fun q ↦ p ≠ some q.1 ∧ q.1 ∉ inputs.activeSubscribers)) := by
  simp [sortPeersForSubscription, hS]

/-- **A progress check keeps a healthy subscription, or replaces it.**  With the connected peers
`S` read, a subscription to a connected peer that passes the timeout, progress and optimality
checks is kept, and nothing is sent.  Otherwise a task is spawned to send the peer of the
subscription, if there was one, an `Unsubscribe`; `Subscribe` requests go, in the sorted order of
`S` without that peer and without the peers subscribed to this node, to each peer up to the first
that answers `SubscribeAck`; and the new subscription is to that peer, or there is none. -/
theorem check_progress_keeps_or_resubscribes (w : World) (inputs : ProgressCheckInputs)
    (S : List (Nat × PeerMetadata)) (hS : inputs.connectedPeers = some S) :
    (∀ s, w.activeObserverSubscription = some s → s.peerNetworkId ∈ S.map (·.1) →
      inputs.subscriptionTimeout = .ok () → inputs.syncingProgress = .ok () →
      inputs.peerOptimality = .ok () → w.checkProgress inputs = w) ∧
    (¬(∃ s, w.activeObserverSubscription = some s ∧ s.peerNetworkId ∈ S.map (·.1) ∧
        inputs.subscriptionTimeout = .ok () ∧ inputs.syncingProgress = .ok () ∧
        inputs.peerOptimality = .ok ()) →
      w.checkProgress inputs =
        let sorted := sortPeersByDistanceAndLatency (S.filter fun q ↦
          w.activeObserverSubscription.map (·.peerNetworkId) ≠ some q.1 ∧
            q.1 ∉ inputs.activeSubscribers)
        { w with
          activeObserverSubscription :=
            (sorted.find? inputs.acked).map ConsensusObserverSubscription.mk
          unsubscribeTasks := w.unsubscribeTasks ++
            (w.activeObserverSubscription.map (·.peerNetworkId)).toList.map (⟨·, false⟩)
          networkRequests := w.networkRequests ++
            (sorted.take (sorted.findIdx inputs.acked + 1)).map (·, .subscribe) }) := by
  rcases hw : w.activeObserverSubscription with _ | s
  · refine ⟨nofun, fun _ ↦ ?_⟩
    simp [World.checkProgress, hw, World.createNewObserverSubscription,
      sortPeersForSubscription_eq hS, World.subscribeToSortedPeers_eq_find]
  · have hcheck := checkActiveSubscription_eq_ok hS s
    refine ⟨fun s' hs' hp ht hg ho ↦ ?_, fun hnot ↦ ?_⟩
    · cases hs'
      simp [World.checkProgress, hw, hcheck.2 ⟨hp, ht, hg, ho⟩]
    · rcases hr : checkActiveSubscription s inputs with e | ⟨⟩
      · simp [World.checkProgress, hw, hr, World.createNewObserverSubscription,
          World.unsubscribeFromPeer, sortPeersForSubscription_eq hS,
          World.subscribeToSortedPeers_eq_find]
      · exact absurd ⟨s, rfl, hcheck.1 hr⟩ hnot

/-- An observer subscribed to peer 7, and otherwise fresh from `new`. -/
def subscribedToSeven : World :=
  { toConsensusObserver := { ConsensusObserver.new ⟨⟨5, 10, 10⟩, 0⟩ none with
      activeObserverSubscription := some ⟨7⟩ }
    executionCalls := [], networkRequests := [], unsubscribeTasks := [], syncNotifications := [],
    syncJobs := [], commitCallbacks := 0, commitCallbackRuns := [], acceptedBlocks := [],
    syncNotificationAwait := none }

/-- A tick at which the subscription to 7 fails its optimality check; of the other connected
peers, 8 ranks first but its `Subscribe` fails, and 9 acks. -/
def suboptimalTick : ProgressCheckInputs :=
  ⟨some [(7, ⟨1, 5⟩), (8, ⟨0, 5⟩), (9, ⟨0, 9⟩)], .ok (), .ok (),
    .error (.subscriptionSuboptimal "suboptimal"), [],
    fun peer ↦ if peer = 9 then some .subscribeAck else none⟩

theorem suboptimal_subscription_replaced_at_suboptimalTick :
    suboptimalTick.connectedPeers = some [(7, ⟨1, 5⟩), (8, ⟨0, 5⟩), (9, ⟨0, 9⟩)] ∧
      (subscribedToSeven.checkProgress suboptimalTick).activeObserverSubscription = some ⟨9⟩ ∧
      (subscribedToSeven.checkProgress suboptimalTick).unsubscribeTasks = [⟨7, false⟩] ∧
      (subscribedToSeven.checkProgress suboptimalTick).networkRequests =
        [(8, .subscribe), (9, .subscribe)] := by
  have h := (check_progress_keeps_or_resubscribes subscribedToSeven suboptimalTick _ rfl).2
    (by rintro ⟨_, _, _, _, _, ho⟩; exact Except.noConfusion ho)
  rw [h]
  exact ⟨rfl, by decide, rfl, by decide⟩

end Observer
