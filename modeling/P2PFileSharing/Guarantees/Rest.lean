import P2PFileSharing.Guarantees.Hits
import P2PFileSharing.Proofs.Reach
import P2PFileSharing.Proofs.Rest

/-!
# The network comes to rest

Once nobody types a command any more and while the cleaner sleeps, every way of going on ends,
and it ends with every queue and every stream empty and every lock free: no thread waits for
good, and a query cannot go round for ever. What was answered by then is in the hit list of the
peer that asked. The one other way to end is that a peer has no message number left.
-/

namespace P2PFileSharing

/-- The network when nobody types a command and the cleaner sleeps. -/
def undisturbed (net : Setup) : System Network Label :=
  (network net).restrict fun _ l => l.isUndisturbed = true

/-- What the network comes to. -/
structure Network.Settled (net : Setup) (s : Network) : Prop where
  /-- Nothing is left to do, on any stream, in any queue and for any thread. -/
  atRest : s.AtRest
  /-- Nothing stopped a peer, and `m_send_buffer_mutex` is free everywhere. -/
  running : ∀ p, (s.peers p).tables.fault = none ∧ (s.peers p).tables.sendBufferMutex = false
  /-- A peer that answered an id has one entry in the hit list of the peer that asked, and
  nobody else has any. -/
  answered : ∀ o id message, (o, .issued id message) ∈ s.log → ∀ q ∈ net.peers,
    (s.HasAnswered q id → s.entriesFor net o id q = 1) ∧
      (¬s.HasAnswered q id → s.entriesFor net o id q = 0)
  /-- So whoever asked for a file that a neighbour has knows of it. -/
  found : ∀ o id (f : {f : Str // ValidName f}),
    (o, .issued id (createQueryMessage o id f.1)) ∈ s.log →
      ∀ q ∈ net.peerIdToSockfd o, net.hasFile q f.1 = true → s.entriesFor net o id q = 1

section Network

variable {net : Setup} {s : Network} {a : Flood} {o q : PeerID} {id : SMessageID}

/-- At rest only the cleaner has something to do. -/
theorem cleaning_of_atRest (h : Refines s a) (ha : (flood net).Reachable a) (hrest : s.AtRest) :
    ∀ w ∈ a.work, w.task.duty = .cleaning := by
  intro w hw
  have hmem := h.mem_sectionsAt hw
  have hduty := reachable_onDuty ha w hw
  cases hpl : w.place with
  | thread p th =>
      by_cases hth : th = .mantain
      · subst hth
        exact hduty p .mantain hpl
      · rw [hpl, Network.sectionsAt, hrest.threads p th hth] at hmem
        cases hmem
  | broadcastQueue p =>
      rw [hpl, Network.sectionsAt, hrest.broadcastQueue p] at hmem
      cases hmem
  | messagesQueue p =>
      rw [hpl, Network.sectionsAt, hrest.messagesQueue p] at hmem
      cases hmem
  | socket p r =>
      rw [hpl, Network.sectionsAt, hrest.sockets p r] at hmem
      cases hmem

/-- So whatever counts tasks of another kind counts none. -/
theorem total_of_atRest (h : Refines s a) (ha : (flood net).Reachable a) (hrest : s.AtRest)
    {f : PeerID → Task → Nat} (hf : ∀ r task, task.duty = .cleaning → f r task = 0) :
    a.total f = 0 :=
  weigh_eq_zero fun w hw => hf _ _ (cleaning_of_atRest h ha hrest w hw)

theorem mutex_of_atRest (hs : Reachable net s) (hrest : s.AtRest) (p : PeerID) :
    (s.peers p).tables.sendBufferMutex = false := by
  have hpoint := reachable_broadcastPoint hs p
  rw [Peer.AtBroadcastPoint, hrest.threads p .broadcast (by decide)] at hpoint
  generalize (s.peers p).tables.sendBufferMutex = mutex at hpoint
  generalize hnil : ([] : List Section) = secs at hpoint
  cases hpoint with
  | idle => rfl
  | waiting => rfl
  | sending message peers => simp at hnil

theorem entries_of_atRest (h : Refines s a) (ha : (flood net).Reachable a)
    (hc : a.NothingRemoved) (hrest : s.AtRest) (hq : q ∈ net.peers) :
    s.entriesFor net id.peerId id q = a.count (ofPeer q (Event.isAnswered id)) := by
  have hnone : s.hitsOnTheWay net id q = 0 := by
    rw [Network.hitsOnTheWay, h.total ha fun w hw => isHitOf_code ha hq hw]
    refine total_of_atRest h ha hrest fun r task hduty => ?_
    cases task <;> first | rfl | cases hduty
  rw [← hits_add_entries h ha hc hq, hnone, Nat.zero_add]

theorem count_answered_le (ha : (flood net).Reachable a) (hc : a.NothingRemoved) (q : PeerID)
    (id : SMessageID) : a.count (ofPeer q (Event.isAnswered id)) ≤ 1 :=
  (work_once ha hc q id (P := Event.isAnswered id) (by simp [workEvents])).1

/-- A neighbour that has the file answered. -/
theorem neighbour_answers (h : Refines s a) (ha : (flood net).Reachable a)
    (hc : a.NothingRemoved) (hrest : s.AtRest) {x : Query} {f : Str} (hx : a.Issued x)
    (hreq : x.request = .query f) (hlink : q ∈ net.peerIdToSockfd x.id.peerId)
    (hfile : net.hasFile q f = true) :
    0 < a.count (ofPeer q (Event.isAnswered x.id)) := by
  have hzero : ∀ {f : PeerID → Task → Nat}, (∀ r task, task.duty = .cleaning → f r task = 0) →
      a.total f = 0 := fun hf => total_of_atRest h ha hrest hf
  have horigin : a.upstream x.id.peerId x.id ≠ none := by
    intro hnone
    have howed := creation_owed ha hc hx rfl hnone
    rw [hzero fun r task hduty => by cases task <;> first | rfl | cases hduty] at howed
    omega
  have hup : a.upstream q x.id ≠ none := by
    refine reaches_neighbour ha hc hx hreq rfl (hzero ?_) (hzero ?_)
      (fun hne => absurd rfl hne) (.inl rfl) hlink horigin
    · intro r task hduty
      cases task <;> first | rfl | cases hduty
    · intro r task hduty
      cases task <;> first | rfl | cases hduty
  have howed := answer_owed ha hc hx hreq rfl (mem_peerIdToSockfd.mp hlink).2 hfile hup
  rw [hzero fun r task hduty => by cases task <;> first | rfl | cases hduty] at howed
  omega

/-- **What the state at rest is like.** -/
theorem settled_of_atRest (hs : Reachable net s) (hc : s.NothingRemoved) (hrest : s.AtRest) :
    s.Settled net := by
  obtain ⟨a, ha, hR⟩ := exists_flood hs
  have hca := hR.nothingRemoved.mp hc
  refine ⟨hrest, fun p => ⟨?_, mutex_of_atRest hs hrest p⟩, ?_, ?_⟩
  · rw [hR.tables]
    exact reachable_faultless ha hca p
  · intro o id message hissued q hq
    obtain ⟨x, hx, hid, rfl, -⟩ := hR.issued ha hissued
    rw [entries_of_atRest hR ha hca hrest hq, hasAnswered_iff hR ha hx hid]
    have hone := count_answered_le ha hca q id
    exact ⟨fun hpos => by omega, fun hnot => by omega⟩
  · intro o id f hissued q hlink hfile
    obtain ⟨x, hx, rfl, rfl, htext⟩ := hR.issued ha hissued
    have hreq := request_of_queryText ha hx htext.symm
    have hq : q ∈ net.peers := net.topology_peers _ _ (mem_peerIdToSockfd.mp hlink).1
    have hpos := neighbour_answers hR ha hca hrest hx hreq hlink hfile
    have hone := count_answered_le ha hca q x.id
    rw [entries_of_atRest hR ha hca hrest hq]
    omega

theorem nothingRemoved_step {s' : Network} {l : Label} (hs : Reachable net s)
    (hc : s.NothingRemoved) (hl : l.isUndisturbed = true) (hstep : step net s l = some s') :
    s'.NothingRemoved := by
  obtain ⟨a, ha, hR⟩ := exists_flood hs
  obtain ⟨a', hfstep, hR'⟩ := step_refines ha hR hstep
  exact hR'.nothingRemoved.mpr
    (nothingRemoved_of_undisturbed ha (hR.nothingRemoved.mp hc) hl hfstep)

/-- Undisturbed, the network runs out of work. -/
theorem inevitable_atRest (hs : Reachable net s) (hc : s.NothingRemoved) :
    (undisturbed net).Inevitable (fun s' => (Reachable net s' ∧ s'.NothingRemoved ∧
      Steps net s s') ∧ (s'.AtRest ∨ s'.OutOfNumbers)) s := by
  obtain ⟨a, ha, hR⟩ := exists_flood hs
  refine System.inevitable_of_bag
    (R := fun s' a => (Reachable net s' ∧ s'.NothingRemoved ∧ Steps net s s') ∧
      (flood net).Reachable a ∧ Refines s' a)
    Flood.work (fun a => Work.Rates net a) Nat.lt_wfRel.wf ?_ ?_ (a := a)
    ⟨⟨hs, hc, .refl s⟩, ha, hR⟩ (exists_rates ha (hR.nothingRemoved.mp hc))
  · intro s' a hgo hnot
    obtain ⟨hbefore, -⟩ := hgo
    obtain ⟨l, s'', hl, hstep⟩ := network_goes hbefore.1 hbefore.2.1
      (fun h => hnot ⟨hbefore, .inr h⟩) (fun h => hnot ⟨hbefore, .inl h⟩)
    exact ⟨l, s'', hl, hstep⟩
  · intro s' a l s'' hgo _ hstep
    obtain ⟨⟨hs', hc', hsteps⟩, ha, hR⟩ := hgo
    obtain ⟨hl, hstep⟩ := hstep
    obtain ⟨a', hfstep, hR'⟩ := step_refines ha hR hstep
    exact ⟨a', ⟨⟨.step l hs' hstep, nothingRemoved_step hs' hc' hl hstep, .tail l hsteps hstep⟩,
      .step l ha hfstep, hR'⟩, spends_of_undisturbed ha (hR.nothingRemoved.mp hc') hl hfstep⟩

/-- **The network comes to rest.** From every state in which nothing was removed, as long as
nobody types a command and the cleaner sleeps, whatever order the threads and the streams take
their turns in: the network comes to a state where nothing is left to do, nothing is locked and
every answer is where it belongs, or some peer has used up its message numbers. -/
theorem comes_to_rest (net : Setup) {s : Network} (hs : Reachable net s)
    (hc : s.NothingRemoved) :
    (undisturbed net).Inevitable
      (fun s' => Steps net s s' ∧ (s'.Settled net ∨ s'.OutOfNumbers)) s := by
  refine (inevitable_atRest hs hc).imp fun s' h => ?_
  obtain ⟨⟨hs', hc', hsteps⟩, hrest | hnumbers⟩ := h
  · exact ⟨hsteps, .inl (settled_of_atRest hs' hc' hrest)⟩
  · exact ⟨hsteps, .inr hnumbers⟩

/-- Peer 0 of three in a row has typed a query. -/
def queryTyped : Network := finalState fileAtTheEnd [.command 0 (.query theFile)]

theorem comes_to_rest_queryTyped :
    (undisturbed fileAtTheEnd).Inevitable (fun s' => Steps fileAtTheEnd queryTyped s' ∧
      (s'.Settled fileAtTheEnd ∨ s'.OutOfNumbers)) queryTyped :=
  comes_to_rest fileAtTheEnd (reachable_finalState _ _) (by decide +kernel)

end Network

end P2PFileSharing
