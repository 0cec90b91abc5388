import P2PFileSharing.Model.Scenario
import P2PFileSharing.Proofs.Bridge
import P2PFileSharing.Proofs.Reach

/-!
# How far a query gets, on the network

When no copy of a query is left, it has reached every peer along a path on which
the peers in between have not the file and did not accept it as a copy with its
last TTL. Without that second condition a peer three hops away can be missed: a
copy that went a long way round may be the one its neighbour accepts.
-/

namespace P2PFileSharing

/-- No copy of the query waits anywhere, and no thread has one in hand. -/
def Network.Quiet (net : Setup) (s : Network) (id : SMessageID) : Prop :=
  ∀ sec ∈ s.sections net, sec.isQueryOf id = false

/-- The copy a peer accepted, the one its upstream sent it, had a TTL of 1. -/
def Network.AcceptedLast (s : Network) (p : PeerID) (id : SMessageID) : Prop :=
  ∃ u message, s.upstream p id = some u ∧ (u, .sent p message) ∈ s.log ∧
    isQueryOf id message = true ∧ field (splitFields message) 4 = .ok (intToString 1)

/-- A hit a peer answered with was handed to a stream, or is what its message
thread does next. -/
def Network.HitSent (s : Network) (q : PeerID) (id : SMessageID) : Prop :=
  (∃ u message, (q, .sent u message) ∈ s.log ∧ isHitOf id q message = true) ∨
    ∃ message id', .relayQueryHit message id' ∈ (s.peers q).threads .message ∧
      isHitOf id q message = true

instance (net : Setup) (s : Network) (id : SMessageID) : Decidable (s.Quiet net id) :=
  inferInstanceAs (Decidable (∀ sec ∈ s.sections net, sec.isQueryOf id = false))

section Network

variable {net : Setup} {s : Network} {a : Flood} {id : SMessageID} {f : Str}

/-- Tasks with a copy are what a quiet network has not. -/
theorem total_of_quiet (h : Refines s a) (ha : (flood net).Reachable a) (hquiet : s.Quiet net id)
    {w : PeerID → Task → Nat}
    (hw : ∀ r task, 0 < w r task → (task.query?.any fun x => x.id == id) = true) :
    a.total w = 0 := by
  refine weigh_eq_zero fun x hx => ?_
  by_contra hne
  have hcopy := hw _ _ (Nat.pos_of_ne_zero hne)
  rw [← isQueryOf_code ((reachable_valid ha).work x hx)] at hcopy
  have hsec : x.task.code ∈ s.sections net :=
    List.mem_flatMap.mpr ⟨x.place, mem_places ha hx, h.mem_sectionsAt hx⟩
  rw [hquiet _ hsec] at hcopy
  cases hcopy

/-- A peer that did not accept its copy with the last TTL is near. -/
theorem near_of_accepted (h : Refines s a) (ha : (flood net).Reachable a) (hc : a.NothingRemoved)
    {p : PeerID} (hp : s.upstream p id ≠ none) (hlast : ¬s.AcceptedLast p id) :
    Near net a id p := by
  obtain ⟨u, hu⟩ := Option.ne_none_iff_exists'.mp hp
  have hua : a.upstream p id = some u := by
    rw [← hu, h.upstream]
    rfl
  by_cases heq : p = id.peerId
  · exact .inl heq
  obtain ⟨n, hn⟩ := (reachable_onPath ha hc).2 p id u hua
  obtain ⟨x, hid, hx⟩ := upstream_sent ha hc heq hua
  obtain ⟨⟨x₀, m, -, hcopy, hd, hpos, -⟩, -⟩ := reachable_sent ha hc hx
  have hv : x.Valid := (reachable_valid ha).log _ hx
  have hne : m ≠ 4 := by
    rintro rfl
    refine hlast ⟨u, x.text, hu, h.mem_log hx, ?_, ?_⟩
    · rw [isQueryOf_query hv]
      exact hid
    · have httl : x.timeToLive = 1 := by
        rw [hcopy]
        rfl
      rw [splitFields_query hv, ← httl]
      rfl
  cases hn with
  | origin => exact absurd rfl heq
  | @hop _ v n _ _ hv' hdv =>
      rw [hua] at hv'
      injection hv' with hv'
      subst hv'
      have hnm := (hd.congr hid).unique hdv
      have hle : (m : Int) ≤ 4 := by
        have httl : ttl = 5 := rfl
        omega
      exact .inr ⟨n + 1, by omega, .hop ‹_› ‹_› hua hdv⟩

theorem peer_of_upstream (ha : (flood net).Reachable a) (hc : a.NothingRemoved) {q : PeerID}
    (hq : a.upstream q id ≠ none) : q ∈ net.peers := by
  obtain ⟨u, hu⟩ := Option.ne_none_iff_exists'.mp hq
  obtain ⟨n, hn⟩ := (reachable_onPath ha hc).2 q id u hu
  cases hn with
  | origin hlive =>
      obtain ⟨x, hx, hid⟩ := queries_issued ha _ hu
      rw [← (SMessageID.beq_iff.mp hid).1]
      exact (hx.spec ha).1
  | hop _ hlink _ _ =>
      exact net.topology_peers _ _ (mem_peerIdToSockfd.mp (peerIdToSockfd_symm hlink)).1

theorem hitSent_of_answered (h : Refines s a) (ha : (flood net).Reachable a)
    (hc : a.NothingRemoved) {q : PeerID} (hq : q ∈ net.peers)
    (hanswered : 0 < a.count (ofPeer q (Event.isAnswered id))) : s.HitSent q id := by
  have howed := answer_sent ha hc hanswered
  have hhit : ∀ {x : Hit}, x.Valid → (x.id == id) = true → x.origin = q →
      isHitOf id q x.text = true := by
    intro x hv hid horigin
    rw [isHitOf_hit hv id (peers_isInt hq), hid, horigin]
    simp
  rcases Nat.eq_zero_or_pos (a.total (outgoingWeight q id)) with hzero | hpos
  · have hsent : 0 < a.count (ofPeer q (Event.isSent (Message.isHitOf id q))) := by omega
    obtain ⟨⟨r, ev⟩, hev, hP⟩ := List.countP_pos_iff.mp hsent
    simp only [ofPeer, Bool.and_eq_true, decide_eq_true_eq] at hP
    obtain ⟨rfl, hP⟩ := hP
    cases ev with
    | sent u m =>
        cases m with
        | query x => cases hP
        | hit x =>
            simp only [Event.isSent, Message.isHitOf, Bool.and_eq_true, decide_eq_true_eq] at hP
            exact .inl ⟨u, x.text, h.mem_log hev,
              hhit ((reachable_valid ha).log _ hev) hP.1 hP.2⟩
    | _ => cases hP
  · obtain ⟨⟨pl, task⟩, hw, hpos⟩ := exists_of_weigh_pos hpos
    cases task with
    | relayHit x =>
        obtain ⟨howner, horigin, hid⟩ : pl.owner = q ∧ x.origin = q ∧ (x.id == id) = true :=
          of_ite_pos hpos
        have hplace : pl = .thread q .message := by
          rcases place_of_messageThread ha hw rfl with hpl | ⟨m, hm⟩
          · rw [← howner]
            exact hpl
          · cases m <;> cases hm
        subst hplace
        exact .inr ⟨x.text, x.id, h.mem_sectionsAt hw,
          hhit ((reachable_valid ha).work _ hw) hid horigin⟩
    | _ => exact absurd hpos (Nat.lt_irrefl 0)

/-- **How far a query gets.** As long as nothing is removed, when no copy of `o`'s
query is left, it has reached every peer that a path leads to whose peers in
between have not the file and did not accept a copy with its last TTL; and every
such peer that has the file has answered with a hit, which is sent or about to be. -/
theorem query_reaches (net : Setup) {s : Network} (hs : Reachable net s) (hc : s.NothingRemoved)
    {o q : PeerID} {id : SMessageID} {f : {f : Str // ValidName f}} {between : List PeerID}
    (hissued : (o, .issued id (createQueryMessage o id f.1)) ∈ s.log) (hquiet : s.Quiet net id)
    (hpath : (o :: (between ++ [q])).IsChain fun p p' => p' ∈ net.peerIdToSockfd p)
    (hbetween : ∀ p ∈ between, net.hasFile p f.1 = false ∧ ¬s.AcceptedLast p id) :
    s.upstream q id ≠ none ∧
      (q ≠ o → net.hasFile q f.1 = true → s.HasAnswered q id ∧ s.HitSent q id) := by
  obtain ⟨a, ha, hR⟩ := exists_flood hs
  have hca := hR.nothingRemoved.mp hc
  obtain ⟨x₀, h₀, hid₀, rfl, htext⟩ := hR.issued ha hissued
  have hreq : x₀.request = .query f.1 := by
    refine request_of_queryText ha h₀ ?_
    rw [← htext, hid₀]
  have hup : ∀ p, s.upstream p id = a.upstream p id := fun p => hR.upstream p id
  have hlink : ∀ p q, a.total (linkWeight p q id) = 0 := by
    refine fun p q => total_of_quiet hR ha hquiet fun r task hpos => ?_
    cases task with
    | cacheOwn | broadcastOwn | act | relay => exact (of_ite_pos hpos).2
    | lockSendBuffer | sendTo => exact (of_ite_pos hpos).2.1
    | _ => exact absurd hpos (Nat.lt_irrefl 0)
  have harrival : ∀ q, a.total (arrivalWeight q id) = 0 := by
    refine fun q => total_of_quiet hR ha hquiet fun r task hpos => ?_
    cases task with
    | handleQuery | cacheQuery => exact (of_ite_pos hpos).2
    | _ => exact absurd hpos (Nat.lt_irrefl 0)
  have hcreation : a.total (creationWeight id) = 0 := by
    refine total_of_quiet hR ha hquiet fun r task hpos => ?_
    cases task with
    | cacheOwn => exact of_ite_pos hpos
    | _ => exact absurd hpos (Nat.lt_irrefl 0)
  have hact : a.total (actWeight q id) = 0 := by
    refine total_of_quiet hR ha hquiet fun r task hpos => ?_
    cases task with
    | act => exact (of_ite_pos hpos).2
    | _ => exact absurd hpos (Nat.lt_irrefl 0)
  have horigin : a.upstream id.peerId id ≠ none := by
    intro hnone
    have howed := creation_owed ha hca h₀ hid₀ hnone
    omega
  -- Along the path, every peer in between has accepted the query and passed it on.
  have hreach : ∀ (between : List PeerID) (p : PeerID), Near net a id p →
      (p ≠ id.peerId → net.hasFile p f.1 = false) → a.upstream p id ≠ none →
      (p :: (between ++ [q])).IsChain (fun p p' => p' ∈ net.peerIdToSockfd p) →
      (∀ p ∈ between, net.hasFile p f.1 = false ∧ ¬s.AcceptedLast p id) →
      a.upstream q id ≠ none := by
    intro between
    induction between with
    | nil =>
        intro p hnear hfile hp hchain _
        exact reaches_neighbour ha hca h₀ hreq hid₀ (hlink p q) (harrival q) hfile hnear
          (List.isChain_cons_cons.mp hchain).1 hp
    | cons p' rest ih =>
        intro p hnear hfile hp hchain hbetween
        obtain ⟨hstep, hchain⟩ := List.isChain_cons_cons.mp hchain
        obtain ⟨hfile', hlast⟩ := hbetween p' List.mem_cons_self
        have hp' := reaches_neighbour ha hca h₀ hreq hid₀ (hlink p p') (harrival p') hfile hnear
          hstep hp
        refine ih p' ?_ (fun _ => hfile') hp' hchain
          fun r hr => hbetween r (List.mem_cons_of_mem _ hr)
        exact near_of_accepted hR ha hca (by rw [hup]; exact hp') hlast
  have hq := hreach between id.peerId (.inl rfl) (fun h => absurd rfl h) horigin hpath hbetween
  refine ⟨by rw [hup]; exact hq, fun hqo hfile => ?_⟩
  have howed := answer_owed ha hca h₀ hreq hid₀ hqo hfile hq
  have hpos : 0 < a.count (ofPeer q (Event.isAnswered id)) := by omega
  refine ⟨(hasAnswered_iff hR ha h₀ hid₀).mpr hpos, ?_⟩
  exact hitSent_of_answered hR ha hca (peer_of_upstream ha hca hq) hpos

theorem query_reaches_fileAtTheEnd :
    hitAtHome.upstream 2 ⟨0, 0, 0⟩ ≠ none ∧ hitAtHome.HasAnswered 2 ⟨0, 0, 0⟩ := by
  have hs : Reachable fileAtTheEnd hitAtHome := reachable_finalState _ _
  have hissued : (0, .issued ⟨0, 0, 0⟩ (createQueryMessage 0 ⟨0, 0, 0⟩ theFile.1)) ∈
      hitAtHome.log := by decide +kernel
  have hlast : ¬hitAtHome.AcceptedLast 1 ⟨0, 0, 0⟩ := by
    have hnone : ∀ e ∈ hitAtHome.log, e.2.isSentTo 1
        (fun m => decide (field (splitFields m) 4 = .ok (intToString 1))) = false := by
      decide +kernel
    rintro ⟨u, m, -, hmem, -, httl⟩
    have hfalse := hnone _ hmem
    simp [Event.isSentTo, httl] at hfalse
  have hbetween : ∀ p ∈ [(1 : PeerID)], fileAtTheEnd.hasFile p theFile.1 = false ∧
      ¬hitAtHome.AcceptedLast p ⟨0, 0, 0⟩ := by
    intro p hp
    rw [List.mem_singleton.mp hp]
    exact ⟨by decide, hlast⟩
  obtain ⟨hu, hhit⟩ := @query_reaches fileAtTheEnd hitAtHome hs (by decide +kernel) 0 2
    ⟨0, 0, 0⟩ theFile [1] hissued (by decide +kernel) (by decide) hbetween
  exact ⟨hu, (hhit (by decide) (by decide)).1⟩

/-! ## A peer that is missed -/

/-- A triangle 0, 1, 2 and a row 1, 3, 4, 5, 6 with the file at its end. -/
def triangleAndRow : Setup :=
  .ofLinks [0, 1, 2, 3, 4, 5, 6]
    [(0, 1), (0, 2), (1, 0), (1, 2), (1, 3), (2, 0), (2, 1), (3, 1), (3, 4), (4, 3), (4, 5),
      (5, 4), (5, 6), (6, 5)]
    [6] 1 (by decide) (by decide) (by decide) (by decide) isInt_one

/-- The copy that went round by 2 gets to 1 first; it ends at 5. -/
def missedPeer : Network :=
  finalState triangleAndRow
    (Label.commandRun 0 (.query theFile) 3 ++ Label.broadcastRun 0 2 ++ Label.handleRun 0 2 4 ++
      Label.broadcastRun 2 1 ++ Label.handleRun 2 1 4 ++ Label.broadcastRun 1 2 ++
      Label.handleRun 1 3 4 ++ Label.broadcastRun 3 1 ++ Label.handleRun 3 4 4 ++
      Label.broadcastRun 4 1 ++ Label.handleRun 4 5 4 ++ Label.handleRun 0 1 1 ++
      Label.handleRun 1 0 1)

/-- Peer 6 has the file and is five hops from 0 past peers without it; when no copy
is left, it has not seen the query. -/
theorem query_misses_peer :
    Reachable triangleAndRow missedPeer ∧ missedPeer.NothingRemoved ∧
      (0, .issued ⟨0, 0, 0⟩ (createQueryMessage 0 ⟨0, 0, 0⟩ theFile.1)) ∈ missedPeer.log ∧
      missedPeer.Quiet triangleAndRow ⟨0, 0, 0⟩ ∧
      [0, 1, 3, 4, 5, 6].IsChain (fun p p' => p' ∈ triangleAndRow.peerIdToSockfd p) ∧
      (∀ p ∈ [1, 3, 4, 5], triangleAndRow.hasFile p theFile.1 = false) ∧
      triangleAndRow.hasFile 6 theFile.1 = true ∧
      missedPeer.upstream 6 ⟨0, 0, 0⟩ = none ∧
      ∀ e ∈ missedPeer.log, e.2.isAnswered ⟨0, 0, 0⟩ = false :=
  ⟨reachable_finalState _ _, by decide +kernel, by decide +kernel, by decide +kernel,
    by decide +kernel, by decide +kernel, by decide +kernel, by decide +kernel,
    by decide +kernel⟩

end Network

end P2PFileSharing
