import P2PFileSharing.Model.Scenario
import P2PFileSharing.Proofs.Bridge

/-!
# The flood is bounded

One copy over each link and one round of work at each peer, for every id, as long
as nothing is removed; and a message whose id is cached does nothing at all,
whatever else its text says.
-/

namespace P2PFileSharing

/-- The links of the network, each in both directions. -/
def Setup.links (net : Setup) : List (PeerID × PeerID) :=
  net.peers.flatMap fun p => (net.peerIdToSockfd p).map (Prod.mk p)

/-- A copy of the query with this id was received. -/
def Event.isCopyReceived (id : SMessageID) : Event Str → Bool
  | .received _ m => isQueryOf id m
  | _ => false

/-! ## Duplicates -/

theorem head_splitStringFrom {d : Char} {k : Int} {t : Str} :
    ∀ (s piece : Str) (n : Nat), (splitStringFrom [d] k s piece n)[0]? = some t →
      t = piece ++ s.takeWhile fun c => c ≠ d := by
  intro s
  induction s with
  | nil =>
      intro piece n h
      rw [splitStringFrom] at h
      split at h
      · cases h
      · injection h with h
        rw [← h, List.takeWhile_nil, List.append_nil]
  | cons c rest ih =>
      intro piece n h
      rw [splitStringFrom] at h
      split at h
      · next hc =>
          injection h with h
          rw [List.mem_singleton] at hc
          rw [← h, List.takeWhile_cons, if_neg (by simp [hc]), List.append_nil]
      · next hc =>
          rw [List.mem_singleton] at hc
          rw [ih _ _ h, List.takeWhile_cons, if_pos (by simp [hc]), List.append_assoc]
          rfl

theorem receiveQuery_cached {t : Tables} {message : Str} {id : SMessageID} (handler : Handler)
    (hid : parseMessageId (splitFields message) = .ok id) (hc : t.isQueryCached id = true) :
    receiveQuery handler t message = .ok { tables := t } := by
  simp only [receiveQuery, hid, bind, Except.bind, hc, if_true]
  rfl

/-- **A message of any of the flooded types whose id is cached is inert**: nothing
changes, nothing is sent, whatever its other fields are. -/
theorem exec_duplicate (net : Setup) (me : PeerID) (now : Int) {t : Tables} {id : SMessageID}
    {message : Str} (hc : t.queries.find? id ≠ none) (hm : isQueryOf id message = true) :
    exec net me now t (.handle message) = some { tables := t } := by
  simp only [isQueryOf, carries] at hm
  split at hm
  · next type id' htype hid =>
      rw [Bool.and_eq_true, List.contains_iff_mem] at hm
      obtain ⟨hmem, heq⟩ := hm
      have hcached : t.isQueryCached id' = true := by
        rw [isQueryCached_eq_true, UnorderedMap.find?_congr _ heq]
        exact hc
      have hcommand : message.takeWhile (fun c => c ≠ peerMsgTypeDelim) = type :=
        (head_splitStringFrom message [] 0 htype).symm
      have hdrop := fun handler => receiveQuery_cached handler hid hcached
      have hhandle : handleMessage me now t message = .ok { tables := t } := by
        simp only [handleMessage, hcommand]
        simp only [queryTypes, List.mem_cons, List.not_mem_nil, or_false] at hmem
        rcases hmem with rfl | rfl | rfl | rfl
        · exact hdrop .query
        · exact hdrop .invQuery
        · exact hdrop .conTestQuery
        · exact hdrop .conTestObtain
      rw [exec, hhandle]
      rfl
  · cases hm

/-! ## Counting -/

section Network

variable {net : Setup} {s : Network} {a : Flood} {id : SMessageID}

theorem copySent_le_one (h : Refines s a) (ha : (flood net).Reachable a) (hc : a.NothingRemoved)
    (p q : PeerID) (id : SMessageID) :
    s.log.countP (fun e => ofPeer p (Event.isSentTo q (isQueryOf id)) e.1 e.2) ≤ 1 := by
  rw [h.count ha (P := ofPeer p (Event.isSentTo q (isQueryOf id))) copySent_text]
  have hone := (link_tokens ha hc p q id).1
  omega

/-- What is received on a link was sent on it. -/
theorem copyReceived_le_one (h : Refines s a) (ha : (flood net).Reachable a)
    (hc : a.NothingRemoved) (p q : PeerID) (id : SMessageID) :
    s.log.countP (fun e => ofPeer q (Event.isReceivedFrom p (isQueryOf id)) e.1 e.2) ≤ 1 := by
  have htext : ∀ r (ev : Event Message), ev.Valid →
      ofPeer q (Event.isReceivedFrom p (isQueryOf id)) r (ev.map Message.text) =
        ofPeer q (Event.isReceivedFrom p (Message.isQueryOf id)) r ev := by
    intro r ev hv
    cases ev with
    | received p' m =>
        simp only [ofPeer, Event.isReceivedFrom, Event.map]
        rw [isQueryOf_message hv]
    | _ => rfl
  rw [h.count ha (P := ofPeer q (Event.isReceivedFrom p (isQueryOf id))) htext]
  have hone := (link_tokens ha hc p q id).1
  have hstream := streams ha p q (Message.isQueryOf id)
  rw [copySent] at hone
  omega

theorem sent_of_copy (h : Refines s a) (ha : (flood net).Reachable a) (hc : a.NothingRemoved)
    {p q : PeerID} {message : Str} (hsent : (p, .sent q message) ∈ s.log)
    (hm : isQueryOf id message = true) :
    q ∈ net.peerIdToSockfd p ∧ ∃ u, s.upstream p id = some u ∧ q ≠ u := by
  obtain ⟨ev, hev, hmap⟩ := h.exists_event hsent
  cases ev with
  | sent q' m =>
      injection hmap with hq htext
      subst hq
      subst htext
      rw [isQueryOf_message ((reachable_valid ha).log _ hev)] at hm
      cases m with
      | query x =>
          obtain ⟨-, hlink, u, hu, hne⟩ := reachable_sent ha hc hev
          refine ⟨hlink, u, ?_, hne⟩
          rw [h.upstream, ← hu]
          exact a.upstream_congr p (BEq.symm hm)
      | hit y => cases hm
  | _ => cases hmap

theorem mem_links {p q : PeerID} (h : q ∈ net.peerIdToSockfd p) : (p, q) ∈ net.links := by
  refine List.mem_flatMap.mpr ⟨p, ?_, List.mem_map_of_mem h⟩
  exact net.topology_peers q p (mem_peerIdToSockfd.mp (peerIdToSockfd_symm h)).1

/-- A copy that was received came over a link. -/
theorem link_of_received (h : Refines s a) (ha : (flood net).Reachable a) (hc : a.NothingRemoved)
    {p q : PeerID} {message : Str} (hrec : (q, .received p message) ∈ s.log)
    (hm : isQueryOf id message = true) : (p, q) ∈ net.links := by
  obtain ⟨ev, hev, hmap⟩ := h.exists_event hrec
  cases ev with
  | received p' m =>
      injection hmap with hp htext
      subst hp
      subst htext
      rw [isQueryOf_message ((reachable_valid ha).log _ hev)] at hm
      have hstream := streams ha p' q (Message.isQueryOf id)
      have hpos : 0 < a.count (ofPeer q (Event.isReceivedFrom p' (Message.isQueryOf id))) :=
        List.countP_pos_iff.mpr ⟨_, hev, by simp [ofPeer, Event.isReceivedFrom, hm]⟩
      have hsent : 0 < a.count (ofPeer p' (Event.isSentTo q (Message.isQueryOf id))) := by omega
      obtain ⟨⟨r, ev⟩, he, hP⟩ := List.countP_pos_iff.mp hsent
      cases ev with
      | sent q' m' =>
          simp only [ofPeer, Event.isSentTo, Bool.and_eq_true, decide_eq_true_eq] at hP
          obtain ⟨rfl, rfl, hm'⟩ := hP
          cases m' with
          | query x => exact mem_links (reachable_sent ha hc he).2.1
          | hit y => cases hm'
      | _ => simp [ofPeer, Event.isSentTo] at hP
  | _ => cases hmap

/-- What a peer does for an id, read off the two histories. -/
theorem countP_ofPeer_map (h : Refines s a) (ha : (flood net).Reachable a) (p : PeerID)
    {P : Event Str → Bool} {Q : Event Message → Bool}
    (hPQ : ∀ ev, P (ev.map Message.text) = Q ev) :
    s.log.countP (fun e => ofPeer p P e.1 e.2) = a.count (ofPeer p Q) :=
  h.count ha (P := ofPeer p P) fun r ev _ => by rw [ofPeer, ofPeer, hPQ]

theorem exists_workEvent {P : Event Str → Bool} (hP : P ∈ workEvents id) :
    ∃ Q ∈ workEvents id, ∀ ev, P (ev.map Message.text) = Q ev := by
  simp only [workEvents, List.mem_cons, List.not_mem_nil, or_false] at hP ⊢
  rcases hP with rfl | rfl | rfl
  · exact ⟨Event.isActed id, .inl rfl, fun ev => by cases ev <;> rfl⟩
  · exact ⟨Event.isAnswered id, .inr (.inl rfl), fun ev => by cases ev <;> rfl⟩
  · exact ⟨Event.isRelayed id, .inr (.inr rfl), fun ev => by cases ev <;> rfl⟩

/-- **The flood is bounded and duplicates are inert.** As long as nothing is
removed, for every id that was issued: at most one copy goes over each directed
link, none to the sender's own upstream; every peer acts on the id, answers it
and relays it at most once, and its originator never; a message with a cached id
is inert; and all deliveries of copies together are at most the directed links. -/
theorem flood_bounded (net : Setup) {s : Network} (hs : Reachable net s) (hc : s.NothingRemoved)
    {o : PeerID} {id : SMessageID} {message : Str} (hissued : (o, .issued id message) ∈ s.log) :
    (∀ p q, s.log.countP (fun e => ofPeer p (Event.isSentTo q (isQueryOf id)) e.1 e.2) ≤ 1) ∧
      (∀ p q m, (p, .sent q m) ∈ s.log → isQueryOf id m = true →
        q ∈ net.peerIdToSockfd p ∧ ∃ u, s.upstream p id = some u ∧ q ≠ u) ∧
      (∀ P ∈ workEvents id,
        (∀ p, s.log.countP (fun e => ofPeer p P e.1 e.2) ≤ 1) ∧
          s.log.countP (fun e => ofPeer o P e.1 e.2) = 0) ∧
      (∀ p now m, s.upstream p id ≠ none → isQueryOf id m = true →
        exec net p now (s.peers p).tables (.handle m) =
          some { tables := (s.peers p).tables }) ∧
      s.log.countP (fun e => e.2.isCopyReceived id) ≤ net.links.length := by
  obtain ⟨a, ha, hR⟩ := exists_flood hs
  have hca := hR.nothingRemoved.mp hc
  obtain ⟨x₀, -, -, hpeer, -⟩ := hR.issued ha hissued
  refine ⟨fun p q => copySent_le_one hR ha hca p q id,
    fun p q m hsent hm => sent_of_copy hR ha hca hsent hm, ?_,
    fun p now m hu hm => exec_duplicate net p now hu hm, ?_⟩
  · intro P hP
    obtain ⟨Q, hQ, hPQ⟩ := exists_workEvent hP
    refine ⟨fun p => ?_, ?_⟩
    · rw [countP_ofPeer_map hR ha p hPQ]
      exact (work_once ha hca p id hQ).1
    · rw [countP_ofPeer_map hR ha o hPQ]
      by_contra hne
      exact ((work_once ha hca o id hQ).2 (Nat.pos_of_ne_zero hne)).1 hpeer.symm
  · rw [List.countP_eq_length_filter]
    let link : PeerID × Event Str → PeerID × PeerID := fun e =>
      match e.2 with
      | .received p _ => (p, e.1)
      | _ => (e.1, e.1)
    refine @length_le_of_keys _ _ _ _ link _ ?_ ?_
    · rintro ⟨p, q⟩
      refine Nat.le_trans ?_ (copyReceived_le_one hR ha hca p q id)
      rw [List.countP_filter]
      refine List.countP_mono_left ?_
      rintro ⟨r, ev⟩ - hP
      cases ev with
      | received p' m =>
          simp only [link, Prod.mk.injEq, Event.isCopyReceived, Bool.and_eq_true,
            decide_eq_true_eq] at hP
          simp [ofPeer, Event.isReceivedFrom, hP]
      | _ => simp [Event.isCopyReceived] at hP
    · rintro ⟨r, ev⟩ he
      obtain ⟨he, hP⟩ := List.mem_filter.mp he
      cases ev with
      | received p m => exact link_of_received hR ha hca he hP
      | _ => cases hP

theorem flood_bounded_queriedAlongLine :
    queriedAlongLine.log.countP (fun e => e.2.isCopyReceived ⟨0, 0, 0⟩) ≤ 4 ∧
      exec lineOfThree 1 7 (queriedAlongLine.peers 1).tables
          (.handle (createQueryMessage 2 ⟨0, 0, 5⟩ theFile.1)) =
        some { tables := (queriedAlongLine.peers 1).tables } := by
  have hs : Reachable lineOfThree queriedAlongLine := reachable_finalState _ _
  have hissued : (0, .issued ⟨0, 0, 0⟩ (createQueryMessage 0 ⟨0, 0, 0⟩ theFile.1)) ∈
      queriedAlongLine.log := by decide +kernel
  obtain ⟨-, -, -, hinert, hlinks⟩ := flood_bounded lineOfThree hs (by decide +kernel) hissued
  exact ⟨hlinks, hinert 1 7 _ (by decide +kernel) (by decide +kernel)⟩

end Network

end P2PFileSharing
