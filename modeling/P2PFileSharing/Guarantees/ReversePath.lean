import P2PFileSharing.Model.Scenario
import P2PFileSharing.Proofs.Bridge
import P2PFileSharing.Proofs.ReversePath

/-!
# The reverse path of a query, on the network

The tree of `Proofs/ReversePath.lean`, read off the peers' `m_queries` and the
texts in their queues: following upstream pointers from a peer that has an id
leads to the originator without a cycle, and every copy on its way says in its
fields how far its sender is.
-/

namespace P2PFileSharing

/-- Following upstream pointers from `p` leads to `o`, and to no peer twice. -/
structure UpstreamPath (s : Network) (id : SMessageID) (p o : PeerID) (path : List PeerID) :
    Prop where
  head : path.head? = some p
  last : path.getLast? = some o
  chain : path.IsChain fun a b => s.upstream a id = some b
  nodup : path.Nodup

/-- The message is on its way out of a peer: in its broadcast queue, in its
broadcast thread, or on a stream to another peer. -/
def Network.LeavesFrom (s : Network) (p : PeerID) (message : Str) : Prop :=
  (∃ exclude, (message, exclude) ∈ (s.peers p).broadcastQueue) ∨
    (∃ exclude, .lockSendBuffer message exclude ∈ (s.peers p).threads .broadcast) ∨
    (∃ q, .sendTo q message ∈ (s.peers p).threads .broadcast) ∨ ∃ q, message ∈ s.sockets p q

/-- The message has arrived at a peer and its handler has not looked at it yet. -/
def Network.ArrivedAt (s : Network) (q : PeerID) (message : Str) : Prop :=
  message ∈ (s.peers q).messagesQueue ∨ .handle message ∈ (s.peers q).threads .message

/-- What a copy of `o`'s query says when `p` sends it, `d` hops from `o`. -/
structure CopyFields (net : Setup) (o p : PeerID) (d : Nat) (message : Str) : Prop where
  sender : field (splitFields message) 5 = .ok (intToString p)
  timeToLive : field (splitFields message) 4 = .ok (intToString (5 - d))
  positive : 1 ≤ 5 - (d : Int)
  replicate : field (splitFields message) 0 = .ok peerMsgInvQuery →
    field (splitFields message) 7 = .ok (intToString (net.replicationFactor o - 1 - d)) ∧
      1 ≤ net.replicationFactor o - 1 - (d : Int)

section Network

variable {net : Setup} {s : Network} {a : Flood} {id : SMessageID}

theorem depth_path (h : Refines s a) {p : PeerID} {n : Nat} (hd : Depth net a id p n) :
    ∃ path, UpstreamPath s id p id.peerId path ∧ path.length = n + 1 ∧
      ∀ q ∈ path, ∃ m, m ≤ n ∧ Depth net a id q m := by
  induction hd with
  | origin hlive =>
      refine ⟨[id.peerId], ⟨rfl, rfl, .singleton _, List.nodup_singleton _⟩, rfl, ?_⟩
      intro q hq
      rw [List.mem_singleton.mp hq]
      exact ⟨0, Nat.le_refl 0, .origin hlive⟩
  | @hop p u n hp hlink hu hd ih =>
      obtain ⟨path, hpath, hlen, hmem⟩ := ih
      have hstep : s.upstream p id = some u := by
        rw [h.upstream]
        exact hu
      have hnew : p ∉ path := by
        -- Everything further up is nearer to the root than `p` is.
        intro hin
        obtain ⟨m, hm, hdm⟩ := hmem p hin
        have := hdm.unique (.hop hp hlink hu hd)
        omega
      obtain ⟨rest, rfl⟩ : ∃ rest, path = u :: rest := by
        cases path with
        | nil => cases hpath.head
        | cons b rest =>
            have hb := hpath.head
            rw [List.head?_cons] at hb
            injection hb with hb
            exact ⟨rest, by rw [hb]⟩
      refine ⟨p :: u :: rest, ⟨rfl, ?_, .cons_cons hstep hpath.chain,
        List.nodup_cons.mpr ⟨hnew, hpath.nodup⟩⟩, by rw [List.length_cons, hlen], ?_⟩
      · rw [List.getLast?_cons_cons]
        exact hpath.last
      · intro q hq
        rcases List.mem_cons.mp hq with rfl | hq
        · exact ⟨n + 1, Nat.le_refl _, .hop hp hlink hu hd⟩
        · obtain ⟨m, hm, hdm⟩ := hmem q hq
          exact ⟨m, Nat.le_succ_of_le hm, hdm⟩

/-- The fields of a copy of the tree. -/
theorem copyFields_of_sentBy (ha : (flood net).Reachable a) {x : Query} {p : PeerID}
    (hv : x.Valid) (hx : SentBy net a x p) :
    ∃ n, Depth net a x.id p n ∧ CopyFields net x.id.peerId p n x.text := by
  have hsplit := splitFields_query hv
  obtain ⟨x₀, n, h₀, hcopy, hd, hpos, hk⟩ := hx
  refine ⟨n, hd, ?_⟩
  have hsender : x.sender = p := by rw [hcopy]; rfl
  have httl : x.timeToLive = 5 - (n : Int) := by rw [hcopy]; rfl
  refine ⟨?_, ?_, hpos, ?_⟩
  · rw [hsplit, ← hsender]
    rfl
  · rw [hsplit, ← httl]
    rfl
  · intro htype
    rw [hsplit] at htype ⊢
    have htype' : x.request.type = peerMsgInvQuery := by injection htype
    obtain ⟨f, k, hr⟩ := invQuery_of_type htype'
    have hk1 := hk f k hr
    have hfield : field x.fields 7 = .ok (intToString k) :=
      field_of_getElem? (by simp [Query.fields, headFields, hr, Request.args])
    have hfactor : k = net.replicationFactor x.id.peerId - 1 - n := by
      rw [hcopy] at hr
      have hreq : Request.decrease^[n] x₀.request = .invQuery f k := hr
      have hissued := (h₀.spec ha).2.2.2 f _ (eq_invQuery_of_decrease hreq)
      have hid : x.id = x₀.id := by rw [hcopy]; rfl
      rw [hid]
      omega
    rw [← hfactor]
    exact ⟨hfield, hk1⟩

/-- What is about to be broadcast at a peer is a task of the tree there. -/
theorem sentBy_of_lock (h : Refines s a) (ha : (flood net).Reachable a) (hc : a.NothingRemoved)
    {pl : Place} {message : Str} {exclude : PeerID}
    (hsec : .lockSendBuffer message exclude ∈ s.sectionsAt pl)
    (hq : isQueryOf id message = true) :
    ∃ x : Query, x.Valid ∧ x.text = message ∧ (x.id == id) = true ∧ SentBy net a x pl.owner ∧
      ∃ u, a.upstream pl.owner x.id = some u := by
  obtain ⟨task, hw, hcode⟩ := h.exists_task hsec
  obtain ⟨x, rfl, rfl⟩ := code_lockSendBuffer hcode
  have hv : x.Valid := (reachable_valid ha).work _ hw
  rw [isQueryOf_query hv] at hq
  obtain ⟨hsent, hu⟩ := (reachable_onPath ha hc).1 _ hw
  exact ⟨x, hv, rfl, hq, hsent, exclude, hu⟩

/-- What leaves a peer is a task of the tree there. -/
theorem sentBy_of_leavesFrom (h : Refines s a) (ha : (flood net).Reachable a)
    (hc : a.NothingRemoved) {p : PeerID} {message : Str} (hm : s.LeavesFrom p message)
    (hq : isQueryOf id message = true) :
    ∃ x : Query, x.Valid ∧ x.text = message ∧ (x.id == id) = true ∧ SentBy net a x p ∧
      ∃ u, a.upstream p x.id = some u := by
  have hpath := (reachable_onPath ha hc).1
  have hvalid := (reachable_valid ha).work
  rcases hm with ⟨exclude, hm⟩ | ⟨exclude, hm⟩ | ⟨q, hm⟩ | ⟨q, hm⟩
  · have hsec : .lockSendBuffer message exclude ∈ s.sectionsAt (.broadcastQueue p) :=
      List.mem_map.mpr ⟨_, hm, rfl⟩
    exact sentBy_of_lock h ha hc hsec hq
  · have hsec : .lockSendBuffer message exclude ∈ s.sectionsAt (.thread p .broadcast) := hm
    exact sentBy_of_lock h ha hc hsec hq
  · have hsec : .sendTo q message ∈ s.sectionsAt (.thread p .broadcast) := hm
    obtain ⟨task, hw, hcode⟩ := h.exists_task hsec
    obtain ⟨x, rfl, rfl⟩ := code_sendTo hcode
    have hv : x.Valid := hvalid _ hw
    rw [isQueryOf_query hv] at hq
    obtain ⟨hsent, -, u, hu, -⟩ := hpath _ hw
    exact ⟨x, hv, rfl, hq, hsent, u, hu⟩
  · have hsec : .handle message ∈ s.sectionsAt (.socket p q) := List.mem_map_of_mem hm
    obtain ⟨task, hw, hcode⟩ := h.exists_task hsec
    obtain ⟨x, rfl, rfl⟩ | ⟨x, rfl, rfl⟩ := code_handle hcode
    · have hv : x.Valid := hvalid _ hw
      rw [isQueryOf_query hv] at hq
      obtain ⟨-, -, m, hm', hsender⟩ := reachable_holds ha _ hw
      cases m with
      | query y =>
          have hxy : x = y := by injection hm'
          have hp : x.sender = p := by
            rw [hxy]
            exact hsender y rfl
          obtain ⟨hsent, -⟩ := hpath _ hw
          rw [hp] at hsent
          obtain ⟨n, hd, -⟩ := copyFields_of_sentBy ha hv hsent
          exact ⟨x, hv, rfl, hq, hsent, hd.cached⟩
      | hit y => cases hm'
    · rw [isQueryOf_hit (hvalid _ hw)] at hq
      cases hq

/-- What arrived at a peer came from a neighbour in the tree. -/
theorem sentBy_of_arrivedAt (h : Refines s a) (ha : (flood net).Reachable a)
    (hc : a.NothingRemoved) {q : PeerID} {message : Str} (hm : s.ArrivedAt q message)
    (hq : isQueryOf id message = true) :
    ∃ x : Query, x.Valid ∧ x.text = message ∧ (x.id == id) = true ∧
      SentBy net a x x.sender ∧ x.sender ∈ net.peerIdToSockfd q := by
  have hcame : ∃ pl, pl.owner = q ∧ Section.handle message ∈ s.sectionsAt pl := by
    rcases hm with hm | hm
    · exact ⟨.messagesQueue q, rfl, List.mem_map_of_mem hm⟩
    · exact ⟨.thread q .message, rfl, hm⟩
  obtain ⟨pl, howner, hsec⟩ := hcame
  obtain ⟨task, hw, hcode⟩ := h.exists_task hsec
  obtain ⟨x, rfl, rfl⟩ | ⟨x, rfl, rfl⟩ := code_handle hcode
  · have hv : x.Valid := (reachable_valid ha).work _ hw
    rw [isQueryOf_query hv] at hq
    obtain ⟨hsent, hlink⟩ := (reachable_onPath ha hc).1 _ hw
    exact ⟨x, hv, rfl, hq, hsent, by rw [← howner]; exact hlink⟩
  · rw [isQueryOf_hit ((reachable_valid ha).work _ hw)] at hq
    cases hq

open Classical in
/-- How far a peer is from the originator, as far as it is in the tree. -/
noncomputable def depthOf (net : Setup) (a : Flood) (id : SMessageID) (p : PeerID) : Nat :=
  if h : ∃ n, Depth net a id p n then h.choose else 0

theorem depthOf_eq {p : PeerID} {n : Nat} (h : Depth net a id p n) : depthOf net a id p = n := by
  have hex : ∃ n, Depth net a id p n := ⟨n, h⟩
  rw [depthOf, dif_pos hex]
  exact hex.choose_spec.unique h

/-- A copy of the tree, in terms of the issued id. -/
theorem copyFields_of_copy (ha : (flood net).Reachable a) {x : Query} {p : PeerID}
    (hv : x.Valid) (hid : (x.id == id) = true) (hx : SentBy net a x p) :
    CopyFields net id.peerId p (depthOf net a id p) x.text ∧
      ∃ u, a.upstream p id = some u := by
  obtain ⟨n, hd, hfields⟩ := copyFields_of_sentBy ha hv hx
  rw [depthOf_eq (hd.congr hid), ← (SMessageID.beq_iff.mp hid).1]
  exact ⟨hfields, (hd.congr hid).cached⟩

/-- **Reverse-path invariant.** As long as nothing is removed, for every id that
was issued: the originator holds -1 for it as soon as any copy or entry exists;
every other peer's entry is a neighbour that has the id too, and stays; there are
distances under which upstream pointers lead to the originator without a cycle
and which every copy on its way carries in its fields. -/
theorem reverse_path (net : Setup) {s : Network} (hs : Reachable net s) (hc : s.NothingRemoved)
    {o : PeerID} {id : SMessageID} {message : Str} (hissued : (o, .issued id message) ∈ s.log) :
    (((∃ p m, (s.LeavesFrom p m ∨ s.ArrivedAt p m) ∧ isQueryOf id m = true) ∨
        ∃ p, p ≠ o ∧ s.upstream p id ≠ none) → s.upstream o id = some (-1)) ∧
      (∀ p u, p ≠ o → s.upstream p id = some u →
        u ∈ net.peerIdToSockfd p ∧ s.upstream u id ≠ none ∧
          ∀ s', Steps net s s' → s'.NothingRemoved → s'.upstream p id = some u) ∧
      ∃ d : PeerID → Nat, d o = 0 ∧
        (∀ p, p ≠ o → s.upstream p id ≠ none →
          1 ≤ d p ∧ ∃ path, UpstreamPath s id p o path ∧ path.length = d p + 1) ∧
        (∀ p m, s.LeavesFrom p m → isQueryOf id m = true →
          s.upstream p id ≠ none ∧ CopyFields net o p (d p) m) ∧
        ∀ q m, s.ArrivedAt q m → isQueryOf id m = true →
          ∃ p ∈ net.peerIdToSockfd q, s.upstream p id ≠ none ∧ CopyFields net o p (d p) m := by
  obtain ⟨a, ha, hR⟩ := exists_flood hs
  have hca := hR.nothingRemoved.mp hc
  obtain ⟨x₀, h₀, hid₀, rfl, -⟩ := hR.issued ha hissued
  have htree := (reachable_onPath ha hca).2
  have hup : ∀ p, s.upstream p id = a.upstream p id := fun p => hR.upstream p id
  have hsome : ∀ {p}, s.upstream p id ≠ none → ∃ n, Depth net a id p n := by
    intro p hne
    obtain ⟨u, hu⟩ := Option.ne_none_iff_exists'.mp hne
    exact htree p id u (by rw [← hup]; exact hu)
  have hne : ∀ {p u}, a.upstream p id = some u → s.upstream p id ≠ none := by
    intro p u hu
    rw [hup, hu]
    exact Option.some_ne_none u
  have hleaves : ∀ p m, s.LeavesFrom p m → isQueryOf id m = true →
      s.upstream p id ≠ none ∧ CopyFields net id.peerId p (depthOf net a id p) m := by
    intro p m hm hq
    obtain ⟨x, hv, rfl, hid, hsent, -⟩ := sentBy_of_leavesFrom hR ha hca hm hq
    obtain ⟨hfields, u, hu⟩ := copyFields_of_copy ha hv hid hsent
    exact ⟨hne hu, hfields⟩
  have harrived : ∀ q m, s.ArrivedAt q m → isQueryOf id m = true →
      ∃ p ∈ net.peerIdToSockfd q, s.upstream p id ≠ none ∧
        CopyFields net id.peerId p (depthOf net a id p) m := by
    intro q m hm hq
    obtain ⟨x, hv, rfl, hid, hsent, hlink⟩ := sentBy_of_arrivedAt hR ha hca hm hq
    obtain ⟨hfields, u, hu⟩ := copyFields_of_copy ha hv hid hsent
    exact ⟨x.sender, hlink, hne hu, hfields⟩
  refine ⟨?_, ?_, depthOf net a id, ?_, ?_, hleaves, harrived⟩
  · intro hany
    obtain ⟨p, hp⟩ : ∃ p, s.upstream p id ≠ none := by
      rcases hany with ⟨p, m, hm | hm, hq⟩ | ⟨p, -, hp⟩
      · exact ⟨p, (hleaves p m hm hq).1⟩
      · obtain ⟨q, -, hq, -⟩ := harrived p m hm hq
        exact ⟨q, hq⟩
      · exact ⟨p, hp⟩
    obtain ⟨n, hn⟩ := hsome hp
    rw [hup]
    exact hn.live
  · intro p u hpo hu
    obtain ⟨n, hn⟩ := hsome (by rw [hu]; exact Option.some_ne_none u)
    rw [hup] at hu
    cases hn with
    | origin => exact absurd rfl hpo
    | @hop p v n hp hlink hv hd =>
        rw [hv] at hu
        injection hu with hu
        subst hu
        obtain ⟨v', hv'⟩ := hd.cached
        refine ⟨hlink, hne hv', ?_⟩
        intro s' hsteps hc'
        obtain ⟨a', ha', hR'⟩ := exists_flood_steps hsteps ha hR
        rw [hR'.upstream]
        exact (flood_steps_grows ha').queries (hR'.nothingRemoved.mp hc') _ _ _ hv
  · rw [depthOf]
    split
    · next hex =>
        have hspec := hex.choose_spec
        exact hspec.unique (.origin hspec.live)
    · rfl
  · intro p hpo hp
    obtain ⟨n, hn⟩ := hsome hp
    rw [depthOf_eq hn]
    constructor
    · cases hn with
      | origin => exact absurd rfl hpo
      | hop => exact Nat.succ_le_succ (Nat.zero_le _)
    · obtain ⟨path, hpath, hlen, -⟩ := depth_path hR hn
      exact ⟨path, hpath, hlen⟩

theorem reverse_path_lineOfThree :
    queriedAlongLine.upstream 0 ⟨0, 0, 0⟩ = some (-1) ∧
      ∃ path, UpstreamPath queriedAlongLine ⟨0, 0, 0⟩ 2 0 path := by
  have hs : Reachable lineOfThree queriedAlongLine := reachable_finalState _ _
  have hissued : (0, .issued ⟨0, 0, 0⟩ (createQueryMessage 0 ⟨0, 0, 0⟩ theFile.1)) ∈
      queriedAlongLine.log := by decide +kernel
  obtain ⟨hroot, -, d, -, hpath, -⟩ := reverse_path lineOfThree hs (by decide +kernel) hissued
  refine ⟨hroot (.inr ⟨2, by decide, by decide +kernel⟩), ?_⟩
  obtain ⟨-, path, hp, -⟩ := hpath 2 (by decide) (by decide +kernel)
  exact ⟨path, hp⟩

end Network

end P2PFileSharing
