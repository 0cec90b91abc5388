import P2PFileSharing.Guarantees.Registration
import P2PFileSharing.Model.RegisterClient
import P2PFileSharing.Proofs.Lines

/-!
# What a peer makes of the register response

Every line of the response is an id, a blank and an address, and reads back as that whatever
the order of the lines. The neighbours that are listed and the peer itself get their
addresses, and nobody else comes in. `ConnectToPeers` then opens one connection for each key
but the peer's own. All of this is about a response that arrives whole: the array `Register`
receives into has room for `MSG_BUF_SIZE - 1` bytes and the NUL that ends the string.
-/

namespace P2PFileSharing

/-! ## Reading the lines -/

section Lines

variable {me : PeerID} {ips : UnorderedMap PeerID Str} {clients : List (PeerID × SClientInfo)}

/-- What one entry of the response does to the addresses. -/
def fillIn (me : PeerID) (ips : UnorderedMap PeerID Str) (client : PeerID × SClientInfo) :
    UnorderedMap PeerID Str :=
  if (ips.find? client.1).isNone ∧ client.1 ≠ me then ips else ips.insert client.1 client.2.ip

theorem readPeerInfo_infoText {client : PeerID × SClientInfo} (h : IsInt client.1) :
    readPeerInfo me ips (infoText client) = .ok (fillIn me ips client) := by
  have hblank : ' ' ∉ intToString client.1 := notMem_intToString (by decide) (by decide) _
  rw [readPeerInfo, infoText, takeWhile_intToString, stoi_intToString h, afterFirst_append hblank,
    fillIn]
  simp only [bind, Except.bind]
  split
  · rfl
  · rfl

theorem foldlM_readPeerInfo (h : ∀ client ∈ clients, IsInt client.1) :
    ∀ {ips : UnorderedMap PeerID Str}, (clients.map infoText).foldlM (readPeerInfo me) ips =
      .ok (clients.foldl (fillIn me) ips) := by
  induction clients with
  | nil =>
      intro ips
      rfl
  | cons client rest ih =>
      intro ips
      rw [List.map_cons, List.foldlM_cons, readPeerInfo_infoText (h client List.mem_cons_self),
        List.foldl_cons]
      exact ih fun c hc => h c (List.mem_cons_of_mem _ hc)

theorem find?_fillIn {client : PeerID × SClientInfo} (q : PeerID) :
    (fillIn me ips client).find? q =
      if client.1 = q ∧ (q = me ∨ (ips.find? q).isSome) then some client.2.ip
      else ips.find? q := by
  rw [fillIn]
  split
  · next hskip =>
      rw [if_neg]
      intro h
      obtain ⟨rfl, hkeep⟩ := h
      rcases hkeep with hme | hsome
      · exact hskip.2 hme
      · rw [Option.isNone_iff_eq_none] at hskip
        rw [hskip.1] at hsome
        cases hsome
  · next hkeep =>
      rw [UnorderedMap.find?_insert]
      by_cases hq : client.1 = q
      · obtain rfl := hq
        rw [if_pos (BEq.rfl), if_pos]
        refine ⟨rfl, ?_⟩
        by_contra hno
        rw [not_or] at hno
        rw [Option.not_isSome_iff_eq_none] at hno
        exact hkeep ⟨by rw [hno.2]; rfl, hno.1⟩
      · have hbeq : (client.1 == q) = false := beq_eq_false_iff_ne.mpr hq
        rw [hbeq, if_neg (by decide), if_neg fun h => hq h.1]

/-- Entries with different keys fill in each its own address, in whatever order. -/
theorem find?_foldl_fillIn (hd : clients.Pairwise fun a b => (a.1 == b.1) = false) (q : PeerID) :
    ∀ {ips : UnorderedMap PeerID Str}, (clients.foldl (fillIn me) ips).find? q =
      match (clients.find? fun e => e.1 == q).map Prod.snd with
      | some info => if q = me ∨ (ips.find? q).isSome then some info.ip else ips.find? q
      | none => ips.find? q := by
  induction clients with
  | nil =>
      intro ips
      rfl
  | cons client rest ih =>
      intro ips
      obtain ⟨hfirst, hrest⟩ := List.pairwise_cons.mp hd
      rw [List.foldl_cons, ih hrest, find?_fillIn, List.find?_cons]
      by_cases hq : client.1 = q
      · obtain rfl := hq
        have hnone : (rest.find? fun e => e.1 == client.1) = none := by
          rw [List.find?_eq_none]
          intro e he h
          have hne := hfirst e he
          rw [BEq.symm h] at hne
          cases hne
        rw [hnone, BEq.rfl]
        simp
      · have hbeq : (client.1 == q) = false := beq_eq_false_iff_ne.mpr hq
        simp only [hbeq, hq, false_and, if_false]

end Lines

/-! ## Connecting -/

section Connect

variable {connect : PeerSocket → Bool} {me : PeerID} {entries : List (PeerID × Str)}

/-- A connection to the peer of an entry. -/
def openPeer (c : PeerConnections) (entry : PeerID × Str) : PeerConnections where
  opened := c.opened ++ [peerSocket entry]
  peerIdToSockfd := c.peerIdToSockfd.insert entry.1 c.opened.length

theorem foldlM_connectToPeer (hconnect : ∀ x, connect x = true) :
    ∀ {c : PeerConnections}, entries.foldlM (connectToPeer connect me) c =
      some ((entries.filter fun e => e.1 ≠ me).foldl openPeer c) := by
  induction entries with
  | nil =>
      intro c
      rfl
  | cons entry rest ih =>
      intro c
      rw [List.foldlM_cons, connectToPeer, List.filter_cons]
      by_cases hme : entry.1 = me
      · rw [if_pos hme, if_neg (by rw [decide_eq_true_eq]; exact fun h => h hme)]
        exact ih
      · rw [if_neg hme, if_pos (hconnect _), if_pos (decide_eq_true hme), List.foldl_cons]
        exact ih

/-- One connection an entry, in their order, recorded under its key. -/
theorem foldl_openPeer (hd : (entries.map Prod.fst).Nodup) :
    (entries.foldl openPeer ⟨[], .empty⟩).opened = entries.map peerSocket ∧
      ∀ q i, (entries.foldl openPeer ⟨[], .empty⟩).peerIdToSockfd.find? q = some i ↔
        (entries.map Prod.fst)[i]? = some q := by
  induction entries using List.reverseRecOn with
  | nil =>
      refine ⟨rfl, ?_⟩
      intro q i
      rw [List.map_nil, List.getElem?_nil]
      exact ⟨fun h => (nomatch h), fun h => (nomatch h)⟩
  | append_singleton entries entry ih =>
      rw [List.map_append, List.nodup_append] at hd
      obtain ⟨hbefore, -, hnew⟩ := hd
      obtain ⟨hopened, hfind⟩ := ih hbefore
      rw [List.foldl_append, List.foldl_cons, List.foldl_nil]
      constructor
      · rw [openPeer, hopened, List.map_append]
        rfl
      · intro q i
        have hlen : (entries.foldl openPeer ⟨[], .empty⟩).opened.length =
            (entries.map Prod.fst).length := by
          rw [hopened, List.length_map, List.length_map]
        rw [openPeer]
        dsimp only
        rw [UnorderedMap.find?_insert, hlen, List.map_append, List.map_singleton]
        by_cases hq : entry.1 = q
        · obtain rfl := hq
          rw [if_pos BEq.rfl, Option.some.injEq]
          constructor
          · intro h
            rw [← h, List.getElem?_append_right (Nat.le_refl _), Nat.sub_self]
            rfl
          · intro h
            by_contra hne
            rcases Nat.lt_or_ge i (entries.map Prod.fst).length with hlt | hge
            · rw [List.getElem?_append_left hlt] at h
              exact hnew _ (List.mem_of_getElem? h) _ List.mem_cons_self rfl
            · rw [List.getElem?_eq_none] at h
              · cases h
              · rw [List.length_append, List.length_singleton]
                omega
        · have hbeq : (entry.1 == q) = false := beq_eq_false_iff_ne.mpr hq
          rw [hbeq, if_neg (by decide), hfind]
          constructor
          · intro h
            rw [List.getElem?_append_left (List.getElem?_eq_some_iff.mp h).1, h]
          · intro h
            rcases Nat.lt_or_ge i (entries.map Prod.fst).length with hlt | hge
            · rw [List.getElem?_append_left hlt] at h
              exact h
            · rw [List.getElem?_append_right hge] at h
              exact absurd (List.mem_singleton.mp (List.mem_of_getElem? h)) fun h => hq h.symm

end Connect

/-! ## The response -/

section Response

variable {connect : PeerSocket → Bool} {me : PeerID} {neighbours : UnorderedMap PeerID Str}
  {clientInfo : UnorderedMap PeerID SClientInfo}

/-- Where a registered peer's server listens. -/
def registeredSocket (clientInfo : UnorderedMap PeerID SClientInfo) (q : PeerID) : PeerSocket :=
  peerSocket (q, ((clientInfo.find? q).map SClientInfo.ip).getD [])

/-- The addresses after the response: those of the neighbours and of the peer itself. -/
structure FilledIn (clientInfo : UnorderedMap PeerID SClientInfo) (me : PeerID)
    (neighbours ips : UnorderedMap PeerID Str) : Prop where
  keys : ∀ q, q ∈ ips.keys ↔ q ∈ neighbours.keys ∨ q = me
  registered : ∀ q ∈ ips.keys, ∀ info, clientInfo.find? q = some info →
    ips.find? q = some info.ip
  unregistered : ∀ q, clientInfo.find? q = none → ips.find? q = neighbours.find? q

/-- One connection to each neighbour but the peer itself, recorded under the neighbour's id. -/
def ConnectsToEach (clientInfo : UnorderedMap PeerID SClientInfo) (me : PeerID)
    (neighbours : UnorderedMap PeerID Str) (c : PeerConnections) : Prop :=
  ∃ ids : List PeerID, ids.Nodup ∧ (∀ q, q ∈ ids ↔ q ∈ neighbours.keys ∧ q ≠ me) ∧
    c.opened = ids.map (registeredSocket clientInfo) ∧
    ∀ q i, c.peerIdToSockfd.find? q = some i ↔ ids[i]? = some q

theorem nul_notMem_allPeersResponse (h : ∀ client ∈ clientInfo.entries, '\x00' ∉ client.2.ip) :
    '\x00' ∉ allPeersResponse clientInfo := by
  intro hmem
  rw [allPeersResponse, responseText] at hmem
  rcases List.mem_append.mp hmem with hmem | hmem
  · exact absurd hmem (by decide)
  · obtain ⟨client, hclient, hmem⟩ := List.mem_flatMap.mp hmem
    simp only [infoLine, List.mem_append, List.mem_singleton] at hmem
    rcases hmem with ((hmem | hmem) | hmem) | hmem
    · exact notMem_intToString (by decide) (by decide) _ hmem
    · exact absurd hmem (by decide)
    · exact h client hclient hmem
    · exact absurd hmem (by decide)

/-- What `HandleRegisterResponse` reads in the text that the server sends. -/
theorem readRegisterResponse_eq (hids : ∀ client ∈ clientInfo.entries, IsInt client.1)
    (hips : ∀ client ∈ clientInfo.entries, '\n' ∉ client.2.ip ∧ '\x00' ∉ client.2.ip) :
    readRegisterResponse me neighbours (allPeersResponse clientInfo) =
      .ok (some (clientInfo.entries.foldl (fillIn me) neighbours)) := by
  have hnul := nul_notMem_allPeersResponse fun client hclient => (hips client hclient).2
  have htype : '\n' ∉ registerResponseAllPeers := by decide
  have hstring : cString (allPeersResponse clientInfo) =
      registerResponseAllPeers ++ '\n' :: clientInfo.entries.flatMap infoLine := by
    have hpad := unpad_pad (n := 0) hnul
    rw [pad, Nat.zero_sub, List.replicate_zero, List.append_nil] at hpad
    rw [cString, hpad, allPeersResponse, responseText, List.append_assoc]
    rfl
  have hlines := splitString_infoLines fun client hclient => (hips client hclient).1
  simp only [readRegisterResponse, hstring, takeWhile_append_sep htype, afterFirst_append htype,
    hlines, foldlM_readPeerInfo hids, if_pos, bind, Except.bind]
  rfl

theorem handleRegisterResponse_eq (hids : ∀ client ∈ clientInfo.entries, IsInt client.1)
    (hips : ∀ client ∈ clientInfo.entries, '\n' ∉ client.2.ip ∧ '\x00' ∉ client.2.ip) :
    handleRegisterResponse connect me neighbours (allPeersResponse clientInfo) =
      .ok ⟨clientInfo.entries.foldl (fillIn me) neighbours,
        connectToPeers connect me (clientInfo.entries.foldl (fillIn me) neighbours)⟩ := by
  rw [handleRegisterResponse_read, readRegisterResponse_eq hids hips]
  rfl

theorem filledIn_foldl (neighbours : UnorderedMap PeerID Str)
    (hme : (clientInfo.find? me).isSome) :
    FilledIn clientInfo me neighbours (clientInfo.entries.foldl (fillIn me) neighbours) := by
  have hfind : ∀ q, (clientInfo.entries.foldl (fillIn me) neighbours).find? q =
      match clientInfo.find? q with
      | some info => if q = me ∨ (neighbours.find? q).isSome then some info.ip
          else neighbours.find? q
      | none => neighbours.find? q := fun q => find?_foldl_fillIn clientInfo.distinct q
  have hkeys : ∀ q, q ∈ (clientInfo.entries.foldl (fillIn me) neighbours).keys ↔
      q ∈ neighbours.keys ∨ q = me := by
    intro q
    rw [UnorderedMap.mem_keys_iff, UnorderedMap.mem_keys_iff, hfind]
    cases hq : clientInfo.find? q with
    | none =>
        constructor
        · exact .inl
        · intro h
          rcases h with h | h
          · exact h
          · rw [h] at hq
            rw [hq] at hme
            cases hme
    | some info =>
        dsimp only
        split
        · next h =>
            refine ⟨fun _ => ?_, fun _ => nofun⟩
            rcases h with h | h
            · exact .inr h
            · exact .inl (Option.isSome_iff_ne_none.mp h)
        · next h =>
            rw [not_or] at h
            exact ⟨.inl, fun h' => h'.resolve_right h.1⟩
  refine ⟨hkeys, ?_, ?_⟩
  · intro q hq info hinfo
    rw [hfind, hinfo]
    dsimp only
    rw [if_pos]
    rcases (hkeys q).mp hq with h | h
    · exact .inr (Option.isSome_iff_ne_none.mpr (UnorderedMap.mem_keys_iff.mp h))
    · exact .inl h
  · intro q hq
    rw [hfind, hq]

theorem connectsToEach {ips : UnorderedMap PeerID Str} (h : FilledIn clientInfo me neighbours ips)
    (hall : ∀ q ∈ neighbours.keys, (clientInfo.find? q).isSome)
    (hconnect : ∀ x, connect x = true) :
    ∃ c, connectToPeers connect me ips = some c ∧ ConnectsToEach clientInfo me neighbours c := by
  have hnodup : ((ips.entries.filter fun e => e.1 ≠ me).map Prod.fst).Nodup :=
    (List.filter_sublist.map Prod.fst).nodup ips.nodup_keys
  obtain ⟨hopened, hfind⟩ := foldl_openPeer hnodup
  refine ⟨_, foldlM_connectToPeer hconnect, _, hnodup, ?_, ?_, hfind⟩
  · intro q
    constructor
    · intro hq
      obtain ⟨entry, hentry, rfl⟩ := List.mem_map.mp hq
      obtain ⟨hmem, hne⟩ := List.mem_filter.mp hentry
      have hne : entry.1 ≠ me := of_decide_eq_true hne
      refine ⟨?_, hne⟩
      exact ((h.keys entry.1).mp (List.mem_map_of_mem hmem)).resolve_right hne
    · intro hq
      obtain ⟨hq, hne⟩ := hq
      obtain ⟨entry, hentry, rfl⟩ := List.mem_map.mp ((h.keys q).mpr (.inl hq))
      exact List.mem_map_of_mem (List.mem_filter.mpr ⟨hentry, decide_eq_true hne⟩)
  · rw [hopened, List.map_map]
    refine List.map_congr_left ?_
    intro entry hentry
    obtain ⟨hmem, hne⟩ := List.mem_filter.mp hentry
    have hne : entry.1 ≠ me := of_decide_eq_true hne
    have hkey : entry.1 ∈ ips.keys := List.mem_map_of_mem hmem
    obtain ⟨info, hinfo⟩ :=
      Option.isSome_iff_exists.mp (hall entry.1 (((h.keys entry.1).mp hkey).resolve_right hne))
    have hip : ips.find? entry.1 = some entry.2 := UnorderedMap.mem_entries_iff.mp hmem
    rw [h.registered entry.1 hkey info hinfo, Option.some.injEq] at hip
    rw [Function.comp_apply, registeredSocket, hinfo, Option.map_some, Option.getD_some, hip]

/-- The response of the register server, in whatever order it lists the peers, gives each
neighbour and the peer itself its address, and with all neighbours registered there is then
one connection to each of them. -/
theorem register_response_codec (hids : ∀ client ∈ clientInfo.entries, IsInt client.1)
    (hips : ∀ client ∈ clientInfo.entries, '\n' ∉ client.2.ip ∧ '\x00' ∉ client.2.ip)
    (hme : (clientInfo.find? me).isSome) :
    ∃ r, handleRegisterResponse connect me neighbours (allPeersResponse clientInfo) = .ok r ∧
      FilledIn clientInfo me neighbours r.peerIdToIp ∧
      ((∀ q ∈ neighbours.keys, (clientInfo.find? q).isSome) → (∀ x, connect x = true) →
        ∃ c, r.connections = some c ∧ ConnectsToEach clientInfo me neighbours c) := by
  have hfilled := filledIn_foldl neighbours hme
  refine ⟨_, handleRegisterResponse_eq hids hips, hfilled, ?_⟩
  intro hall hconnect
  exact connectsToEach hfilled hall hconnect

/-- Two peers on one network. -/
def twoClients : UnorderedMap PeerID SClientInfo :=
  (UnorderedMap.empty.insert 1 ⟨1, inetNtoa ⟨10, 0, 0, 1⟩⟩).insert 2 ⟨2, inetNtoa ⟨10, 0, 0, 2⟩⟩

/-- What `LoadTopology` leaves for one neighbour. -/
def oneNeighbour : UnorderedMap PeerID Str := UnorderedMap.empty.insert 2 []

theorem register_response_codec_twoClients :
    ∃ r, handleRegisterResponse (fun _ => true) 1 oneNeighbour (allPeersResponse twoClients) =
        .ok r ∧
      FilledIn twoClients 1 oneNeighbour r.peerIdToIp ∧
      ((∀ q ∈ oneNeighbour.keys, (twoClients.find? q).isSome) →
        (∀ x : PeerSocket, (fun _ => true) x = true) →
        ∃ c, r.connections = some c ∧ ConnectsToEach twoClients 1 oneNeighbour c) :=
  register_response_codec (by decide) (by decide) (by decide)

end Response

/-! ## The size of the array -/

section Size

variable {clientInfo : UnorderedMap PeerID SClientInfo}

/-- How long the response is: the type and its newline, and for each peer its id, a blank, its
address and a newline. -/
def responseLength (clientInfo : UnorderedMap PeerID SClientInfo) : Nat :=
  10 + (clientInfo.entries.map fun client =>
    (intToString client.1).length + client.2.ip.length + 2).sum

theorem length_allPeersResponse :
    (allPeersResponse clientInfo).length = responseLength clientInfo := by
  have hline : ∀ client : PeerID × SClientInfo, (infoLine client).length =
      (intToString client.1).length + client.2.ip.length + 2 := by
    intro client
    simp only [infoLine, List.length_append, List.length_singleton]
    omega
  have htype : (registerResponseAllPeers ++ ['\n']).length = 10 := by decide
  rw [allPeersResponse, responseText, List.length_append, htype, List.length_flatMap,
    responseLength, List.map_congr_left fun client _ => hline client]

theorem nul_notMem_inetNtoa (addr : InAddr) : '\x00' ∉ inetNtoa addr := by
  have hdigits : ∀ n, '\x00' ∉ natToString n := notMem_natToString (by decide)
  simp only [inetNtoa, joinString, List.mem_append, List.mem_singleton, not_or]
  exact ⟨⟨hdigits _, by decide⟩, ⟨hdigits _, by decide⟩, ⟨hdigits _, by decide⟩, hdigits _⟩

/-- A text without a NUL is handed on as it was sent if and only if the array has room for the
NUL behind it. -/
theorem registerMessage_iff {sent : Str} (h : '\x00' ∉ sent) :
    registerMessage sent = some sent ↔ sent.length < msgBufSize := by
  rcases Nat.lt_or_ge sent.length msgBufSize with hlt | hge
  · refine ⟨fun _ => hlt, fun _ => ?_⟩
    have hmem : (pad msgBufSize '\x00' sent).contains '\x00' = true := by
      refine List.contains_iff_mem.mpr (List.mem_append_right _ ?_)
      exact List.mem_replicate.mpr ⟨by omega, rfl⟩
    rw [registerMessage, registerBuffer, List.take_of_length_le (Nat.le_of_lt hlt), cString?,
      if_pos hmem, cString, unpad_pad h]
  · have hlen : (sent.take msgBufSize).length = msgBufSize := by
      rw [List.length_take]
      omega
    have hnot : ¬(pad msgBufSize '\x00' (sent.take msgBufSize)).contains '\x00' = true := by
      rw [List.contains_iff_mem, pad, hlen, Nat.sub_self, List.replicate_zero, List.append_nil]
      exact fun hmem => h (List.mem_of_mem_take hmem)
    rw [registerMessage, registerBuffer, cString?, if_neg hnot]
    constructor
    · intro h
      cases h
    · omega

/-- The whole response is received if and only if it leaves a byte of the array free. -/
theorem whole_response_iff
    (haddr : ∀ client ∈ clientInfo.entries, ∃ addr, client.2.ip = inetNtoa addr) :
    registerMessage (allPeersResponse clientInfo) = some (allPeersResponse clientInfo) ↔
      responseLength clientInfo < msgBufSize := by
  rw [← length_allPeersResponse]
  refine registerMessage_iff (nul_notMem_allPeersResponse ?_)
  intro client hclient
  obtain ⟨addr, hip⟩ := haddr client hclient
  rw [hip]
  exact nul_notMem_inetNtoa addr

theorem whole_response_iff_twoClients :
    registerMessage (allPeersResponse twoClients) = some (allPeersResponse twoClients) := by
  refine (whole_response_iff ?_).mpr (by decide)
  intro client hclient
  rcases UnorderedMap.mem_entries_insert hclient with rfl | hclient
  · exact ⟨⟨10, 0, 0, 2⟩, rfl⟩
  · rcases UnorderedMap.mem_entries_insert hclient with rfl | hclient
    · exact ⟨⟨10, 0, 0, 1⟩, rfl⟩
    · cases hclient

/-- So many peers with addresses of the greatest length. -/
def crowd (n : Nat) : UnorderedMap PeerID SClientInfo where
  entries := (List.range n).map fun (i : Nat) =>
    ((i : PeerID), SClientInfo.mk i (inetNtoa ⟨255, 255, 255, 255⟩))
  distinct := by
    rw [List.pairwise_map]
    refine List.nodup_range.imp ?_
    intro i j hne
    exact beq_eq_false_iff_ne.mpr fun h => hne (Int.ofNat.inj h)

theorem crowd_cut_short : ¬∀ clientInfo : UnorderedMap PeerID SClientInfo,
    (∀ client ∈ clientInfo.entries, ∃ addr, client.2.ip = inetNtoa addr) →
      registerMessage (allPeersResponse clientInfo) = some (allPeersResponse clientInfo) := by
  intro hall
  have haddr : ∀ client ∈ (crowd 64).entries, ∃ addr, client.2.ip = inetNtoa addr := by
    intro client hclient
    obtain ⟨i, -, rfl⟩ := List.mem_map.mp hclient
    exact ⟨⟨255, 255, 255, 255⟩, rfl⟩
  have hlong : ¬responseLength (crowd 64) < msgBufSize := by decide
  have hwhole := hall (crowd 64) haddr
  rw [registerMessage_iff] at hwhole
  · rw [length_allPeersResponse] at hwhole
    exact hlong hwhole
  · refine nul_notMem_allPeersResponse ?_
    intro client hclient
    obtain ⟨addr, hip⟩ := haddr client hclient
    rw [hip]
    exact nul_notMem_inetNtoa addr

end Size

end P2PFileSharing
