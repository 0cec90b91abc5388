import P2PFileSharing.Lib.Counting
import P2PFileSharing.Proofs.Registration

/-!
# What the register server tells the peers, and when it stops

The flag is set by the insertion that makes the map as large as the number of
peers, and from then on an insertion only overwrites: every response lists the
same keys. How long the process lives is decided by another count, that of the
handlers that finished, which is the same only while no peer is served twice.
And the address a handler stores is whatever the accept loop's variable holds
when the thread gets to copy it.
-/

namespace P2PFileSharing

variable {ids : List PeerID} {n : Nat} {s s' : RegisterServer} {t t' : RegisterTables}
  {l : RegisterLabel} {c : Connection} {point point' : HandlerPoint} {clientAddr : InAddr}

/-! ## Agreement -/

/-- The peer ids that `HandleRegisterResponse` reads from a response: the number at the
head of each line after the first. -/
def listedIds (response : Str) : Except Fault (List PeerID) :=
  (splitString (response.dropWhile fun c => c ≠ '\n').tail ['\n']).mapM fun line =>
    stoi (line.takeWhile fun c => c ≠ ' ')

/-- A text is the lines of some entries, under addresses. -/
def Lines (text : Str) (clients : List (PeerID × SClientInfo)) : Prop :=
  text = clients.flatMap infoLine ∧ ∀ client ∈ clients, ∃ addr, client.2.ip = inetNtoa addr

/-- What the members say about the peers. -/
structure RegisterTables.Agree (ids : List PeerID) (t : RegisterTables) : Prop where
  keys : ∀ id ∈ t.clientInfo.keys, id ∈ ids
  addresses : ∀ client ∈ t.clientInfo.entries, ∃ addr, client.2.ip = inetNtoa addr
  full : t.allPeersRegistered = true → t.clientInfo.size = ids.length
  sent : ∀ r ∈ t.sent, t.allPeersRegistered = true ∧
    ∃ m clients, r.2 = responseText registerResponseAllPeers m ∧ Lines m clients ∧
      clients.map Prod.fst = t.clientInfo.keys

/-- What a handler thread holds at its program point. -/
def HandlerPoint.Agree (ids : List PeerID) (t : RegisterTables) : HandlerPoint → Prop
  | .start | .receive _ => True
  | .register id _ | .wait id | .count id | .done id => id ∈ ids
  | .respond id m k =>
      id ∈ ids ∧ t.allPeersRegistered = true ∧
        ∃ clients, Lines m clients ∧ clients.map Prod.fst = t.clientInfo.keys.take k

/-- A connection asks to register one of the peers. -/
def Connection.From (ids : List PeerID) (c : Connection) : Prop :=
  ∃ id ∈ ids, c.request = registerRequest id

instance : Decidable (c.From ids) :=
  inferInstanceAs (Decidable (∃ id ∈ ids, c.request = registerRequest id))

structure RegisterServer.Agree (ids : List PeerID) (s : RegisterServer) : Prop where
  tables : s.tables.Agree ids
  pending : ∀ c, s.accepting = .accepted c → c.From ids
  handlers : ∀ h ∈ s.handlers, h.connection.From ids ∧ h.point.Agree ids s.tables

/-- Once the flag is set it stays, and so do the keys. -/
def RegisterTables.Settles (t t' : RegisterTables) : Prop :=
  t.allPeersRegistered = true →
    t'.allPeersRegistered = true ∧ t'.clientInfo.keys = t.clientInfo.keys

/-- Keys that are all as many as the peers are the peers. -/
theorem RegisterTables.Agree.perm (ht : t.Agree ids) (hflag : t.allPeersRegistered = true) :
    t.clientInfo.keys.Perm ids := by
  refine (List.subperm_of_subset t.clientInfo.nodup_keys ht.keys).perm_of_length_le ?_
  rw [UnorderedMap.length_keys, ht.full hflag]

theorem register_settles (ht : t.Agree ids) {id : PeerID} (hid : id ∈ ids) (addr : InAddr) :
    t.Settles (t.register ids.length c id addr) := by
  intro hflag
  have hmem : id ∈ t.clientInfo.keys := (ht.perm hflag).mem_iff.mpr hid
  refine ⟨?_, UnorderedMap.keys_insert_of_some _ (UnorderedMap.mem_keys_iff.mp hmem)⟩
  simp only [RegisterTables.register, hflag, ite_self]

theorem HandlerPoint.Agree.settles (h : point.Agree ids t) (hs : t.Settles t') :
    point.Agree ids t' := by
  cases point with
  | respond id m k =>
      obtain ⟨hid, hflag, clients, hm, hk⟩ := h
      obtain ⟨hflag', hkeys⟩ := hs hflag
      exact ⟨hid, hflag', clients, hm, by rw [hkeys]; exact hk⟩
  | _ => exact h

theorem register_agree (ht : t.Agree ids) {id : PeerID} (hid : id ∈ ids) (addr : InAddr) :
    (t.register ids.length c id addr).Agree ids where
  keys := by
    intro id' hid'
    rcases UnorderedMap.mem_keys_insert.mp hid' with rfl | hid'
    · exact hid
    · exact ht.keys id' hid'
  addresses := by
    intro client hclient
    rcases UnorderedMap.mem_entries_insert hclient with rfl | hclient
    · exact ⟨addr, rfl⟩
    · exact ht.addresses client hclient
  full := by
    intro hflag
    simp only [RegisterTables.register] at hflag ⊢
    split at hflag
    · assumption
    · have hkeys := (register_settles (c := c) ht hid addr hflag).2
      rw [← UnorderedMap.length_keys, ← ht.full hflag, ← UnorderedMap.length_keys, ← hkeys]
      rfl
  sent := by
    intro r hr
    obtain ⟨hflag, m, clients, hm, hlines, hk⟩ := ht.sent r hr
    obtain ⟨hflag', hkeys⟩ := register_settles (c := c) ht hid addr hflag
    exact ⟨hflag', m, clients, hm, hlines, by rw [hkeys]; exact hk⟩

/-- One step of a handler thread. -/
theorem HandlerMove.agree (h : HandlerMove ids.length clientAddr t c point t' point')
    (ht : t.Agree ids) (hc : c.From ids) (hp : point.Agree ids t) :
    t'.Agree ids ∧ point'.Agree ids t' ∧ t.Settles t' := by
  have hsame : t.Settles t := fun hflag => ⟨hflag, rfl⟩
  cases h with
  | copy => exact ⟨ht, trivial, hsame⟩
  | receive hid =>
      obtain ⟨id', hid', hreq⟩ := hc
      rw [hreq, requestPeerId_registerRequest] at hid
      cases hid
      exact ⟨ht, hid', hsame⟩
  | reject => exact ⟨⟨ht.keys, ht.addresses, ht.full, ht.sent⟩, trivial, hsame⟩
  | register => exact ⟨register_agree ht hp _, hp, register_settles ht hp _⟩
  | wake hflag =>
      exact ⟨ht, ⟨hp, hflag, [], ⟨rfl, fun _ h => (nomatch h)⟩, rfl⟩, hsame⟩
  | @entry id m k client hk =>
      obtain ⟨hid, hflag, clients, ⟨rfl, haddr⟩, hkeys⟩ := hp
      refine ⟨ht, ⟨hid, hflag, clients ++ [client], ⟨?_, ?_⟩, ?_⟩, hsame⟩
      · rw [List.flatMap_append, List.flatMap_singleton]
      · intro client' hmem
        rcases List.mem_append.mp hmem with hmem | hmem
        · exact haddr client' hmem
        · rw [List.mem_singleton.mp hmem]
          exact ht.addresses client (List.mem_of_getElem? hk)
      · have hkey : t.clientInfo.keys[k]? = some client.1 := by
          rw [UnorderedMap.keys, List.getElem?_map, hk]
          rfl
        rw [List.map_append, hkeys, List.take_add_one, hkey]
        rfl
  | @send id m k hk =>
      obtain ⟨hid, hflag, clients, hlines, hkeys⟩ := hp
      refine ⟨⟨ht.keys, ht.addresses, ht.full, ?_⟩, hid, hsame⟩
      intro r hr
      rcases List.mem_append.mp hr with hr | hr
      · exact ht.sent r hr
      · rw [List.mem_singleton.mp hr]
        refine ⟨hflag, m, clients, rfl, hlines, ?_⟩
        rw [hkeys]
        refine List.take_of_length_le ?_
        rw [UnorderedMap.keys, List.length_map]
        exact List.getElem?_eq_none_iff.mp hk
  | count => exact ⟨⟨ht.keys, ht.addresses, ht.full, ht.sent⟩, hp, hsame⟩

theorem reachable_agree (h : (registerServerFor ids).Reachable s) : s.Agree ids := by
  refine h.invariant ?_ ?_
  · intro s h
    obtain rfl := h
    exact ⟨⟨fun _ h => (nomatch h), fun _ h => (nomatch h), fun h => (nomatch h),
      fun _ h => (nomatch h)⟩, fun _ h => (nomatch h), fun _ h => (nomatch h)⟩
  · rintro s l s' - ⟨ht, hpend, hh⟩ ⟨hfrom, hstep⟩
    cases registerStep_move hstep with
    | accept c hacc =>
        refine ⟨ht, fun c' hc' => ?_, hh⟩
        cases hc'
        exact hfrom c rfl
    | start c hacc =>
        refine ⟨ht, fun _ h => (nomatch h), fun h hmem => ?_⟩
        rcases List.mem_append.mp hmem with hmem | hmem
        · exact hh h hmem
        · rw [List.mem_singleton.mp hmem]
          exact ⟨hpend c hacc, trivial⟩
    | refuse c hacc => exact ⟨ht, fun _ h => (nomatch h), hh⟩
    | handler i h hi hm =>
        have hold := hh h (List.mem_of_getElem? hi)
        obtain ⟨ht', hp', hset⟩ := hm.agree ht hold.1 hold.2
        refine ⟨ht', hpend, fun h' hmem => ?_⟩
        rcases List.mem_or_eq_of_mem_set hmem with hmem | rfl
        · exact ⟨(hh h' hmem).1, (hh h' hmem).2.settles hset⟩
        · exact ⟨hold.1, hp'⟩
    | poll | leave | exit => exact ⟨ht, hpend, hh⟩

/-! ## Reading a response -/

theorem newline_notMem_inetNtoa (addr : InAddr) : '\n' ∉ inetNtoa addr := by
  simp only [inetNtoa, joinString, List.mem_append, List.mem_singleton, not_or]
  exact ⟨⟨newline_notMem_natToString _, by decide⟩, ⟨newline_notMem_natToString _, by decide⟩,
    ⟨newline_notMem_natToString _, by decide⟩, newline_notMem_natToString _⟩

theorem takeWhile_intToString (k : Int) (rest : Str) :
    (intToString k ++ ' ' :: rest).takeWhile (fun c => c ≠ ' ') = intToString k :=
  takeWhile_append_sep (notMem_intToString (by decide) (by decide) k) rest

/-- A line without its newline. -/
def infoText (client : PeerID × SClientInfo) : Str :=
  intToString client.1 ++ ' ' :: client.2.ip

theorem splitString_infoLines {clients : List (PeerID × SClientInfo)}
    (h : ∀ client ∈ clients, '\n' ∉ client.2.ip) :
    splitString (clients.flatMap infoLine) ['\n'] = clients.map infoText := by
  have hflat : clients.flatMap infoLine = (clients.map infoText).flatMap fun s => s ++ ['\n'] := by
    rw [List.flatMap_map]
    congr 1
    funext client
    simp [infoLine, infoText]
  rw [hflat]
  refine splitStringFrom_lines (by decide) _ 0 ?_
  intro s hs
  obtain ⟨client, hclient, rfl⟩ := List.mem_map.mp hs
  intro hmem
  rcases List.mem_append.mp hmem with hmem | hmem
  · exact newline_notMem_intToString _ hmem
  · rcases List.mem_cons.mp hmem with hmem | hmem
    · exact absurd hmem (by decide)
    · exact h client hclient hmem

theorem splitString_lines {m : Str} {clients : List (PeerID × SClientInfo)}
    (h : Lines m clients) : splitString m ['\n'] = clients.map infoText := by
  obtain ⟨rfl, haddr⟩ := h
  refine splitString_infoLines ?_
  intro client hclient
  obtain ⟨addr, hip⟩ := haddr client hclient
  rw [hip]
  exact newline_notMem_inetNtoa addr

theorem mapM_stoi {clients : List (PeerID × SClientInfo)} (h : ∀ c ∈ clients, IsInt c.1) :
    (clients.map infoText).mapM (fun line => stoi (line.takeWhile fun c => c ≠ ' ')) =
      .ok (clients.map Prod.fst) := by
  induction clients with
  | nil => rfl
  | cons client rest ih =>
      rw [List.map_cons, List.mapM_cons, infoText, takeWhile_intToString,
        stoi_intToString (h client List.mem_cons_self),
        ih fun c hc => h c (List.mem_cons_of_mem _ hc)]
      rfl

theorem listedIds_response {m : Str} {clients : List (PeerID × SClientInfo)}
    (h : Lines m clients) (hint : ∀ c ∈ clients, IsInt c.1) :
    listedIds (responseText registerResponseAllPeers m) = .ok (clients.map Prod.fst) := by
  have hnot : '\n' ∉ registerResponseAllPeers := by decide
  have hsplit :
      responseText registerResponseAllPeers m = registerResponseAllPeers ++ '\n' :: m := by
    rw [responseText, List.append_assoc]
    rfl
  have htail :
      ((responseText registerResponseAllPeers m).dropWhile fun c => c ≠ '\n').tail = m := by
    rw [hsplit, dropWhile_append_sep hnot, List.tail_cons]
  rw [listedIds, htail, splitString_lines h, mapM_stoi hint]

/-- No response leaves before every peer is in the map, every response lists every peer
once and nobody else, and so any two list the same peers. -/
theorem responses_agree (hint : ∀ id ∈ ids, IsInt id) (h : (registerServerFor ids).Reachable s)
    {r : PeerID × Str} (hr : r ∈ s.tables.sent) :
    (∀ id ∈ ids, id ∈ s.tables.clientInfo.keys) ∧
      ∃ listed, listedIds r.2 = .ok listed ∧ listed.Nodup ∧ listed.Perm ids := by
  have ht := (reachable_agree h).tables
  obtain ⟨hflag, m, clients, hm, hlines, hkeys⟩ := ht.sent r hr
  have hperm := ht.perm hflag
  refine ⟨fun id hid => hperm.mem_iff.mpr hid, clients.map Prod.fst, ?_, ?_, ?_⟩
  · rw [hm]
    refine listedIds_response hlines fun client hclient => hint _ (ht.keys _ ?_)
    rw [← hkeys]
    exact List.mem_map_of_mem hclient
  · rw [hkeys]
    exact s.tables.clientInfo.nodup_keys
  · rw [hkeys]
    exact hperm

/-- What a fixed run of the server ends in, if every step of it is possible. -/
def registerRun (n : Nat) (ls : List RegisterLabel) : RegisterServer :=
  (System.runSteps (registerStep n) initialRegisterServer ls).getD initialRegisterServer

/-- The connection that comes in with a step. -/
def RegisterLabel.connection? : RegisterLabel → Option Connection
  | .accept c => some c
  | _ => none

theorem reachable_registerRun {ls : List RegisterLabel}
    (hls : ∀ c ∈ ls.filterMap RegisterLabel.connection?, c.From ids) :
    (registerServerFor ids).Reachable (registerRun ids.length ls) := by
  refine System.Reachable.getD_runSteps (.init rfl) ?_
  intro l hl s s' hstep
  refine ⟨fun c hc => hls c (List.mem_filterMap.mpr ⟨l, hl, ?_⟩), hstep⟩
  rw [hc]
  rfl

/-- A connection of peer `id` from one address or another. -/
def callFrom (d : Fin 256) (id : PeerID) : Connection := ⟨⟨10, 0, 0, d⟩, registerRequest id⟩

/-- A connection comes in, and its handler thread is started. -/
def callRun (c : Connection) : List RegisterLabel := [.accept c, .startHandler]

/-- Two peers register, and the first one is answered. -/
def firstAnswered : List RegisterLabel :=
  callRun (callFrom 1 0) ++ List.replicate 3 (.handler 0) ++ callRun (callFrom 2 1) ++
    List.replicate 3 (.handler 1) ++ List.replicate 4 (.handler 0)

theorem responses_agree_firstAnswered :
    (∀ id ∈ [(0 : PeerID), 1],
        id ∈ (registerRun 2 firstAnswered).tables.clientInfo.keys) ∧
      ∃ listed, listedIds (responseText registerResponseAllPeers
          (infoLine (0, ⟨0, inetNtoa ⟨10, 0, 0, 1⟩⟩) ++
            infoLine (1, ⟨1, inetNtoa ⟨10, 0, 0, 2⟩⟩))) =
            .ok listed ∧ listed.Nodup ∧ listed.Perm [0, 1] := by
  have hrun : (registerServerFor [0, 1]).Reachable (registerRun 2 firstAnswered) :=
    reachable_registerRun (by decide)
  exact responses_agree (r := (0, _)) (by decide) hrun (by decide)

end P2PFileSharing
