import P2PFileSharing.Guarantees.Registration

/-!
# When the register server stops, and under which address a peer is stored

`Run` leaves once as many handlers have finished as there are peers. That is
once every peer has its response as long as each finished handler served another
peer, and may be earlier when a peer was served twice.

A handler thread copies the accept loop's variable, not the address of its own
connection. The two agree as long as no thread is so late that a connection from
elsewhere has been accepted in between.
-/

namespace P2PFileSharing

variable {ids : List PeerID} {n : Nat} {s s' : RegisterServer} {l : RegisterLabel}

/-! ## The count of finished handlers -/

/-- The peer a finished handler thread served. -/
def HandlerPoint.doneId : HandlerPoint → Option PeerID
  | .done id => some id
  | _ => none

def doneIds (handlers : List HandlerThread) : List PeerID :=
  handlers.filterMap fun h => h.point.doneId

/-- The step does not count a handler of a peer that another finished handler served. -/
def RegisterServer.CountsOnce (s : RegisterServer) : RegisterLabel → Prop
  | .handler i =>
      match s.handlers[i]? with
      | some ⟨_, .count id⟩ => id ∉ doneIds s.handlers
      | _ => True
  | _ => True

instance (s : RegisterServer) (l : RegisterLabel) : Decidable (s.CountsOnce l) := by
  unfold RegisterServer.CountsOnce
  split
  · split <;> infer_instance
  · infer_instance

/-- The runs in which no peer is served twice to the end. -/
def servedOnce (ids : List PeerID) : System RegisterServer RegisterLabel :=
  (registerServerFor ids).restrict RegisterServer.CountsOnce

/-- What the count of finished handlers says. -/
structure RegisterServer.Counted (ids : List PeerID) (s : RegisterServer) : Prop where
  count : s.tables.threadExitCount = (doneIds s.handlers).length
  once : (doneIds s.handlers).Nodup
  answered : ∀ h ∈ s.handlers, ∀ id, h.point = .count id ∨ h.point = .done id →
    ∃ text, (id, text) ∈ s.tables.sent
  ended : s.run ≠ .polling → ids.length ≤ s.tables.threadExitCount

theorem doneIds_set {handlers : List HandlerThread} {i : Nat} {h : HandlerThread}
    (hi : handlers[i]? = some h) :
    ∃ pre post, doneIds handlers = pre ++ (h.point.doneId.toList ++ post) ∧
      ∀ h', doneIds (handlers.set i h') = pre ++ (h'.point.doneId.toList ++ post) := by
  obtain ⟨pre, post, heq, hset⟩ := exists_split_of_getElem? hi
  have happ (h' : HandlerThread) : doneIds (pre ++ h' :: post) =
      doneIds pre ++ (h'.point.doneId.toList ++ doneIds post) := by
    rw [doneIds, List.filterMap_append, List.filterMap_cons]
    cases h'.point.doneId <;> rfl
  exact ⟨doneIds pre, doneIds post, by rw [heq]; exact happ h,
    fun h' => by rw [hset]; exact happ h'⟩

/-- A step of a handler thread that finishes nothing keeps who has been served. -/
theorem HandlerMove.kept {addr : InAddr} {t t' : RegisterTables} {c : Connection}
    {point point' : HandlerPoint} (h : HandlerMove n addr t c point t' point') :
    (point'.doneId = point.doneId ∧ t'.threadExitCount = t.threadExitCount ∧
        ∀ id, point' = .count id ∨ point' = .done id → ∃ text, (id, text) ∈ t'.sent) ∧
      (∀ r ∈ t.sent, r ∈ t'.sent) ∨
    ∃ id, point = .count id ∧ point' = .done id ∧
      t' = { t with threadExitCount := t.threadExitCount + 1 } := by
  cases h with
  | send h =>
      refine .inl ⟨⟨rfl, rfl, ?_⟩, fun r hr => List.mem_append_left _ hr⟩
      rintro id (heq | heq) <;> cases heq
      exact ⟨_, List.mem_append_right _ List.mem_cons_self⟩
  | count => exact .inr ⟨_, rfl, rfl, rfl⟩
  | copy | receive | reject | register | wake | entry =>
      refine .inl ⟨⟨rfl, rfl, ?_⟩, fun r hr => hr⟩
      rintro id (heq | heq) <;> cases heq

theorem counted_handler {i : Nat} {h : HandlerThread} {t : RegisterTables} {point : HandlerPoint}
    (hs : s.Counted ids) (honce : s.CountsOnce (.handler i)) (hi : s.handlers[i]? = some h)
    (hm : HandlerMove ids.length s.clientAddr s.tables h.connection h.point t point) :
    RegisterServer.Counted ids
      { s with tables := t, handlers := s.handlers.set i ⟨h.connection, point⟩ } := by
  obtain ⟨pre, post, hold, hnew⟩ := doneIds_set hi
  have hset := hnew ⟨h.connection, point⟩
  rcases hm.kept with ⟨⟨hdone, hcount, hans⟩, hsent⟩ | ⟨id, hpoint, rfl, rfl⟩
  · have hsame : doneIds (s.handlers.set i ⟨h.connection, point⟩) = doneIds s.handlers := by
      rw [hset, hold, hdone]
    refine ⟨?_, ?_, ?_, ?_⟩
    · rw [hsame, hcount]
      exact hs.count
    · rw [hsame]
      exact hs.once
    · intro h' hmem id hid
      rcases List.mem_or_eq_of_mem_set hmem with hmem | rfl
      · obtain ⟨text, htext⟩ := hs.answered h' hmem id hid
        exact ⟨text, hsent _ htext⟩
      · exact hans id hid
    · rw [hcount]
      exact hs.ended
  · have hfresh : id ∉ doneIds s.handlers := by
      obtain ⟨c, p⟩ := h
      dsimp only at hpoint
      subst hpoint
      unfold RegisterServer.CountsOnce at honce
      dsimp only at honce
      rw [hi] at honce
      exact honce
    have hone : h.point.doneId = none := by rw [hpoint]; rfl
    rw [hone] at hold
    have hperm : (doneIds (s.handlers.set i ⟨h.connection, .done id⟩)).Perm
        (id :: doneIds s.handlers) := by
      rw [hset, hold]
      exact List.perm_middle
    refine ⟨?_, ?_, ?_, ?_⟩
    · rw [hperm.length_eq, List.length_cons, ← hs.count]
    · rw [hperm.nodup_iff]
      exact List.nodup_cons.mpr ⟨hfresh, hs.once⟩
    · intro h' hmem id' hid'
      rcases List.mem_or_eq_of_mem_set hmem with hmem | rfl
      · exact hs.answered h' hmem id' hid'
      · rcases hid' with heq | heq <;> cases heq
        exact hs.answered h (List.mem_of_getElem? hi) id (.inl hpoint)
    · exact fun hrun => Nat.le_succ_of_le (hs.ended hrun)

theorem reachable_counted (h : (servedOnce ids).Reachable s) : s.Counted ids := by
  refine h.invariant ?_ ?_
  · rintro s rfl
    exact ⟨rfl, List.nodup_nil, fun _ h => (nomatch h), fun h => absurd rfl h⟩
  · rintro s l s' - hs ⟨honce, -, hstep⟩
    cases registerStep_move hstep with
    | accept c hacc => exact ⟨hs.count, hs.once, hs.answered, hs.ended⟩
    | start c hacc =>
        have hsame : doneIds (s.handlers ++ [⟨c, .start⟩]) = doneIds s.handlers := by
          rw [doneIds, List.filterMap_append]
          exact List.append_nil _
        refine ⟨?_, ?_, ?_, hs.ended⟩
        · rw [hsame]
          exact hs.count
        · rw [hsame]
          exact hs.once
        · intro h hmem id hid
          rcases List.mem_append.mp hmem with hmem | hmem
          · exact hs.answered h hmem id hid
          · rw [List.mem_singleton.mp hmem] at hid
            rcases hid with heq | heq <;> cases heq
    | refuse c hacc => exact ⟨hs.count, hs.once, hs.answered, hs.ended⟩
    | handler i h hi hm => exact counted_handler hs honce hi hm
    | poll => exact hs
    | leave hrun hge => exact ⟨hs.count, hs.once, hs.answered, fun _ => hge⟩
    | exit hrun =>
        exact ⟨hs.count, hs.once, hs.answered, fun _ => hs.ended (by rw [hrun]; nofun)⟩

/-- While no peer is served twice to the end, the process exits only after every peer in
the map has its response. -/
theorem exit_after_responses (h : (servedOnce ids).Reachable s) (hexit : s.run = .exited) :
    ∀ id ∈ s.tables.clientInfo.keys, ∃ text, (id, text) ∈ s.tables.sent := by
  have hs := reachable_counted h
  have ha := reachable_agree h.of_restrict
  have hover : ids.length ≤ (doneIds s.handlers).length := by
    rw [← hs.count]
    exact hs.ended (by rw [hexit]; nofun)
  have hdone : ∀ id ∈ doneIds s.handlers,
      id ∈ ids ∧ ∃ text, (id, text) ∈ s.tables.sent := by
    intro id hid
    obtain ⟨h, hmem, hpoint⟩ := List.mem_filterMap.mp hid
    have hp : h.point = .done id := by
      cases hp : h.point <;> rw [hp] at hpoint <;> cases hpoint
      rfl
    refine ⟨?_, hs.answered h hmem id (.inr hp)⟩
    have := (ha.handlers h hmem).2
    rw [hp] at this
    exact this
  have hperm : (doneIds s.handlers).Perm ids :=
    (List.subperm_of_subset hs.once fun id hid => (hdone id hid).1).perm_of_length_le hover
  intro id hid
  exact (hdone id (hperm.mem_iff.mpr (ha.tables.keys id hid))).2

/-- A fixed run that stops where a peer would be served a second time. -/
def servedRun (n : Nat) (ls : List RegisterLabel) : RegisterServer :=
  (System.runSteps (System.guarded (registerStep n) RegisterServer.CountsOnce)
    initialRegisterServer ls).getD initialRegisterServer

theorem reachable_servedRun {ls : List RegisterLabel}
    (hls : ∀ c ∈ ls.filterMap RegisterLabel.connection?, c.From ids) :
    (servedOnce ids).Reachable (servedRun ids.length ls) := by
  rw [servedRun]
  cases h : System.runSteps _ initialRegisterServer ls with
  | none => exact .init rfl
  | some s =>
      refine System.Reachable.runSteps ?_ (.init rfl) h
      intro l hl s s' hstep
      obtain ⟨hG, hstep⟩ := System.guarded_eq_some hstep
      refine ⟨hG, fun c hc => hls c (List.mem_filterMap.mpr ⟨l, hl, ?_⟩), hstep⟩
      rw [hc]
      rfl

/-- Two peers register, both are answered, and the server exits. -/
def bothAnswered : List RegisterLabel :=
  firstAnswered ++ List.replicate 5 (.handler 1) ++ [.handler 0, .poll, .exit]

theorem exit_after_responses_bothAnswered :
    (servedRun 2 bothAnswered).run = .exited ∧
      ∀ id ∈ (servedRun 2 bothAnswered).tables.clientInfo.keys,
        ∃ text, (id, text) ∈ (servedRun 2 bothAnswered).tables.sent := by
  have hrun : (servedOnce [0, 1]).Reachable (servedRun 2 bothAnswered) :=
    reachable_servedRun (by decide)
  have hexit : (servedRun 2 bothAnswered).run = .exited := by decide
  exact ⟨hexit, exit_after_responses hrun hexit⟩

/-- Peer 0 registers twice, peer 1 once, and both handlers of peer 0 finish first. -/
def servedTwice : List RegisterLabel :=
  callRun (callFrom 1 0) ++ List.replicate 3 (.handler 0) ++ callRun (callFrom 1 0) ++
    List.replicate 3 (.handler 1) ++ callRun (callFrom 2 1) ++ List.replicate 3 (.handler 2) ++
    List.replicate 5 (.handler 0) ++ List.replicate 5 (.handler 1) ++ [.poll, .exit]

/-- The server is gone, and peer 1, which had registered, has no response. -/
theorem exits_early :
    (registerServerFor [0, 1]).Reachable (registerRun 2 servedTwice) ∧
      (registerRun 2 servedTwice).run = .exited ∧
      1 ∈ (registerRun 2 servedTwice).tables.clientInfo.keys ∧
      ∀ r ∈ (registerRun 2 servedTwice).tables.sent, r.1 ≠ 1 := by
  have hrun : (registerServerFor [0, 1]).Reachable (registerRun 2 servedTwice) :=
    reachable_registerRun (by decide)
  exact ⟨hrun, by decide, by decide, by decide⟩

/-! ## The address a peer is stored under -/

/-- A handler thread that copies the address now has a connection from where the last
accepted one came from. -/
def RegisterServer.CopiesInTime (s : RegisterServer) : RegisterLabel → Prop
  | .handler i =>
      match s.handlers[i]? with
      | some ⟨c, .start⟩ => s.accepted.getLast?.map Connection.addr = some c.addr
      | _ => True
  | _ => True

instance (s : RegisterServer) (l : RegisterLabel) : Decidable (s.CopiesInTime l) := by
  unfold RegisterServer.CopiesInTime
  split
  · split <;> infer_instance
  · infer_instance

/-- The runs in which no handler thread comes too late to copy its address. -/
def copiedInTime (n : Nat) : System RegisterServer RegisterLabel :=
  (registerServer n).restrict RegisterServer.CopiesInTime

/-- What a handler thread holds is the address and the peer of its connection. -/
def HandlerThread.HasOwn (h : HandlerThread) : Prop :=
  match h.point with
  | .receive addr => addr = h.connection.addr
  | .register id addr => addr = h.connection.addr ∧ requestPeerId h.connection.request = .ok id
  | _ => True

/-- A record holds the peer and the address of a connection. -/
def Connection.Stored (c : Connection) (info : SClientInfo) : Prop :=
  info.ip = inetNtoa c.addr ∧ requestPeerId c.request = .ok info.peerId

/-- What the addresses in the process are. -/
structure RegisterServer.Addressed (s : RegisterServer) : Prop where
  slot : ∀ addr, s.accepted.getLast?.map Connection.addr = some addr → s.clientAddr = addr
  pending : ∀ c, s.accepting = .accepted c → c ∈ s.accepted
  handlers : ∀ h ∈ s.handlers, h.connection ∈ s.accepted ∧ h.HasOwn
  stored : ∀ x ∈ s.tables.stored, x.1 ∈ s.accepted ∧ x.1.Stored x.2
  entries : ∀ client ∈ s.tables.clientInfo.entries,
    ∃ c ∈ s.accepted, c.Stored client.2 ∧ client.1 = client.2.peerId

/-- One step of a handler thread that copies in time. -/
theorem addressed_handler {i : Nat} {h : HandlerThread} {t : RegisterTables} {point : HandlerPoint}
    (hs : s.Addressed) (htime : s.CopiesInTime (.handler i)) (hi : s.handlers[i]? = some h)
    (hm : HandlerMove n s.clientAddr s.tables h.connection h.point t point) :
    RegisterServer.Addressed
      { s with tables := t, handlers := s.handlers.set i ⟨h.connection, point⟩ } := by
  obtain ⟨hconn, hown⟩ := hs.handlers h (List.mem_of_getElem? hi)
  obtain ⟨c, p⟩ := h
  dsimp only at hm hconn ⊢
  have hset (hnew : HandlerThread.HasOwn ⟨c, point⟩) :
      ∀ h' ∈ s.handlers.set i ⟨c, point⟩, h'.connection ∈ s.accepted ∧ h'.HasOwn := by
    intro h' hmem
    rcases List.mem_or_eq_of_mem_set hmem with hmem | rfl
    · exact hs.handlers h' hmem
    · exact ⟨hconn, hnew⟩
  cases hm with
  | copy =>
      unfold RegisterServer.CopiesInTime at htime
      dsimp only at htime
      rw [hi] at htime
      exact ⟨hs.slot, hs.pending, hset (hs.slot c.addr htime), hs.stored, hs.entries⟩
  | receive hid => exact ⟨hs.slot, hs.pending, hset ⟨hown, hid⟩, hs.stored, hs.entries⟩
  | reject => exact ⟨hs.slot, hs.pending, hset hown, hs.stored, hs.entries⟩
  | @register id addr =>
      obtain ⟨haddr, hid⟩ : addr = c.addr ∧ requestPeerId c.request = .ok id := hown
      subst haddr
      refine ⟨hs.slot, hs.pending, hset trivial, ?_, ?_⟩
      · intro x hx
        rcases List.mem_append.mp hx with hx | hx
        · exact hs.stored x hx
        · rw [List.mem_singleton.mp hx]
          exact ⟨hconn, rfl, hid⟩
      · intro client hclient
        rcases UnorderedMap.mem_entries_insert hclient with rfl | hclient
        · exact ⟨c, hconn, ⟨rfl, hid⟩, rfl⟩
        · exact hs.entries client hclient
  | wake | entry | send | count =>
      exact ⟨hs.slot, hs.pending, hset trivial, hs.stored, hs.entries⟩

theorem reachable_addressed (h : (copiedInTime n).Reachable s) : s.Addressed := by
  refine h.invariant ?_ ?_
  · rintro s rfl
    exact ⟨fun _ h => (nomatch h), fun _ h => (nomatch h), fun _ h => (nomatch h),
      fun _ h => (nomatch h), fun _ h => nomatch h⟩
  · rintro s l s' - hs ⟨htime, hstep⟩
    cases registerStep_move hstep with
    | accept c hacc =>
        have hmem {c' : Connection} (h : c' ∈ s.accepted) : c' ∈ s.accepted ++ [c] :=
          List.mem_append_left _ h
        refine ⟨?_, ?_, ?_, ?_, ?_⟩
        · intro addr haddr
          rw [List.getLast?_concat, Option.map_some, Option.some.injEq] at haddr
          exact haddr
        · intro c' hc'
          cases hc'
          exact List.mem_append_right _ List.mem_cons_self
        · exact fun h hh => ⟨hmem (hs.handlers h hh).1, (hs.handlers h hh).2⟩
        · exact fun x hx => ⟨hmem (hs.stored x hx).1, (hs.stored x hx).2⟩
        · intro client hclient
          obtain ⟨c', hc', h⟩ := hs.entries client hclient
          exact ⟨c', hmem hc', h⟩
    | start c hacc =>
        refine ⟨hs.slot, fun _ h => (nomatch h), ?_, hs.stored, hs.entries⟩
        intro h hmem
        rcases List.mem_append.mp hmem with hmem | hmem
        · exact hs.handlers h hmem
        · rw [List.mem_singleton.mp hmem]
          exact ⟨hs.pending c hacc, trivial⟩
    | refuse c hacc =>
        exact ⟨hs.slot, fun _ h => (nomatch h), hs.handlers, hs.stored, hs.entries⟩
    | handler i h hi hm => exact addressed_handler hs htime hi hm
    | poll | leave | exit =>
        exact ⟨hs.slot, hs.pending, hs.handlers, hs.stored, hs.entries⟩

/-- While every thread copies its address in time, whatever is stored for a connection is
its peer under its own address, and the map holds nothing else. -/
theorem stored_own_address (h : (copiedInTime n).Reachable s) :
    (∀ x ∈ s.tables.stored, x.1.Stored x.2) ∧
      ∀ client ∈ s.tables.clientInfo.entries, ∃ c ∈ s.accepted, c.Stored client.2 ∧
        client.1 = client.2.peerId :=
  ⟨fun x hx => ((reachable_addressed h).stored x hx).2, (reachable_addressed h).entries⟩

/-- A fixed run that stops where a thread would copy too late. -/
def copiedRun (n : Nat) (ls : List RegisterLabel) : RegisterServer :=
  (System.runSteps (System.guarded (registerStep n) RegisterServer.CopiesInTime)
    initialRegisterServer ls).getD initialRegisterServer

theorem reachable_copiedRun (n : Nat) (ls : List RegisterLabel) :
    (copiedInTime n).Reachable (copiedRun n ls) := by
  rw [copiedRun]
  cases h : System.runSteps _ initialRegisterServer ls with
  | none => exact .init rfl
  | some s =>
      refine System.Reachable.runSteps ?_ (.init rfl) h
      intro l _ s s' hstep
      exact System.guarded_eq_some hstep

theorem stored_own_address_firstAnswered :
    (∀ x ∈ (copiedRun 2 firstAnswered).tables.stored, x.1.Stored x.2) ∧
      ∀ client ∈ (copiedRun 2 firstAnswered).tables.clientInfo.entries,
        ∃ c ∈ (copiedRun 2 firstAnswered).accepted, c.Stored client.2 ∧
          client.1 = client.2.peerId :=
  stored_own_address (reachable_copiedRun 2 firstAnswered)

/-- Peer 0's handler thread is so late that peer 1 has been accepted before it copies. -/
def copiedLate : List RegisterLabel :=
  callRun (callFrom 1 0) ++ [.accept (callFrom 2 1)] ++ List.replicate 3 (.handler 0)

/-- Peer 0 is stored under the address of peer 1. -/
theorem stored_other_address :
    (registerServerFor [0, 1]).Reachable (registerRun 2 copiedLate) ∧
      ∃ x ∈ (registerRun 2 copiedLate).tables.stored, x.1 = callFrom 1 0 ∧
        x.2.ip = inetNtoa (callFrom 2 1).addr ∧ x.2.ip ≠ inetNtoa x.1.addr := by
  have hrun : (registerServerFor [0, 1]).Reachable (registerRun 2 copiedLate) :=
    reachable_registerRun (by decide)
  exact ⟨hrun, (callFrom 1 0, ⟨0, inetNtoa (callFrom 2 1).addr⟩), by decide, rfl, rfl, by decide⟩

end P2PFileSharing
