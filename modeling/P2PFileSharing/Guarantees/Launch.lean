import P2PFileSharing.Guarantees.RegisterClient
import P2PFileSharing.Guarantees.Registration
import P2PFileSharing.Guarantees.Topology
import P2PFileSharing.Lib.Progress
import P2PFileSharing.Model.Launch
import P2PFileSharing.Model.Scenario

/-!
# What a timely launch keeps

Each peer makes one connection to the register server, so that a handler thread belongs to a
peer. The flag goes up with the last of them, and after that nothing is inserted any more: every
response is the same text, and it lists each peer under its own address. A peer that has read it
connects to its neighbours and to nobody else.
-/

namespace P2PFileSharing

/-! ## What the files of the peers say -/

section Files

variable (x : LaunchSetup) (net : Setup)

/-- What the register server keeps of a peer. -/
def LaunchSetup.client (p : PeerID) : PeerID × SClientInfo := (p, ⟨p, inetNtoa (x.addr p)⟩)

/-- How long its response is. -/
def LaunchSetup.responseLength : Nat :=
  10 + (x.peers.map fun p => (intToString p).length + (inetNtoa (x.addr p)).length + 2).sum

/-- What a peer has read before it registers. -/
structure ClientMembers.Configured (p : PeerID) (m : ClientMembers) : Prop where
  server : m.settings.registerServerIp = inetNtoa x.registerAddr
  factor : m.settings.replicationFactor = net.replicationFactor p
  ensure : m.settings.ensureQueryhitFile = net.ensureQueryhitFile p
  large : m.settings.largeFileName = net.largeFileName p
  files : ∀ f, f ∈ m.files ↔ f ∈ net.files p

/-- The files of the peers describe a network, and the response fits its array. -/
structure LaunchSetup.Describes : Prop where
  peers : x.peers = net.peers
  settings : ∀ p ∈ net.peers, ∃ text s, x.files p settingsFileName = some text ∧
    loadSettings text = .ok s ∧ s.registerServerIp = inetNtoa x.registerAddr ∧
    s.replicationFactor = net.replicationFactor p ∧
    s.ensureQueryhitFile = net.ensureQueryhitFile p ∧ s.largeFileName = net.largeFileName p
  files : ∀ p ∈ net.peers, ∃ t files, loadFileInfo (x.tree p) [] = some (t, files) ∧
    ∀ f, f ∈ files ↔ f ∈ net.files p
  topology : ∀ p ∈ net.peers, ∃ m, loadTopology (x.files p) x.topologyType p = .ok m ∧
    ∀ q, q ∈ m.keys ↔ q ∈ net.topology p
  ip : ∀ p ∈ net.peers, net.ip p = inetNtoa (x.addr p)
  fits : x.responseLength < msgBufSize

variable {x net} {p : PeerID}

theorem LaunchSetup.Describes.load (hx : x.Describes net) (hp : p ∈ net.peers) :
    ∃ m, x.load p = .register m ∧ m.Configured x net p ∧
      (∀ q, q ∈ m.peerIdToIp.keys ↔ q ∈ net.topology p) ∧ m.connections = ⟨[], .empty⟩ := by
  obtain ⟨text, s, htext, hs, hserver, hfactor, hensure, hlarge⟩ := hx.settings p hp
  obtain ⟨t, files, hfiles, hsame⟩ := hx.files p hp
  obtain ⟨ips, hips, hkeys⟩ := hx.topology p hp
  refine ⟨⟨s, files, ips, ⟨[], .empty⟩⟩, ?_, ⟨hserver, hfactor, hensure, hlarge, hsame⟩, hkeys, rfl⟩
  simp only [LaunchSetup.load, htext, hs, hfiles, hips]

end Files

/-! ## The invariant -/

/-- Who is where at the register server: who waits to be accepted, who was accepted, whose handler
threads were started, and where those are. -/
structure LaunchView where
  calling : List PeerID
  pending : Option PeerID
  order : List PeerID
  point : PeerID → HandlerPoint

/-- Those who have made their connection. -/
def LaunchView.registered (v : LaunchView) : List PeerID :=
  v.calling ++ (v.pending.toList ++ v.order)

/-- The peer is in `m_client_info`. -/
def HandlerPoint.stored : HandlerPoint → Bool
  | .wait _ | .respond .. | .count _ | .done _ => true
  | _ => false

def HandlerPoint.isDone : HandlerPoint → Bool
  | .done _ => true
  | _ => false

/-- The connection to the register server is made. -/
def LaunchPoint.registered : LaunchPoint → Bool
  | .response _ | .connect .. | .started _ => true
  | _ => false

/-- What the handler thread of a peer holds. -/
def HandlerPoint.Own (x : LaunchSetup) (t : RegisterTables) (p : PeerID) : HandlerPoint → Prop
  | .start => True
  | .receive addr => addr = x.addr p
  | .register id addr => id = p ∧ addr = x.addr p
  | .wait id => id = p
  | .respond id message entry =>
      id = p ∧ t.allPeersRegistered = true ∧ entry ≤ t.clientInfo.size ∧
        message = (t.clientInfo.entries.take entry).flatMap infoLine
  | .count id | .done id => id = p ∧ ∃ text, (p, text) ∈ t.sent

/-- What a peer has when it is connecting, with the entries it has before it. -/
structure ClientMembers.Connecting (x : LaunchSetup) (net : Setup) (t : RegisterTables) (p : PeerID)
    (m : ClientMembers) (rest : List (PeerID × Str)) : Prop where
  configured : m.Configured x net p
  full : t.allPeersRegistered = true
  filled : ∃ neighbours : UnorderedMap PeerID Str,
    (∀ q, q ∈ neighbours.keys ↔ q ∈ net.topology p) ∧
      FilledIn t.clientInfo p neighbours m.peerIdToIp
  connected : ∃ front, front ++ rest = m.peerIdToIp.entries ∧
    front.foldlM (connectToPeer (fun _ => true) p) ⟨[], .empty⟩ = some m.connections

/-- What a peer has when it is somewhere. -/
def LaunchPoint.Own (x : LaunchSetup) (net : Setup) (t : RegisterTables) (p : PeerID) :
    LaunchPoint → Prop
  | .load => True
  | .register m | .response m =>
      m.Configured x net p ∧ (∀ q, q ∈ m.peerIdToIp.keys ↔ q ∈ net.topology p) ∧
        m.connections = ⟨[], .empty⟩
  | .connect m rest => m.Connecting x net t p rest
  | .started m => m.Connecting x net t p []
  | .exited | .stopped _ => False

/-- What the members of the register server say of the threads. -/
structure RegisterTables.Serves (x : LaunchSetup) (order : List PeerID)
    (point : PeerID → HandlerPoint) (t : RegisterTables) : Prop where
  fault : t.fault = none
  keys : ∀ p, p ∈ t.clientInfo.keys ↔ p ∈ order ∧ (point p).stored = true
  entries : ∀ e ∈ t.clientInfo.entries, e = x.client e.1
  full : t.allPeersRegistered = true ↔ t.clientInfo.size = x.peers.length
  sent : ∀ r ∈ t.sent, t.allPeersRegistered = true ∧ r.2 = allPeersResponse t.clientInfo
  count : t.threadExitCount = order.countP fun p => (point p).isDone

structure Launching (x : LaunchSetup) (net : Setup) (s : Launch) (v : LaunchView) : Prop where
  calls : s.calls = v.calling.map x.call
  accepting : s.server.accepting =
    match v.pending with
    | none => .accept
    | some p => .accepted (x.call p)
  handlers : s.server.handlers = v.order.map fun p => ⟨x.call p, v.point p⟩
  nodup : v.registered.Nodup
  registered : ∀ p, p ∈ v.registered ↔ p ∈ x.peers ∧ (s.clients p).registered = true
  slot : ∀ p, v.pending = some p ∨ p ∈ v.order ∧ v.point p = .start →
    s.server.clientAddr = x.addr p
  own : ∀ p ∈ v.order, (v.point p).Own x s.server.tables p
  tables : s.server.tables.Serves x v.order v.point
  run : s.server.run ≠ .polling → x.peers.length ≤ s.server.tables.threadExitCount
  clients : ∀ p ∈ x.peers, (s.clients p).Own x net s.server.tables p
  others : ∀ p, p ∉ x.peers → s.clients p = .load

/-! ## The handler threads -/

section Handlers

variable {x : LaunchSetup} {net : Setup} {order : List PeerID} {place : PeerID → HandlerPoint}
  {t t' : RegisterTables} {p : PeerID} {point : HandlerPoint} {clientAddr : InAddr}

/-- Once the flag is set nothing is inserted, and what was sent stays sent. -/
structure RegisterTables.Keeps (t t' : RegisterTables) : Prop where
  full : t.allPeersRegistered = true →
    t'.allPeersRegistered = true ∧ t'.clientInfo = t.clientInfo
  sent : ∀ r ∈ t.sent, r ∈ t'.sent
  count : t.threadExitCount ≤ t'.threadExitCount

theorem RegisterTables.Keeps.refl (t : RegisterTables) : t.Keeps t :=
  ⟨fun h => ⟨h, rfl⟩, fun _ h => h, Nat.le_refl _⟩

theorem HandlerPoint.Own.keeps (h : point.Own x t p) (hk : t.Keeps t') : point.Own x t' p := by
  cases point with
  | respond id message entry =>
      obtain ⟨hid, hfull, hentry, hmessage⟩ := h
      obtain ⟨hfull', hinfo⟩ := hk.full hfull
      rw [HandlerPoint.Own, hinfo]
      exact ⟨hid, hfull', hentry, hmessage⟩
  | count id | done id =>
      obtain ⟨hid, text, htext⟩ := h
      exact ⟨hid, text, hk.sent _ htext⟩
  | _ => exact h

theorem ClientMembers.Connecting.keeps {m : ClientMembers} {rest : List (PeerID × Str)}
    (h : m.Connecting x net t p rest) (hk : t.Keeps t') : m.Connecting x net t' p rest := by
  obtain ⟨hfull', hinfo⟩ := hk.full h.full
  exact ⟨h.configured, hfull', hinfo ▸ h.filled, h.connected⟩

theorem LaunchPoint.Own.keeps {point : LaunchPoint} (h : point.Own x net t p) (hk : t.Keeps t') :
    point.Own x net t' p := by
  cases point with
  | connect m rest => exact ClientMembers.Connecting.keeps h hk
  | started m => exact ClientMembers.Connecting.keeps h hk
  | _ => exact h

/-- Where the threads are when one of them went on. -/
def movePoint (place : PeerID → HandlerPoint) (p : PeerID) (point : HandlerPoint) :
    PeerID → HandlerPoint :=
  fun q => if q = p then point else place q

theorem movePoint_self : movePoint place p point p = point := if_pos rfl

theorem movePoint_of_ne {q : PeerID} (h : q ≠ p) : movePoint place p point q = place q := if_neg h

/-- The thread of a peer, in the list of threads. -/
theorem handlers_set {i : Nat} (hnodup : order.Nodup) (hi : order[i]? = some p) :
    (order.map fun q => (⟨x.call q, place q⟩ : HandlerThread)).set i ⟨x.call p, point⟩ =
      order.map fun q => ⟨x.call q, movePoint place p point q⟩ := by
  refine List.ext_getElem? fun j => ?_
  rw [List.getElem?_set, List.getElem?_map, List.getElem?_map]
  by_cases hij : i = j
  · subst hij
    obtain ⟨hlt, -⟩ := List.getElem?_eq_some_iff.mp hi
    rw [if_pos rfl, List.length_map, if_pos hlt, hi, Option.map_some, movePoint_self]
  · rw [if_neg hij]
    cases hj : order[j]? with
    | none => rfl
    | some q =>
        have hne : q ≠ p := by
          rintro rfl
          refine hij ((List.getElem?_inj (List.getElem?_eq_some_iff.mp hi).1 hnodup).mp ?_)
          rw [hi, hj]
        rw [Option.map_some, Option.map_some, movePoint_of_ne hne]

theorem handlers_started (hp : p ∉ order) :
    (order.map fun q => (⟨x.call q, place q⟩ : HandlerThread)) ++ [⟨x.call p, .start⟩] =
      (order ++ [p]).map fun q => ⟨x.call q, movePoint place p .start q⟩ := by
  rw [List.map_append, List.map_singleton, movePoint_self]
  refine congrArg (· ++ _) (List.map_congr_left fun q hq => ?_)
  have hne : q ≠ p := fun hqp => hp (hqp ▸ hq)
  rw [movePoint_of_ne hne]

/-- A step that inserts nothing and finishes no thread. -/
theorem RegisterTables.Serves.move (ht : t.Serves x order place) (hfault : t'.fault = t.fault)
    (hinfo : t'.clientInfo = t.clientInfo) (hflag : t'.allPeersRegistered = t.allPeersRegistered)
    (hcount : t'.threadExitCount = t.threadExitCount)
    (hsent : ∀ r ∈ t'.sent, r ∈ t.sent ∨
      t.allPeersRegistered = true ∧ r.2 = allPeersResponse t.clientInfo)
    (hstored : point.stored = (place p).stored) (hdone : point.isDone = (place p).isDone) :
    t'.Serves x order (movePoint place p point) := by
  have hsame : ∀ q, (movePoint place p point q).stored = (place q).stored ∧
      (movePoint place p point q).isDone = (place q).isDone := by
    intro q
    by_cases hq : q = p
    · rw [hq, movePoint_self]
      exact ⟨hstored, hdone⟩
    · rw [movePoint_of_ne hq]
      exact ⟨rfl, rfl⟩
  refine ⟨hfault.trans ht.fault, ?_, ?_, ?_, ?_, ?_⟩
  · intro q
    rw [hinfo, ht.keys, (hsame q).1]
  · rw [hinfo]
    exact ht.entries
  · rw [hflag, hinfo]
    exact ht.full
  · intro r hr
    rw [hflag, hinfo]
    rcases hsent r hr with h | h
    · exact ht.sent r h
    · exact h
  · rw [hcount, ht.count]
    exact List.countP_congr fun q _ => by rw [(hsame q).2]

/-- A peer that is not in the map yet keeps the flag down. -/
theorem size_lt_of_not_stored (ht : t.Serves x order place) (hsub : ∀ q ∈ order, q ∈ x.peers)
    (hp : p ∈ order) (hnot : (place p).stored = false) :
    p ∉ t.clientInfo.keys ∧ t.clientInfo.size < x.peers.length := by
  have hkey : p ∉ t.clientInfo.keys := by
    intro hmem
    rw [((ht.keys p).mp hmem).2] at hnot
    cases hnot
  refine ⟨hkey, ?_⟩
  have hnodup : (p :: t.clientInfo.keys).Nodup :=
    List.nodup_cons.mpr ⟨hkey, t.clientInfo.nodup_keys⟩
  have hmem : p :: t.clientInfo.keys ⊆ x.peers := by
    intro q hq
    rcases List.mem_cons.mp hq with rfl | hq
    · exact hsub q hp
    · exact hsub q ((ht.keys q).mp hq).1
  have hlen := (List.subperm_of_subset hnodup hmem).length_le
  rw [List.length_cons, UnorderedMap.length_keys] at hlen
  exact hlen

/-- The insertion of a peer. -/
theorem register_launching (ht : t.Serves x order place) (hsub : ∀ q ∈ order, q ∈ x.peers)
    (hp : p ∈ order) (hpoint : place p = .register p (x.addr p)) :
    (t.register x.peers.length (x.call p) p (x.addr p)).Serves x order
        (movePoint place p (.wait p)) ∧
      t.Keeps (t.register x.peers.length (x.call p) p (x.addr p)) := by
  obtain ⟨hkey, hsize⟩ := size_lt_of_not_stored ht hsub hp (by rw [hpoint]; rfl)
  have hnone : t.clientInfo.find? p = none := by
    by_contra h
    exact hkey (UnorderedMap.mem_keys_iff.mpr h)
  have hflag : t.allPeersRegistered = false := by
    cases hflag : t.allPeersRegistered with
    | false => rfl
    | true =>
        have := ht.full.mp hflag
        omega
  have hsent : ∀ r, r ∉ t.sent := by
    intro r hr
    have := (ht.sent r hr).1
    rw [hflag] at this
    cases this
  refine ⟨⟨ht.fault, ?_, ?_, ?_, ?_, ?_⟩, ⟨?_, fun _ h => h, Nat.le_refl _⟩⟩
  · intro q
    show q ∈ (t.clientInfo.insert p _).keys ↔ _
    rw [UnorderedMap.mem_keys_insert, ht.keys]
    by_cases hq : q = p
    · subst hq
      rw [movePoint_self]
      exact ⟨fun _ => ⟨hp, rfl⟩, fun _ => .inl rfl⟩
    · rw [movePoint_of_ne hq]
      exact ⟨fun h => h.resolve_left hq, .inr⟩
  · intro e he
    rw [RegisterTables.register, UnorderedMap.entries_insert_of_none _ hnone] at he
    rcases List.mem_append.mp he with he | he
    · exact ht.entries e he
    · rw [List.mem_singleton.mp he]
      rfl
  · show (if (t.clientInfo.insert p _).size = _ then true else t.allPeersRegistered) = true ↔ _
    rw [hflag]
    split
    · next h => exact ⟨fun _ => h, fun _ => rfl⟩
    · next h => exact ⟨fun h' => absurd h' Bool.false_ne_true, fun h' => absurd h' h⟩
  · intro r hr
    exact absurd hr (hsent r)
  · show t.threadExitCount = _
    rw [ht.count]
    refine List.countP_congr fun q _ => ?_
    by_cases hq : q = p
    · rw [hq, movePoint_self, hpoint]
      exact Iff.rfl
    · rw [movePoint_of_ne hq]
  · intro h
    rw [hflag] at h
    cases h

/-- A new thread. -/
theorem serves_started (ht : t.Serves x order place) (hp : p ∉ order) :
    t.Serves x (order ++ [p]) (movePoint place p .start) := by
  have hpoint : ∀ q ∈ order, movePoint place p .start q = place q :=
    fun q hq => movePoint_of_ne fun hqp => hp (hqp ▸ hq)
  refine { ht with keys := ?_, count := ?_ }
  · intro q
    rw [ht.keys, List.mem_append, List.mem_singleton]
    by_cases hq : q ∈ order
    · rw [hpoint q hq]
      exact ⟨fun h => ⟨.inl h.1, h.2⟩, fun h => ⟨hq, h.2⟩⟩
    · refine ⟨fun h => absurd h.1 hq, fun h => ?_⟩
      obtain ⟨hmem, hstored⟩ := h
      rw [hmem.resolve_left hq, movePoint_self] at hstored
      cases hstored
  · rw [ht.count, List.countP_append, List.countP_singleton, movePoint_self]
    exact List.countP_congr fun q hq => by rw [hpoint q hq]

/-- One step of a peer's handler thread. -/
theorem handler_launching (ht : t.Serves x order place) (hnodup : order.Nodup)
    (hsub : ∀ q ∈ order, q ∈ x.peers) (hp : p ∈ order)
    (hslot : place p = .start → clientAddr = x.addr p) (hown : (place p).Own x t p)
    (h : HandlerMove x.peers.length clientAddr t (x.call p) (place p) t' point) :
    t'.Serves x order (movePoint place p point) ∧ point.Own x t' p ∧ t.Keeps t' ∧
      point ≠ .start := by
  generalize hpoint : place p = old at h hown hslot
  have hrefl := RegisterTables.Keeps.refl t
  cases h with
  | copy =>
      refine ⟨ht.move rfl rfl rfl rfl (fun _ => .inl) ?_ ?_, hslot rfl, hrefl, nofun⟩
      · rw [hpoint]; rfl
      · rw [hpoint]; rfl
  | receive hid =>
      rw [LaunchSetup.call, requestPeerId_registerRequest] at hid
      cases hid
      refine ⟨ht.move rfl rfl rfl rfl (fun _ => .inl) ?_ ?_, ⟨rfl, hown⟩, hrefl, nofun⟩
      · rw [hpoint]; rfl
      · rw [hpoint]; rfl
  | reject hf =>
      rw [LaunchSetup.call, requestPeerId_registerRequest] at hf
      cases hf
  | register =>
      obtain ⟨rfl, rfl⟩ := hown
      obtain ⟨htables, hkeeps⟩ := register_launching ht hsub hp hpoint
      exact ⟨htables, rfl, hkeeps, nofun⟩
  | wake hflag =>
      refine ⟨ht.move rfl rfl rfl rfl (fun _ => .inl) ?_ ?_, ⟨hown, hflag, Nat.zero_le _, rfl⟩,
        hrefl, nofun⟩
      · rw [hpoint]; rfl
      · rw [hpoint]; rfl
  | @entry id m k client hk =>
      obtain ⟨hid, hflag, hle, hm⟩ := hown
      refine ⟨ht.move rfl rfl rfl rfl (fun _ => .inl) ?_ ?_, ⟨hid, hflag, ?_, ?_⟩, hrefl, nofun⟩
      · rw [hpoint]; rfl
      · rw [hpoint]; rfl
      · exact (List.getElem?_eq_some_iff.mp hk).1
      · rw [hm, List.take_add_one, hk, List.flatMap_append]
        exact congrArg _ (List.flatMap_singleton ..).symm
  | @send id m k hk =>
      obtain ⟨hid, hflag, hle, hm⟩ := hown
      have htext : responseText registerResponseAllPeers m = allPeersResponse t.clientInfo := by
        rw [hm, List.take_of_length_le (List.getElem?_eq_none_iff.mp hk)]
        rfl
      refine ⟨ht.move rfl rfl rfl rfl ?_ ?_ ?_,
        ⟨hid, responseText registerResponseAllPeers m, List.mem_append_right _ ?_⟩,
        ⟨?_, ?_, Nat.le_refl _⟩, nofun⟩
      · intro r hr
        rcases List.mem_append.mp hr with hr | hr
        · exact .inl hr
        · rw [List.mem_singleton.mp hr]
          exact .inr ⟨hflag, htext⟩
      · rw [hpoint]; rfl
      · rw [hpoint]; rfl
      · rw [hid]
        exact List.mem_cons_self
      · exact fun h => ⟨h, rfl⟩
      · exact fun r => List.mem_append_left _
  | @count id =>
      obtain ⟨hid, hsent⟩ := hown
      refine ⟨⟨ht.fault, ?_, ht.entries, ht.full, ht.sent, ?_⟩, ⟨hid, hsent⟩,
        ⟨fun h => ⟨h, rfl⟩, fun _ h => h, Nat.le_succ _⟩, nofun⟩
      · intro q
        show q ∈ t.clientInfo.keys ↔ _
        rw [ht.keys]
        by_cases hq : q = p
        · rw [hq, movePoint_self, hpoint]
          exact Iff.rfl
        · rw [movePoint_of_ne hq]
      · show t.threadExitCount + 1 = _
        rw [ht.count]
        refine (countP_changed hnodup hp ?_ ?_ ?_).symm
        · intro q hq
          rw [movePoint_of_ne hq]
        · rw [hpoint]
          rfl
        · rw [movePoint_self]
          rfl

end Handlers

/-! ## How much is left to do -/

section Weight

variable {x : LaunchSetup} {t t' : RegisterTables} {p : PeerID} {point point' : HandlerPoint}
  {clientAddr : InAddr} {c : Connection}

/-- How many steps `Run` has before it at most, where there are `n` peers. Its call of the
register server makes `n + 10` more. -/
def LaunchPoint.weight (n : Nat) : LaunchPoint → Nat
  | .load => 2 * n + 15
  | .register _ => 2 * n + 14
  | .response _ => n + 2
  | .connect _ rest => rest.length + 1
  | .started _ | .exited | .stopped _ => 0

def HandlerPoint.weight (n : Nat) : HandlerPoint → Nat
  | .start => n + 8
  | .receive _ => n + 7
  | .register .. => n + 6
  | .wait _ => n + 5
  | .respond _ _ entry => n - entry + 4
  | .count _ => 1
  | .done _ => 0

def AcceptPoint.weight (n : Nat) : AcceptPoint → Nat
  | .accepted _ => n + 9
  | _ => 0

def RunPoint.weight : RunPoint → Nat
  | .polling => 2
  | .leaving => 1
  | .exited => 0

def RegisterServer.weight (n : Nat) (s : RegisterServer) : Nat :=
  s.accepting.weight n + (s.handlers.map fun h => h.point.weight n).sum + s.run.weight

/-- How much a peer has left to do. -/
def Launch.clientWeight (n : Nat) (s : Launch) (p : PeerID) : Nat :=
  (s.clients p).weight n + if s.listening p then 0 else 1

def Launch.weight (x : LaunchSetup) (s : Launch) : Nat :=
  (x.peers.map (s.clientWeight x.peers.length)).sum + (x.peers.length + 10) * s.calls.length +
    s.server.weight x.peers.length

theorem HandlerMove.weight_lt {n : Nat} (hsize : t.clientInfo.size ≤ n)
    (hle : ∀ id m k, point = .respond id m k → k ≤ t.clientInfo.size)
    (hok : ∀ f, requestPeerId c.request ≠ .error f)
    (h : HandlerMove n clientAddr t c point t' point') : point'.weight n < point.weight n := by
  cases h with
  | reject hf => exact absurd hf (hok _)
  | @entry id m k client hk =>
      have hlt : k < t.clientInfo.size := (List.getElem?_eq_some_iff.mp hk).1
      show n - (k + 1) + 4 < n - k + 4
      omega
  | send =>
      show 1 < _ + 4
      omega
  | copy | receive | register | wake | count => simp [HandlerPoint.weight]

theorem sum_weight_set {n i : Nat} {handlers : List HandlerThread} {h : HandlerThread}
    (hi : handlers[i]? = some h) (hlt : point.weight n < h.point.weight n) :
    ((handlers.set i ⟨c, point⟩).map fun h => h.point.weight n).sum <
      (handlers.map fun h => h.point.weight n).sum := by
  obtain ⟨pre, post, heq, hset⟩ := exists_split_of_getElem? hi
  rw [hset, heq]
  simp only [List.map_append, List.map_cons, List.sum_append, List.sum_cons]
  omega

/-- A step of the register server. -/
theorem weight_server {s : Launch} {server : RegisterServer} {calls : List Connection}
    (h : (x.peers.length + 10) * calls.length + server.weight x.peers.length <
      (x.peers.length + 10) * s.calls.length + s.server.weight x.peers.length) :
    Launch.weight x { s with server := server, calls := calls } < s.weight x := by
  show (x.peers.map (s.clientWeight x.peers.length)).sum + _ + _ < _
  rw [Launch.weight]
  dsimp only
  omega

/-- A peer that goes on. -/
theorem weight_setClient {s : Launch} (point : LaunchPoint) (hnodup : x.peers.Nodup)
    (hp : p ∈ x.peers) :
    (x.peers.map ((s.setClient p point).clientWeight x.peers.length)).sum +
        (s.clients p).weight x.peers.length =
      (x.peers.map (s.clientWeight x.peers.length)).sum + point.weight x.peers.length := by
  have h := sum_map_changed hnodup hp (s.clientWeight x.peers.length)
    ((s.setClient p point).clientWeight x.peers.length) ?_
  · have hold : s.clientWeight x.peers.length p =
        (s.clients p).weight x.peers.length + if s.listening p then 0 else 1 := rfl
    have hnew : (s.setClient p point).clientWeight x.peers.length p =
        point.weight x.peers.length + if s.listening p then 0 else 1 := by
      rw [Launch.clientWeight, Launch.setClient]
      dsimp only
      rw [if_pos rfl]
    omega
  · intro q hq
    rw [Launch.clientWeight, Launch.setClient]
    dsimp only
    rw [if_neg hq]
    rfl

end Weight

/-! ## The register server's steps -/

section Server

variable {x : LaunchSetup} {net : Setup} {v : LaunchView} {s s' : Launch} {p : PeerID}

theorem Launching.order_peers (h : Launching x net s v) : ∀ q ∈ v.order, q ∈ x.peers :=
  fun q hq => ((h.registered q).mp (List.mem_append_right _ (List.mem_append_right _ hq))).1

theorem Launching.order_nodup (h : Launching x net s v) : v.order.Nodup :=
  (List.nodup_append.mp (List.nodup_append.mp h.nodup).2.1).2.1

/-- While a peer's handler thread has not finished, the server goes on. -/
theorem Launching.goes_on (h : Launching x net s v) (hp : p ∈ x.peers)
    (hnot : p ∈ v.order → (v.point p).isDone = false) :
    s.server.tables.threadExitCount < x.peers.length ∧ s.server.run = .polling := by
  have hlt : s.server.tables.threadExitCount < x.peers.length := by
    rw [h.tables.count, List.countP_eq_length_filter]
    have hnodup : (p :: v.order.filter fun q => (v.point q).isDone).Nodup := by
      refine List.nodup_cons.mpr ⟨?_, h.order_nodup.filter _⟩
      intro hmem
      obtain ⟨hmem, hdone⟩ := List.mem_filter.mp hmem
      rw [hnot hmem] at hdone
      cases hdone
    have hsub : (p :: v.order.filter fun q => (v.point q).isDone) ⊆ x.peers := by
      intro q hq
      rcases List.mem_cons.mp hq with rfl | hq
      · exact hp
      · exact h.order_peers q (List.mem_of_mem_filter hq)
    exact (List.subperm_of_subset hnodup hsub).length_le
  refine ⟨hlt, ?_⟩
  by_contra hrun
  have := h.run hrun
  omega

theorem Launching.alive (h : Launching x net s v) (hrun : s.server.run = .polling) :
    ¬(s.server.run = .exited ∨ s.server.tables.fault.isSome = true) := by
  rw [hrun, h.tables.fault]
  decide

/-- A handler thread is a peer's. -/
theorem Launching.handler (h : Launching x net s v) {i : Nat} {hd : HandlerThread}
    (hi : s.server.handlers[i]? = some hd) :
    ∃ p, v.order[i]? = some p ∧ hd = ⟨x.call p, v.point p⟩ := by
  rw [h.handlers, List.getElem?_map] at hi
  cases hp : v.order[i]? with
  | none =>
      rw [hp] at hi
      cases hi
  | some p =>
      rw [hp] at hi
      exact ⟨p, rfl, (Option.some.inj hi).symm⟩

theorem Launching.size_le (h : Launching x net s v) :
    s.server.tables.clientInfo.size ≤ x.peers.length := by
  have hsub : s.server.tables.clientInfo.keys ⊆ x.peers := fun q hq =>
    h.order_peers q ((h.tables.keys q).mp hq).1
  have hlen := (List.subperm_of_subset s.server.tables.clientInfo.nodup_keys hsub).length_le
  rwa [UnorderedMap.length_keys] at hlen

theorem Launching.accepting_none (h : Launching x net s v) (hacc : s.server.accepting = .accept) :
    v.pending = none := by
  have haccepting := h.accepting
  rw [hacc] at haccepting
  split at haccepting
  · assumption
  · cases haccepting

theorem Launching.accepting_some (h : Launching x net s v) {c : Connection}
    (hacc : s.server.accepting = .accepted c) : ∃ p, v.pending = some p ∧ c = x.call p := by
  have haccepting := h.accepting
  rw [hacc] at haccepting
  split at haccepting
  · cases haccepting
  · next p hp => exact ⟨p, hp, AcceptPoint.accepted.inj haccepting⟩

/-- The next connection is accepted. -/
theorem accept_launching (h : Launching x net s v) {c : Connection}
    (htime : ∀ hd ∈ s.server.handlers, hd.point ≠ .start)
    (hstep : launchStep x s (.server (.accept c)) = some s') :
    (∃ v', Launching x net s' v') ∧ s'.weight x < s.weight x := by
  rw [launchStep] at hstep
  split at hstep
  · next first rest hcalls =>
      split at hstep
      · next hfirst =>
          obtain ⟨server, hserver, rfl⟩ := Option.map_eq_some_iff.mp hstep
          cases registerStep_move hserver with
          | accept c hacc =>
              obtain ⟨p, calling, hcalling, hp, hrest⟩ :=
                List.map_eq_cons_iff.mp (h.calls.symm.trans hcalls)
              have hpending := h.accepting_none hacc
              have hperm : (LaunchView.registered ⟨calling, some p, v.order, v.point⟩).Perm
                  v.registered := by
                rw [LaunchView.registered, LaunchView.registered, hcalling, hpending]
                exact List.perm_middle
              refine ⟨⟨⟨calling, some p, v.order, v.point⟩, ?_⟩, ?_⟩
              · exact
                  { h with
                    calls := hrest.symm
                    accepting := congrArg _ (hfirst.symm.trans hp.symm)
                    nodup := hperm.nodup_iff.mpr h.nodup
                    registered := fun q => hperm.mem_iff.trans (h.registered q)
                    slot := by
                      intro q hq
                      rcases hq with hq | ⟨hq, hstart⟩
                      · cases hq
                        rw [← hfirst, ← hp]
                        rfl
                      · refine absurd hstart (htime ⟨x.call q, v.point q⟩ ?_)
                        rw [h.handlers]
                        exact List.mem_map_of_mem hq }
              · refine weight_server ?_
                rw [RegisterServer.weight, RegisterServer.weight, hacc, hcalls, List.length_cons,
                  Nat.mul_succ]
                simp only [AcceptPoint.weight]
                omega
      · cases hstep
  · cases hstep

/-- The handler thread of the accepted connection is started. -/
theorem startHandler_launching (h : Launching x net s v)
    (hstep : launchStep x s (.server .startHandler) = some s') :
    (∃ v', Launching x net s' v') ∧ s'.weight x < s.weight x := by
  obtain ⟨server, hserver, rfl⟩ := Option.map_eq_some_iff.mp hstep
  have hrefused : ∀ c, s.server.accepting = .accepted c →
      server ≠ { s.server with accepting := .ended } := by
    intro c hacc hended
    obtain ⟨p, hpending, -⟩ := h.accepting_some hacc
    have hmem : p ∈ v.registered := by
      rw [LaunchView.registered, hpending]
      exact List.mem_append_right _ List.mem_cons_self
    have hnot : p ∉ v.order := by
      have hnodup := (List.nodup_append.mp h.nodup).2.1
      rw [hpending] at hnodup
      exact (List.nodup_cons.mp hnodup).1
    have hgoes := h.goes_on ((h.registered p).mp hmem).1 fun hp => absurd hp hnot
    have hrunning : s.server.tables.isKeepRunning x.peers.length = true :=
      decide_eq_true hgoes.1
    rw [registerStep, if_neg (h.alive hgoes.2)] at hserver
    simp only [hacc, hrunning, if_true, Option.some.injEq] at hserver
    rw [hended] at hserver
    cases congrArg RegisterServer.accepting hserver
  cases registerStep_move hserver with
  | refuse c hacc => exact absurd rfl (hrefused c hacc)
  | start c hacc =>
      obtain ⟨p, hpending, rfl⟩ := h.accepting_some hacc
      have hnodup := (List.nodup_append.mp h.nodup).2.1
      rw [hpending] at hnodup
      have hnot : p ∉ v.order := (List.nodup_cons.mp hnodup).1
      have hne : ∀ q ∈ v.order, q ≠ p := fun q hq hqp => hnot (hqp ▸ hq)
      have hpoint : ∀ q ∈ v.order, movePoint v.point p .start q = v.point q :=
        fun q hq => movePoint_of_ne (hne q hq)
      have hperm : (LaunchView.registered ⟨v.calling, none, v.order ++ [p],
          movePoint v.point p .start⟩).Perm v.registered := by
        rw [LaunchView.registered, LaunchView.registered, hpending]
        exact (List.perm_append_singleton p v.order).append_left _
      refine ⟨⟨⟨v.calling, none, v.order ++ [p], movePoint v.point p .start⟩, ?_⟩, ?_⟩
      · exact
          { h with
            accepting := rfl
            handlers := by
              show s.server.handlers ++ _ = _
              rw [h.handlers]
              exact handlers_started hnot
            nodup := hperm.nodup_iff.mpr h.nodup
            registered := fun q => hperm.mem_iff.trans (h.registered q)
            slot := by
              intro q hq
              rcases hq with hq | ⟨hq, hstart⟩
              · cases hq
              · rcases List.mem_append.mp hq with hq | hq
                · exact h.slot q (.inr ⟨hq, hpoint q hq ▸ hstart⟩)
                · rw [List.mem_singleton.mp hq]
                  exact h.slot p (.inl hpending)
            own := by
              intro q hq
              rcases List.mem_append.mp hq with hq | hq
              · show (movePoint v.point p .start q).Own x _ q
                rw [hpoint q hq]
                exact h.own q hq
              · show (movePoint v.point p .start q).Own x _ q
                rw [List.mem_singleton.mp hq, movePoint_self]
                trivial
            tables := serves_started h.tables hnot }
      · refine weight_server ?_
        rw [RegisterServer.weight, RegisterServer.weight, hacc, List.map_append, List.sum_append]
        simp only [AcceptPoint.weight, List.map_singleton, List.sum_singleton,
          HandlerPoint.weight]
        omega

/-- A handler thread goes on. -/
theorem handlerStep_launching (h : Launching x net s v) {i : Nat}
    (hstep : launchStep x s (.server (.handler i)) = some s') :
    (∃ v', Launching x net s' v') ∧ s'.weight x < s.weight x := by
  obtain ⟨server, hserver, rfl⟩ := Option.map_eq_some_iff.mp hstep
  cases registerStep_move hserver with
  | @handler _ hd t point hi hm =>
      obtain ⟨p, hp, rfl⟩ := h.handler hi
      have hmem := List.mem_of_getElem? hp
      obtain ⟨htables, hown, hkeeps, hstart⟩ := handler_launching h.tables h.order_nodup
        h.order_peers hmem (fun hstart => h.slot p (.inr ⟨hmem, hstart⟩)) (h.own p hmem) hm
      refine ⟨⟨⟨v.calling, v.pending, v.order, movePoint v.point p point⟩, ?_⟩, ?_⟩
      · exact
          { h with
            handlers := by
              show s.server.handlers.set i _ = _
              rw [h.handlers]
              exact handlers_set h.order_nodup hp
            slot := by
              intro q hq
              rcases hq with hq | ⟨hq, hstart'⟩
              · exact h.slot q (.inl hq)
              · by_cases hqp : q = p
                · rw [hqp] at hstart'
                  exact absurd (movePoint_self.symm.trans hstart') hstart
                · exact h.slot q (.inr ⟨hq, (movePoint_of_ne hqp).symm.trans hstart'⟩)
            own := by
              intro q hq
              by_cases hqp : q = p
              · show (movePoint v.point p point q).Own x t q
                rw [hqp, movePoint_self]
                exact hown
              · show (movePoint v.point p point q).Own x t q
                rw [movePoint_of_ne hqp]
                exact (h.own q hq).keeps hkeeps
            tables := htables
            run := fun hrun => Nat.le_trans (h.run hrun) hkeeps.count
            clients := fun q hq => (h.clients q hq).keeps hkeeps }
      · refine weight_server ?_
        have hlt : point.weight x.peers.length < (v.point p).weight x.peers.length := by
          refine hm.weight_lt h.size_le ?_ ?_
          · intro id m k hpoint
            have hrespond := h.own p hmem
            rw [hpoint] at hrespond
            exact hrespond.2.2.1
          · intro f hf
            rw [LaunchSetup.call, requestPeerId_registerRequest] at hf
            cases hf
        have hsum := sum_weight_set (c := x.call p) hi hlt
        simp only [RegisterServer.weight]
        omega

/-- `Run` of the register server stops polling, or exits. -/
theorem stop_launching (h : Launching x net s v) {l : RegisterLabel}
    (hl : l = .poll ∧ s.server.tables.isKeepRunning x.peers.length = false ∨ l = .exit)
    (hstep : launchStep x s (.server l) = some s') :
    (∃ v', Launching x net s' v') ∧ s'.weight x < s.weight x := by
  rcases hl with ⟨rfl, hover⟩ | rfl
  · obtain ⟨server, hserver, rfl⟩ := Option.map_eq_some_iff.mp hstep
    have hge : x.peers.length ≤ s.server.tables.threadExitCount :=
      Nat.le_of_not_lt (of_decide_eq_false hover)
    cases registerStep_move hserver with
    | poll hrun hgo => exact absurd hgo (Nat.not_lt_of_le hge)
    | leave hrun =>
        refine ⟨⟨v, { h with run := fun _ => hge }⟩, weight_server ?_⟩
        rw [RegisterServer.weight, RegisterServer.weight, hrun]
        simp only [RunPoint.weight]
        omega
  · obtain ⟨server, hserver, rfl⟩ := Option.map_eq_some_iff.mp hstep
    cases registerStep_move hserver with
    | exit hrun =>
        refine ⟨⟨v, { h with run := fun _ => h.run (by rw [hrun]; nofun) }⟩, weight_server ?_⟩
        rw [RegisterServer.weight, RegisterServer.weight, hrun]
        simp only [RunPoint.weight]
        omega

end Server

/-! ## The peers' steps -/

section Clients

variable {x : LaunchSetup} {net : Setup} {v : LaunchView} {s s' : Launch} {p : PeerID}
  {m : ClientMembers}

theorem Launching.mem_peers (h : Launching x net s v) (hne : s.clients p ≠ .load) :
    p ∈ x.peers := by
  by_contra hp
  exact hne (h.others p hp)

theorem clients_setClient {point : LaunchPoint} (q : PeerID) :
    (s.setClient p point).clients q = if q = p then point else s.clients q := rfl

theorem others_setClient {point : LaunchPoint} {q : PeerID} (hp : p ∈ x.peers) (hq : q ∉ x.peers) :
    (s.setClient p point).clients q = s.clients q :=
  if_neg fun hqp : q = p => hq (hqp ▸ hp)

/-- A peer that goes on without calling the register server. -/
theorem Launching.setClient (h : Launching x net s v) (hp : p ∈ x.peers) {point : LaunchPoint}
    (hsame : point.registered = (s.clients p).registered)
    (hown : point.Own x net s.server.tables p) : Launching x net (s.setClient p point) v :=
  { h with
    registered := by
      intro q
      rw [h.registered, clients_setClient]
      split
      · next hq => rw [hsame, hq]
      · exact Iff.rfl
    clients := by
      intro q hq
      rw [clients_setClient]
      split
      · next hqp =>
          subst hqp
          exact hown
      · exact h.clients q hq
    others := fun q hq => (others_setClient hp hq).trans (h.others q hq) }

theorem setClient_weight_lt {point : LaunchPoint} (hnodup : x.peers.Nodup) (hp : p ∈ x.peers)
    (hlt : point.weight x.peers.length < (s.clients p).weight x.peers.length) :
    (s.setClient p point).weight x < s.weight x := by
  have hsum := weight_setClient (s := s) point hnodup hp
  show _ + (x.peers.length + 10) * s.calls.length + s.server.weight x.peers.length < _
  rw [Launch.weight]
  omega

/-- The peer server listens. -/
theorem listen_launching (h : Launching x net s v) (hnodup : x.peers.Nodup)
    (hstep : launchStep x s (.listen p) = some s') :
    (∃ v', Launching x net s' v') ∧ s'.weight x < s.weight x := by
  obtain ⟨⟨hp, hnot, -⟩, hnext⟩ := Option.ite_none_right_eq_some.mp hstep
  obtain rfl := Option.some.inj hnext
  refine ⟨⟨v, { h with }⟩, ?_⟩
  have hsum := sum_map_changed hnodup hp (s.clientWeight x.peers.length)
    (Launch.clientWeight x.peers.length
      { s with listening := fun q => if q = p then true else s.listening q }) ?_
  · simp only [Launch.clientWeight, hnot, if_true, Bool.false_eq_true, if_false] at hsum
    show _ + (x.peers.length + 10) * s.calls.length + s.server.weight x.peers.length < _
    rw [Launch.weight]
    omega
  · intro q hq
    simp only [Launch.clientWeight, if_neg hq]

/-- `Run` reads its files. -/
theorem load_launching (hx : x.Describes net) (h : Launching x net s v) (hnodup : x.peers.Nodup)
    (hstep : launchStep x s (.load p) = some s') :
    (∃ v', Launching x net s' v') ∧ s'.weight x < s.weight x := by
  rw [launchStep] at hstep
  split at hstep
  · next hpoint =>
      obtain ⟨hp, hnext⟩ := Option.ite_none_right_eq_some.mp hstep
      obtain rfl := Option.some.inj hnext
      obtain ⟨m, hload, hconfigured, hkeys, hnone⟩ := hx.load (hx.peers ▸ hp)
      rw [hload]
      refine ⟨⟨v, h.setClient hp ?_ ⟨hconfigured, hkeys, hnone⟩⟩, ?_⟩
      · rw [hpoint]
        rfl
      · refine setClient_weight_lt hnodup hp ?_
        rw [hpoint]
        exact Nat.lt_succ_self _
  · cases hstep

/-- A peer connects to the register server. -/
theorem register_call_launching (h : Launching x net s v) (hnodup : x.peers.Nodup)
    (hstep : launchStep x s (.register p) = some s') :
    (∃ v', Launching x net s' v') ∧ s'.weight x < s.weight x := by
  rw [launchStep] at hstep
  split at hstep
  · next m hpoint =>
      have hp : p ∈ x.peers := h.mem_peers (by rw [hpoint]; nofun)
      have hown := h.clients p hp
      rw [hpoint] at hown
      obtain ⟨hconfigured, hkeys, hnone⟩ := hown
      have hnot : p ∉ v.registered := by
        intro hmem
        have hregistered := ((h.registered p).mp hmem).2
        rw [hpoint] at hregistered
        cases hregistered
      have horder : p ∉ v.order := fun hmem =>
        hnot (List.mem_append_right _ (List.mem_append_right _ hmem))
      have hrun := (h.goes_on hp fun hmem => absurd hmem horder).2
      rw [if_pos ⟨by rw [hrun]; nofun, hconfigured.server⟩] at hstep
      obtain rfl := Option.some.inj hstep
      have hperm : (LaunchView.registered { v with calling := v.calling ++ [p] }).Perm
          (p :: v.registered) := by
        rw [LaunchView.registered, LaunchView.registered, List.append_assoc]
        exact List.perm_middle
      refine ⟨⟨{ v with calling := v.calling ++ [p] }, ?_⟩, ?_⟩
      · exact
          { h with
            calls := by
              rw [List.map_append, List.map_singleton, ← h.calls]
            nodup := hperm.nodup_iff.mpr (List.nodup_cons.mpr ⟨hnot, h.nodup⟩)
            registered := by
              intro q
              rw [hperm.mem_iff, List.mem_cons, h.registered]
              show _ ↔ q ∈ x.peers ∧ ((s.setClient p (.response m)).clients q).registered = true
              rw [clients_setClient]
              split
              · next hq => exact ⟨fun _ => ⟨hq ▸ hp, rfl⟩, fun _ => .inl hq⟩
              · next hq => exact ⟨fun h => h.resolve_left hq, .inr⟩
            clients := by
              intro q hq
              show ((s.setClient p (.response m)).clients q).Own x net s.server.tables q
              rw [clients_setClient]
              split
              · next hqp =>
                  subst hqp
                  exact ⟨hconfigured, hkeys, hnone⟩
              · exact h.clients q hq
            others := fun q hq => (others_setClient hp hq).trans (h.others q hq) }
      · have hsum := weight_setClient (s := s) (.response m) hnodup hp
        rw [hpoint] at hsum
        simp only [LaunchPoint.weight] at hsum
        show _ + (x.peers.length + 10) * (s.calls ++ [x.call p]).length +
          s.server.weight x.peers.length < _
        rw [List.length_append, List.length_singleton, Nat.mul_succ, Launch.weight]
        show (x.peers.map ((s.setClient p (.response m)).clientWeight x.peers.length)).sum +
          _ + _ < _
        omega
  · cases hstep

/-- Once the flag is set the peers in the map are all of them. -/
theorem Launching.keys_perm (h : Launching x net s v)
    (hfull : s.server.tables.allPeersRegistered = true) :
    s.server.tables.clientInfo.keys.Perm x.peers := by
  have hsub : s.server.tables.clientInfo.keys ⊆ x.peers := fun q hq =>
    h.order_peers q ((h.tables.keys q).mp hq).1
  refine (List.subperm_of_subset s.server.tables.clientInfo.nodup_keys hsub).perm_of_length_le ?_
  rw [UnorderedMap.length_keys, h.tables.full.mp hfull]

theorem Launching.responseLength_eq (h : Launching x net s v)
    (hfull : s.server.tables.allPeersRegistered = true) :
    P2PFileSharing.responseLength s.server.tables.clientInfo = x.responseLength := by
  have hentries : s.server.tables.clientInfo.entries =
      s.server.tables.clientInfo.keys.map x.client := by
    rw [UnorderedMap.keys, List.map_map]
    refine (List.map_id _).symm.trans (List.map_congr_left fun e he => ?_)
    exact h.tables.entries e he
  rw [P2PFileSharing.responseLength, LaunchSetup.responseLength, hentries, List.map_map]
  exact congrArg (10 + ·) ((h.keys_perm hfull).map _).sum_eq

/-- What a peer makes of a whole response. -/
theorem response_eq (hx : x.Describes net) (h : Launching x net s v)
    (hfull : s.server.tables.allPeersRegistered = true) :
    m.response p (.data (allPeersResponse s.server.tables.clientInfo)) =
      .connect
        { m with
          peerIdToIp := s.server.tables.clientInfo.entries.foldl (fillIn p) m.peerIdToIp }
        (s.server.tables.clientInfo.entries.foldl (fillIn p) m.peerIdToIp).entries := by
  have hip : ∀ client ∈ s.server.tables.clientInfo.entries,
      client.2.ip = inetNtoa (x.addr client.1) := by
    intro client hclient
    rw [h.tables.entries client hclient]
    rfl
  have hids : ∀ client ∈ s.server.tables.clientInfo.entries, IsInt client.1 := by
    intro client hclient
    have hmem : client.1 ∈ x.peers :=
      (h.keys_perm hfull).mem_iff.mp (List.mem_map_of_mem hclient)
    exact (net.peers_range _ (hx.peers ▸ hmem)).2
  have hips : ∀ client ∈ s.server.tables.clientInfo.entries,
      '\n' ∉ client.2.ip ∧ '\x00' ∉ client.2.ip := by
    intro client hclient
    rw [hip client hclient]
    exact ⟨newline_notMem_inetNtoa _, nul_notMem_inetNtoa _⟩
  have hlen : (allPeersResponse s.server.tables.clientInfo).length < msgBufSize := by
    rw [length_allPeersResponse, h.responseLength_eq hfull]
    exact hx.fits
  have hmessage := (registerMessage_iff
    (nul_notMem_allPeersResponse fun client hclient => (hips client hclient).2)).mpr hlen
  rw [registerMessage, List.take_of_length_le (Nat.le_of_lt hlen)] at hmessage
  simp only [ClientMembers.response, hmessage, readRegisterResponse_eq hids hips]

/-- A peer receives its response. -/
theorem response_launching (hx : x.Describes net) (h : Launching x net s v)
    (hnodup : x.peers.Nodup) {result : RecvResult}
    (htime : ∃ r ∈ s.server.tables.sent, r.1 = p ∧ result = .data r.2)
    (hstep : launchStep x s (.response p result) = some s') :
    (∃ v', Launching x net s' v') ∧ s'.weight x < s.weight x := by
  obtain ⟨r, hr, -, rfl⟩ := htime
  obtain ⟨hfull, htext⟩ := h.tables.sent r hr
  rw [launchStep] at hstep
  split at hstep
  · next m hpoint =>
      obtain ⟨-, hnext⟩ := Option.ite_none_right_eq_some.mp hstep
      obtain rfl := Option.some.inj hnext
      have hp : p ∈ x.peers := h.mem_peers (by rw [hpoint]; nofun)
      have hown := h.clients p hp
      rw [hpoint] at hown
      obtain ⟨hconfigured, hkeys, hnone⟩ := hown
      have hme : (s.server.tables.clientInfo.find? p).isSome := by
        have hmem := (h.keys_perm hfull).mem_iff.mpr hp
        exact Option.isSome_iff_ne_none.mpr (UnorderedMap.mem_keys_iff.mp hmem)
      have hfilled := filledIn_foldl m.peerIdToIp hme
      rw [htext, response_eq hx h hfull]
      generalize hips : s.server.tables.clientInfo.entries.foldl (fillIn p) m.peerIdToIp = ips
      rw [hips] at hfilled
      refine ⟨⟨v, h.setClient hp ?_ ⟨⟨hconfigured.server, hconfigured.factor,
        hconfigured.ensure, hconfigured.large, hconfigured.files⟩, hfull,
        ⟨m.peerIdToIp, hkeys, hfilled⟩, [], rfl, ?_⟩⟩, ?_⟩
      · rw [hpoint]
        rfl
      · rw [hnone]
        rfl
      · refine setClient_weight_lt hnodup hp ?_
        have hsub : ips.keys ⊆ x.peers := by
          intro q hq
          rcases (hfilled.keys q).mp hq with hq | hq
          · rw [hx.peers]
            exact net.topology_peers p q ((hkeys q).mp hq)
          · exact hq ▸ hp
        have hlen := (List.subperm_of_subset ips.nodup_keys hsub).length_le
        rw [UnorderedMap.length_keys, UnorderedMap.size] at hlen
        rw [hpoint]
        show ips.entries.length + 1 < x.peers.length + 2
        omega
  · cases hstep

/-- A round of `ConnectToPeers`, or its end. -/
theorem connect_launching (h : Launching x net s v) (hnodup : x.peers.Nodup)
    (htime : s.InTime x (.connect p)) (hstep : launchStep x s (.connect p) = some s') :
    (∃ v', Launching x net s' v') ∧ s'.weight x < s.weight x := by
  rw [launchStep] at hstep
  rw [Launch.InTime] at htime
  split at hstep
  · next m hpoint =>
      obtain rfl := Option.some.inj hstep
      have hp : p ∈ x.peers := h.mem_peers (by rw [hpoint]; nofun)
      have hown := h.clients p hp
      rw [hpoint] at hown
      refine ⟨⟨v, h.setClient hp ?_ hown⟩, setClient_weight_lt hnodup hp ?_⟩
      · rw [hpoint]
        rfl
      · rw [hpoint]
        exact Nat.zero_lt_one
  · next m entry rest hpoint =>
      have hp : p ∈ x.peers := h.mem_peers (by rw [hpoint]; nofun)
      have hown := h.clients p hp
      rw [hpoint] at hown
      simp only [hpoint] at htime
      obtain ⟨front, hfront, hconnections⟩ := hown.connected
      obtain ⟨connections, hlistens, htrue⟩ : ∃ c,
          connectToPeer (x.listensAt s) p m.connections entry = some c ∧
            connectToPeer (fun _ => true) p m.connections entry = some c := by
        rw [connectToPeer, connectToPeer]
        by_cases hme : entry.1 = p
        · rw [if_pos hme, if_pos hme]
          exact ⟨_, rfl, rfl⟩
        · rw [if_neg hme, if_neg hme, if_pos (htime.resolve_left hme), if_pos rfl]
          exact ⟨_, rfl, rfl⟩
      rw [hlistens] at hstep
      obtain rfl := Option.some.inj hstep
      refine ⟨⟨v, h.setClient hp ?_ ⟨⟨hown.configured.server, hown.configured.factor,
        hown.configured.ensure, hown.configured.large, hown.configured.files⟩, hown.full,
        hown.filled, front ++ [entry], ?_, ?_⟩⟩, setClient_weight_lt hnodup hp ?_⟩
      · rw [hpoint]
        rfl
      · rw [List.append_assoc]
        exact hfront
      · rw [List.foldlM_append, hconnections]
        show [entry].foldlM (connectToPeer (fun _ => true) p) m.connections = _
        rw [List.foldlM_cons, htrue]
        rfl
      · rw [hpoint]
        exact Nat.lt_succ_self _
  · cases hstep

end Clients

/-! ## Every launch comes to its end -/

section Ends

variable {x : LaunchSetup} {net : Setup} {v : LaunchView} {s s' : Launch} {p : PeerID}
  {l : LaunchLabel}

/-- Whatever comes next. -/
theorem launching_step (hx : x.Describes net) (h : Launching x net s v)
    (hl : (timelyLaunch x).step s l s') :
    (∃ v', Launching x net s' v') ∧ s'.weight x < s.weight x := by
  obtain ⟨htime, hstep⟩ := hl
  change launchStep x s l = some s' at hstep
  have hnodup : x.peers.Nodup := hx.peers ▸ net.peers_nodup
  cases l with
  | server l =>
      cases l with
      | accept c => exact accept_launching h htime hstep
      | startHandler => exact startHandler_launching h hstep
      | handler i => exact handlerStep_launching h hstep
      | poll => exact stop_launching h (.inl ⟨rfl, htime⟩) hstep
      | exit => exact stop_launching h (.inr rfl) hstep
  | listen p => exact listen_launching h hnodup hstep
  | load p => exact load_launching hx h hnodup hstep
  | register p => exact register_call_launching h hnodup hstep
  | response p result => exact response_launching hx h hnodup htime hstep
  | connect p => exact connect_launching h hnodup htime hstep

theorem launching_start (hne : x.peers ≠ []) :
    Launching x net startLaunch ⟨[], none, [], fun _ => .start⟩ where
  calls := rfl
  accepting := rfl
  handlers := rfl
  nodup := List.nodup_nil
  registered := fun p => ⟨nofun, fun h => nomatch h.2⟩
  slot := by
    intro p h
    rcases h with h | h
    · cases h
    · exact absurd h.1 List.not_mem_nil
  own := fun p hp => absurd hp List.not_mem_nil
  tables :=
    { fault := rfl
      keys := fun p => ⟨nofun, fun h => absurd h.1 List.not_mem_nil⟩
      entries := nofun
      full := ⟨nofun, fun h => absurd (List.length_eq_zero_iff.mp h.symm) hne⟩
      sent := nofun
      count := rfl }
  run := fun h => absurd rfl h
  clients := fun _ _ => trivial
  others := fun _ _ => rfl

/-- A handler thread that has not finished and does not wait for the flag can go on. -/
theorem handler_goes (h : Launching x net s v) (hp : p ∈ v.order)
    (hnot : (v.point p).isDone = false)
    (hwait : ∀ id, v.point p = .wait id → s.server.tables.allPeersRegistered = true) :
    ∃ l s', (timelyLaunch x).step s l s' := by
  obtain ⟨i, hlt, hi⟩ := List.mem_iff_getElem.mp hp
  have hhandler : s.server.handlers[i]? = some ⟨x.call p, v.point p⟩ := by
    rw [h.handlers, List.getElem?_map, List.getElem?_eq_getElem hlt, hi]
    rfl
  have hgoes := h.goes_on (h.order_peers p hp) fun _ => hnot
  obtain ⟨t, point, hmove⟩ : ∃ t point, handlerStep x.peers.length s.server.clientAddr
      s.server.tables (x.call p) (v.point p) = some (t, point) := by
    cases hpoint : v.point p with
    | start => exact ⟨_, _, rfl⟩
    | receive addr =>
        refine ⟨s.server.tables, .register p addr, ?_⟩
        rw [handlerStep, LaunchSetup.call, requestPeerId_registerRequest]
    | register id addr => exact ⟨_, _, rfl⟩
    | wait id => exact ⟨s.server.tables, .respond id [] 0, if_pos (hwait id hpoint)⟩
    | respond id m k =>
        rw [handlerStep]
        split
        · exact ⟨_, _, rfl⟩
        · exact ⟨_, _, rfl⟩
    | count id => exact ⟨_, _, rfl⟩
    | done id =>
        rw [hpoint] at hnot
        cases hnot
  obtain ⟨server, hserver⟩ :
      ∃ server, registerStep x.peers.length s.server (.handler i) = some server := by
    rw [registerStep, if_neg (h.alive hgoes.2)]
    simp only [hhandler, hmove]
    exact ⟨_, rfl⟩
  exact ⟨.server (.handler i), _, trivial, Option.map_eq_some_iff.mpr ⟨server, hserver, rfl⟩⟩

/-- While a peer that has registered has no response, the register server can go on. -/
theorem server_goes (hx : x.Describes net) (h : Launching x net s v)
    (hall : ∀ q ∈ x.peers, (s.clients q).registered = true) (hp : p ∈ x.peers)
    (hnone : ∀ text, (p, text) ∉ s.server.tables.sent) :
    ∃ l s', (timelyLaunch x).step s l s' := by
  have hdone : p ∈ v.order → (v.point p).isDone = false := by
    intro hmem
    have hown := h.own p hmem
    cases hpoint : v.point p with
    | done id =>
        rw [hpoint] at hown
        obtain ⟨-, text, htext⟩ := hown
        exact absurd htext (hnone text)
    | _ => rfl
  have hgoes := h.goes_on hp hdone
  have halive := h.alive hgoes.2
  by_cases hgo : ∃ q ∈ v.order, (v.point q).isDone = false ∧
      ∀ id, v.point q = .wait id → s.server.tables.allPeersRegistered = true
  · obtain ⟨q, hq, hnot, hwait⟩ := hgo
    exact handler_goes h hq hnot hwait
  · -- every thread is at its end or waits for the flag
    have hstored : ∀ q ∈ v.order, (v.point q).stored = true := by
      intro q hq
      by_contra hnot
      refine hgo ⟨q, hq, ?_, ?_⟩
      · cases hpoint : v.point q <;> rw [hpoint] at hnot <;> first | rfl | exact absurd rfl hnot
      · intro id hpoint
        rw [hpoint] at hnot
        exact absurd rfl hnot
    cases hpending : v.pending with
    | some q =>
        have hacc := h.accepting
        rw [hpending] at hacc
        have hrunning : s.server.tables.isKeepRunning x.peers.length = true :=
          decide_eq_true hgoes.1
        obtain ⟨server, hserver⟩ :
            ∃ server, registerStep x.peers.length s.server .startHandler = some server := by
          rw [registerStep, if_neg halive]
          simp only [hacc, hrunning, if_true]
          exact ⟨_, rfl⟩
        exact ⟨.server .startHandler, _, trivial,
          Option.map_eq_some_iff.mpr ⟨server, hserver, rfl⟩⟩
    | none =>
        have hacc := h.accepting
        rw [hpending] at hacc
        cases hcalling : v.calling with
        | cons q calling =>
            have hcalls := h.calls
            rw [hcalling, List.map_cons] at hcalls
            obtain ⟨server, hserver⟩ : ∃ server,
                registerStep x.peers.length s.server (.accept (x.call q)) = some server := by
              rw [registerStep, if_neg halive]
              simp only [hacc, if_true]
              exact ⟨_, rfl⟩
            refine ⟨.server (.accept (x.call q)),
              { s with server := server, calls := calling.map x.call }, ?_, ?_⟩
            · intro hd hmem hstart
              rw [h.handlers] at hmem
              obtain ⟨r, hr, rfl⟩ := List.mem_map.mp hmem
              have hnot := hstored r hr
              rw [show v.point r = .start from hstart] at hnot
              cases hnot
            · show launchStep x s _ = _
              rw [launchStep, hcalls]
              dsimp only
              rw [if_pos rfl, hserver]
              rfl
        | nil =>
            -- all are in the map, so the flag is set
            have hmem : ∀ q ∈ x.peers, q ∈ v.order := by
              intro q hq
              have hregistered := (h.registered q).mpr ⟨hq, hall q hq⟩
              rw [LaunchView.registered, hcalling, hpending] at hregistered
              exact hregistered
            have hsub : x.peers ⊆ s.server.tables.clientInfo.keys := fun q hq =>
              (h.tables.keys q).mpr ⟨hmem q hq, hstored q (hmem q hq)⟩
            have hlen := (List.subperm_of_subset (hx.peers ▸ net.peers_nodup) hsub).length_le
            rw [UnorderedMap.length_keys] at hlen
            have hfull := h.tables.full.mpr (Nat.le_antisymm h.size_le hlen)
            exact handler_goes h (hmem p hp) (hdone (hmem p hp)) fun _ _ => hfull

/-- What the map holds of a peer. -/
theorem Launching.find?_client (h : Launching x net s v)
    (hfull : s.server.tables.allPeersRegistered = true) {q : PeerID} (hq : q ∈ x.peers) :
    s.server.tables.clientInfo.find? q = some (x.client q).2 := by
  obtain ⟨e, he, hkey⟩ := List.mem_map.mp ((h.keys_perm hfull).mem_iff.mpr hq)
  have hclient := h.tables.entries e he
  rw [hkey] at hclient
  rw [hclient] at he
  exact UnorderedMap.mem_entries_iff.mp he

/-- The entry of a neighbour is where its server listens. -/
theorem peerSocket_entry (hx : x.Describes net) (h : Launching x net s v) {m : ClientMembers}
    {rest : List (PeerID × Str)} (hm : m.Connecting x net s.server.tables p rest)
    {entry : PeerID × Str} (hentry : entry ∈ m.peerIdToIp.entries) (hne : entry.1 ≠ p) :
    entry.1 ∈ x.peers ∧ peerSocket entry = x.peerServerSocket entry.1 := by
  obtain ⟨neighbours, hkeys, hfilled⟩ := hm.filled
  have hkey : entry.1 ∈ m.peerIdToIp.keys := List.mem_map_of_mem hentry
  have hq : entry.1 ∈ x.peers := by
    have hmem := ((hfilled.keys entry.1).mp hkey).resolve_right hne
    exact hx.peers ▸ net.topology_peers p _ ((hkeys _).mp hmem)
  refine ⟨hq, ?_⟩
  have hip := hfilled.registered entry.1 hkey _ (h.find?_client hm.full hq)
  have hown : m.peerIdToIp.find? entry.1 = some entry.2 := UnorderedMap.mem_entries_iff.mp hentry
  rw [hown, Option.some.injEq] at hip
  rw [LaunchSetup.peerServerSocket, peerSocket, peerSocket, hip]
  rfl

/-- Until all peers have started their threads something can happen. -/
theorem launching_goes (hx : x.Describes net) (h : Launching x net s v)
    (hnot : ¬∀ p ∈ x.peers, ∃ m, s.clients p = .started m) :
    ∃ l s', (timelyLaunch x).step s l s' := by
  have hrunning : ∀ p ∈ x.peers, (s.clients p).over = false := by
    intro p hp
    have hown := h.clients p hp
    cases hpoint : s.clients p <;> rw [hpoint] at hown <;> first | rfl | exact absurd hown id
  by_cases hlisten : ∃ p ∈ x.peers, s.listening p = false
  · obtain ⟨p, hp, hlistening⟩ := hlisten
    exact ⟨.listen p, _, trivial, if_pos ⟨hp, hlistening, hrunning p hp⟩⟩
  · by_cases hall : ∀ p ∈ x.peers, (∃ m, s.clients p = .response m) ∨ ∃ m, s.clients p = .started m
    · -- some peer waits for its response
      push Not at hnot
      obtain ⟨p, hp, hstarted⟩ := hnot
      obtain ⟨m, hpoint⟩ := (hall p hp).resolve_right fun h => absurd h.choose_spec (hstarted _)
      by_cases hsent : ∃ text, (p, text) ∈ s.server.tables.sent
      · obtain ⟨text, hsent⟩ := hsent
        obtain ⟨hfull, htext⟩ := h.tables.sent _ hsent
        have hmay : s.MayReceive p (.data text) := by
          refine ⟨?_, .inl ⟨?_, (p, text), hsent, rfl, List.prefix_refl _⟩⟩
          · have hlen := hx.fits
            rw [← h.responseLength_eq hfull, ← length_allPeersResponse, ← htext] at hlen
            exact Nat.le_of_lt hlen
          · rw [show text = _ from htext, allPeersResponse, responseText, List.append_assoc]
            exact List.append_ne_nil_of_left_ne_nil (by decide) _
        refine ⟨.response p (.data text), s.setClient p (m.response p (.data text)),
          ⟨(p, text), hsent, rfl, rfl⟩, ?_⟩
        show launchStep x s _ = _
        rw [launchStep]
        simp only [hpoint]
        exact if_pos hmay
      · refine server_goes hx h ?_ hp fun text htext => hsent ⟨text, htext⟩
        intro q hq
        rcases hall q hq with ⟨m, hm⟩ | ⟨m, hm⟩ <;> rw [hm] <;> rfl
    · push Not at hall
      obtain ⟨p, hp, hresponse, hstarted⟩ := hall
      have hown := h.clients p hp
      cases hpoint : s.clients p with
      | load =>
          refine ⟨.load p, s.setClient p (x.load p), trivial, ?_⟩
          show launchStep x s _ = _
          rw [launchStep]
          simp only [hpoint]
          exact if_pos hp
      | register m =>
          obtain ⟨s', hs'⟩ : ∃ s', launchStep x s (.register p) = some s' := by
            rw [launchStep]
            simp only [hpoint]
            split
            · exact ⟨_, rfl⟩
            · exact ⟨_, rfl⟩
          exact ⟨.register p, s', trivial, hs'⟩
      | response m => exact absurd hpoint (hresponse m)
      | connect m rest =>
          rw [hpoint] at hown
          have htime : s.InTime x (.connect p) := by
            rw [Launch.InTime]
            simp only [hpoint]
            cases rest with
            | nil => trivial
            | cons entry rest =>
                by_cases hne : entry.1 = p
                · exact .inl hne
                · obtain ⟨front, hfront, -⟩ := hown.connected
                  have hentry : entry ∈ m.peerIdToIp.entries :=
                    hfront ▸ List.mem_append_right _ List.mem_cons_self
                  obtain ⟨hq, hsocket⟩ := peerSocket_entry hx h hown hentry hne
                  refine .inr (List.any_eq_true.mpr ⟨entry.1, hq, ?_⟩)
                  have hlistening : s.listening entry.1 = true := by
                    by_contra hoff
                    exact hlisten ⟨entry.1, hq, Bool.eq_false_iff.mpr hoff⟩
                  rw [hlistening, hrunning _ hq, hsocket]
                  exact decide_eq_true rfl
          obtain ⟨s', hs'⟩ : ∃ s', launchStep x s (.connect p) = some s' := by
            rw [launchStep]
            simp only [hpoint]
            cases rest with
            | nil => exact ⟨_, rfl⟩
            | cons entry rest =>
                dsimp only
                split
                · exact ⟨_, rfl⟩
                · exact ⟨_, rfl⟩
          exact ⟨.connect p, s', htime, hs'⟩
      | started m => exact absurd hpoint (hstarted m)
      | exited | stopped f =>
          rw [hpoint] at hown
          exact absurd hown id

/-- The threads of a peer start with the members that its network gives it: the settings, the
files, and one connection to each neighbour, at the neighbour's own address. -/
def Launch.Ready (net : Setup) (s : Launch) (p : PeerID) : Prop :=
  ∃ m, s.clients p = .started m ∧
    m.settings.replicationFactor = net.replicationFactor p ∧
    m.settings.ensureQueryhitFile = net.ensureQueryhitFile p ∧
    m.settings.largeFileName = net.largeFileName p ∧
    (∀ f, f ∈ m.files ↔ f ∈ net.files p) ∧
    m.peerIdToIp.find? p = some (net.ip p) ∧
    ∃ ids : List PeerID, ids.Perm (net.peerIdToSockfd p) ∧
      m.connections.opened = ids.map (fun q => peerSocket (q, net.ip q)) ∧
      ∀ q i, m.connections.peerIdToSockfd.find? q = some i ↔ ids[i]? = some q

theorem ready_of_started (hx : x.Describes net) (h : Launching x net s v) (hp : p ∈ x.peers)
    {m : ClientMembers} (hpoint : s.clients p = .started m) : s.Ready net p := by
  have hown := h.clients p hp
  rw [hpoint] at hown
  obtain ⟨hconfigured, hfull, ⟨neighbours, hkeys, hfilled⟩, front, hfront, hconnections⟩ := hown
  have hinfo : ∀ q ∈ x.peers, (x.client q).2.ip = net.ip q := fun q hq =>
    (hx.ip q (hx.peers ▸ hq)).symm
  have hpeers : ∀ q ∈ neighbours.keys, q ∈ x.peers := fun q hq =>
    hx.peers ▸ net.topology_peers p q ((hkeys q).mp hq)
  have hall : ∀ q ∈ neighbours.keys, (s.server.tables.clientInfo.find? q).isSome := by
    intro q hq
    rw [h.find?_client hfull (hpeers q hq)]
    rfl
  obtain ⟨c, hc, ids, hnodup, hids, hopened, hfind⟩ := connectsToEach hfilled hall fun _ => rfl
  obtain rfl : m.connections = c := by
    rw [connectToPeers, ← hfront, List.append_nil, hconnections] at hc
    exact Option.some.inj hc
  refine ⟨m, hpoint, hconfigured.factor, hconfigured.ensure, hconfigured.large,
    hconfigured.files, ?_, ids, ?_, ?_, hfind⟩
  · rw [hfilled.registered p ((hfilled.keys p).mpr (.inr rfl)) _ (h.find?_client hfull hp),
      hinfo p hp]
  · refine (List.perm_ext_iff_of_nodup hnodup ((net.topology_nodup p).filter _)).mpr fun q => ?_
    rw [hids, hkeys]
    show _ ↔ q ∈ (net.topology p).filter _
    rw [List.mem_filter, decide_eq_true_eq]
  · rw [hopened]
    refine List.map_congr_left fun q hq => ?_
    have hq := hpeers q ((hids q).mp hq).1
    rw [registeredSocket, h.find?_client hfull hq, Option.map_some, Option.getD_some, hinfo q hq]

/-- Every launch in which the register server copies each address in time, the peers' servers
listen when they are connected to, and the responses are received whole, comes to the state that
a network starts from. -/
theorem launch_completes (hx : x.Describes net) :
    (timelyLaunch x).Inevitable (fun s => ∀ p ∈ net.peers, s.Ready net p) startLaunch := by
  by_cases hne : x.peers = []
  · refine .now fun p hp => ?_
    rw [← hx.peers, hne] at hp
    cases hp
  · have hstarted := System.inevitable_of_measure (T := timelyLaunch x)
      (P := fun s => (∃ v, Launching x net s v) ∧ ∀ p ∈ x.peers, ∃ m, s.clients p = .started m)
      (I := fun s => ∃ v, Launching x net s v) (Launch.weight x) ?_ ?_ startLaunch
      ⟨_, launching_start hne⟩
    · refine hstarted.imp ?_
      intro s h p hp
      obtain ⟨⟨v, h⟩, hall⟩ := h
      obtain ⟨m, hm⟩ := hall p (hx.peers ▸ hp)
      exact ready_of_started hx h (hx.peers ▸ hp) hm
    · intro s hs hnot
      obtain ⟨v, h⟩ := hs
      exact launching_goes hx h fun hall => hnot ⟨⟨v, h⟩, hall⟩
    · intro s l s' hs _ hl
      obtain ⟨v, h⟩ := hs
      exact launching_step hx h hl

/-- Three peers in a row, on one host, and nobody has a file. -/
def hostOfThree : Setup :=
  { rowOfThree [] 1 isInt_one with
    ip := fun _ => "10.0.0.1".toList
    ip_valid := fun _ => by decide }

/-- What their files say. -/
def hostFiles (name : Str) : Option Str :=
  if name = settingsFileName then
    some ("server_ip 10.0.0.9\nreplication_factor 1\nensure_query_hit_file ".toList ++ theFile.1 ++
      "\nlarge_file_transfer ".toList ++ theFile.1)
  else if name = topologyFileName .test then some "0: 1\n1: 0 2\n2: 1".toList
  else none

def hostLaunch : LaunchSetup where
  peers := [0, 1, 2]
  registerAddr := ⟨10, 0, 0, 9⟩
  addr _ := ⟨10, 0, 0, 1⟩
  topologyType := .test
  files _ := hostFiles
  tree _ := newDirectory

theorem describes_host : hostLaunch.Describes hostOfThree where
  peers := rfl
  settings := by
    intro p _
    exact ⟨_, ⟨1, "10.0.0.9".toList, theFile.1, theFile.1⟩, rfl, by decide, by decide, rfl, rfl,
      rfl⟩
  files := by
    intro p _
    exact ⟨_, [], rfl, fun f => Iff.rfl⟩
  topology := by
    intro p hp
    have hp : p = 0 ∨ p = 1 ∨ p = 2 := by simpa [hostOfThree, rowOfThree, Setup.ofLinks] using hp
    rcases hp with rfl | rfl | rfl
    · exact ⟨_, rfl, fun q => Iff.rfl⟩
    · exact ⟨_, rfl, fun q => Iff.rfl⟩
    · exact ⟨_, rfl, fun q => Iff.rfl⟩
  ip := by
    intro p _
    show "10.0.0.1".toList = inetNtoa ⟨10, 0, 0, 1⟩
    decide
  fits := by decide

theorem launch_completes_host :
    (timelyLaunch hostLaunch).Inevitable (fun s => ∀ p ∈ hostOfThree.peers, s.Ready hostOfThree p)
      startLaunch :=
  launch_completes describes_host

end Ends

end P2PFileSharing
