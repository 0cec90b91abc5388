import P2PFileSharing.Model.Scenario
import P2PFileSharing.Proofs.Bridge
import P2PFileSharing.Proofs.Replication

/-!
# Replication

How many copies one `ReplicateFile` asks for, which depends on how many hits
were recorded when the wait entry was found; and that all the replications of a
network together never push a file to the same peer twice.
-/

namespace P2PFileSharing

/-- An id brought so many pushes of a file, each to a different recorded server. -/
def Network.Pushed (s : Network) (p : PeerID) (id : SMessageID) (f : Str) (n : Nat) : Prop :=
  (requestsIn s.log p id).length = n ∧
    (∀ r ∈ requestsIn s.log p id, r.reqType = .requestPushFile ∧ r.filename = f ∧
      ∃ x ∈ resultsIn s.log p id, SPeerServerInfo.mk r.ip r.port = x.serverInfo) ∧
    ((requestsIn s.log p id).map fun r => SPeerServerInfo.mk r.ip r.port).Nodup

/-- The ids of the inv_queries for a file issued so far. -/
def invQueryIds (net : Setup) (log : List (PeerID × Event Str)) (f : Str) : List SMessageID :=
  log.filterMap fun e =>
    match e.2 with
    | .issued id message => if message = createInvQueryMessage net e.1 id f then some id else none
    | _ => none

section Network

variable {net : Setup} {s : Network} {a : Flood} {p q : PeerID} {id : SMessageID} {f : Str}

theorem pushes_eq_map (hf : net.hasFile p f = true) (results : List SQueryResult) :
    (results.flatMap fun r => startPushFile net p f r.serverInfo) =
      results.map fun r => ⟨.requestPushFile, f, r.serverInfo.ip, r.serverInfo.port⟩ := by
  rw [List.map_eq_flatMap]
  congr 1
  funext r
  exact if_pos hf

/-- The round of transfers of an inv_query, if there was one: a push to each of the
servers recorded up to the first late lookup, as far as the factor goes. -/
theorem round_pushes (ha : (flood net).Reachable a) {x : Query} (hx : a.Issued x) {k : Int}
    (hreq : x.request = .invQuery f k) (hkept : a.HitsKept x.id.peerId x.id)
    (hround : 0 < a.count (ofPeer x.id.peerId (Event.isTransfersStarted x.id))) :
    earlyLookups a.log x.id.peerId x.id + 1 ≤ (resultsIn a.log x.id.peerId x.id).length ∧
      requestsIn a.log x.id.peerId x.id =
        ((resultsIn a.log x.id.peerId x.id).take
          (min (net.replicationFactor x.id.peerId - 1).toNat
            (earlyLookups a.log x.id.peerId x.id + 1))).map fun r =>
              ⟨.requestPushFile, f, r.serverInfo.ip, r.serverInfo.port⟩ := by
  have hR := factor_of_invQuery ha hx hreq
  have hc : ReplicatesIssue net a.log x.id.peerId := replicatesIssue_of_factor hR
  obtain ⟨⟨r, ev⟩, hmem, hP⟩ := List.countP_pos_iff.mp hround
  cases ev with
  | transfersStarted type id' requests =>
      simp only [ofPeer, Event.isTransfersStarted, Bool.and_eq_true, decide_eq_true_eq] at hP
      obtain ⟨hr, hid⟩ := hP
      change r = x.id.peerId at hr
      subst hr
      obtain ⟨-, hlen, g, ⟨y, hy, hyid, -, hfile, hhas⟩, hrequests⟩ :=
        reachable_round ha hc hkept hmem hid
      have hsame : y = x := issued_unique ha hy hx hyid
      subst hsame
      obtain ⟨z, q, kind, hz, hzid, -, htype, hanswer⟩ := round_issued ha hmem
      have hsame : z = y := issued_unique ha hz hy (by rw [hzid]; exact hid)
      subst hsame
      have hhasFile := hhas f k hreq
      rw [hreq] at hanswer hfile
      injection hfile with hfile
      subst hfile
      have hinv : type = HitKind.invQuery.type := by
        rw [← htype]
        cases hanswer
        rfl
      refine ⟨hlen, ?_⟩
      rw [requestsIn_eq (one_round ha hc _) hmem hid, hrequests, hinv,
        transferRequests_invQuery hR, List.take_take, pushes_eq_map hhasFile]
  | _ => simp [ofPeer, Event.isTransfersStarted] at hP

/-- **Whether a replication reaches its factor.** Once every hit recorded for the
inv_query has been dealt with, and unless its entries timed out, the pushes are as
many as there are hits, up to the factor less one, and all to different recorded
servers, exactly if there was no hit at all or the first lookup after
`SetWaitQueryHit` found that many hits recorded. -/
theorem replication_reaches_factor_iff (net : Setup) {s : Network} (hs : Reachable net s)
    {p : PeerID} {id : SMessageID} {f : {f : Str // ValidName f}}
    (hR : 2 ≤ net.replicationFactor p)
    (hissued : (p, .issued id (createInvQueryMessage net p id f.1)) ∈ s.log)
    (hkept : s.EntriesKept p id) (hhandled : s.HitsHandled p id) :
    s.Pushed p id f.1 (min (resultsIn s.log p id).length (net.replicationFactor p - 1).toNat) ↔
      resultsIn s.log p id = [] ∨
        0 < lateLookups s.log p id ∧
          min (resultsIn s.log p id).length (net.replicationFactor p - 1).toNat ≤
            earlyLookups s.log p id + 1 := by
  obtain ⟨a, ha, hA⟩ := exists_flood hs
  obtain ⟨hhits, hwait⟩ := hA.entriesKept hkept
  obtain ⟨x, hx, rfl, rfl, htext⟩ := hA.issued ha hissued
  have hreq := request_of_invQueryText ha hx htext.symm
  have hrounds := rounds_eq ha hhits
  rw [(hA.hitsHandled ha hhandled).2, Nat.zero_add] at hrounds
  change _ = a.founds x.id.peerId x.id at hrounds
  have hlate := found_late ha x.id.peerId x.id
  rw [Network.Pushed, hA.requestsIn, hA.resultsIn, hA.lateLookups, hA.earlyLookups]
  have hnil : resultsIn a.log x.id.peerId x.id = [] ↔
      (resultsIn a.log x.id.peerId x.id).length = 0 := List.length_eq_zero_iff.symm
  rw [hnil]
  by_cases hround : 0 < a.count (ofPeer x.id.peerId (Event.isTransfersStarted x.id))
  · obtain ⟨hlen, hrequests⟩ := round_pushes ha hx hreq hhits hround
    rw [hrequests, List.length_map, List.length_take]
    constructor
    · rintro ⟨hcount, -⟩
      exact .inr ⟨by omega, by omega⟩
    · intro hcond
      refine ⟨by omega, ?_, ?_⟩
      · intro r hr
        obtain ⟨y, hy, rfl⟩ := List.mem_map.mp hr
        exact ⟨rfl, rfl, y, List.mem_of_mem_take hy, rfl⟩
      · rw [List.map_map]
        exact (servers_nodup ha hx hreq).sublist ((List.take_sublist _ _).map _)
  · have hnone : a.count (ofPeer x.id.peerId (Event.isTransfersStarted x.id)) = 0 :=
      Nat.eq_zero_of_not_pos hround
    have hzero : lateLookups a.log x.id.peerId x.id = 0 := by
      by_contra hne
      have hfound := late_found ha hwait (Nat.pos_of_ne_zero hne)
      omega
    rw [requestsIn_eq_nil hnone]
    constructor
    · rintro ⟨hcount, -⟩
      rw [List.length_nil] at hcount
      exact .inl (by omega)
    · intro hcond
      refine ⟨?_, fun r hr => absurd hr List.not_mem_nil, List.nodup_nil⟩
      rw [List.length_nil]
      omega

/-- Two hits, and two copies wanted; but only one hit was recorded when the wait
entry was found. -/
theorem replication_misses_factor :
    Reachable twoCopies oneCopy ∧ oneCopy.NothingRemoved ∧
      (0, .issued ⟨0, 0, 0⟩ (createInvQueryMessage twoCopies 0 ⟨0, 0, 0⟩ theFile.1)) ∈
        oneCopy.log ∧
      (0, .waitSet ⟨0, 0, 0⟩ theFile.1) ∈ oneCopy.log ∧ oneCopy.HitsHandled 0 ⟨0, 0, 0⟩ ∧
      (resultsIn oneCopy.log 0 ⟨0, 0, 0⟩).length = 2 ∧
      (twoCopies.replicationFactor 0 - 1).toNat = 2 ∧
      (requestsIn oneCopy.log 0 ⟨0, 0, 0⟩).length = 1 :=
  ⟨reachable_finalState _ _, by decide +kernel, by decide +kernel, by decide +kernel,
    by decide +kernel, by decide +kernel, by decide, by decide +kernel⟩

theorem replication_reaches_factor_iff_oneCopy :
    oneCopy.Pushed 0 ⟨0, 0, 0⟩ theFile.1
        (min (resultsIn oneCopy.log 0 ⟨0, 0, 0⟩).length
          (twoCopies.replicationFactor 0 - 1).toNat) ↔
      resultsIn oneCopy.log 0 ⟨0, 0, 0⟩ = [] ∨
        0 < lateLookups oneCopy.log 0 ⟨0, 0, 0⟩ ∧
          min (resultsIn oneCopy.log 0 ⟨0, 0, 0⟩).length
              (twoCopies.replicationFactor 0 - 1).toNat ≤
            earlyLookups oneCopy.log 0 ⟨0, 0, 0⟩ + 1 :=
  replication_reaches_factor_iff twoCopies (reachable_finalState _ _) (by decide)
    (by decide +kernel) (Network.NothingRemoved.entriesKept (by decide +kernel) _ _)
    (by decide +kernel)

/-! ## The same file to the same peer -/

/-- The ids of a file's inv_queries are those of the issued ones that ask for it. -/
theorem Refines.invQueries (h : Refines s a) (ha : (flood net).Reachable a)
    (f : {f : Str // ValidName f}) :
    a.InvQueries (fun id => (invQueryIds net s.log f.1).contains id) f.1 := by
  intro x hx
  constructor
  · intro hmem
    obtain ⟨id, hid, heq⟩ := List.contains_iff_exists_mem_beq.mp hmem
    obtain ⟨⟨o, ev⟩, he, hsome⟩ := List.mem_filterMap.mp hid
    cases ev with
    | issued id' message =>
        dsimp only at hsome
        split at hsome
        · next htext =>
            injection hsome with hsome
            subst hsome
            obtain ⟨y, hy, rfl, rfl, hmessage⟩ := h.issued ha he
            have hsame : y = x := issued_unique ha hy hx (BEq.symm heq)
            subst hsame
            exact ⟨_, request_of_invQueryText ha hy (hmessage ▸ htext)⟩
        · cases hsome
    | _ => cases hsome
  · rintro ⟨k, hk⟩
    refine List.contains_iff_exists_mem_beq.mpr ⟨x.id, List.mem_filterMap.mpr ⟨_, h.mem_log hx, ?_⟩,
      BEq.rfl⟩
    exact if_pos ((text_of_request ha hx).2 k hk)

theorem isAnsweredFor_map (ids : SMessageID → Bool) (ev : Event Message) :
    (ev.map Message.text).isAnsweredFor ids = ev.isAnsweredFor ids := by
  cases ev <;> rfl

theorem isRelayedFor_map (ids : SMessageID → Bool) (ev : Event Message) :
    (ev.map Message.text).isRelayedFor ids = ev.isRelayedFor ids := by
  cases ev <;> rfl

/-- **No peer is pushed the same file twice.** In every run of a network in which
every peer asks for copies, for every file and every peer: it answers one
inv_query for the file at most, relays one at most, and all peers together ask for
one push of the file to it at most. -/
theorem pushed_once (net : Setup) {s : Network} (hs : Reachable net s)
    (hR : ∀ p ∈ net.peers, 2 ≤ net.replicationFactor p) (f : {f : Str // ValidName f})
    (q : PeerID) :
    (s.log.countP fun e => ofPeer q
        (Event.isAnsweredFor fun id => (invQueryIds net s.log f.1).contains id) e.1 e.2) ≤ 1 ∧
      (s.log.countP fun e => ofPeer q
        (Event.isRelayedFor fun id => (invQueryIds net s.log f.1).contains id) e.1 e.2) ≤ 1 ∧
      (net.peers.map fun p =>
        (s.peers p).tables.requestQueue.countP (isPushTo net f.1 q)).sum ≤ 1 := by
  obtain ⟨a, ha, hA⟩ := exists_flood hs
  have hids := hA.invQueries ha f
  refine ⟨?_, ?_, ?_⟩
  · rw [hA.count ha fun p ev _ => ofPeer_map (isAnsweredFor_map _) q p ev]
    exact answered_once ha hids q
  · rw [hA.count ha fun p ev _ => ofPeer_map (isRelayedFor_map _) q p ev]
    exact relayed_once ha hids q
  · have hqueue : ∀ p, (s.peers p).tables.requestQueue = requestsOf a.log p := by
      intro p
      rw [hA.tables, reachable_requestQueue ha]
    simp only [hqueue]
    exact pushes_le_one ha hR f.1 q

theorem pushed_once_oneCopy :
    (twoCopies.peers.map fun p =>
      (oneCopy.peers p).tables.requestQueue.countP (isPushTo twoCopies theFile.1 1)).sum ≤ 1 :=
  (pushed_once twoCopies (reachable_finalState _ _) (by decide) theFile 1).2.2

end Network

end P2PFileSharing
