import P2PFileSharing.Model.Scenario
import P2PFileSharing.Proofs.Bridge

/-!
# Every hit comes home exactly once

The conservation law of `Proofs/Hits.lean`, counted over everything that waits in
the network and over the hit list at the originator.
-/

namespace P2PFileSharing

/-- The hits for an id that `q` answered with and that are still on their way. -/
def Network.hitsOnTheWay (net : Setup) (s : Network) (id : SMessageID) (q : PeerID) : Nat :=
  (s.sections net).countP (Section.isHitOf net id q)

/-- The entries for `q`'s file server in `o`'s hit list. -/
def Network.entriesFor (net : Setup) (s : Network) (o : PeerID) (id : SMessageID)
    (q : PeerID) : Nat :=
  (s.hitResults o id).countP fun r => decide (r.serverInfo = net.serverInfo q)

section Network

variable {net : Setup} {s : Network} {a : Flood} {o q : PeerID} {id : SMessageID}

theorem isHitOf_code (ha : (flood net).Reachable a) (hq : q ∈ net.peers) {w : Work}
    (hw : w ∈ a.work) : hitWeight q id w.place.owner w.task =
      if w.task.code.isHitOf net id q = true then 1 else 0 := by
  have hv := (reachable_valid ha).work w hw
  have hk := reachable_known ha w hw
  have hhit : ∀ {h : Hit}, h.Valid → (if h.origin = q ∧ (h.id == id) = true then 1 else 0) =
      if isHitOf id q h.text = true then 1 else 0 := by
    intro h hv
    rw [isHitOf_hit hv id (peers_isInt hq)]
    refine if_congr ?_ rfl rfl
    rw [Bool.and_eq_true, decide_eq_true_eq, And.comm]
  generalize w.task = task at hv hk
  cases task with
  | handleHit h | relayHit h => exact hhit hv
  | handleQuery x =>
      have hx : isHitOf id q x.text = false := isHitOf_query hv id q
      simp [hitWeight, Task.code, Section.isHitOf, hx]
  | record h since =>
      have hinfo := Flood.Answered.serverInfo hk ha
      refine if_congr ?_ rfl rfl
      show _ ↔ ((h.id == id) && decide (h.serverInfo = net.serverInfo q)) = true
      rw [hinfo, Bool.and_eq_true, decide_eq_true_eq]
      constructor
      · rintro ⟨horigin, hid⟩
        exact ⟨hid, by rw [horigin]⟩
      · rintro ⟨hid, heq⟩
        exact ⟨serverInfo_inj (Flood.Answered.spec hk ha).1 hq heq, hid⟩
  | _ => rfl

theorem hits_add_entries (h : Refines s a) (ha : (flood net).Reachable a) (hc : a.NothingRemoved)
    (hq : q ∈ net.peers) : s.hitsOnTheWay net id q + s.entriesFor net id.peerId id q =
      a.count (ofPeer q (Event.isAnswered id)) := by
  have hentries : s.hitResults id.peerId id = resultsIn a.log id.peerId id := by
    rw [Network.hitResults, h.tables]
    exact (reachable_results ha _ _).2 hc.hitsKept
  rw [Network.hitsOnTheWay, h.total ha fun w hw => isHitOf_code ha hq hw, Network.entriesFor,
    hentries, countP_resultsIn, ← hits_conserved ha hc hq id]
  rfl

/-- Who may answer an issued query or inv_query, by its text. -/
theorem answer_sound (ha : (flood net).Reachable a) {x : Query} {k : HitKind} (hx : a.Issued x)
    (hanswer : AnswerOf net q x.request k) (f : {f : Str // ValidName f}) :
    (x.text = createQueryMessage x.id.peerId x.id f.1 → net.hasFile q f.1 = true) ∧
      (x.text = createInvQueryMessage net x.id.peerId x.id f.1 → net.hasFile q f.1 = false) := by
  constructor
  · intro htext
    rw [request_of_queryText ha hx htext] at hanswer
    cases hanswer with
    | query g hg => exact hg
  · intro htext
    rw [request_of_invQueryText ha hx htext] at hanswer
    cases hanswer with
    | invQuery g k hg => exact hg

/-- **Every hit comes home exactly once, and is sound.** As long as nothing is
removed, for every id that was issued: the hits of a peer that are on their way
and its entries in the originator's hit list are none before it answers and one
after; every entry belongs to another peer that answered, one that has the file
for a query and does not for an inv_query; and when nothing is on its way the
hit list names each peer that answered once, and no other. -/
theorem hits_come_home (net : Setup) {s : Network} (hs : Reachable net s) (hc : s.NothingRemoved)
    {o : PeerID} {id : SMessageID} {message : Str} (hissued : (o, .issued id message) ∈ s.log) :
    (∀ q ∈ net.peers,
        (¬s.HasAnswered q id → s.hitsOnTheWay net id q + s.entriesFor net o id q = 0) ∧
          (s.HasAnswered q id → s.hitsOnTheWay net id q + s.entriesFor net o id q = 1)) ∧
      (∀ r ∈ s.hitResults o id, ∃ q ∈ net.peers, q ≠ o ∧ r.serverInfo = net.serverInfo q ∧
        s.HasAnswered q id ∧ ∀ f : {f : Str // ValidName f},
          (message = createQueryMessage o id f.1 → net.hasFile q f.1 = true) ∧
            (message = createInvQueryMessage net o id f.1 → net.hasFile q f.1 = false)) ∧
      ((∀ q ∈ net.peers, s.hitsOnTheWay net id q = 0) →
        ((s.hitResults o id).map SQueryResult.serverInfo).Nodup ∧
          ∀ q ∈ net.peers, net.serverInfo q ∈ (s.hitResults o id).map SQueryResult.serverInfo ↔
            s.HasAnswered q id) := by
  obtain ⟨a, ha, hR⟩ := exists_flood hs
  have hca := hR.nothingRemoved.mp hc
  obtain ⟨x, hx, hid, rfl, rfl⟩ := hR.issued ha hissued
  have hiff := fun q => hasAnswered_iff (q := q) hR ha hx hid
  have hone := fun q => (work_once ha hca q id (P := Event.isAnswered id) (by simp [workEvents])).1
  have hsum : ∀ q ∈ net.peers, s.hitsOnTheWay net id q + s.entriesFor net id.peerId id q =
      a.count (ofPeer q (Event.isAnswered id)) := fun q hq => hits_add_entries hR ha hca hq
  have hentry : ∀ r ∈ s.hitResults id.peerId id, ∃ q ∈ net.peers, q ≠ id.peerId ∧
      r.serverInfo = net.serverInfo q ∧ s.HasAnswered q id ∧ ∀ f : {f : Str // ValidName f},
        (x.text = createQueryMessage id.peerId id f.1 → net.hasFile q f.1 = true) ∧
          (x.text = createInvQueryMessage net id.peerId id f.1 → net.hasFile q f.1 = false) := by
    intro r hr
    rw [Network.hitResults, hR.tables] at hr
    obtain ⟨y, hy, hyid, -, hinfo⟩ := entry_answered ha hr
    obtain ⟨hpeer, -, x₀, h₀, hid₀, hanswer⟩ := hy.spec ha
    have hsame : x₀ = x := issued_unique ha h₀ hx (by rw [hid₀, hid]; exact hyid)
    have hpos : 0 < a.count (ofPeer y.origin (Event.isAnswered id)) :=
      List.countP_pos_iff.mpr ⟨_, hy, by simp [ofPeer, Event.isAnswered, hyid]⟩
    have hother := ((work_once ha hca y.origin id (P := Event.isAnswered id)
      (by simp [workEvents])).2 hpos).1
    refine ⟨y.origin, hpeer, hother, hinfo, (hiff _).mpr hpos, ?_⟩
    subst hsame
    subst hid
    exact answer_sound ha h₀ hanswer
  refine ⟨?_, hentry, ?_⟩
  · intro q hq
    have := hone q
    rw [hsum q hq, hiff q]
    exact ⟨by omega, by omega⟩
  · intro hquiet
    have hcount : ∀ q ∈ net.peers, s.entriesFor net id.peerId id q =
        a.count (ofPeer q (Event.isAnswered id)) := by
      intro q hq
      have := hsum q hq
      rw [hquiet q hq] at this
      omega
    have hmap : ∀ q, ((s.hitResults id.peerId id).map SQueryResult.serverInfo).count
        (net.serverInfo q) = s.entriesFor net id.peerId id q := by
      intro q
      rw [List.count, List.countP_map]
      refine List.countP_congr fun r _ => ?_
      simp
    constructor
    · rw [List.nodup_iff_count_le_one]
      intro info
      by_cases hmem : info ∈ (s.hitResults id.peerId id).map SQueryResult.serverInfo
      · obtain ⟨r, hr, rfl⟩ := List.mem_map.mp hmem
        obtain ⟨q, hq, -, hinfo, -⟩ := hentry r hr
        rw [hinfo, hmap, hcount q hq]
        exact hone q
      · rw [List.count_eq_zero_of_not_mem hmem]
        exact Nat.zero_le 1
    · intro q hq
      rw [← List.count_pos_iff, hmap, hcount q hq, hiff q]

theorem hits_come_home_fileAtTheEnd :
    ((hitAtHome.hitResults 0 ⟨0, 0, 0⟩).map SQueryResult.serverInfo).Nodup ∧
      fileAtTheEnd.serverInfo 2 ∈
        (hitAtHome.hitResults 0 ⟨0, 0, 0⟩).map SQueryResult.serverInfo := by
  have hs : Reachable fileAtTheEnd hitAtHome := reachable_finalState _ _
  have hissued : (0, .issued ⟨0, 0, 0⟩ (createQueryMessage 0 ⟨0, 0, 0⟩ theFile.1)) ∈
      hitAtHome.log := by decide +kernel
  have hanswered : hitAtHome.HasAnswered 2 ⟨0, 0, 0⟩ :=
    ⟨createQueryHitMessage fileAtTheEnd 2 theFile.1 ⟨0, 0, 0⟩, by decide +kernel⟩
  have hquiet : ∀ q ∈ fileAtTheEnd.peers,
      hitAtHome.hitsOnTheWay fileAtTheEnd ⟨0, 0, 0⟩ q = 0 := by decide +kernel
  obtain ⟨-, -, hhome⟩ := hits_come_home fileAtTheEnd hs (by decide +kernel) hissued
  obtain ⟨hnodup, hmem⟩ := hhome hquiet
  exact ⟨hnodup, (hmem 2 (by decide)).mpr hanswered⟩

end Network

end P2PFileSharing
