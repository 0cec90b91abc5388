import P2PFileSharing.Model.Scenario
import P2PFileSharing.Proofs.Bridge
import P2PFileSharing.Proofs.Requests

/-!
# What hits start

`HandleWaitQueryHit` starts the transfers of an id when a recorded hit finds the
id's wait entry. Whether one does is a matter of timing, since the entry is only
set after the query was sent; what is then transferred is what the query asked
for, as long as `ReplicateFile` never waits for an id it did not get from
`SendInvQuery`.
-/

namespace P2PFileSharing

section Network

variable {net : Setup} {s : Network} {a : Flood} {p : PeerID} {id : SMessageID} {f : Str}

/-- **Whether a request is lost to the race with its own hits.** Once every hit
recorded for an id has been dealt with, and unless its entries timed out, the
file client was asked for something exactly if one of the lookups came after
`SetWaitQueryHit`. -/
theorem request_made_iff (net : Setup) {s : Network} (hs : Reachable net s) {p : PeerID}
    {id : SMessageID} (hkept : s.EntriesKept p id) (hhandled : s.HitsHandled p id)
    (hrecorded : resultsIn s.log p id ≠ []) :
    requestsIn s.log p id ≠ [] ↔ 0 < lateLookups s.log p id := by
  obtain ⟨a, ha, hR⟩ := exists_flood hs
  obtain ⟨hhits, hwait⟩ := hR.entriesKept hkept
  have hrounds := rounds_eq ha hhits
  rw [(hR.hitsHandled ha hhandled).2, Nat.zero_add] at hrounds
  change _ = a.founds p id at hrounds
  rw [hR.requestsIn, hR.lateLookups]
  constructor
  · intro hne
    have hlate := found_late ha p id
    by_contra hnone
    exact hne (requestsIn_eq_nil (by omega))
  · intro hlate
    have hfound := late_found ha hwait hlate
    obtain ⟨⟨r, ev⟩, hmem, hP⟩ := List.countP_pos_iff.mp (hrounds ▸ hfound)
    cases ev with
    | transfersStarted type id' requests =>
        simp only [ofPeer, Event.isTransfersStarted, Bool.and_eq_true, decide_eq_true_eq] at hP
        obtain ⟨rfl, hid⟩ := hP
        obtain ⟨x, l, hx⟩ := List.exists_cons_of_ne_nil
          (round_nonempty ha hmem (hhits.congr (BEq.symm hid)))
        refine List.ne_nil_of_mem (a := x) (List.mem_flatMap.mpr ⟨_, hmem, ?_⟩)
        dsimp only
        rw [if_pos ⟨rfl, hid⟩, hx]
        exact List.mem_cons_self
    | _ => simp [ofPeer, Event.isTransfersStarted] at hP

theorem request_made_iff_keptObtain :
    requestsIn keptObtain.log 0 ⟨0, 0, 0⟩ ≠ [] ↔ 0 < lateLookups keptObtain.log 0 ⟨0, 0, 0⟩ :=
  request_made_iff fileNextDoor (reachable_finalState _ _)
    (Network.NothingRemoved.entriesKept (by decide +kernel) _ _) (by decide +kernel)
    (by decide +kernel)

/-- An obtain that lost the race: it returned, the only hit was recorded and dealt
with, nothing waits anywhere any more, and nothing was asked for. -/
theorem obtain_lost :
    Reachable fileNextDoor lostObtain ∧ lostObtain.NothingRemoved ∧
      (0, .issued ⟨0, 0, 0⟩ (createQueryMessage 0 ⟨0, 0, 0⟩ theFile.1)) ∈ lostObtain.log ∧
      (0, .waitSet ⟨0, 0, 0⟩ theFile.1) ∈ lostObtain.log ∧
      lostObtain.sections fileNextDoor = [] ∧ resultsIn lostObtain.log 0 ⟨0, 0, 0⟩ ≠ [] ∧
      requestsIn lostObtain.log 0 ⟨0, 0, 0⟩ = [] :=
  ⟨reachable_finalState _ _, by decide +kernel, by decide +kernel, by decide +kernel,
    List.length_eq_zero_iff.mp (by decide +kernel), by decide +kernel, by decide +kernel⟩

/-! ## The transfers an id brings -/

theorem mem_startTransfers {results : List SQueryResult} {r : SClientRequest} {n : Nat}
    (hr : r ∈ (results.take n).flatMap fun r => startFileTransfer f r.serverInfo) :
    r.reqType = .requestDownloadFile ∧ r.filename = f ∧
      ∃ x ∈ results, SPeerServerInfo.mk r.ip r.port = x.serverInfo := by
  obtain ⟨x, hx, hr⟩ := List.mem_flatMap.mp hr
  rw [List.mem_singleton.mp hr]
  exact ⟨rfl, rfl, x, List.mem_of_mem_take hx, rfl⟩

theorem mem_startPushes {results : List SQueryResult} {r : SClientRequest} {n : Nat}
    (hr : r ∈ (results.take n).flatMap fun r => startPushFile net p f r.serverInfo) :
    r.reqType = .requestPushFile ∧ r.filename = f ∧
      ∃ x ∈ results, SPeerServerInfo.mk r.ip r.port = x.serverInfo := by
  obtain ⟨x, hx, hr⟩ := List.mem_flatMap.mp hr
  unfold startPushFile at hr
  split at hr
  · rw [List.mem_singleton.mp hr]
    exact ⟨rfl, rfl, x, List.mem_of_mem_take hx, rfl⟩
  · cases hr

/-- An id brings one download at most. -/
theorem downloads_le_one (ha : (flood net).Reachable a) (hc : ReplicatesIssue net a.log p)
    (id : SMessageID) : (requestsIn a.log p id).countP
      (fun r => decide (r.reqType = .requestDownloadFile)) ≤ 1 := by
  have hone := one_round ha hc id
  by_cases hnone : a.count (ofPeer p (Event.isTransfersStarted id)) = 0
  · rw [requestsIn_eq_nil hnone]
    exact Nat.zero_le 1
  · obtain ⟨⟨r, ev⟩, hmem, hP⟩ := List.countP_pos_iff.mp (Nat.pos_of_ne_zero hnone)
    cases ev with
    | transfersStarted type id' requests =>
        simp only [ofPeer, Event.isTransfersStarted, Bool.and_eq_true, decide_eq_true_eq] at hP
        obtain ⟨rfl, hid⟩ := hP
        rw [requestsIn_eq hone hmem hid]
        obtain ⟨x, results, -, -, -, -, ⟨f, -, -, hreq⟩ | ⟨f, k, -, -, -, hreq⟩⟩ :=
          round_requests ha hc hmem
        · refine Nat.le_trans List.countP_le_length ?_
          rw [hreq]
          cases results with
          | nil => exact Nat.zero_le 1
          | cons y l => exact Nat.le_refl 1
        · refine Nat.le_trans (Nat.le_of_eq (List.countP_eq_zero.mpr fun r hr => ?_))
            (Nat.zero_le 1)
          rw [hreq] at hr
          simp [(mem_startPushes hr).1]
    | _ => simp [ofPeer, Event.isTransfersStarted] at hP

/-- **A hit triggers only the transfer its query asked for**, in every run in which
each `replicate` of a file the peer has issues an id: the file client is asked for
what the rounds of transfers ask for, and what one asks for is of the hit's type,
for the filename the id was issued with, and from a server recorded under the id;
one download at most for each id. -/
theorem transfers_match (net : Setup) {s : Network} (hs : Reachable net s) {p : PeerID}
    (hc : ReplicatesIssue net s.log p) :
    (s.peers p).tables.requestQueue = requestsOf s.log p ∧
      ∀ id, (∀ type requests, (p, .transfersStarted type id requests) ∈ s.log →
          ∀ r ∈ requests,
            (type = peerMsgQueryHit ∧ r.reqType = .requestDownloadFile ∧
                (p, .issued id (createQueryMessage p id r.filename)) ∈ s.log ∨
              type = peerMsgInvQueryHit ∧ r.reqType = .requestPushFile ∧
                (p, .issued id (createInvQueryMessage net p id r.filename)) ∈ s.log) ∧
            ∃ x ∈ resultsIn s.log p id, SPeerServerInfo.mk r.ip r.port = x.serverInfo) ∧
        (requestsIn s.log p id).countP
          (fun r => decide (r.reqType = .requestDownloadFile)) ≤ 1 := by
  obtain ⟨a, ha, hR⟩ := exists_flood hs
  have hca := hR.replicatesIssue hc
  refine ⟨by rw [hR.tables, hR.requestsOf, reachable_requestQueue ha], fun id => ⟨?_, ?_⟩⟩
  · intro type requests hmem r hr
    obtain ⟨ev, hev, hmap⟩ := hR.exists_event hmem
    cases ev with
    | transfersStarted type' id' requests' =>
        injection hmap with htype hid hreq
        subst htype
        subst hid
        subst hreq
        obtain ⟨x, results, hx, rfl, hp, hin, hcases⟩ := round_requests ha hca hev
        have hissued := hR.mem_log hx
        change (x.id.peerId, Event.issued x.id x.text) ∈ s.log at hissued
        subst hp
        have hrecorded : ∀ y ∈ results, y ∈ resultsIn s.log x.id.peerId x.id := by
          rw [hR.resultsIn]
          exact fun y hy => hin.subset hy
        rcases hcases with ⟨f, hxreq, htype, hreq⟩ | ⟨f, k, hxreq, htype, -, hreq⟩
        · rw [hreq] at hr
          obtain ⟨hkind, hfile, y, hy, hinfo⟩ := mem_startTransfers hr
          rw [(text_of_request ha hx).1 hxreq] at hissued
          rw [hfile]
          exact ⟨.inl ⟨htype, hkind, hissued⟩, y, hrecorded y hy, hinfo⟩
        · rw [hreq] at hr
          obtain ⟨hkind, hfile, y, hy, hinfo⟩ := mem_startPushes hr
          rw [(text_of_request ha hx).2 k hxreq] at hissued
          rw [hfile]
          exact ⟨.inr ⟨htype, hkind, hissued⟩, y, hrecorded y hy, hinfo⟩
    | _ => cases hmap
  · rw [hR.requestsIn]
    exact downloads_le_one ha hca id

theorem transfers_match_keptObtain :
    (keptObtain.peers 0).tables.requestQueue = requestsOf keptObtain.log 0 ∧
      (requestsIn keptObtain.log 0 ⟨0, 0, 0⟩).countP
        (fun r => decide (r.reqType = .requestDownloadFile)) ≤ 1 := by
  have hs : Reachable fileNextDoor keptObtain := reachable_finalState _ _
  have hc : ReplicatesIssue fileNextDoor keptObtain.log 0 := by
    intro f _ hf
    simp [Setup.hasFile, fileNextDoor, rowOfThree, Setup.ofLinks] at hf
  obtain ⟨hqueue, hall⟩ := transfers_match fileNextDoor hs hc
  exact ⟨hqueue, (hall ⟨0, 0, 0⟩).2⟩

/-- With a factor of 1 a `replicate` waits for the last query's id: its hit then
downloads the replicated file from a peer that does not have it. -/
theorem replicate_transfers_wrong :
    Reachable twoFiles staleReplicate ∧
      (0, .issued ⟨0, 0, 0⟩ (createQueryMessage 0 ⟨0, 0, 0⟩ otherFile.1)) ∈ staleReplicate.log ∧
      (∀ message, (0, .issued ⟨0, 0, 0⟩ message) ∈ staleReplicate.log →
        message ≠ createQueryMessage 0 ⟨0, 0, 0⟩ theFile.1) ∧
      (0, .transfersStarted peerMsgQueryHit ⟨0, 0, 0⟩
        [⟨.requestDownloadFile, theFile.1, twoFiles.ip 1, getFileServerPort 1⟩]) ∈
          staleReplicate.log ∧
      twoFiles.hasFile 1 theFile.1 = false := by
  have hlog : ∀ e ∈ staleReplicate.log,
      e ≠ (0, .issued ⟨0, 0, 0⟩ (createQueryMessage 0 ⟨0, 0, 0⟩ theFile.1)) := by
    decide +kernel
  refine ⟨reachable_finalState _ _, by decide +kernel, ?_, by decide +kernel, by decide⟩
  rintro message hmem rfl
  exact hlog _ hmem rfl

end Network

end P2PFileSharing
