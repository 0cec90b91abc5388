import P2PFileSharing.Guarantees.Rest
import P2PFileSharing.Proofs.Filling
import P2PFileSharing.Proofs.Requests

/-!
# What an obtain comes to

A request in a file client's queue names a peer: one that has the file, if the file is to be
downloaded, and one that has not, if it is to be pushed. And an obtain whose wait entry is set
before the first of its hits is dealt with is served: the network comes to a state in which the
file client was asked for the file once, from a peer that has it, if any peer answered, and else
was not asked at all.
-/

namespace P2PFileSharing

/-- A request names the file server of a peer that the transfer makes sense with. -/
inductive SClientRequest.Sound (net : Setup) (p : PeerID) : SClientRequest → Prop
  | download (q : PeerID) (f : Str) (hq : q ∈ net.peers) (hfile : net.hasFile q f = true) :
      Sound net p ⟨.requestDownloadFile, f, net.ip q, getFileServerPort q⟩
  | push (q : PeerID) (f : Str) (hq : q ∈ net.peers) (hown : net.hasFile p f = true)
      (hfile : net.hasFile q f = false) :
      Sound net p ⟨.requestPushFile, f, net.ip q, getFileServerPort q⟩

/-- What an obtain of a file comes to. -/
structure Network.Served (net : Setup) (s : Network) (o : PeerID) (id : SMessageID) (f : Str) :
    Prop where
  /-- If a peer answered, one download was asked for, from a peer that has the file. -/
  served : (∃ q ∈ net.peers, s.HasAnswered q id) →
    ∃ q ∈ net.peers, net.hasFile q f = true ∧
      requestsIn s.log o id = [⟨.requestDownloadFile, f, net.ip q, getFileServerPort q⟩]
  /-- If nobody answered, nothing was asked for. -/
  unserved : (∀ q ∈ net.peers, ¬s.HasAnswered q id) → requestsIn s.log o id = []
  /-- A neighbour that has the file answered. -/
  answered : ∀ q ∈ net.peerIdToSockfd o, net.hasFile q f = true → s.HasAnswered q id

section Network

variable {net : Setup} {s : Network} {a : Flood} {o p q : PeerID} {id : SMessageID} {f : Str}

/-- An entry of a hit list names a peer that could answer. -/
theorem entry_sound (ha : (flood net).Reachable a) {x : Query} (hx : a.Issued x)
    {r : SQueryResult} (hr : r ∈ resultsIn a.log p x.id) :
    ∃ q ∈ net.peers, r.serverInfo = net.serverInfo q ∧ ∃ k, AnswerOf net q x.request k := by
  obtain ⟨id', hmem, hid⟩ := mem_resultsIn hr
  obtain ⟨y, hy, rfl, -, hinfo⟩ := reachable_entry ha _ hmem
  obtain ⟨hpeer, -, x₀, h₀, hid₀, hanswer⟩ := hy.spec ha
  have hsame : x₀ = x := issued_unique ha h₀ hx (by rw [hid₀]; exact hid)
  subst hsame
  exact ⟨y.origin, hpeer, hinfo.trans (hy.serverInfo ha), y.kind, hanswer⟩

/-- **Every transfer makes sense.** In every reachable state, however hits were answered, relayed
and recorded, each request that was handed to a peer's file client is a download from a peer that
has the file or a push of a file the peer has to one that has not, as long as each `replicate` of
a file the peer has issues an id. -/
theorem requests_sound (net : Setup) {s : Network} (hs : Reachable net s) {p : PeerID}
    (hc : ReplicatesIssue net s.log p) :
    ∀ r ∈ (s.peers p).tables.requestQueue, r.Sound net p := by
  obtain ⟨a, ha, hR⟩ := exists_flood hs
  intro r hr
  rw [hR.tables, reachable_requestQueue ha] at hr
  obtain ⟨⟨p', ev⟩, hmem, hin⟩ := List.mem_flatMap.mp hr
  clear hr
  cases ev with
  | transfersStarted type id requests =>
      dsimp only at hin
      split at hin
      · next hp =>
          have hp : p' = p := hp
          subst hp
          obtain ⟨x, results, hx, rfl, hp, hresults, hcases⟩ :=
            round_requests ha (hR.replicatesIssue hc) hmem
          have hentry : ∀ y ∈ results, ∃ q ∈ net.peers, y.serverInfo = net.serverInfo q ∧
              ∃ k, AnswerOf net q x.request k := fun y hy => entry_sound ha hx (hresults.subset hy)
          rcases hcases with ⟨f, hreq, -, hrequests⟩ | ⟨f, k, hreq, -, hown, hrequests⟩
          · rw [hrequests] at hin
            obtain ⟨y, hy, hr⟩ := List.mem_flatMap.mp hin
            obtain ⟨q, hq, hinfo, kind, hanswer⟩ := hentry y (List.mem_of_mem_take hy)
            rw [List.mem_singleton.mp hr, hinfo]
            rw [hreq] at hanswer
            cases hanswer with
            | query f hfile => exact .download q f hq hfile
          · rw [hrequests] at hin
            obtain ⟨y, hy, hr⟩ := List.mem_flatMap.mp hin
            obtain ⟨q, hq, hinfo, kind, hanswer⟩ := hentry y (List.mem_of_mem_take hy)
            rw [startPushFile, if_pos hown] at hr
            rw [List.mem_singleton.mp hr, hinfo]
            rw [hreq] at hanswer
            cases hanswer with
            | invQuery f k hfile => exact .push q f hq hown hfile
      · cases hin
  | _ => cases hin

theorem Flood.NothingRemoved.waitKept (h : a.NothingRemoved) : a.WaitKept p id :=
  fun _ _ hmem => absurd (h _ hmem) (by simp [Event.isRemoval])

/-- A peer without files has nothing to replicate. -/
theorem replicatesIssue_fileNextDoor (log : List (PeerID × Event Str)) :
    ReplicatesIssue fileNextDoor log 0 := by
  intro f _ hf
  simp [Setup.hasFile, fileNextDoor, rowOfThree, Setup.ofLinks] at hf

theorem requests_sound_keptObtain :
    (keptObtain.peers 0).tables.requestQueue.length = 1 ∧
      ∀ r ∈ (keptObtain.peers 0).tables.requestQueue, r.Sound fileNextDoor 0 :=
  ⟨by decide +kernel,
    requests_sound fileNextDoor (reachable_finalState _ _) (replicatesIssue_fileNextDoor _)⟩

/-- A late lookup leads to one download. -/
theorem one_download (ha : (flood net).Reachable a) (hca : a.NothingRemoved)
    (hc : ReplicatesIssue net a.log o) {x : Query} (hx : a.Issued x) (hreq : x.request = .query f)
    (hlate : 0 < lateLookups a.log o x.id) (hdone : a.total (roundWeight o x.id) = 0) :
    ∃ q ∈ net.peers, net.hasFile q f = true ∧
      requestsIn a.log o x.id = [⟨.requestDownloadFile, f, net.ip q, getFileServerPort q⟩] := by
  have hfound := late_found ha hca.waitKept hlate
  have hrounds : a.total (roundWeight o x.id) +
      a.count (ofPeer o (Event.isTransfersStarted x.id)) = a.founds o x.id :=
    rounds_eq ha hca.hitsKept
  rw [hdone, Nat.zero_add] at hrounds
  obtain ⟨⟨r, ev⟩, hmem, hP⟩ := List.countP_pos_iff.mp (hrounds ▸ hfound)
  cases ev with
  | transfersStarted type id' requests =>
      simp only [ofPeer, Event.isTransfersStarted, Bool.and_eq_true, decide_eq_true_eq] at hP
      obtain ⟨rfl, hid⟩ := hP
      have hne := round_nonempty ha hmem hca.hitsKept
      obtain ⟨x', results, hx', rfl, -, hresults, hcases⟩ := round_requests ha hc hmem
      have hsame : x' = x := issued_unique ha hx' hx hid
      subst hsame
      rw [requestsIn_eq (one_round ha hc x'.id) hmem BEq.rfl]
      rcases hcases with ⟨g, hreq', -, hrequests⟩ | ⟨g, k, hreq', -⟩
      · rw [hreq] at hreq'
        cases hreq'
        cases results with
        | nil => exact absurd hrequests hne
        | cons y l =>
            obtain ⟨q, hq, hinfo, kind, hanswer⟩ :=
              entry_sound ha hx' (hresults.subset List.mem_cons_self)
            rw [hreq] at hanswer
            cases hanswer with
            | query f hfile =>
                refine ⟨q, hq, hfile, ?_⟩
                rw [hrequests]
                show startFileTransfer f y.serverInfo ++ [] = _
                rw [hinfo]
                rfl
      · rw [hreq] at hreq'
        cases hreq'
  | _ => simp [ofPeer, Event.isTransfersStarted] at hP

/-- Without an answer no transfer is started. -/
theorem requestsIn_unanswered (ha : (flood net).Reachable a)
    (hnone : ∀ q ∈ net.peers, a.count (ofPeer q (Event.isAnswered id)) = 0) :
    requestsIn a.log o id = [] := by
  rw [requestsIn, List.flatMap_eq_nil_iff]
  intro e hmem
  obtain ⟨r, ev⟩ := e
  cases ev with
  | transfersStarted type id' requests =>
      refine if_neg fun h => ?_
      obtain ⟨y, -, -, hy, -, hyid, -⟩ := reachable_transfer ha _ hmem
      have hzero := List.countP_eq_zero.mp (hnone y.origin (hy.spec ha).1) _ hy
      refine hzero ?_
      rw [ofPeer, Event.isAnswered, hyid, h.2, decide_eq_true rfl]
      rfl
  | _ => rfl

/-- At rest an obtain whose lookups all came in time is served. -/
theorem served_of_atRest (hs : Reachable net s) (hc : s.NothingRemoved) (hrest : s.AtRest)
    (hissue : ReplicatesIssue net s.log o) {f : {f : Str // ValidName f}}
    (hissued : (o, .issued id (createQueryMessage o id f.1)) ∈ s.log)
    (hearly : earlyLookups s.log o id = 0) : s.Served net o id f.1 := by
  obtain ⟨a, ha, hR⟩ := exists_flood hs
  have hca := hR.nothingRemoved.mp hc
  obtain ⟨x, hx, rfl, rfl, htext⟩ := hR.issued ha hissued
  have hreq := request_of_queryText ha hx htext.symm
  refine ⟨fun hanswered => ?_, fun hnone => ?_, fun q hlink hfile => ?_⟩
  · obtain ⟨q, hq, hq'⟩ := hanswered
    have hpos := (hasAnswered_iff hR ha hx rfl).mp hq'
    rw [← entries_of_atRest hR ha hca hrest hq] at hpos
    obtain ⟨r, hr, -⟩ := List.countP_pos_iff.mp hpos
    rw [Network.hitResults, hR.tables, (reachable_results ha _ _).2 hca.hitsKept] at hr
    obtain ⟨id', hmem, hid⟩ := mem_resultsIn hr
    have hrecorded : 0 < a.count (ofPeer x.id.peerId (Event.isRecordedFor x.id)) :=
      List.countP_pos_iff.mpr ⟨_, hmem, by simpa [ofPeer, Event.isRecordedFor] using hid⟩
    have hlookups := lookups_eq ha x.id.peerId x.id
    rw [total_of_atRest hR ha hrest fun r task hduty => by cases task <;> first | rfl | cases hduty]
      at hlookups
    have hsum := early_add_late a.log x.id.peerId x.id
    rw [hR.earlyLookups] at hearly
    rw [hR.requestsIn]
    refine one_download ha hca (hR.replicatesIssue hissue) hx hreq ?_ ?_
    · rw [hearly] at hsum
      have hcount : a.count (ofPeer x.id.peerId (Event.isLookedUp x.id)) = _ := hsum.symm
      omega
    · refine total_of_atRest hR ha hrest fun r task hduty => ?_
      cases task <;> first | rfl | cases hduty
  · rw [hR.requestsIn]
    refine requestsIn_unanswered ha fun q hq => ?_
    exact Nat.eq_zero_of_not_pos fun hpos => hnone q hq ((hasAnswered_iff hR ha hx rfl).mpr hpos)
  · exact (hasAnswered_iff hR ha hx rfl).mpr
      (neighbour_answers hR ha hca hrest hx hreq hlink hfile)

/-- A step without a command leaves the commands as they are. -/
theorem replicatesIssue_undisturbed {s' : Network} {l : Label} (hs : Reachable net s)
    (hc : ReplicatesIssue net s.log o) (hl : l.isUndisturbed = true)
    (hstep : step net s l = some s') : ReplicatesIssue net s'.log o := by
  obtain ⟨a, ha, hR⟩ := exists_flood hs
  obtain ⟨a', hfstep, hR'⟩ := step_refines ha hR hstep
  intro f hmem hfile
  obtain ⟨ev, hev, hmap⟩ := hR'.exists_event hmem
  cases ev with
  | command cmd =>
      injection hmap with hmap
      subst hmap
      rcases command_typed hfstep hev with hev | rfl
      · exact hR.replicatesIssue hc f hev hfile
      · cases hl
  | _ => cases hmap

/-- **An obtain in time is served.** Once its wait entry is set and no hit was dealt with before
that, every way of going on undisturbed comes to a state in which the file client was asked for
the file exactly once, from a peer that has it, if any peer answered, as each neighbour that has
the file did, and not at all if none did; or some peer has used up its message numbers. That
`replicate` issues an id is needed: with a factor of at most 1 it waits for the obtain's. -/
theorem obtain_served (net : Setup) {s : Network} (hs : Reachable net s) (hc : s.NothingRemoved)
    {o : PeerID} {id : SMessageID} {f : {f : Str // ValidName f}}
    (hissue : ReplicatesIssue net s.log o)
    (hissued : (o, .issued id (createQueryMessage o id f.1)) ∈ s.log)
    (hset : (o, .waitSet id f.1) ∈ s.log) (hearly : earlyLookups s.log o id = 0) :
    (undisturbed net).Inevitable
      (fun s' => Steps net s s' ∧ (s'.Served net o id f.1 ∨ s'.OutOfNumbers)) s := by
  have hwait : 0 < s.log.countP fun e => ofPeer o (Event.isWaitSet id) e.1 e.2 :=
    List.countP_pos_iff.mpr ⟨_, hset, by simp [ofPeer, Event.isWaitSet]⟩
  refine ((inevitable_atRest hs hc).along (J := fun s' => Reachable net s' ∧
    ReplicatesIssue net s'.log o ∧ s.log <+: s'.log) ?_ ⟨hs, hissue, List.prefix_refl _⟩).imp ?_
  · intro s' l s'' hJ hl
    obtain ⟨hs', hissue', hlog⟩ := hJ
    exact ⟨.step l hs' hl.2, replicatesIssue_undisturbed hs' hissue' hl.1 hl.2,
      hlog.trans (step_log hl.2)⟩
  · intro s' h
    obtain ⟨⟨-, hissue', new, hnew⟩, ⟨hs', hc', hsteps⟩, hrest | hnumbers⟩ := h
    · refine ⟨hsteps, .inl (served_of_atRest hs' hc' hrest hissue' ?_ ?_)⟩
      · rw [← hnew]
        exact List.mem_append_left _ hissued
      · rw [← hnew, earlyLookups_append hwait, hearly]
    · exact ⟨hsteps, .inr hnumbers⟩

/-- Peer 0 of three in a row has typed an obtain, and the command has returned. -/
def obtainReturned : Network :=
  finalState fileNextDoor (Label.commandRun 0 (.obtain theFile) 4)

theorem obtain_served_obtainReturned :
    (undisturbed fileNextDoor).Inevitable (fun s' => Steps fileNextDoor obtainReturned s' ∧
      (s'.Served fileNextDoor 0 ⟨0, 0, 0⟩ theFile.1 ∨ s'.OutOfNumbers)) obtainReturned :=
  obtain_served fileNextDoor (reachable_finalState _ _) (by decide +kernel)
    (replicatesIssue_fileNextDoor _) (by decide +kernel) (by decide +kernel) (by decide +kernel)

end Network

end P2PFileSharing
