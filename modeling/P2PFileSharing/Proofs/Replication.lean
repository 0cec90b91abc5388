import P2PFileSharing.Proofs.Requests

/-!
# One file, many inv_queries

A peer keeps the filenames of the inv_queries it has dealt with, and nothing
removes them. So of all the inv_queries for one file, whoever issued them, it
answers and relays one at most, in every run; and since hits are not duplicated
and a wait entry is good for one round of transfers, it is pushed the file once.
-/

namespace P2PFileSharing

/-- The ids are those of the inv_queries for a file. -/
def Flood.InvQueries (s : Flood) (ids : SMessageID → Bool) (f : Str) : Prop :=
  ∀ x, s.Issued x → (ids x.id = true ↔ ∃ k, x.request = .invQuery f k)

def Event.isAnsweredFor {M : Type} (ids : SMessageID → Bool) : Event M → Bool
  | .answered id _ => ids id
  | _ => false

def Event.isRelayedFor {M : Type} (ids : SMessageID → Bool) : Event M → Bool
  | .relayed id _ => ids id
  | _ => false

/-- The relays at `q` that are still to be done for some ids. -/
def relayForWeight (q : PeerID) (ids : SMessageID → Bool) (r : PeerID) : Task → Nat
  | .relay x => if r = q ∧ ids x.id = true then 1 else 0
  | _ => 0

/-- How a peer deals with an inv_query for `f`. -/
inductive InvQueryAct (net : Setup) (q : PeerID) (t : Tables) (f : Str) (x : Query)
    (e : Effect) : Prop
  | seen (hold : f ∈ t.replicateQueryFilename) (hhere : e.here = [])
      (hhistory : e.history = [.acted .invQuery x.id]) : InvQueryAct net q t f x e
  | pass (hnew : f ∉ t.replicateQueryFilename) (hkept : f ∈ e.tables.replicateQueryFilename)
      (hhere : e.here = [.relay x]) (hhistory : e.history = [.acted .invQuery x.id]) :
      InvQueryAct net q t f x e
  | answer (hnew : f ∉ t.replicateQueryFilename) (hkept : f ∈ e.tables.replicateQueryFilename)
      (hhere : e.here = [.relayHit (newHit net q .invQuery x.id), .relay x])
      (hhistory : e.history = [.acted .invQuery x.id,
        .answered x.id (.hit (newHit net q .invQuery x.id))]) : InvQueryAct net q t f x e

section Filename

variable {net : Setup} {s s' : Flood} {p q r : PeerID} {id : SMessageID} {f : Str} {th : Thread}
  {now : Int} {task : Task} {rest : Multiset Work} {e : Effect} {ids : SMessageID → Bool}

theorem invQueries_prefixClosed (net : Setup) (ids : SMessageID → Bool) (f : Str) :
    (flood net).PrefixClosed fun s => s.InvQueries ids f :=
  fun _ _ _ h hc x hx => hc x (hx.grows (FloodStep.grows h))

theorem perform_invQuery {t : Tables} {x : Query} {k : Int}
    (h : perform net q now t (.act x) = some e) (hreq : x.request = .invQuery f k) :
    InvQueryAct net q t f x e := by
  simp only [perform, Option.some.injEq] at h
  subst h
  unfold actOnRequest
  rw [hreq]
  dsimp only
  split
  · next hold => exact .seen (by simpa using hold) rfl rfl
  · next hnew =>
      have hnew' : f ∉ t.replicateQueryFilename := by simpa using hnew
      split
      · exact .pass hnew' List.mem_cons_self rfl rfl
      · exact .answer hnew' List.mem_cons_self rfl rfl

theorem act_sent {x : Query} (h : perform net q now (s.tables q) (.act x) = some e) :
    e.sent = [] := by
  simp only [perform, Option.some.injEq] at h
  subst h
  exact actOnRequest_sends

theorem gain_here {w : PeerID → Task → Nat} (hsent : e.sent = []) :
    e.gain w q = (e.here.map (w q)).sum := by
  rw [Effect.gain, Effect.out, hsent, List.map_nil, List.append_nil, List.map_map]
  rfl

/-- **What a peer does once for a file**: tokens that only acting on an inv_query
for a new filename mints. -/
theorem filename_tokens {w : PeerID → Task → Nat} {P : PeerID → Event Message → Bool}
    (hstart : ∀ r task, Starts net r task → w r task = 0)
    (hcommand : ∀ r cmd, P r (.command cmd) = false)
    (hreceived : ∀ r p m, P r (.received p m) = false)
    (hkeep : ∀ s r th now task rest e, RunStep net s r th now task rest e →
      (∀ x, task = .act x → ¬(r = q ∧ ids x.id = true)) →
      e.gain w r + e.history.countP (P r) ≤ w r task)
    (hact : ∀ t x e, e.sent = [] → InvQueryAct net q t f x e →
      e.gain w q + e.history.countP (P q) ≤ if f ∈ t.replicateQueryFilename then 0 else 1)
    (h : (flood net).Reachable s) (hc : s.InvQueries ids f) : s.total w + s.count P ≤ 1 := by
  refine (tokens_rule (G := fun s => f ∈ (s.tables q).replicateQueryFilename)
    (invQueries_prefixClosed net ids f) hstart hcommand hreceived ?_ ?_ h hc).1
  · exact fun s s' hg _ hf => hg.filenames q f hf
  · intro s r th now task rest e hs hcs _ hr
    by_cases hmatch : ∃ x, task = .act x ∧ r = q ∧ ids x.id = true
    · obtain ⟨x, rfl, rfl, hid⟩ := hmatch
      obtain ⟨x₀, n, u, h₀, rfl⟩ := reachable_known hs _ hr.mem
      obtain ⟨k, hk⟩ := (hcs x₀ h₀).mp hid
      have hreq : (x₀.copy n u).request = .invQuery f (k - n) := by
        show Request.decrease^[n] x₀.request = _
        rw [hk, decrease_invQuery]
      have hcases := perform_invQuery hr.perform hreq
      have hle := hact _ _ _ (act_sent hr.perform) hcases
      have hafter : ((s.after r th rest e).tables r) = e.tables := by
        rw [Flood.after]
        simp
      cases hcases with
      | seen hold => exact .inl (Nat.le_trans (by rwa [if_pos hold] at hle) (Nat.zero_le _))
      | pass hnew hkept | answer hnew hkept =>
          rw [if_neg hnew] at hle
          exact .inr ⟨hnew, Nat.le_trans hle (Nat.le_add_left _ _), by rw [hafter]; exact hkept⟩
    · exact .inl (hkeep s r th now task rest e hr fun x hx hboth => hmatch ⟨x, hx, hboth⟩)

/-- **A peer answers one inv_query for a file at most**, in every run. -/
theorem answered_once (h : (flood net).Reachable s) (hc : s.InvQueries ids f) (q : PeerID) :
    s.count (ofPeer q (Event.isAnsweredFor ids)) ≤ 1 := by
  have htokens := filename_tokens (w := fun _ _ => 0) (P := ofPeer q (Event.isAnsweredFor ids))
    (q := q) (f := f) (fun _ _ _ => rfl) (fun _ _ => Bool.and_false _)
    (fun _ _ _ => Bool.and_false _) ?_ ?_ h hc
  · exact Nat.le_trans (Nat.le_add_left _ _) htokens
  · intro s r th now task rest e hr hnot
    have hzero : e.gain (fun _ _ => 0) r = 0 :=
      gain_eq_zero hr.perform (fun _ _ => rfl) fun _ _ _ => rfl
    have hquiet : e.history.countP (ofPeer q (Event.isAnsweredFor ids) r) = 0 := by
      refine countP_events_eq_zero hr (fun _ _ => Bool.and_false _) fun ev hl => ?_
      cases hl with
      | answered x kind ha =>
          rw [Bool.eq_false_iff]
          intro hP
          simp only [ofPeer, Event.isAnsweredFor, Bool.and_eq_true, decide_eq_true_eq] at hP
          exact hnot x rfl hP
      | _ => exact Bool.and_false _
    omega
  · intro t x e hsent hcases
    have hzero : e.gain (fun _ _ => 0) q = 0 := by
      rw [gain_here hsent]
      exact List.sum_eq_zero fun n hn => by
        obtain ⟨task, -, rfl⟩ := List.mem_map.mp hn
        rfl
    rw [hzero, Nat.zero_add]
    cases hcases with
    | seen hold _ hhistory =>
        rw [hhistory, if_pos hold]
        simp [ofPeer, Event.isAnsweredFor]
    | pass hnew _ _ hhistory =>
        rw [hhistory, if_neg hnew]
        simp [ofPeer, Event.isAnsweredFor]
    | answer hnew _ _ hhistory =>
        rw [hhistory, if_neg hnew, List.countP_cons, List.countP_singleton]
        have hone : (if ofPeer q (Event.isAnsweredFor ids) q
            (.answered x.id (.hit (newHit net q .invQuery x.id)) : Event Message) = true
            then 1 else 0) ≤ 1 := ite_le_one
        simpa [ofPeer, Event.isAnsweredFor] using hone

/-- **A peer relays one inv_query for a file at most**, in every run. -/
theorem relayed_once (h : (flood net).Reachable s) (hc : s.InvQueries ids f) (q : PeerID) :
    s.count (ofPeer q (Event.isRelayedFor ids)) ≤ 1 := by
  have htokens := filename_tokens (w := relayForWeight q ids)
    (P := ofPeer q (Event.isRelayedFor ids)) (q := q) (f := f) ?_ (fun _ _ => Bool.and_false _)
    (fun _ _ _ => Bool.and_false _) ?_ ?_ h hc
  · exact Nat.le_trans (Nat.le_add_left _ _) htokens
  · intro r task hstart
    have hnone := hstart.strand
    cases task <;> first | rfl | cases hnone
  · intro s r th now task rest e hr hnot
    by_cases hrelay : ∃ x, task = .relay x
    · obtain ⟨x, rfl⟩ := hrelay
      have hzero : e.gain (relayForWeight q ids) r = 0 := by
        refine gain_eq_zero hr.perform (fun task' hl => ?_) fun p m hsend => by cases hsend
        cases hl with
        | queueRelayed x y hy => rfl
        | create hcr => cases hcr
      have hperform := hr.perform
      simp only [perform] at hperform
      rw [hzero, countP_ofPeer, Nat.zero_add]
      split at hperform
      · injection hperform with hperform
        subst hperform
        simp [Effect.history]
      · injection hperform with hperform
        subst hperform
        simp only [Effect.history, List.map_nil, List.append_nil, List.countP_singleton,
          Event.isRelayedFor, relayForWeight]
        split
        · next hrq =>
            exact Nat.le_of_eq (if_congr ⟨fun hid => ⟨hrq, hid⟩, fun hboth => hboth.2⟩ rfl rfl)
        · exact Nat.zero_le _
    · have hquiet : e.history.countP (ofPeer q (Event.isRelayedFor ids) r) = 0 := by
        refine countP_events_eq_zero hr (fun _ _ => Bool.and_false _) fun ev hl => ?_
        cases hl with
        | relayed x y hy => exact absurd ⟨x, rfl⟩ hrelay
        | _ => exact Bool.and_false _
      have hzero : e.gain (relayForWeight q ids) r = 0 := by
        refine gain_eq_zero hr.perform (fun task' hl => ?_) fun p m _ => by cases m <;> rfl
        cases hl with
        | relay x hp => exact if_neg (hnot x rfl)
        | ownTest test n ht | test x ht => cases ht <;> rfl
        | _ => rfl
      omega
  · intro t x e hsent hcases
    rw [gain_here hsent]
    cases hcases with
    | seen hold hhere hhistory =>
        rw [hhere, hhistory, if_pos hold]
        simp [ofPeer, Event.isRelayedFor]
    | pass hnew _ hhere hhistory | answer hnew _ hhere hhistory =>
        rw [hhere, hhistory, if_neg hnew]
        have hone : relayForWeight q ids q (.relay x) ≤ 1 := ite_le_one
        simpa [ofPeer, Event.isRelayedFor, relayForWeight] using hone

end Filename

/-! ## The servers on a hit list -/

section Servers

variable {net : Setup} {s s' : Flood} {p q r : PeerID} {id : SMessageID} {f : Str}
  {ids : SMessageID → Bool} {x : Query}

theorem exists_invQueries (h : (flood net).Reachable s) (f : Str) : ∃ ids, s.InvQueries ids f := by
  classical
  refine ⟨fun id => decide (∃ y, s.Issued y ∧ y.id = id ∧ ∃ k, y.request = .invQuery f k), ?_⟩
  intro y hy
  rw [decide_eq_true_eq]
  constructor
  · rintro ⟨z, hz, hid, k, hk⟩
    have hsame : z = y := issued_unique h hz hy (by rw [hid]; exact BEq.rfl)
    exact ⟨k, by rw [← hsame]; exact hk⟩
  · rintro ⟨k, hk⟩
    exact ⟨y, hy, rfl, k, hk⟩

/-- A peer is recorded for an inv_query only if it answered it, and once. -/
theorem recorded_le (h : (flood net).Reachable s) (hx : s.Issued x) (hids : ids x.id = true)
    (hq : q ∈ net.peers) :
    s.count (ofPeer x.id.peerId (Event.isRecorded (net.serverInfo q) x.id)) ≤
      s.count (ofPeer q (Event.isAnsweredFor ids)) := by
  refine Nat.le_trans (Nat.le_add_left _ _) (Nat.le_trans (hits_le h hq x.id) ?_)
  refine List.countP_mono_left fun e he hP => ?_
  obtain ⟨r, ev⟩ := e
  cases ev with
  | answered id' m =>
      simp only [ofPeer, Event.isAnswered, Event.isAnsweredFor, Bool.and_eq_true,
        decide_eq_true_eq] at hP ⊢
      obtain ⟨-, x₀, -, -, h₀, hid, -⟩ := reachable_answer h _ he
      have hsame : x₀ = x := issued_unique h h₀ hx (by rw [hid]; exact hP.2)
      exact ⟨hP.1, by rw [← hid, hsame]; exact hids⟩
  | _ => simp [ofPeer, Event.isAnswered] at hP

/-- **The hit list of an inv_query names no server twice**, in every run. -/
theorem servers_nodup (h : (flood net).Reachable s) (hx : s.Issued x) {k : Int}
    (hreq : x.request = .invQuery f k) :
    ((resultsIn s.log x.id.peerId x.id).map SQueryResult.serverInfo).Nodup := by
  obtain ⟨ids, hc⟩ := exists_invQueries h f
  have hids : ids x.id = true := (hc x hx).mpr ⟨k, hreq⟩
  rw [List.nodup_iff_count_le_one]
  intro info
  by_cases hmem : info ∈ (resultsIn s.log x.id.peerId x.id).map SQueryResult.serverInfo
  · obtain ⟨y, hy, rfl⟩ := List.mem_map.mp hmem
    obtain ⟨id', hrec, hid⟩ := mem_resultsIn hy
    obtain ⟨z, hz, -, -, hinfo⟩ := reachable_entry h _ hrec
    rw [hinfo, hz.serverInfo h, List.count, List.countP_map]
    have hcount := countP_resultsIn s.log x.id.peerId x.id (net.serverInfo z.origin)
    refine Nat.le_trans (Nat.le_of_eq ?_)
      (Nat.le_trans (recorded_le h hx hids (hz.spec h).1) (answered_once h hc z.origin))
    rw [Flood.count, ← hcount]
    refine List.countP_congr fun r _ => ?_
    simp
  · rw [List.count_eq_zero_of_not_mem hmem]
    exact Nat.zero_le 1

end Servers

/-! ## Pushes -/

/-- A request to push a file to a peer's file server. -/
def isPushTo (net : Setup) (f : Str) (q : PeerID) (r : SClientRequest) : Bool :=
  decide (r = ⟨.requestPushFile, f, net.ip q, getFileServerPort q⟩)

/-- The pushes of a file to a peer that an event brought. -/
def Event.pushes {M : Type} (net : Setup) (f : Str) (q : PeerID) : Event M → Nat
  | .transfersStarted _ _ requests => requests.countP (isPushTo net f q)
  | _ => 0

section Pushes

variable {net : Setup} {s : Flood} {p q : PeerID} {id : SMessageID} {f : Str}
  {ids : SMessageID → Bool}

theorem countP_pushes {results : List SQueryResult} {g : Str} {n : Nat}
    (hpos : 0 < ((results.take n).flatMap fun r => startPushFile net p g r.serverInfo).countP
      (isPushTo net f q)) :
    g = f ∧ ((results.take n).flatMap fun r => startPushFile net p g r.serverInfo).countP
      (isPushTo net f q) ≤ results.countP fun r => decide (r.serverInfo = net.serverInfo q) := by
  constructor
  · obtain ⟨r, hr, hP⟩ := List.countP_pos_iff.mp hpos
    obtain ⟨x, -, hr⟩ := List.mem_flatMap.mp hr
    unfold startPushFile at hr
    split at hr
    · rw [List.mem_singleton] at hr
      rw [isPushTo, decide_eq_true_eq, hr] at hP
      exact congrArg SClientRequest.filename hP
    · cases hr
  · rw [List.countP_flatMap]
    refine Nat.le_trans ?_ ((List.take_sublist n results).countP_le)
    rw [← sum_map_indicator]
    refine List.sum_le_sum fun x _ => ?_
    show (startPushFile net p g x.serverInfo).countP (isPushTo net f q) ≤ _
    unfold startPushFile
    split
    · rw [List.countP_singleton]
      by_cases hserver : x.serverInfo = net.serverInfo q
      · rw [if_pos (decide_eq_true hserver)]
        exact ite_le_one
      · rw [if_neg, if_neg (by simpa using hserver)]
        rw [isPushTo, decide_eq_true_eq]
        intro hreq
        injection hreq with _ _ hip hport
        exact hserver (by rw [Setup.serverInfo, ← hip, ← hport])
    · exact Nat.zero_le _

/-- A round of transfers that pushes the file to `q` is for an inv_query that `q`
answered, and pushes it once. -/
theorem push_answered (h : (flood net).Reachable s)
    (hR : ∀ p ∈ net.peers, 1 < net.replicationFactor p)
    (hc : s.InvQueries ids f) (hq : q ∈ net.peers) {ev : Event Message} (hmem : (p, ev) ∈ s.log)
    (hpos : 0 < ev.pushes net f q) :
    ev.pushes net f q ≤ 1 ∧ ∃ id m, id.peerId = p ∧ ev.isTransfersStarted id = true ∧
      (q, .answered id m) ∈ s.log ∧ ids id = true := by
  cases ev with
  | transfersStarted type id requests =>
      obtain ⟨y, -, -, hy, rfl, hyp, -⟩ := round_issued h hmem
      have hfactor : 1 < net.replicationFactor p := by
        rw [← hyp]
        exact hR _ (hy.spec h).1
      obtain ⟨x, results, hx, hid, hp, hin, ⟨g, -, -, hreq⟩ | ⟨g, k, hxreq, -, -, hreq⟩⟩ :=
        round_requests h (replicatesIssue_of_factor hfactor) hmem
      · -- A download is no push.
        obtain ⟨r, hr, hP⟩ := List.countP_pos_iff.mp hpos
        rw [hreq] at hr
        obtain ⟨z, -, hr⟩ := List.mem_flatMap.mp hr
        rw [isPushTo, decide_eq_true_eq, List.mem_singleton.mp hr] at hP
        cases hP
      · change 0 < requests.countP (isPushTo net f q) at hpos
        rw [hreq] at hpos
        obtain ⟨rfl, hle⟩ := countP_pushes hpos
        have hids : ids x.id = true := (hc x hx).mpr ⟨k, hxreq⟩
        have hrecorded : results.countP (fun r => decide (r.serverInfo = net.serverInfo q)) ≤
            s.count (ofPeer x.id.peerId (Event.isRecorded (net.serverInfo q) x.id)) := by
          rw [Flood.count, ← countP_resultsIn, hid, hp]
          exact hin.sublist.countP_le
        have hanswered := recorded_le h hx hids hq
        have hone := answered_once h hc q
        have hsome : 0 < s.count (ofPeer q (Event.isAnswered x.id)) := by
          have hhits := hits_le h hq x.id
          omega
        refine ⟨?_, y.id, ?_⟩
        · show requests.countP (isPushTo net _ q) ≤ 1
          rw [hreq]
          omega
        · obtain ⟨⟨r, ev⟩, hev, hP⟩ := List.countP_pos_iff.mp hsome
          cases ev with
          | answered id' m =>
              simp only [ofPeer, Event.isAnswered, Bool.and_eq_true, decide_eq_true_eq] at hP
              obtain ⟨rfl, hid'⟩ := hP
              obtain ⟨-, x₀, -, -, h₀, hid₀, -⟩ := reachable_answer h _ hev
              have hsame : x₀ = x := issued_unique h h₀ hx (by rw [hid₀]; exact hid')
              have heq : id' = y.id := by rw [← hid₀, hsame, hid]
              refine ⟨m, hyp, BEq.rfl, ?_, ?_⟩
              · rw [← heq]
                exact hev
              · rw [← hid]
                exact hids
          | _ => simp [ofPeer, Event.isAnswered] at hP
  | _ => exact absurd hpos (Nat.lt_irrefl 0)

/-- Of all the pushes that anyone asked for, one at most is of this file to this peer. -/
theorem pushes_le_one_of_peer (h : (flood net).Reachable s)
    (hR : ∀ p ∈ net.peers, 1 < net.replicationFactor p) (f : Str) (hq : q ∈ net.peers) :
    (net.peers.map fun p => (requestsOf s.log p).countP (isPushTo net f q)).sum ≤ 1 := by
  obtain ⟨ids, hc⟩ := exists_invQueries h f
  have howned : ∀ p, (requestsOf s.log p).countP (isPushTo net f q) =
      (s.log.map fun e => if e.1 = p then e.2.pushes net f q else 0).sum := by
    intro p
    rw [requestsOf, List.countP_flatMap]
    congr 1
    refine List.map_congr_left fun e _ => ?_
    obtain ⟨r, ev⟩ := e
    cases ev with
    | transfersStarted type id requests =>
        show (if r = p then requests else []).countP _ =
          if r = p then requests.countP _ else 0
        split <;> rfl
    | _ => exact (ite_self 0).symm
  simp only [howned]
  refine Nat.le_trans (sum_owned_le net.peers_nodup s.log fun e => e.2.pushes net f q) ?_
  refine sum_map_le_of_countP (P := fun e => decide (0 < e.2.pushes net f q)) ?_ ?_ ?_
  · by_cases hnone : ∀ e ∈ s.log, ¬0 < e.2.pushes net f q
    · rw [List.countP_eq_zero.mpr fun e he => by simpa using hnone e he]
      exact Nat.zero_le 1
    · -- Every event that pushes the file to `q` is a round of transfers for one id.
      simp only [not_forall, not_not] at hnone
      obtain ⟨⟨p, ev⟩, hmem, hpos⟩ := hnone
      obtain ⟨-, id, m, hp, -, hanswered, hids⟩ := push_answered h hR hc hq hmem hpos
      have hpeer : p ∈ net.peers := by
        obtain ⟨-, x, -, -, hx, hid, -⟩ := reachable_answer h _ hanswered
        rw [← hp, ← hid]
        exact (hx.spec h).1
      refine Nat.le_trans (List.countP_mono_left fun e he hP => ?_)
        (one_round h (replicatesIssue_of_factor (hR p hpeer)) id)
      obtain ⟨r, ev'⟩ := e
      obtain ⟨-, id', m', hr, hround, hanswered', hids'⟩ :=
        push_answered h hR hc hq he (of_decide_eq_true hP)
      have hsame := eq_of_countP_le_one (answered_once h hc q) hanswered hanswered'
        (by simp [ofPeer, Event.isAnsweredFor, hids])
        (by simp [ofPeer, Event.isAnsweredFor, hids'])
      injection hsame with _ hsame
      injection hsame with hsame
      rw [ofPeer, ← hp, ← hr, hsame, hround, decide_eq_true rfl]
      rfl
  · intro e _ he
    exact Nat.eq_zero_of_not_pos (of_decide_eq_false he)
  · intro e he
    by_cases hpos : 0 < e.2.pushes net f q
    · exact (push_answered h hR hc hq he hpos).1
    · omega

theorem isPushTo_congr {q' : PeerID} (h : net.serverInfo q = net.serverInfo q') :
    isPushTo net f q = isPushTo net f q' := by
  injection h with hip hport
  funext r
  rw [isPushTo, isPushTo, hip, hport]

/-- Whoever is pushed a file is a peer, by the address and the port at least. -/
theorem push_to_peer (h : (flood net).Reachable s) {r : SClientRequest}
    (hr : r ∈ requestsOf s.log p) (hP : isPushTo net f q r = true) :
    ∃ q' ∈ net.peers, net.serverInfo q = net.serverInfo q' := by
  obtain ⟨⟨p', ev⟩, hmem, hr⟩ := List.mem_flatMap.mp hr
  cases ev with
  | transfersStarted type id requests =>
      dsimp only at hr
      split at hr
      · obtain ⟨-, g, results, -, -, -, -, hreq, hin, -⟩ := reachable_transfer h _ hmem
        rw [hreq] at hr
        obtain ⟨x, hx, hinfo⟩ := mem_transferRequests hr
        obtain ⟨id', hrecorded, -⟩ := mem_resultsIn (hin.subset hx)
        obtain ⟨y, hy, -, -, hserver⟩ := reachable_entry h _ hrecorded
        refine ⟨y.origin, (hy.spec h).1, ?_⟩
        rw [← hy.serverInfo h, ← hserver, hinfo, of_decide_eq_true hP]
        rfl
      · cases hr
  | _ => cases hr

/-- **No peer is pushed the same file twice**, if everybody asks for copies. -/
theorem pushes_le_one (h : (flood net).Reachable s)
    (hR : ∀ p ∈ net.peers, 1 < net.replicationFactor p) (f : Str) (q : PeerID) :
    (net.peers.map fun p => (requestsOf s.log p).countP (isPushTo net f q)).sum ≤ 1 := by
  by_cases hnone : ∀ p ∈ net.peers, (requestsOf s.log p).countP (isPushTo net f q) = 0
  · have hzero : ∀ n ∈ net.peers.map fun p => (requestsOf s.log p).countP (isPushTo net f q),
        n = 0 := by
      intro n hn
      obtain ⟨p, hp, rfl⟩ := List.mem_map.mp hn
      exact hnone p hp
    rw [List.sum_eq_zero hzero]
    exact Nat.zero_le 1
  · simp only [not_forall] at hnone
    obtain ⟨p, -, hpos⟩ := hnone
    obtain ⟨r, hr, hP⟩ := List.countP_pos_iff.mp (Nat.pos_of_ne_zero hpos)
    obtain ⟨q', hq', hinfo⟩ := push_to_peer h hr hP
    rw [isPushTo_congr hinfo]
    exact pushes_le_one_of_peer h hR f hq'

end Pushes

end P2PFileSharing
