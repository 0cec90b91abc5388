import P2PFileSharing.Proofs.Race

/-!
# What a round of transfers asks for

A round of transfers asks for the file that the query of its id asked for: one
download from the first server on the hit list, or a push to each of the first
few. An id brings one round at most, and what the file client was asked for are
the rounds in the order of the history.
-/

namespace P2PFileSharing

section Requests

variable {net : Setup} {s s' : Flood} {l : Label} {p r : PeerID} {id : SMessageID} {f : Str}
  {th : Thread} {now : Int} {task : Task} {rest : Multiset Work} {e : Effect}

theorem transferRequests_query (g : Str) (results : List SQueryResult) :
    transferRequests net p (HitKind.query g).type f results =
      (results.take 1).flatMap fun r => startFileTransfer f r.serverInfo :=
  if_pos rfl

theorem transferRequests_invQuery (hR : 1 < net.replicationFactor p)
    (results : List SQueryResult) :
    transferRequests net p HitKind.invQuery.type f results =
      (results.take (net.replicationFactor p - 1).toNat).flatMap fun r =>
        startPushFile net p f r.serverInfo := by
  rw [transferRequests, if_neg (by decide), net.wrapInt_factor hR]
  exact if_pos rfl

/-- Every request goes to a server of the hit list. -/
theorem mem_transferRequests {type : Str} {results : List SQueryResult} {r : SClientRequest}
    (h : r ∈ transferRequests net p type f results) :
    ∃ x ∈ results, x.serverInfo = ⟨r.ip, r.port⟩ := by
  unfold transferRequests at h
  split at h
  · obtain ⟨x, hx, hr⟩ := List.mem_flatMap.mp h
    rw [List.mem_singleton.mp hr]
    exact ⟨x, List.mem_of_mem_take hx, rfl⟩
  · split at h
    · obtain ⟨x, hx, hr⟩ := List.mem_flatMap.mp h
      unfold startPushFile at hr
      split at hr
      · rw [List.mem_singleton.mp hr]
        exact ⟨x, List.mem_of_mem_take hx, rfl⟩
      · cases hr
    · cases h

/-- A round of transfers is about an issued message, and its hits answer it. -/
theorem round_issued (h : (flood net).Reachable s) {type : Str} {requests : List SClientRequest}
    (hmem : (p, .transfersStarted type id requests) ∈ s.log) :
    ∃ x q kind, s.Issued x ∧ x.id = id ∧ id.peerId = p ∧ kind.type = type ∧
      AnswerOf net q x.request kind := by
  obtain ⟨y, f, results, hy, htype, hid, hp, -⟩ := reachable_transfer h _ hmem
  obtain ⟨-, -, x, hx, hxid, hanswer⟩ := hy.spec h
  exact ⟨x, y.origin, y.kind, hx, hxid.trans hid, hp, htype, hanswer⟩

/-- A peer with an inv_query of its own has a factor of at least 2. -/
theorem factor_of_invQuery (h : (flood net).Reachable s) {x : Query} (hx : s.Issued x) {k : Int}
    (hreq : x.request = .invQuery f k) : 1 < net.replicationFactor x.id.peerId := by
  have hk := (hx.spec h).2.2.2 f k hreq
  omega

/-- **A round of transfers asks for the file its id was issued for**, from servers
that were recorded for it. -/
theorem round_requests (h : (flood net).Reachable s) (hc : ReplicatesIssue net s.log p)
    {type : Str} {requests : List SClientRequest}
    (hmem : (p, .transfersStarted type id requests) ∈ s.log) :
    ∃ x results, s.Issued x ∧ x.id = id ∧ id.peerId = p ∧
      results <:+: resultsIn s.log p id ∧
      ((∃ f, x.request = .query f ∧ type = peerMsgQueryHit ∧
          requests = (results.take 1).flatMap fun r => startFileTransfer f r.serverInfo) ∨
        ∃ f k, x.request = .invQuery f k ∧ type = peerMsgInvQueryHit ∧
          net.hasFile p f = true ∧
          requests = (results.take (net.replicationFactor p - 1).toNat).flatMap fun r =>
            startPushFile net p f r.serverInfo) := by
  obtain ⟨x, q, kind, hx, hid, hp, htype, hanswer⟩ := round_issued h hmem
  obtain ⟨-, f, results, -, -, -, -, hreq, hin, -, hwaits⟩ := reachable_transfer h _ hmem
  obtain ⟨y, hy, hyid, -, hfile, hhas⟩ := hwaits hc
  have hsame : y = x := issued_unique h hy hx (by rw [hid]; exact hyid)
  subst hsame
  have hfactor : ∀ f k, y.request = .invQuery f k → 1 < net.replicationFactor p := by
    intro f k hreq
    rw [← hp, ← hid]
    exact factor_of_invQuery h hx hreq
  refine ⟨y, results, hx, hid, hp, hin, ?_⟩
  subst htype
  generalize y.request = t at hanswer hfile hhas hfactor
  cases hanswer with
  | query g hg =>
      injection hfile with hfile
      subst hfile
      exact .inl ⟨g, rfl, rfl, by rw [hreq, transferRequests_query]⟩
  | invQuery g k hg =>
      injection hfile with hfile
      subst hfile
      exact .inr ⟨g, k, rfl, rfl, hhas g k rfl, by
        rw [hreq, transferRequests_invQuery (hfactor g k rfl)]⟩

/-- A round of transfers asks for something, if the hit list is kept. -/
theorem round_nonempty (h : (flood net).Reachable s) {type : Str} {id' : SMessageID}
    {requests : List SClientRequest} (hmem : (p, .transfersStarted type id' requests) ∈ s.log)
    (hkept : s.HitsKept p id') : requests ≠ [] := by
  obtain ⟨x, q, kind, hx, hid, hp, htype, hanswer⟩ := round_issued h hmem
  obtain ⟨-, f, results, -, -, -, -, hreq, -, hne, hwaits⟩ := reachable_transfer h _ hmem
  obtain ⟨a, l, hresults⟩ := List.exists_cons_of_ne_nil (hne hkept)
  subst htype
  generalize ht : x.request = t at hanswer
  cases hanswer with
  | query g hg =>
      rw [hreq, transferRequests_query, hresults]
      exact List.cons_ne_nil _ _
  | invQuery g k hg =>
      have hR : 1 < net.replicationFactor p := by
        rw [← hp, ← hid]
        exact factor_of_invQuery h hx ht
      obtain ⟨y, hy, hyid, -, hfile, hhas⟩ := hwaits (replicatesIssue_of_factor hR)
      have hsame : y = x := issued_unique h hy hx (by rw [hid]; exact hyid)
      subst hsame
      obtain ⟨n, hn⟩ : ∃ n, (net.replicationFactor p - 1).toNat = n + 1 :=
        ⟨(net.replicationFactor p - 2).toNat, by omega⟩
      rw [hreq, transferRequests_invQuery hR, hresults, hn, List.take_succ_cons, List.flatMap_cons,
        startPushFile, if_pos (hhas g k ht)]
      exact List.cons_ne_nil _ _

/-- **An id brings one round of transfers at most**, if every `replicate` issues one. -/
theorem one_round (h : (flood net).Reachable s) (hc : ReplicatesIssue net s.log p)
    (id : SMessageID) : s.count (ofPeer p (Event.isTransfersStarted id)) ≤ 1 := by
  have hrounds := rounds_le h p id
  have hfound := found_le h p id
  have hset := wait_tokens h hc id
  change _ ≤ s.founds p id at hrounds
  change _ + s.sets p id ≤ 1 at hset
  omega

theorem requestsIn_eq (hone : s.count (ofPeer p (Event.isTransfersStarted id)) ≤ 1) {type : Str}
    {id' : SMessageID} {requests : List SClientRequest}
    (hmem : (p, .transfersStarted type id' requests) ∈ s.log) (hid : (id' == id) = true) :
    requestsIn s.log p id = requests := by
  have hP : ofPeer p (Event.isTransfersStarted id) p
      (.transfersStarted type id' requests : Event Message) = true := by
    simp [ofPeer, Event.isTransfersStarted, hid]
  rw [requestsIn, flatMap_of_countP_le_one hone ?_ hmem hP]
  · exact if_pos ⟨rfl, hid⟩
  · intro e _ he
    obtain ⟨r, ev⟩ := e
    cases ev with
    | transfersStarted type id' requests =>
        refine if_neg fun hboth => ?_
        have hr : r = p := hboth.1
        simp [ofPeer, Event.isTransfersStarted, hr, hboth.2] at he
    | _ => rfl

theorem requestsIn_eq_nil (hnone : s.count (ofPeer p (Event.isTransfersStarted id)) = 0) :
    requestsIn s.log p id = [] := by
  rw [List.eq_nil_iff_forall_not_mem]
  intro x hx
  obtain ⟨type, id', requests, hmem, hid, -⟩ := mem_requestsIn hx
  refine List.countP_eq_zero.mp hnone _ hmem ?_
  simp [ofPeer, Event.isTransfersStarted, hid]

/-! ## The file client's queue -/

theorem requestsOf_append {M : Type} (l l' : List (PeerID × Event M)) (p : PeerID) :
    requestsOf (l ++ l') p = requestsOf l p ++ requestsOf l' p :=
  List.flatMap_append

theorem requestsOf_eq_nil {l : List (PeerID × Event Message)}
    (h : ∀ e ∈ l, ∀ type id requests, e ≠ (p, .transfersStarted type id requests)) :
    requestsOf l p = [] := by
  rw [requestsOf, List.flatMap_eq_nil_iff]
  intro e he
  obtain ⟨r, ev⟩ := e
  cases ev with
  | transfersStarted type id requests =>
      refine if_neg fun hp => h _ he type id requests ?_
      rw [show r = p from hp]
  | _ => rfl

/-- What a task queues for the file client is what it logs. -/
theorem perform_requests (hr : RunStep net s p th now task rest e) :
    e.tables.requestQueue =
      (s.tables p).requestQueue ++ requestsOf (e.history.map (p, ·)) p := by
  by_cases hstart : ∃ x f, task = .startTransfers x f
  · obtain ⟨x, f, rfl⟩ := hstart
    have hperform := hr.perform
    simp only [perform] at hperform
    split at hperform
    · injection hperform with hperform
      rw [← hperform]
      exact (List.append_nil _).symm
    · injection hperform with hperform
      rw [← hperform]
      simp [requestsOf, Effect.history]
  · have hsame : e.tables.requestQueue = (s.tables p).requestQueue := by
      have hw := perform_writes hr.perform
      generalize e.tables = t' at hw
      cases hw with
      | startTransfers x f => exact absurd ⟨x, f, rfl⟩ hstart
      | _ => rfl
    rw [hsame, requestsOf_eq_nil, List.append_nil]
    intro e' he' type id requests hx
    obtain ⟨ev, hev, rfl⟩ := List.mem_map.mp he'
    injection hx with _ hx
    subst hx
    rcases Effect.mem_history hev with hev | ⟨y, -, hy⟩
    · cases perform_logs hr.perform _ hev with
      | transfersStarted x f => exact hstart ⟨x, f, rfl⟩
    · cases hy

/-- **The file client was asked for what the rounds of transfers ask for.** -/
theorem reachable_requestQueue (h : (flood net).Reachable s) (p : PeerID) :
    (s.tables p).requestQueue = requestsOf s.log p := by
  refine System.Reachable.invariant
    (I := fun s => (s.tables p).requestQueue = requestsOf s.log p) ?_ ?_ h
  · rintro s rfl
    rfl
  · intro s l s' _ ih hl
    rcases FloodStep.total_cases (f := fun _ _ => 0) hl (fun _ _ _ => rfl) with
      ⟨r, th, now, task, rest, e, hr, rfl⟩ | ⟨htables, -, new, hlog, hnew⟩
    · show (Function.update s.tables r e.tables p).requestQueue =
        requestsOf (s.log ++ e.history.map (r, ·)) p
      rw [requestsOf_append]
      by_cases hp : p = r
      · subst hp
        rw [Function.update_self, perform_requests hr, ih]
      · rw [Function.update_of_ne hp, requestsOf_eq_nil (l := e.history.map (r, ·)),
          List.append_nil]
        · exact ih
        · intro e' he' type id requests hx
          obtain ⟨ev, -, rfl⟩ := List.mem_map.mp he'
          injection hx with hr' _
          exact hp hr'.symm
    · rw [htables, hlog, requestsOf_append, requestsOf_eq_nil (l := new), List.append_nil]
      · exact ih
      · intro e he type id requests hx
        rcases hnew e he with ⟨cmd, heq⟩ | ⟨q, m, heq⟩ <;> (rw [hx] at heq; cases heq)

end Requests

end P2PFileSharing
