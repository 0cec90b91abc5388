import P2PFileSharing.Proofs.Links

/-!
# Every hit comes home

A peer that answers mints one hit. Nothing drops it on its way back: its TTL is
tested at every hop but never written, its id is in the tree of the query, and
the upstream peer is a neighbour. At the originator it becomes an entry of the
hit list.
-/

namespace P2PFileSharing

/-- The hits for an id that `q` answered with, on their way. -/
def hitWeight (q : PeerID) (id : SMessageID) (_ : PeerID) : Task → Nat
  | .handleHit h | .relayHit h | .record h _ => if h.origin = q ∧ (h.id == id) = true then 1 else 0
  | _ => 0

/-- An entry for the server was recorded under the id. -/
def Event.isRecorded {M : Type} (info : SPeerServerInfo) (id : SMessageID) : Event M → Bool
  | .recorded id' r => decide (r.serverInfo = info) && (id' == id)
  | _ => false

/-- Hits are only dealt with at home. -/
def Task.AtHome (p : PeerID) : Task → Prop
  | .record h _ | .takeWait h | .startTransfers h _ => h.id.peerId = p
  | _ => True

section Hits

variable {net : Setup} {s s' : Flood} {p q r : PeerID} {id : SMessageID} {th : Thread}
  {now : Int} {task : Task} {rest : Multiset Work} {e : Effect}

theorem reachable_atHome (h : (flood net).Reachable s) :
    ∀ w ∈ s.work, w.task.AtHome w.place.owner := by
  refine tasks_rule (I := fun _ p task => task.AtHome p) (any_run net) ?_ ?_ ?_ h trivial
  · intro s p task hstart
    have hnone := hstart.strand
    cases task <;> trivial
  · exact fun _ _ _ _ _ _ h => h
  · intro s p th now task rest e _ _ _ _ hI
    refine ⟨?_, fun q m _ _ => by cases m <;> trivial⟩
    intro task' _ hl
    cases hl with
    | home h hme hc => exact hme
    | lookUp h since => exact hI
    | transfer h f hf => exact hI
    | ownTest test n ht | test x ht => cases ht <;> trivial
    | _ => trivial

theorem serverInfo_inj (hp : p ∈ net.peers) (hq : q ∈ net.peers)
    (h : net.serverInfo p = net.serverInfo q) : p = q := by
  have hport : getFileServerPort p = getFileServerPort q :=
    congrArg SPeerServerInfo.port h
  exact wrapInt_add_inj (net.peers_range p hp).2 (net.peers_range q hq).2 hport

/-- The server a hit names is its origin's. -/
theorem Flood.Answered.serverInfo {x : Hit} (hx : s.Answered x) (h : (flood net).Reachable s) :
    x.serverInfo = net.serverInfo x.origin := by
  have hip : x.ip = net.ip x.origin := by
    conv_lhs => rw [(hx.spec h).2.1]
    rfl
  rw [Hit.serverInfo, Setup.serverInfo, hip]

theorem Flood.Answered.timeToLive {x : Hit} (hx : s.Answered x) (h : (flood net).Reachable s) :
    x.timeToLive = ttl := by
  conv_lhs => rw [(hx.spec h).2.1]
  rfl

/-- Acting mints a hit exactly when it answers. -/
theorem gain_act {t : Tables} {x : Query} (h : perform net r now t (.act x) = some e) :
    e.gain (hitWeight q id) r = e.history.countP (ofPeer q (Event.isAnswered id) r) := by
  have htests : ∀ {tasks : List Task}, (∀ task ∈ tasks, TestTask net r task) →
      (tasks.map fun task => hitWeight q id r task).sum = 0 := by
    intro tasks ht
    refine List.sum_eq_zero ?_
    intro n hn
    obtain ⟨task, hmem, rfl⟩ := List.mem_map.mp hn
    cases ht task hmem <;> rfl
  have hnew : ∀ k, hitWeight q id r (.relayHit (newHit net r k x.id)) =
      if r = q ∧ (x.id == id) = true then 1 else 0 := fun _ => rfl
  simp only [perform, Option.some.injEq] at h
  subst h
  rw [countP_ofPeer, Effect.history, actOnRequest_sends, Effect.gain, Effect.out,
    actOnRequest_sends, Effect.here]
  unfold actOnRequest
  cases hreq : x.request with
  | query f =>
      dsimp only
      split
      · simp only [List.map_cons, List.map_nil, List.append_nil, List.sum_cons, List.sum_nil,
          hnew, List.countP_cons, List.countP_nil, Event.isAnswered]
        split <;> split <;> simp_all
      · simp [hitWeight, Event.isAnswered]
  | invQuery f k =>
      dsimp only
      split
      · simp [Event.isAnswered]
      · split
        · simp [hitWeight, Event.isAnswered]
        · simp only [List.map_cons, List.map_nil, List.append_nil, List.sum_cons, List.sum_nil,
            hnew, List.countP_cons, List.countP_nil, Event.isAnswered]
          split <;> split <;> simp_all [hitWeight]
  | conTestQuery n | conTestObtain n v =>
      have hzero := htests fun task (ht : task ∈ testTasks net r x.request) =>
        testTask_of_test ht
      rw [hreq] at hzero
      simp only [List.map_nil, List.append_nil, List.map_append, List.map_map, List.sum_append,
        Function.comp_def, hzero]
      simp [hitWeight, Event.isAnswered]

theorem hitWeight_leads {task task' : Task} {t : Tables} (hl : Leads net r now t task task')
    (hact : ∀ x, task ≠ .act x) (hhit : ∀ x, task ≠ .handleHit x) :
    hitWeight q id r task' = 0 := by
  cases hl with
  | answer x => exact absurd rfl (hact x)
  | home x | onward x => exact absurd rfl (hhit x)
  | ownTest test n ht | test x ht => cases ht <;> rfl
  | _ => rfl

/-- The originator records a hit; any other peer hands it on to its upstream. -/
theorem gain_handleHit {x : Hit} (hs : (flood net).Reachable s) (hc : s.NothingRemoved)
    (hr : RunStep net s r th now (.handleHit x) rest e) :
    e.gain (hitWeight q id) r = hitWeight q id r (.handleHit x) := by
  have hlive : s.Live x.id := (reachable_live hs hc).1 _ hr.mem
  have hanswered : s.Answered x := reachable_known hs _ hr.mem
  have hperform := hr.perform
  simp only [perform, Option.some.injEq] at hperform
  subst hperform
  have hnext : hitTasks r now (s.tables r) x = [.record x now] ∨
      hitTasks r now (s.tables r) x = [.relayHit x] := by
    unfold hitTasks
    split
    · next hme =>
        have hcached : (s.tables r).isQueryCached x.id = true := by
          rw [isQueryCached_eq_true, ← hme, show (s.tables x.id.peerId).queries.find? x.id = _
            from hlive]
          exact Option.some_ne_none _
        rw [if_pos hcached]
        exact .inl rfl
    · rw [hanswered.timeToLive hs, if_neg (by decide)]
      exact .inr rfl
  rcases hnext with heq | heq <;>
    (simp only [Effect.gain, Effect.out, Effect.here, heq]
     rfl)

/-- A hit that is relayed is sent. -/
theorem sent_relayHit {x : Hit} (hs : (flood net).Reachable s) (hc : s.NothingRemoved)
    (hr : RunStep net s r th now (.relayHit x) rest e) : ∃ u, e.sent = [(u, .hit x)] ∧
      e.here = [] := by
  have hlive := (reachable_live hs hc).1 _ hr.mem
  obtain ⟨n, hn⟩ := (reachable_onPath hs hc).1 _ hr.mem
  have hperform := hr.perform
  cases hn with
  | origin => exact absurd rfl hlive.2
  | @hop _ u n hp hlink hu hd =>
      have hindex : ((s.tables r).queries.index x.id 0).1 = u := by
        rw [UnorderedMap.index, show (s.tables r).queries.find? x.id = some u from hu]
      have hmem : u ∈ net.peerIdToSockfd r := hlink
      simp only [perform] at hperform
      split at hperform
      · cases hperform
      · rw [hindex, if_pos hmem] at hperform
        injection hperform with hperform
        rw [← hperform]
        exact ⟨u, rfl, rfl⟩

theorem gain_relayHit {x : Hit} (hs : (flood net).Reachable s) (hc : s.NothingRemoved)
    (hr : RunStep net s r th now (.relayHit x) rest e) :
    e.gain (hitWeight q id) r = hitWeight q id r (.relayHit x) := by
  obtain ⟨u, hsent, hhere⟩ := sent_relayHit hs hc hr
  rw [Effect.gain, Effect.out, hsent, hhere]
  rfl

/-- Away from the tasks that move a hit: an answer mints one, a record spends it. -/
theorem hits_step (hs : (flood net).Reachable s) (hr : RunStep net s r th now task rest e)
    (hq : q ∈ net.peers)
    (hhandle : ∀ x, task ≠ .handleHit x) (hrelay : ∀ x, task ≠ .relayHit x) :
    e.gain (hitWeight q id) r +
        e.history.countP (ofPeer id.peerId (Event.isRecorded (net.serverInfo q) id) r) =
      hitWeight q id r task + e.history.countP (ofPeer q (Event.isAnswered id) r) := by
  have hrecorded : (∀ x since, task ≠ .record x since) →
      e.history.countP (ofPeer id.peerId (Event.isRecorded (net.serverInfo q) id) r) = 0 := by
    intro hnot
    refine countP_events_eq_zero hr (fun _ _ => Bool.and_false _) fun ev hl => ?_
    cases hl with
    | recorded x since => exact absurd rfl (hnot x since)
    | _ => exact Bool.and_false _
  have hanswered : (∀ x, task ≠ .act x) →
      e.history.countP (ofPeer q (Event.isAnswered id) r) = 0 := by
    intro hnot
    refine countP_events_eq_zero hr (fun _ _ => Bool.and_false _) fun ev hl => ?_
    cases hl with
    | answered x => exact absurd rfl (hnot x)
    | _ => exact Bool.and_false _
  cases task with
  | act x =>
      rw [hrecorded (by simp), gain_act hr.perform]
      show _ = 0 + _
      omega
  | handleHit x => exact absurd rfl (hhandle x)
  | relayHit x => exact absurd rfl (hrelay x)
  | record x since =>
      have hhome : x.id.peerId = r := reachable_atHome hs _ hr.mem
      have hx : s.Answered x := reachable_known hs _ hr.mem
      have hzero : e.gain (hitWeight q id) r = 0 := by
        refine gain_eq_zero hr.perform (fun task' hl => ?_) fun q m hsend => by cases hsend
        exact hitWeight_leads hl (by simp) (by simp)
      have hhistory : e.history = [.recorded x.id ⟨x.serverInfo, since⟩] := by
        have hperform := hr.perform
        simp only [perform, Option.some.injEq] at hperform
        rw [← hperform]
        rfl
      rw [hanswered (by simp), hzero, countP_ofPeer, hhistory, List.countP_singleton]
      simp only [Event.isRecorded, hitWeight, hx.serverInfo hs, Bool.and_eq_true,
        decide_eq_true_eq]
      by_cases hid : (x.id == id) = true
      · have hpeer : r = id.peerId := by rw [← hhome, (SMessageID.beq_iff.mp hid).1]
        rw [if_pos hpeer]
        by_cases horigin : x.origin = q
        · rw [if_pos ⟨by rw [horigin], hid⟩, if_pos ⟨horigin, hid⟩]
        · have hpeer := (hx.spec hs).1
          rw [if_neg fun hboth => horigin (serverInfo_inj hpeer hq hboth.1),
            if_neg fun hboth => horigin hboth.1]
      · simp [hid]
  | _ =>
      have hzero : e.gain (hitWeight q id) r = 0 := by
        refine gain_eq_zero hr.perform (fun task' hl => ?_) fun q m hsend => ?_
        · exact hitWeight_leads hl (by simp) (by simp)
        · cases hsend <;> rfl
      rw [hrecorded (by simp), hanswered (by simp), hzero]
      rfl

/-- Moving a hit mints and spends nothing. -/
theorem hits_moved (hr : RunStep net s r th now task rest e)
    (hmove : (∃ x, task = .handleHit x) ∨ ∃ x, task = .relayHit x) :
    e.history.countP (ofPeer id.peerId (Event.isRecorded (net.serverInfo q) id) r) = 0 ∧
      e.history.countP (ofPeer q (Event.isAnswered id) r) = 0 := by
  have hnone : ∀ ev, ¬Logs net r now (s.tables r) task ev := by
    intro ev hl
    rcases hmove with ⟨x, rfl⟩ | ⟨x, rfl⟩ <;>
      (cases hl with
       | issued hc => cases hc)
  constructor <;>
    exact countP_events_eq_zero hr (fun _ _ => Bool.and_false _) fun ev hl =>
      absurd hl (hnone ev)

theorem Starts.hitWeight (hstart : Starts net r task) : hitWeight q id r task = 0 := by
  have hnone := hstart.strand
  cases task <;> first | rfl | cases hnone

/-- **Hits are conserved**: what `q` answered for an id is on its way or recorded
at the originator. -/
theorem hits_conserved (h : (flood net).Reachable s) (hc : s.NothingRemoved)
    (hq : q ∈ net.peers) (id : SMessageID) :
    s.total (hitWeight q id) +
        s.count (ofPeer id.peerId (Event.isRecorded (net.serverInfo q) id)) =
      s.count (ofPeer q (Event.isAnswered id)) := by
  refine conserve_rule (nothingRemoved_prefixClosed net) (fun _ _ hst => hst.hitWeight)
    (fun _ _ => ⟨Bool.and_false _, Bool.and_false _⟩)
    (fun _ _ _ => ⟨Bool.and_false _, Bool.and_false _⟩) ?_ h hc
  intro s r th now task rest e hs hcs hcs' hr
  by_cases hmove : (∃ x, task = .handleHit x) ∨ ∃ x, task = .relayHit x
  · obtain ⟨hrecorded, hanswered⟩ := hits_moved (q := q) hr hmove
    rw [hrecorded, hanswered]
    rcases hmove with ⟨x, rfl⟩ | ⟨x, rfl⟩
    · rw [gain_handleHit hs hcs hr]
    · rw [gain_relayHit hs hcs hr]
  · exact hits_step hs hr hq (fun x hx => hmove (.inl ⟨x, hx⟩)) fun x hx => hmove (.inr ⟨x, hx⟩)

/-- **Hits are not duplicated**, also when queries are removed: some may be lost or
go astray, but no more is on its way or recorded than was answered. -/
theorem hits_le (h : (flood net).Reachable s) (hq : q ∈ net.peers) (id : SMessageID) :
    s.total (hitWeight q id) +
        s.count (ofPeer id.peerId (Event.isRecorded (net.serverInfo q) id)) ≤
      s.count (ofPeer q (Event.isAnswered id)) := by
  refine spend_rule (any_run net) (fun _ _ hst => hst.hitWeight)
    (fun _ _ => ⟨Bool.and_false _, Bool.and_false _⟩)
    (fun _ _ _ => ⟨Bool.and_false _, Bool.and_false _⟩) ?_ h trivial
  intro s r th now task rest e hs _ _ hr
  by_cases hmove : (∃ x, task = .handleHit x) ∨ ∃ x, task = .relayHit x
  · obtain ⟨hrecorded, hanswered⟩ := hits_moved (q := q) hr hmove
    rw [hrecorded, hanswered, Nat.add_zero, Nat.add_zero]
    have hperform := hr.perform
    rcases hmove with ⟨x, rfl⟩ | ⟨x, rfl⟩
    · simp only [perform, Option.some.injEq, hitTasks] at hperform
      subst hperform
      simp only [Effect.gain, Effect.out, Effect.here]
      split <;> split <;> simp [hitWeight]
    · simp only [perform] at hperform
      split at hperform
      · cases hperform
      · split at hperform <;>
          (injection hperform with hperform
           subst hperform
           simp [Effect.gain, Effect.out, Effect.here, Message.task, hitWeight])
  · exact Nat.le_of_eq
      (hits_step hs hr hq (fun x hx => hmove (.inl ⟨x, hx⟩)) fun x hx => hmove (.inr ⟨x, hx⟩))

/-! ## Hit lists -/

/-- The hit list of an id was not removed. -/
def Flood.HitsKept (s : Flood) (p : PeerID) (id : SMessageID) : Prop :=
  ∀ id', (id' == id) = true → (p, .removedQueryHits id') ∉ s.log

theorem Flood.HitsKept.back (h : s'.HitsKept p id) (hg : Grows s s') : s.HitsKept p id :=
  fun id' hid hmem => h id' hid (hg.mem hmem)

theorem Flood.NothingRemoved.hitsKept (h : s.NothingRemoved) : s.HitsKept p id :=
  fun _ _ hmem => absurd (h _ hmem) (by simp [Event.isRemoval])

theorem resultsIn_append {M : Type} (l l' : List (PeerID × Event M)) (p : PeerID)
    (id : SMessageID) : resultsIn (l ++ l') p id = resultsIn l p id ++ resultsIn l' p id :=
  List.filterMap_append

theorem resultsIn_eq_nil {M : Type} {l : List (PeerID × Event M)} {p : PeerID} {id : SMessageID}
    (h : ∀ e ∈ l, ∀ id' r, e ≠ (p, .recorded id' r)) : resultsIn l p id = [] := by
  rw [resultsIn, List.filterMap_eq_nil_iff]
  intro e he
  obtain ⟨r, ev⟩ := e
  cases ev with
  | recorded id' x =>
      refine if_neg ?_
      rintro ⟨hp, -⟩
      exact h _ he id' x (congrArg (·, Event.recorded id' x) (show r = p from hp))
  | _ => rfl

/-- What a task does to a hit list and what it records are the same; a removal may
take away what was recorded before. -/
theorem perform_results {t : Tables} (h : perform net r now t task = some e) (id : SMessageID) :
    ((e.tables.queryHitResult.find? id).getD [] <:+
        (t.queryHitResult.find? id).getD [] ++ resultsIn (e.history.map (r, ·)) r id) ∧
      ((∀ id', (id' == id) = true → .removedQueryHits id' ∉ e.events) →
        (e.tables.queryHitResult.find? id).getD [] =
          (t.queryHitResult.find? id).getD [] ++ resultsIn (e.history.map (r, ·)) r id) := by
  have hsame : (∀ h since, task ≠ .record h since) →
      e.tables.queryHitResult = t.queryHitResult →
      (e.tables.queryHitResult.find? id).getD [] =
        (t.queryHitResult.find? id).getD [] ++ resultsIn (e.history.map (r, ·)) r id := by
    intro hnot heq
    rw [heq, resultsIn_eq_nil, List.append_nil]
    intro e' he' id' x hx
    obtain ⟨ev, hev, rfl⟩ := List.mem_map.mp he'
    rcases Effect.mem_history hev with hev | ⟨y, -, rfl⟩
    · injection hx with _ hx
      subst hx
      cases perform_logs h _ hev with
      | recorded y since => exact hnot y since rfl
    · injection hx with _ hx
      cases hx
  cases task with
  | record x since =>
      simp only [perform, Option.some.injEq] at h
      subst h
      have heq : ((t.queryHitResult.insert x.id ((t.queryHitResult.find? x.id).getD [] ++
          [⟨x.serverInfo, since⟩])).find? id).getD [] = (t.queryHitResult.find? id).getD [] ++
          if (x.id == id) = true then [⟨x.serverInfo, since⟩] else [] := by
        rw [UnorderedMap.find?_insert]
        split
        · next hid =>
            rw [UnorderedMap.find?_congr _ hid]
            rfl
        · rw [List.append_nil]
      have hnew : resultsIn ([(r, Event.recorded x.id ⟨x.serverInfo, since⟩)] :
          List (PeerID × Event Message)) r id =
            if (x.id == id) = true then [⟨x.serverInfo, since⟩] else [] := by
        simp only [resultsIn, List.filterMap_cons, List.filterMap_nil, true_and]
        split <;> split <;> simp_all
      refine ⟨?_, fun _ => ?_⟩
      · show _ <:+ _ ++ resultsIn [(r, Event.recorded x.id ⟨x.serverInfo, since⟩)] r id
        rw [hnew, heq]
      · show _ = _ ++ resultsIn [(r, Event.recorded x.id ⟨x.serverInfo, since⟩)] r id
        rw [hnew, heq]
  | removeOldQueryHits since =>
      have hlog : resultsIn (e.history.map (r, ·)) r id = [] := by
        refine resultsIn_eq_nil fun e' he' id' x hx => ?_
        obtain ⟨ev, hev, rfl⟩ := List.mem_map.mp he'
        rcases Effect.mem_history hev with hev | ⟨y, -, rfl⟩
        · injection hx with _ hx
          subst hx
          cases perform_logs h _ hev
        · injection hx with _ hx
          cases hx
      rw [hlog, List.append_nil]
      simp only [perform, Option.some.injEq] at h
      subst h
      constructor
      · cases hfind : (t.queryHitResult.filterKeys fun id =>
            !timedOut since queryHitResultsTimeOut id).find? id with
        | none => exact List.nil_suffix
        | some l =>
            rw [UnorderedMap.find?_filterKeys_some hfind]
      · intro hkeep
        rw [UnorderedMap.find?_filterKeys (keep_of_not_logged hkeep)]
  | _ =>
      have heq : e.tables.queryHitResult = t.queryHitResult := by
        generalize hw : e.tables = t'
        have hwrites := perform_writes h
        rw [hw] at hwrites
        cases hwrites <;> rfl
      have hboth := hsame (by simp) heq
      exact ⟨by rw [hboth], fun _ => hboth⟩

/-- **The hit list of an id is what was recorded under it**, the last part of it
if some was removed. -/
theorem reachable_results (h : (flood net).Reachable s) (p : PeerID) (id : SMessageID) :
    (((s.tables p).queryHitResult.find? id).getD [] <:+ resultsIn s.log p id) ∧
      (s.HitsKept p id →
        ((s.tables p).queryHitResult.find? id).getD [] = resultsIn s.log p id) := by
  refine System.Reachable.invariant (I := fun s =>
    (((s.tables p).queryHitResult.find? id).getD [] <:+ resultsIn s.log p id) ∧
      (s.HitsKept p id →
        ((s.tables p).queryHitResult.find? id).getD [] = resultsIn s.log p id)) ?_ ?_ h
  · rintro s rfl
    exact ⟨List.suffix_refl _, fun _ => rfl⟩
  · intro s l s' _ ih hl
    have hg : Grows s s' := FloodStep.grows hl
    have hquiet : ∀ {r ev}, (∀ id' x, ev ≠ Event.recorded id' x) →
        resultsIn (s.log ++ [(r, ev)]) p id = resultsIn s.log p id := by
      intro r ev hev
      rw [resultsIn_append, resultsIn_eq_nil (l := [(r, ev)]), List.append_nil]
      intro e he id' x hx
      rw [List.mem_singleton.mp he] at hx
      injection hx with _ hx
      exact hev id' x hx
    cases hl with
    | @run r th now task rest e halive hnow hwork hperform =>
        have hr : RunStep net s r th now task rest e := ⟨halive, hnow, hwork, hperform⟩
        show (((Function.update s.tables r e.tables p).queryHitResult.find? id).getD [] <:+
          resultsIn (s.log ++ e.history.map (r, ·)) p id) ∧ (_ →
            ((Function.update s.tables r e.tables p).queryHitResult.find? id).getD [] =
              resultsIn (s.log ++ e.history.map (r, ·)) p id)
        rw [resultsIn_append]
        by_cases hp : p = r
        · subst hp
          rw [Function.update_self]
          obtain ⟨hsuffix, hequal⟩ := perform_results hperform id
          constructor
          · refine hsuffix.trans ?_
            obtain ⟨l, hl⟩ := ih.1
            exact ⟨l, by rw [← hl, List.append_assoc]⟩
          · intro hc
            rw [hequal, ih.2 (hc.back hg)]
            intro id' hid hmem
            exact hc id' hid (hr.logged hmem)
        · rw [Function.update_of_ne hp, resultsIn_eq_nil (l := e.history.map (r, ·)),
            List.append_nil]
          · exact ⟨ih.1, fun hc => ih.2 (hc.back hg)⟩
          · intro e' he' id' x hx
            obtain ⟨ev, -, rfl⟩ := List.mem_map.mp he'
            injection hx with hr' _
            exact hp hr'.symm
    | takeMessage | takeBroadcast | wake => exact ih
    | @command r cmd _ _ | @deliver r q m rest _ _ =>
        refine ⟨?_, fun hc => ?_⟩
        · rw [hquiet (by simp)]
          exact ih.1
        · rw [hquiet (by simp)]
          exact ih.2 (hc.back hg)

theorem countP_resultsIn (l : List (PeerID × Event Message)) (p : PeerID) (id : SMessageID)
    (info : SPeerServerInfo) :
    (resultsIn l p id).countP (fun r => decide (r.serverInfo = info)) =
      l.countP fun e => ofPeer p (Event.isRecorded info id) e.1 e.2 := by
  rw [resultsIn, List.countP_filterMap]
  refine List.countP_congr fun e _ => ?_
  obtain ⟨r, ev⟩ := e
  cases ev with
  | recorded id' x =>
      by_cases hboth : r = p ∧ (id' == id) = true
      · simp [ofPeer, Event.isRecorded, hboth]
      · have hnot : ofPeer p (Event.isRecorded info id) r
            (.recorded id' x : Event Message) = false := by
          rw [Bool.eq_false_iff]
          intro hP
          simp only [ofPeer, Event.isRecorded, Bool.and_eq_true, decide_eq_true_eq] at hP
          exact hboth ⟨hP.1, hP.2.2⟩
        rw [hnot]
        simp [hboth]
  | _ => simp [ofPeer, Event.isRecorded]

/-- What is said about an entry as it is recorded. -/
def Event.Entry (s : Flood) (p : PeerID) : Event Message → Prop
  | .recorded id r =>
      ∃ x, s.Answered x ∧ x.id = id ∧ id.peerId = p ∧ r.serverInfo = x.serverInfo
  | _ => True

theorem reachable_entry (h : (flood net).Reachable s) : ∀ e ∈ s.log, e.2.Entry s e.1 := by
  refine events_rule (I := fun s p ev => ev.Entry s p) (any_run net) ?_ ?_ ?_ ?_ h trivial
  · intro s s' p ev hg _ hev
    cases ev with
    | recorded id r =>
        obtain ⟨x, hx, hrest⟩ := hev
        exact ⟨x, hg.mem hx, hrest⟩
    | _ => trivial
  · intro s p th now task rest e hs _ _ hr
    refine ⟨?_, fun _ _ _ _ => trivial⟩
    intro ev _ hl
    cases hl with
    | recorded x since =>
        exact ⟨x, hr.grows.mem (reachable_known hs _ hr.mem), rfl,
          reachable_atHome hs _ hr.mem, rfl⟩
    | _ => trivial
  · exact fun _ _ _ _ => trivial
  · exact fun _ _ _ _ _ _ _ _ _ _ _ => trivial

theorem mem_resultsIn {l : List (PeerID × Event Message)} {x : SQueryResult}
    (h : x ∈ resultsIn l p id) : ∃ id', (p, .recorded id' x) ∈ l ∧ (id' == id) = true := by
  obtain ⟨⟨r, ev⟩, he, hx⟩ := List.mem_filterMap.mp h
  cases ev with
  | recorded id' y =>
      dsimp only at hx
      split at hx
      · next hboth =>
          injection hx with hx
          subst hx
          exact ⟨id', hboth.1 ▸ he, hboth.2⟩
      · cases hx
  | _ => cases hx

/-- **Every entry of a hit list is sound**: it is a server that answered. -/
theorem entry_answered (h : (flood net).Reachable s) {x : SQueryResult}
    (hx : x ∈ ((s.tables p).queryHitResult.find? id).getD []) :
    ∃ y, s.Answered y ∧ (y.id == id) = true ∧ id.peerId = p ∧
      x.serverInfo = net.serverInfo y.origin := by
  obtain ⟨id', hmem, hid⟩ := mem_resultsIn ((reachable_results h p id).1.subset hx)
  obtain ⟨y, hy, rfl, hp, hinfo⟩ := reachable_entry h _ hmem
  refine ⟨y, hy, hid, ?_, hinfo.trans (hy.serverInfo h)⟩
  rw [← (SMessageID.beq_iff.mp hid).1]
  exact hp

end Hits

end P2PFileSharing
