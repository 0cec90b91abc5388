import P2PFileSharing.Proofs.Hits

/-!
# Waiting for a hit

`ObtainFile` and `ReplicateFile` send first and set the wait entry afterwards;
the message thread looks the entry up each time it has recorded a hit. Both sides
leave their marks in the history, and what follows says how the marks, the wait
table and the transfers go together: an entry goes back to a `SetWaitQueryHit`, a
lookup that finds it takes it away, and starts the one round of transfers.
-/

namespace P2PFileSharing

/-- A peer issued the id with a filename, and may wait for its hits with it. -/
def Flood.WaitsFor (net : Setup) (s : Flood) (p : PeerID) (id : SMessageID) (f : Str) : Prop :=
  ∃ x, s.Issued x ∧ (x.id == id) = true ∧ x.id.peerId = p ∧ x.request.filename? = some f ∧
    ∀ g k, x.request = .invQuery g k → net.hasFile p f = true

/-- What the tasks of a peer that goes on to wait are about. -/
def Task.Waits (net : Setup) (s : Flood) (p : PeerID) : Task → Prop
  | .sendInvQuery _ f true => net.hasFile p f = true ∧ 1 < net.replicationFactor p
  | .cacheOwn x (some f) | .broadcastOwn x (some f) => s.WaitsFor net p x.id f
  | .setWait id f => s.WaitsFor net p id f
  | .startTransfers h f => s.WaitsFor net p h.id f
  | _ => True

section Waits

variable {net : Setup} {s s' : Flood} {p r : PeerID} {id : SMessageID} {f : Str} {th : Thread}
  {now : Int} {task : Task} {rest : Multiset Work} {e : Effect}

theorem ReplicatesIssue.back (h : ReplicatesIssue net s'.log p) (hg : Grows s s') :
    ReplicatesIssue net s.log p :=
  fun f hmem => h f (hg.mem hmem)

theorem replicatesIssue_of_factor {M : Type} {log : List (PeerID × Event M)}
    (h : 1 < net.replicationFactor p) : ReplicatesIssue net log p :=
  fun _ _ _ => h

theorem replicatesIssue_prefixClosed (net : Setup) (p : PeerID) :
    (flood net).PrefixClosed fun s => ReplicatesIssue net s.log p :=
  fun _ _ _ h hc => hc.back (FloodStep.grows h)

theorem Flood.WaitsFor.grows (h : s.WaitsFor net p id f) (hg : Grows s s') :
    s'.WaitsFor net p id f := by
  obtain ⟨x, hx, hrest⟩ := h
  exact ⟨x, hx.grows hg, hrest⟩

theorem Flood.WaitsFor.congr {id' : SMessageID} (h : s.WaitsFor net p id f)
    (hid : (id == id') = true) : s.WaitsFor net p id' f := by
  obtain ⟨x, hx, hxid, hrest⟩ := h
  exact ⟨x, hx, PartialEquivBEq.trans hxid hid, hrest⟩

theorem Task.Waits.grows (h : task.Waits net s p) (hg : Grows s s') : task.Waits net s' p := by
  cases task with
  | sendInvQuery out f w =>
      cases w with
      | true => exact h
      | false => trivial
  | cacheOwn x w | broadcastOwn x w =>
      cases w with
      | some f => exact Flood.WaitsFor.grows h hg
      | none => trivial
  | setWait | startTransfers => exact Flood.WaitsFor.grows h hg
  | _ => trivial

theorem Started.waits {log : List (PeerID × Event Message)} (h : Started net log p task)
    (hc : ReplicatesIssue net log p) : task.Waits net s p := by
  cases h with
  | startUp => trivial
  | command cmd h hlog =>
      cases cmd with
      | query | obtain | invQuery | concurrent =>
          rw [List.mem_singleton.mp h]
          trivial
      | replicate f =>
          obtain ⟨rfl, hf⟩ := mem_replicateTasks h
          exact ⟨hf, hc f hlog hf⟩
      | testQuery => cases testTask_of_query h <;> trivial
      | testObtain => cases testTask_of_obtain h <;> trivial
  | mantain t now h =>
      unfold mantainTasks at h
      split at h
      · cases h
      · simp only [List.mem_cons, List.not_mem_nil, or_false] at h
        rcases h with rfl | rfl | rfl <;> trivial

/-- What a peer creates it waits for under the filename it asked for. -/
theorem waits_of_creates {t : Request} {w : Option Str} (hr : RunStep net s p th now task rest e)
    (hI : task.Waits net s p) (hc : Creates net p task t w) :
    (Task.cacheOwn (newQuery p (s.tables p) now t) w).Waits net (s.after p th rest e) p := by
  cases w with
  | none => trivial
  | some f =>
      refine ⟨_, hr.issues hc, BEq.rfl, rfl, (creates_request hc).2 f rfl, ?_⟩
      intro g k hreq
      change t = .invQuery g k at hreq
      generalize hw : some f = w at hc
      cases hc with
      | query out g w => cases hreq
      | invQuery out g w hR =>
          cases w with
          | true =>
              injection hw with hw
              rw [hw]
              exact hI.1
          | false => cases hw
      | test test n => cases hw

/-- **A wait entry names a file its id was issued for**, and so does the round of
transfers it is taken for, if every `replicate` issues an id. -/
theorem reachable_waits (h : (flood net).Reachable s) :
    (∀ w ∈ s.work, ReplicatesIssue net s.log w.place.owner →
        w.task.Waits net s w.place.owner) ∧
      ∀ p, ReplicatesIssue net s.log p → ∀ id f, (s.tables p).waitQueryhit.find? id = some f →
        s.WaitsFor net p id f := by
  refine run_rule (I := fun s p task => ReplicatesIssue net s.log p → task.Waits net s p)
    (J := fun s p t => ReplicatesIssue net s.log p → ∀ id f, t.waitQueryhit.find? id = some f →
      s.WaitsFor net p id f) (any_run net) ?_ ?_ ?_ ?_ ?_ h trivial
  · exact fun s p task hstart hc => hstart.waits hc
  · intro p _ id f hf
    cases hf
  · exact fun s s' p task hg _ hI hc => (hI (hc.back hg)).grows hg
  · exact fun s s' p t hg _ hJ hc id f hf => (hJ (hc.back hg) id f hf).grows hg
  · intro s p th now task rest e _ _ _ hr hI hJ
    have hg := hr.grows
    refine ⟨?_, fun q m _ _ _ => by cases m <;> trivial, ?_⟩
    · intro task' _ hl hc
      have hI := hI (hc.back hg)
      cases hl with
      | replicate f hR hf hnew => exact ⟨by simpa [Setup.hasFile] using hf, hR⟩
      | create hcr hlimit => exact waits_of_creates hr hI hcr
      | ownTest test n ht | test x ht => cases ht <;> trivial
      | earlyReturn out f hR =>
          have hR' : 1 < net.replicationFactor p := hI.2
          omega
      | broadcast x w =>
          cases w with
          | some f => exact Flood.WaitsFor.grows hI hg
          | none => trivial
      | wait x f => exact Flood.WaitsFor.grows hI hg
      | transfer x f hf => exact (hJ p (hc.back hg) x.id f hf).grows hg
      | _ => trivial
    · intro hw hc id f hf
      have hold : (s.tables p).waitQueryhit.find? id = some f →
          (s.after p th rest e).WaitsFor net p id f :=
        fun hold => (hJ p (hc.back hg) id f hold).grows hg
      have hI := hI (hc.back hg)
      generalize e.tables = t' at hw hf
      cases hw with
      | setWait id' g =>
          rw [UnorderedMap.find?_insert] at hf
          split at hf
          · next hid =>
              injection hf with hf
              subst hf
              exact (Flood.WaitsFor.grows hI hg).congr hid
          · exact hold hf
      | takeWait x g hx =>
          rw [UnorderedMap.find?_erase] at hf
          split at hf
          · cases hf
          · exact hold hf
      | removeOldWaits since => exact hold (UnorderedMap.find?_filterKeys_some hf)
      | _ => exact hold hf

end Waits

/-! ## The entries a round of transfers walks over -/

/-- The hit a lookup or a round of transfers is about was recorded. -/
def Task.Recorded (s : Flood) (p : PeerID) : Task → Prop
  | .takeWait h | .startTransfers h _ => ∃ r, (p, .recorded h.id r) ∈ s.log
  | _ => True

/-- What is said about a round of transfers: whose hit started it, which part of
the hit list it walked over, and what the file was taken for. -/
def Event.Transfer (net : Setup) (s : Flood) (p : PeerID) : Event Message → Prop
  | .transfersStarted type id requests =>
      ∃ h f results, s.Answered h ∧ h.kind.type = type ∧ h.id = id ∧ id.peerId = p ∧
        requests = transferRequests net p type f results ∧
        results <:+: resultsIn s.log p id ∧ (s.HitsKept p id → results ≠ []) ∧
        (ReplicatesIssue net s.log p → s.WaitsFor net p id f)
  | _ => True

section Rounds

variable {net : Setup} {s s' : Flood} {p r : PeerID} {id : SMessageID} {f : Str} {th : Thread}
  {now : Int} {task : Task} {rest : Multiset Work} {e : Effect}

theorem reachable_recorded (h : (flood net).Reachable s) :
    ∀ w ∈ s.work, w.task.Recorded s w.place.owner := by
  refine tasks_rule (I := fun s p task => task.Recorded s p) (any_run net) ?_ ?_ ?_ h trivial
  · intro s p task hstart
    have hnone := hstart.strand
    cases task <;> trivial
  · intro s s' p task hg _ hI
    cases task with
    | takeWait | startTransfers =>
        obtain ⟨r, hr⟩ := hI
        exact ⟨r, hg.mem hr⟩
    | _ => trivial
  · intro s p th now task rest e _ _ _ hr hI
    refine ⟨?_, fun q m _ _ => by cases m <;> trivial⟩
    intro task' _ hl
    cases hl with
    | lookUp x since =>
        refine ⟨⟨x.serverInfo, since⟩, hr.logged ?_⟩
        have hperform := hr.perform
        simp only [perform, Option.some.injEq] at hperform
        rw [← hperform]
        exact List.mem_singleton_self _
    | transfer x f hf =>
        obtain ⟨r, hrec⟩ := hI
        exact ⟨r, hr.grows.mem hrec⟩
    | ownTest test n ht | test x ht => cases ht <;> trivial
    | _ => trivial

theorem resultsIn_grows (hg : Grows s s') :
    resultsIn s.log p id <+: resultsIn s'.log p id := by
  obtain ⟨l, hl⟩ := hg.log
  rw [← hl, resultsIn_append]
  exact List.prefix_append _ _

theorem resultsIn_ne_nil {x : SQueryResult} (h : (p, .recorded id x) ∈ s.log) :
    resultsIn s.log p id ≠ [] := by
  refine List.ne_nil_of_mem (a := x) (List.mem_filterMap.mpr ⟨_, h, ?_⟩)
  exact if_pos ⟨rfl, BEq.rfl⟩

/-- **A round of transfers walks over entries that were recorded for its id.** -/
theorem reachable_transfer (h : (flood net).Reachable s) :
    ∀ e ∈ s.log, e.2.Transfer net s e.1 := by
  refine events_rule (I := fun s p ev => ev.Transfer net s p) (any_run net) ?_ ?_ ?_ ?_ h trivial
  · intro s s' p ev hg _ hev
    cases ev with
    | transfersStarted type id requests =>
        obtain ⟨x, f, results, hx, htype, hid, hp, hreq, hin, hne, hwaits⟩ := hev
        refine ⟨x, f, results, hg.mem hx, htype, hid, hp, hreq, ?_, ?_, ?_⟩
        · exact hin.trans (resultsIn_grows hg).isInfix
        · exact fun hc => hne (hc.back hg)
        · exact fun hc => (hwaits (hc.back hg)).grows hg
    | _ => trivial
  · intro s p th now task rest e hs _ _ hr
    refine ⟨?_, fun _ _ _ _ => trivial⟩
    intro ev _ hl
    have hg := hr.grows
    cases hl with
    | transfersStarted x f results hres =>
        have hlist := reachable_results hs p x.id
        rw [hres] at hlist
        refine ⟨x, f, results, hg.mem (reachable_known hs _ hr.mem), rfl, rfl,
          reachable_atHome hs _ hr.mem, rfl, ?_, fun hc => ?_, fun hc => ?_⟩
        · exact hlist.1.isInfix.trans (resultsIn_grows hg).isInfix
        · obtain ⟨y, hy⟩ := reachable_recorded hs _ hr.mem
          rw [show results = _ from hlist.2 (hc.back hg)]
          exact resultsIn_ne_nil hy
        · exact ((reachable_waits hs).1 _ hr.mem (hc.back hg)).grows hg
    | _ => trivial
  · exact fun _ _ _ _ => trivial
  · exact fun _ _ _ _ _ _ _ _ _ _ _ => trivial

theorem mem_requestsIn {l : List (PeerID × Event Message)} {x : SClientRequest}
    (h : x ∈ requestsIn l p id) : ∃ type id' requests,
      (p, .transfersStarted type id' requests) ∈ l ∧ (id' == id) = true ∧ x ∈ requests := by
  obtain ⟨⟨r, ev⟩, he, hx⟩ := List.mem_flatMap.mp h
  cases ev with
  | transfersStarted type id' requests =>
      dsimp only at hx
      split at hx
      · next hboth => exact ⟨type, id', requests, hboth.1 ▸ he, hboth.2, hx⟩
      · cases hx
  | _ => cases hx

end Rounds

/-! ## One wait for an id, one round of transfers -/

/-- The tasks at `p` that will set the wait entry of an id. -/
def waitWeight (p : PeerID) (id : SMessageID) (r : PeerID) : Task → Nat
  | .cacheOwn x (some _) | .broadcastOwn x (some _) =>
      if r = p ∧ (x.id == id) = true then 1 else 0
  | .setWait id' _ => if r = p ∧ (id' == id) = true then 1 else 0
  | _ => 0

/-- The wait entries of an id: one or none. -/
def Flood.entries (s : Flood) (p : PeerID) (id : SMessageID) : Nat :=
  if ((s.tables p).waitQueryhit.find? id).isSome then 1 else 0

/-- The wait entry of an id was not removed. -/
def Flood.WaitKept (s : Flood) (p : PeerID) (id : SMessageID) : Prop :=
  ∀ id', (id' == id) = true → (p, .removedWait id') ∉ s.log

/-- The rounds of transfers at `p` that a lookup led to. -/
def roundWeight (p : PeerID) (id : SMessageID) (r : PeerID) : Task → Nat
  | .startTransfers h _ => if r = p ∧ (h.id == id) = true then 1 else 0
  | _ => 0

section Once

variable {net : Setup} {s s' : Flood} {p r : PeerID} {id : SMessageID} {f : Str} {th : Thread}
  {now : Int} {task : Task} {rest : Multiset Work} {e : Effect}

theorem countP_other {P : Event Message → Bool} {l : List (Event Message)} (hr : r ≠ p) :
    l.countP (ofPeer p P r) = 0 := by
  rw [countP_ofPeer, if_neg hr]

theorem waitWeight_other (hr : r ≠ p) (task : Task) : waitWeight p id r task = 0 := by
  cases task with
  | cacheOwn x w | broadcastOwn x w =>
      cases w with
      | none => rfl
      | some f => exact if_neg fun hboth => hr hboth.1
  | setWait => exact if_neg fun hboth => hr hboth.1
  | _ => rfl

theorem waitWeight_leads {task' : Task} {t : Tables} (hl : Leads net r now t task task')
    (hcreate : ∀ t w, ¬Creates net r task t w) (hcache : ∀ x w, task ≠ .cacheOwn x w)
    (hbroadcast : ∀ x w, task ≠ .broadcastOwn x w) (hwaits : task.Waits net s r) :
    waitWeight p id r task' = 0 := by
  cases hl with
  | create hc => exact absurd hc (hcreate _ _)
  | earlyReturn out f hR =>
      have hR' : 1 < net.replicationFactor r := hwaits.2
      omega
  | broadcast x w => exact absurd rfl (hcache x w)
  | wait x f => exact absurd rfl (hbroadcast x _)
  | ownTest test n ht | test x ht => cases ht <;> rfl
  | _ => rfl

theorem gain_wait (e : Effect) : e.gain (waitWeight p id) r =
    (e.next.map (waitWeight p id r)).sum :=
  gain_next (fun _ _ => rfl) fun _ m => by cases m <;> rfl

/-- **A peer sets the wait entry of an id once**, if every `replicate` issues one. -/
theorem wait_tokens (h : (flood net).Reachable s) (hc : ReplicatesIssue net s.log p)
    (id : SMessageID) :
    s.total (waitWeight p id) + s.count (ofPeer p (Event.isWaitSet id)) ≤ 1 := by
  refine (tokens_rule (G := fun s => ∃ x, s.Issued x ∧ (x.id == id) = true ∧ x.id.peerId = p)
    (replicatesIssue_prefixClosed net p) ?_ ?_ ?_ ?_ ?_ h hc).1
  · intro r task hstart
    have hnone := hstart.strand
    cases task <;> first | rfl | cases hnone
  · exact fun _ _ => Bool.and_false _
  · exact fun _ _ _ => Bool.and_false _
  · rintro s s' hg - ⟨x, hx, hid⟩
    exact ⟨x, hx.grows hg, hid⟩
  · intro s r th now task rest e hs hcs hcs' hr
    by_cases hrp : r = p
    · subst hrp
      have hwaits := (reachable_waits hs).1 _ hr.mem hcs
      have hquiet : (∀ id' f, task ≠ .setWait id' f) →
          e.history.countP (ofPeer r (Event.isWaitSet id) r) = 0 := by
        intro hnot
        refine countP_events_eq_zero hr (fun _ _ => Bool.and_false _) fun ev hl => ?_
        cases hl with
        | waitSet id' f => exact absurd rfl (hnot id' f)
        | _ => exact Bool.and_false _
      by_cases hcreate : ∃ t w, Creates net r task t w
      · obtain ⟨t, w, hcr⟩ := hcreate
        obtain ⟨tests, hnext, htests⟩ := creates_next hcr hr.perform
        have hzero : (tests.map (waitWeight r id r)).sum = 0 := by
          refine List.sum_eq_zero fun n hn => ?_
          obtain ⟨task', hmem, rfl⟩ := List.mem_map.mp hn
          cases htests task' hmem <;> rfl
        rw [gain_wait, hnext, List.map_cons, List.sum_cons, hzero, hquiet (by cases hcr <;> simp)]
        by_cases hid : ((newQuery r (s.tables r) now t).id == id) = true
        · refine .inr ⟨fun hG => issued_fresh hs hid (.inr hG), ?_, _, hr.issues hcr, hid, rfl⟩
          cases w with
          | none => exact Nat.zero_le _
          | some f =>
              have hone : waitWeight r id r
                  (.cacheOwn (newQuery r (s.tables r) now t) (some f)) ≤ 1 := ite_le_one
              omega
        · refine .inl ?_
          cases w with
          | none => exact Nat.zero_le _
          | some f =>
              have hnone : waitWeight r id r
                  (.cacheOwn (newQuery r (s.tables r) now t) (some f)) = 0 :=
                if_neg fun hboth => hid hboth.2
              omega
      · refine .inl ?_
        have hperform := hr.perform
        cases task with
        | cacheOwn x w =>
            rw [hquiet (by simp), gain_wait]
            simp only [perform, Option.some.injEq] at hperform
            subst hperform
            cases w <;> exact Nat.le_refl _
        | broadcastOwn x w =>
            rw [hquiet (by simp), gain_wait]
            simp only [perform, Option.some.injEq] at hperform
            subst hperform
            cases w <;> exact Nat.le_refl _
        | setWait id' f =>
            rw [gain_wait]
            simp only [perform, Option.some.injEq] at hperform
            subst hperform
            have hcount : [Event.waitSet (M := Message) id' f].countP
                (ofPeer r (Event.isWaitSet id) r) = if (id' == id) = true then 1 else 0 := by
              rw [countP_ofPeer, if_pos rfl, List.countP_singleton]
              rfl
            show 0 + [Event.waitSet (M := Message) id' f].countP _ ≤ _
            rw [hcount]
            simp [waitWeight]
        | _ =>
            have hzero : e.gain (waitWeight r id) r = 0 := by
              refine gain_eq_zero hperform (fun task' hl => ?_) fun q m _ => by cases m <;> rfl
              exact waitWeight_leads hl (fun t w hcr => hcreate ⟨t, w, hcr⟩) (by simp) (by simp)
                hwaits
            rw [hquiet (by simp), hzero]
            exact Nat.zero_le _
    · refine .inl ?_
      rw [countP_other hrp, gain_wait]
      have hzero : (e.next.map (waitWeight p id r)).sum = 0 := by
        refine List.sum_eq_zero fun n hn => ?_
        obtain ⟨task', -, rfl⟩ := List.mem_map.mp hn
        exact waitWeight_other hrp task'
      omega

end Once

/-! ## Lookups -/

section Lookups

variable {net : Setup} {s s' : Flood} {p r : PeerID} {id : SMessageID} {f : Str} {th : Thread}
  {now : Int} {task : Task} {rest : Multiset Work} {e : Effect}

/-- The tasks that change the wait table or log a mark of it. -/
theorem waitTable_kept (hr : RunStep net s r th now task rest e)
    (hset : ∀ id' f, task ≠ .setWait id' f) (htake : ∀ x, task ≠ .takeWait x)
    (hold : ∀ since, task ≠ .removeOldWaits since) :
    e.tables.waitQueryhit = (s.tables r).waitQueryhit := by
  have hw := perform_writes hr.perform
  generalize e.tables = t' at hw
  cases hw with
  | setWait id' f => exact absurd rfl (hset id' f)
  | takeWait x f hf => exact absurd rfl (htake x)
  | removeOldWaits since => exact absurd rfl (hold since)
  | _ => rfl

theorem perform_setWait {t : Tables} {id' : SMessageID}
    (h : perform net r now t (.setWait id' f) = some e) :
    e.history = [.waitSet id' f] ∧
      e.tables.waitQueryhit = t.waitQueryhit.insert id' f := by
  simp only [perform, Option.some.injEq] at h
  subst h
  exact ⟨rfl, rfl⟩

theorem perform_takeWait {t : Tables} {x : Hit}
    (h : perform net r now t (.takeWait x) = some e) :
    e.history = [.waitLookedUp x.id (t.waitQueryhit.find? x.id).isSome] ∧
      ((t.waitQueryhit.find? x.id = none ∧ e.next = [] ∧
          e.tables.waitQueryhit = t.waitQueryhit) ∨
        ∃ f, t.waitQueryhit.find? x.id = some f ∧ e.next = [.startTransfers x f] ∧
          e.tables.waitQueryhit = t.waitQueryhit.erase x.id) := by
  simp only [perform] at h
  split at h
  · next hf =>
      injection h with h
      subst h
      rw [hf]
      exact ⟨rfl, .inl ⟨rfl, rfl, rfl⟩⟩
  · next g hf =>
      injection h with h
      subst h
      rw [hf]
      exact ⟨rfl, .inr ⟨g, rfl, rfl, rfl⟩⟩

theorem countP_waitSet (hr : RunStep net s r th now task rest e)
    (hset : ∀ id' f, task ≠ .setWait id' f) :
    e.history.countP (ofPeer p (Event.isWaitSet id) r) = 0 := by
  refine countP_events_eq_zero hr (fun _ _ => Bool.and_false _) fun ev hl => ?_
  cases hl with
  | waitSet id' f => exact absurd rfl (hset id' f)
  | _ => exact Bool.and_false _

theorem countP_lookedUp (hr : RunStep net s r th now task rest e)
    (htake : ∀ x, task ≠ .takeWait x) :
    e.history.countP (ofPeer p (Event.isLookedUp id) r) = 0 := by
  refine countP_events_eq_zero hr (fun _ _ => Bool.and_false _) fun ev hl => ?_
  cases hl with
  | lookedUp x => exact absurd rfl (htake x)
  | _ => exact Bool.and_false _

theorem countP_found (hr : RunStep net s r th now task rest e)
    (htake : ∀ x, task ≠ .takeWait x) :
    e.history.countP (ofPeer p (Event.isFound id) r) = 0 := by
  refine countP_events_eq_zero hr (fun _ _ => Bool.and_false _) fun ev hl => ?_
  cases hl with
  | lookedUp x => exact absurd rfl (htake x)
  | _ => exact Bool.and_false _

theorem Flood.WaitKept.back (h : s'.WaitKept p id) (hg : Grows s s') : s.WaitKept p id :=
  fun id' hid hmem => h id' hid (hg.mem hmem)

theorem waitKept_prefixClosed (net : Setup) (p : PeerID) (id : SMessageID) :
    (flood net).PrefixClosed fun s => s.WaitKept p id :=
  fun _ _ _ h hc => hc.back (FloodStep.grows h)

theorem entries_after (s : Flood) (p : PeerID) (th : Thread) (rest : Multiset Work) (e : Effect)
    (id : SMessageID) : (s.after p th rest e).entries p id =
      if (e.tables.waitQueryhit.find? id).isSome then 1 else 0 := by
  rw [Flood.entries, Flood.after]
  simp

/-- What a step does to the wait entry of an id, and the marks it leaves. -/
inductive WaitStep (s s' : Flood) (p : PeerID) (id : SMessageID) (task : Task)
    (history : List (Event Message)) : Prop
  | set (g : Str) (id' : SMessageID) (htask : task = .setWait id' g) (hentry : s'.entries p id = 1)
      (hset : history.countP (Event.isWaitSet id) = 1)
      (hlooked : history.countP (Event.isLookedUp id) = 0)
      (hfound : history.countP (Event.isFound id) = 0) : WaitStep s s' p id task history
  | lookUp (x : Hit) (htask : task = .takeWait x) (hentry : s'.entries p id = 0)
      (hset : history.countP (Event.isWaitSet id) = 0)
      (hlooked : history.countP (Event.isLookedUp id) = 1)
      (hfound : history.countP (Event.isFound id) = s.entries p id) :
      WaitStep s s' p id task history
  | other (hle : s'.entries p id ≤ s.entries p id)
      (hentry : s'.WaitKept p id → s'.entries p id = s.entries p id)
      (hset : history.countP (Event.isWaitSet id) = 0)
      (hlooked : history.countP (Event.isLookedUp id) = 0)
      (hfound : history.countP (Event.isFound id) = 0) : WaitStep s s' p id task history

theorem waitStep (hr : RunStep net s p th now task rest e) (id : SMessageID) :
    WaitStep s (s.after p th rest e) p id task e.history := by
  cases task with
  | setWait id' g =>
      obtain ⟨hhistory, htable⟩ := perform_setWait hr.perform
      have hentries := entries_after s p th rest e id
      rw [htable, UnorderedMap.find?_insert] at hentries
      by_cases hid : (id' == id) = true
      · rw [if_pos hid] at hentries
        refine .set g id' rfl hentries ?_ ?_ ?_ <;>
          simp [hhistory, Event.isWaitSet, Event.isLookedUp, Event.isFound, hid]
      · rw [if_neg hid] at hentries
        refine .other (Nat.le_of_eq hentries) (fun _ => hentries) ?_ ?_ ?_ <;>
          simp [hhistory, Event.isWaitSet, Event.isLookedUp, Event.isFound, hid]
  | takeWait x =>
      have hentries := entries_after s p th rest e id
      obtain ⟨hhistory, hcases⟩ := perform_takeWait hr.perform
      by_cases hid : (x.id == id) = true
      · have hbefore : s.entries p id =
            if ((s.tables p).waitQueryhit.find? x.id).isSome then 1 else 0 := by
          rw [Flood.entries, UnorderedMap.find?_congr _ hid]
        refine .lookUp x rfl ?_ ?_ ?_ ?_
        · rcases hcases with ⟨hf, -, htable⟩ | ⟨g, hf, -, htable⟩
          · rw [hentries, htable, ← UnorderedMap.find?_congr _ hid, hf]
            rfl
          · rw [hentries, htable, UnorderedMap.find?_erase, if_pos hid]
            rfl
        · simp [hhistory, Event.isWaitSet]
        · simp [hhistory, Event.isLookedUp, hid]
        · rw [hbefore, hhistory, List.countP_singleton]
          simp [Event.isFound, hid]
      · have hsame : (s.after p th rest e).entries p id = s.entries p id := by
          rcases hcases with ⟨hf, -, htable⟩ | ⟨g, hf, -, htable⟩
          · rw [hentries, htable, Flood.entries]
          · rw [hentries, htable, UnorderedMap.find?_erase, if_neg hid, Flood.entries]
        refine .other (Nat.le_of_eq hsame) (fun _ => hsame) ?_ ?_ ?_ <;>
          simp [hhistory, Event.isWaitSet, Event.isLookedUp, Event.isFound, hid]
  | removeOldWaits since =>
      have hquiet : ∀ {P : Event Message → Bool}, (∀ q m, P (.sent q m) = false) →
          (∀ id', P (.removedWait id') = false) → e.history.countP P = 0 := by
        intro P hsent hremoved
        refine countP_events_eq_zero hr hsent fun ev hl => ?_
        cases hl with
        | removedWait since id' => exact hremoved id'
        | issued hc => cases hc
      have htable : e.tables.waitQueryhit = (s.tables p).waitQueryhit.filterKeys
          fun id => !timedOut since queryHitResultsTimeOut id := by
        have hperform := hr.perform
        simp only [perform, Option.some.injEq] at hperform
        rw [← hperform]
      have hentries := entries_after s p th rest e id
      rw [htable] at hentries
      refine .other ?_ (fun hc => ?_) (hquiet (fun _ _ => rfl) fun _ => rfl)
        (hquiet (fun _ _ => rfl) fun _ => rfl) (hquiet (fun _ _ => rfl) fun _ => rfl)
      · rw [hentries, Flood.entries]
        split
        · next hsome =>
            obtain ⟨g, hg⟩ := Option.isSome_iff_exists.mp hsome
            rw [UnorderedMap.find?_filterKeys_some hg]
            exact Nat.le_refl _
        · exact Nat.zero_le _
      · rw [hentries, Flood.entries, UnorderedMap.find?_filterKeys]
        refine @keep_of_not_logged _ _ .removedWait _ fun id' hid hmem => ?_
        refine hc id' hid (hr.logged ?_)
        have hperform := hr.perform
        simp only [perform, Option.some.injEq] at hperform
        rw [← hperform]
        exact hmem
  | _ =>
      have hsame : (s.after p th rest e).entries p id = s.entries p id := by
        rw [entries_after, waitTable_kept hr (by simp) (by simp) (by simp), Flood.entries]
      have hset : e.history.countP (ofPeer p (Event.isWaitSet id) p) = 0 :=
        countP_waitSet hr (by simp)
      have hlooked : e.history.countP (ofPeer p (Event.isLookedUp id) p) = 0 :=
        countP_lookedUp hr (by simp)
      have hfound : e.history.countP (ofPeer p (Event.isFound id) p) = 0 :=
        countP_found hr (by simp)
      rw [countP_ofPeer, if_pos rfl] at hset hlooked hfound
      exact .other (Nat.le_of_eq hsame) (fun _ => hsame) hset hlooked hfound

/-! ## Rounds of transfers -/

theorem gain_round (e : Effect) : e.gain (roundWeight p id) r =
    (e.next.map (roundWeight p id r)).sum :=
  gain_next (fun _ _ => rfl) fun _ m => by cases m <;> rfl

theorem roundWeight_leads {task' : Task} {t : Tables} (hl : Leads net r now t task task')
    (htake : ∀ x, task ≠ .takeWait x) : roundWeight p id r task' = 0 := by
  cases hl with
  | transfer x f hf => exact absurd rfl (htake x)
  | ownTest test n ht | test x ht => cases ht <;> rfl
  | _ => rfl

/-- A successful lookup leads to one round of transfers, and only that does. -/
theorem round_step (hr : RunStep net s r th now task rest e)
    (hstart : ∀ x f, task ≠ .startTransfers x f) :
    e.gain (roundWeight p id) r + e.history.countP (ofPeer p (Event.isTransfersStarted id) r) =
      roundWeight p id r task + e.history.countP (ofPeer p (Event.isFound id) r) := by
  have hquiet : e.history.countP (ofPeer p (Event.isTransfersStarted id) r) = 0 := by
    refine countP_events_eq_zero hr (fun _ _ => Bool.and_false _) fun ev hl => ?_
    cases hl with
    | transfersStarted x f => exact absurd rfl (hstart x f)
    | _ => exact Bool.and_false _
  rw [hquiet]
  cases task with
  | takeWait x =>
      rw [gain_round, countP_ofPeer]
      obtain ⟨hhistory, ⟨hf, hnext, -⟩ | ⟨g, hf, hnext, -⟩⟩ := perform_takeWait hr.perform
      · rw [hhistory, hnext, hf]
        simp [roundWeight, Event.isFound]
      · rw [hhistory, hnext, hf]
        by_cases hrp : r = p
        · simp [roundWeight, Event.isFound, hrp]
        · simp [roundWeight, hrp]
  | startTransfers x f => exact absurd rfl (hstart x f)
  | _ =>
      rw [countP_found hr (by simp)]
      refine gain_eq_zero hr.perform (fun task' hl => ?_) fun q m _ => by cases m <;> rfl
      exact roundWeight_leads hl (by simp)

theorem round_start {x : Hit} (hr : RunStep net s r th now (.startTransfers x f) rest e)
    (p : PeerID) (id : SMessageID) :
    e.gain (roundWeight p id) r = 0 ∧
      e.history.countP (ofPeer p (Event.isFound id) r) = 0 ∧
      e.history.countP (ofPeer p (Event.isTransfersStarted id) r) ≤
        roundWeight p id r (.startTransfers x f) ∧
      ((s.tables r).queryHitResult.find? x.id ≠ none →
        e.history.countP (ofPeer p (Event.isTransfersStarted id) r) =
          roundWeight p id r (.startTransfers x f)) := by
  have hweight : ∀ {type requests}, [Event.transfersStarted (M := Message) type x.id
      requests].countP (ofPeer p (Event.isTransfersStarted id) r) =
        roundWeight p id r (.startTransfers x f) := by
    intro type requests
    rw [countP_ofPeer, List.countP_singleton]
    simp only [roundWeight, Event.isTransfersStarted]
    by_cases hrp : r = p
    · rw [if_pos hrp]
      exact if_congr ⟨fun hid => ⟨hrp, hid⟩, fun hboth => hboth.2⟩ rfl rfl
    · rw [if_neg hrp, if_neg fun hboth => hrp hboth.1]
  refine ⟨?_, countP_found hr (by simp), ?_⟩
  · refine gain_eq_zero hr.perform (fun task' hl => ?_) fun q m hsend => by cases hsend
    exact roundWeight_leads hl (by simp)
  · have hperform := hr.perform
    simp only [perform] at hperform
    split at hperform
    · next hnone =>
        injection hperform with hperform
        subst hperform
        exact ⟨Nat.zero_le _, fun hsome => absurd hnone hsome⟩
    · injection hperform with hperform
      subst hperform
      exact ⟨Nat.le_of_eq hweight, fun _ => hweight⟩

theorem Starts.roundWeight (h : Starts net r task) : roundWeight p id r task = 0 := by
  have hnone := h.strand
  cases task <;> first | rfl | cases hnone

/-- **Every round of transfers goes back to a lookup of its own.** -/
theorem rounds_le (h : (flood net).Reachable s) (p : PeerID) (id : SMessageID) :
    s.total (roundWeight p id) + s.count (ofPeer p (Event.isTransfersStarted id)) ≤
      s.count (ofPeer p (Event.isFound id)) := by
  refine spend_rule (any_run net) (fun _ _ hst => hst.roundWeight)
    (fun _ _ => ⟨Bool.and_false _, Bool.and_false _⟩)
    (fun _ _ _ => ⟨Bool.and_false _, Bool.and_false _⟩) ?_ h trivial
  intro s r th now task rest e hs _ _ hr
  by_cases hstart : ∃ x f, task = .startTransfers x f
  · obtain ⟨x, f, rfl⟩ := hstart
    obtain ⟨hgain, hfound, hle, -⟩ := round_start hr p id
    omega
  · exact Nat.le_of_eq (round_step hr fun x f heq => hstart ⟨x, f, heq⟩)

theorem hitsKept_prefixClosed (net : Setup) (p : PeerID) (id : SMessageID) :
    (flood net).PrefixClosed fun s => s.HitsKept p id :=
  fun _ _ _ h hc => hc.back (FloodStep.grows h)

/-- The hit list a round of transfers walks over is there, if it was not removed. -/
theorem round_results (hs : (flood net).Reachable s) {x : Hit}
    (hr : RunStep net s r th now (.startTransfers x f) rest e) (hc : s.HitsKept r x.id) :
    (s.tables r).queryHitResult.find? x.id = some (resultsIn s.log r x.id) := by
  obtain ⟨y, hy⟩ := reachable_recorded hs _ hr.mem
  have hlist := (reachable_results hs r x.id).2 hc
  have hne := resultsIn_ne_nil hy
  cases hfind : (s.tables r).queryHitResult.find? x.id with
  | none =>
      rw [hfind] at hlist
      exact absurd hlist.symm hne
  | some l =>
      rw [hfind] at hlist
      rw [← hlist]
      rfl

theorem Flood.HitsKept.congr {id' : SMessageID} (h : s.HitsKept p id) (hid : (id == id') = true) :
    s.HitsKept p id' :=
  fun id₁ h₁ => h id₁ (PartialEquivBEq.trans h₁ (BEq.symm hid))

/-- **A successful lookup is not in vain** if the hit list is kept. -/
theorem rounds_eq (h : (flood net).Reachable s) (hc : s.HitsKept p id) :
    s.total (roundWeight p id) + s.count (ofPeer p (Event.isTransfersStarted id)) =
      s.count (ofPeer p (Event.isFound id)) := by
  refine conserve_rule (hitsKept_prefixClosed net p id) (fun _ _ hst => hst.roundWeight)
    (fun _ _ => ⟨Bool.and_false _, Bool.and_false _⟩)
    (fun _ _ _ => ⟨Bool.and_false _, Bool.and_false _⟩) ?_ h hc
  intro s r th now task rest e hs hcs _ hr
  by_cases hstart : ∃ x f, task = .startTransfers x f
  · obtain ⟨x, f, rfl⟩ := hstart
    obtain ⟨hgain, hfound, hle, heq⟩ := round_start hr p id
    rw [hgain, hfound]
    by_cases hmatch : r = p ∧ (x.id == id) = true
    · obtain ⟨rfl, hid⟩ := hmatch
      have hres := round_results hs hr (hcs.congr (BEq.symm hid))
      rw [heq (by rw [hres]; exact Option.some_ne_none _)]
      omega
    · have hzero : roundWeight p id r (.startTransfers x f) = 0 := if_neg hmatch
      omega
  · exact round_step hr fun x f heq => hstart ⟨x, f, heq⟩

end Lookups

end P2PFileSharing
