import P2PFileSharing.Spec.Flood

/-!
# What a task can lead to

Doing a task changes the members of one peer, brings new tasks, sends messages
and logs events. The relations below say, one constructor for each way it can
happen, which task leads to which, which sends what, which logs what and which
writes what, with every condition the code tests on the way. `perform` is unfolded here and
nowhere else for these questions; an invariant about tasks, messages or events
is a case analysis on the relations.
-/

namespace P2PFileSharing

section Leads

variable (net : Setup) (me : PeerID) (now : Int) (t : Tables)

/-- The tasks that create a message, what it asks for, and the filename its
creator goes on to wait for. -/
inductive Creates : Task → Request → Option Str → Prop
  | query (out : Var) (f : Str) (w : Bool) :
      Creates (.sendQuery out f w) (.query f) (if w then some f else none)
  | invQuery (out : Var) (f : Str) (w : Bool) (hR : 1 < net.replicationFactor me) :
      Creates (.sendInvQuery out f w) (.invQuery f (net.replicationFactor me - 1))
        (if w then some f else none)
  | test (test : TestCommand) (n : Int) :
      Creates (.createTest test n) (test.request n) none

/-- The request a handler answers, and the kind of hit. -/
inductive Answers : Request → HitKind → Prop
  | query (f : Str) (hf : net.hasFile me f = true) : Answers (.query f) (.query f)
  | invQuery (f : Str) (k : Int) (hnew : f ∉ t.replicateQueryFilename)
      (hf : net.hasFile me f = false) : Answers (.invQuery f k) .invQuery

/-- The requests a handler goes on to relay. -/
inductive PassesOn : Request → Prop
  | query (f : Str) (hf : net.hasFile me f = false) : PassesOn (.query f)
  | invQuery (f : Str) (k : Int) (hnew : f ∉ t.replicateQueryFilename) :
      PassesOn (.invQuery f k)
  | conTestQuery (n : Int) : PassesOn (.conTestQuery n)
  | conTestObtain (n : Int) (v : Nat) : PassesOn (.conTestObtain n v)

/-- The tasks a peer starts for a test: its own queries, none kept in `Run`'s
variable. -/
inductive TestTask : Task → Prop
  | ensure (w : Bool) : TestTask (.sendQuery .scratch (net.ensureQueryhitFile me) w)
  | large : TestTask (.sendQuery .scratch (net.largeFileName me) true)
  | number (i : Nat) : TestTask (.sendQuery .scratch (natToString i) false)

/-- The tasks at the same peer that a task leads to. -/
inductive Leads : Task → Task → Prop
  | replicate (f : Str) (hR : 1 < net.replicationFactor me) (hf : f ∈ net.files me)
      (hnew : f ∉ t.replicateQueryFilename) :
      Leads .startReplicateAllFiles (.sendInvQuery .scratch f true)
  | create {task : Task} {r : Request} {wait : Option Str}
      (hc : Creates net me task r wait) (hlimit : t.msgIdCounter + 1 < counterLimit) :
      Leads task (.cacheOwn (newQuery me t now r) wait)
  | ownTest (test : TestCommand) (n : Int) {task : Task} (ht : TestTask net me task) :
      Leads (.createTest test n) task
  | earlyReturn (out : Var) (f : Str) (hR : net.replicationFactor me ≤ 1) :
      Leads (.sendInvQuery out f true) (.setWait (t.messageId out) f)
  | broadcast (x : Query) (w : Option Str) : Leads (.cacheOwn x w) (.broadcastOwn x w)
  | queueOwn (x : Query) (w : Option Str) : Leads (.broadcastOwn x w) (.lockSendBuffer x (-1))
  | wait (x : Query) (f : Str) : Leads (.broadcastOwn x (some f)) (.setWait x.id f)
  | accept (x : Query) (hnew : t.queries.find? x.id = none) :
      Leads (.handleQuery x) (.cacheQuery x)
  | act (x : Query) : Leads (.cacheQuery x) (.act x)
  | answer (x : Query) (kind : HitKind) (ha : Answers net me t x.request kind) :
      Leads (.act x) (.relayHit (newHit net me kind x.id))
  | relay (x : Query) (hp : PassesOn net me t x.request) : Leads (.act x) (.relay x)
  | test (x : Query) {task : Task} (ht : TestTask net me task) : Leads (.act x) task
  | queueRelayed (x y : Query) (hy : x.relayed me = some y) :
      Leads (.relay x) (.lockSendBuffer y x.sender)
  | home (h : Hit) (hme : h.id.peerId = me) (hc : t.queries.find? h.id ≠ none) :
      Leads (.handleHit h) (.record h now)
  | onward (h : Hit) (hme : h.id.peerId ≠ me) (httl : ¬h.timeToLive - 1 ≤ 0) :
      Leads (.handleHit h) (.relayHit h)
  | lookUp (h : Hit) (since : Int) : Leads (.record h since) (.takeWait h)
  | transfer (h : Hit) (f : Str) (hf : t.waitQueryhit.find? h.id = some f) :
      Leads (.takeWait h) (.startTransfers h f)
  | sendTo (x : Query) (exclude q : PeerID) (hq : q ∈ net.peerIdToSockfd me)
      (hne : q ≠ exclude) : Leads (.lockSendBuffer x exclude) (.sendTo q x)
  | unlock (x : Query) (exclude : PeerID) : Leads (.lockSendBuffer x exclude) .unlockSendBuffer

/-- The messages a task hands to `send`. -/
inductive Sends : Task → PeerID → Message → Prop
  | query (q : PeerID) (x : Query) : Sends (.sendTo q x) q (.query x)
  | hit (h : Hit) (hu : (t.queries.index h.id 0).1 ∈ net.peerIdToSockfd me) :
      Sends (.relayHit h) (t.queries.index h.id 0).1 (.hit h)

/-- The events a task logs, its sends apart. -/
inductive Logs : Task → Event Message → Prop
  | issued {task : Task} {r : Request} {wait : Option Str} (hc : Creates net me task r wait)
      (hlimit : t.msgIdCounter + 1 < counterLimit) :
      Logs task (.issued (t.nextId me now) (.query (newQuery me t now r)))
  | cachedOwn (x : Query) (w : Option Str) (hnew : t.queries.find? x.id = none) :
      Logs (.cacheOwn x w) (.cached x.id (-1))
  | cached (x : Query) (hnew : t.queries.find? x.id = none) :
      Logs (.cacheQuery x) (.cached x.id x.sender)
  | acted (x : Query) : Logs (.act x) (.acted x.request.handler x.id)
  | answered (x : Query) (kind : HitKind) (ha : Answers net me t x.request kind) :
      Logs (.act x) (.answered x.id (.hit (newHit net me kind x.id)))
  | relayed (x y : Query) (hy : x.relayed me = some y) :
      Logs (.relay x) (.relayed x.id (.query y))
  | waitSet (id : SMessageID) (f : Str) : Logs (.setWait id f) (.waitSet id f)
  | recorded (h : Hit) (since : Int) :
      Logs (.record h since) (.recorded h.id ⟨h.serverInfo, since⟩)
  | lookedUp (h : Hit) :
      Logs (.takeWait h) (.waitLookedUp h.id (t.waitQueryhit.find? h.id).isSome)
  | transfersStarted (h : Hit) (f : Str) (results : List SQueryResult)
      (hres : t.queryHitResult.find? h.id = some results) :
      Logs (.startTransfers h f) (.transfersStarted h.kind.type h.id
        (transferRequests net me h.kind.type f results))
  | removedQuery (since : Int) (id : SMessageID) (hid : id ∈ t.queries.keys)
      (hold : timedOut since queryCacheTimeOut id = true) :
      Logs (.removeOldQueries since) (.removedQuery id)
  | removedQueryHits (since : Int) (id : SMessageID) (hid : id ∈ t.queryHitResult.keys)
      (hold : timedOut since queryHitResultsTimeOut id = true) :
      Logs (.removeOldQueryHits since) (.removedQueryHits id)
  | removedWait (since : Int) (id : SMessageID) (hid : id ∈ t.waitQueryhit.keys)
      (hold : timedOut since queryHitResultsTimeOut id = true) :
      Logs (.removeOldWaits since) (.removedWait id)

/-- What a task leaves the members of its peer as. -/
inductive Writes : Task → Tables → Prop
  | none (task : Task) : Writes task t
  | create {task : Task} {r : Request} {wait : Option Str} (out : Var)
      (hc : Creates net me task r wait) : Writes task (t.afterCreate me out now)
  | cacheOwn (x : Query) (w : Option Str) (hnew : t.queries.find? x.id = none) :
      Writes (.cacheOwn x w) { t with queries := t.queries.insert x.id (-1) }
  | cacheQuery (x : Query) (hnew : t.queries.find? x.id = none) :
      Writes (.cacheQuery x) { t with queries := t.queries.insert x.id x.sender }
  | filename (x : Query) (f : Str) (k : Int) (hr : x.request = .invQuery f k)
      (hnew : f ∉ t.replicateQueryFilename) :
      Writes (.act x) { t with replicateQueryFilename := f :: t.replicateQueryFilename }
  | setWait (id : SMessageID) (f : Str) :
      Writes (.setWait id f) { t with waitQueryhit := t.waitQueryhit.insert id f }
  | relayHit (h : Hit) (hu : (t.queries.index h.id 0).1 ∈ net.peerIdToSockfd me) :
      Writes (.relayHit h) { t with queries := (t.queries.index h.id 0).2 }
  | abort (h : Hit) (hu : (t.queries.index h.id 0).1 ∉ net.peerIdToSockfd me) :
      Writes (.relayHit h)
        (Tables.abort { t with queries := (t.queries.index h.id 0).2 } .assertionFailed)
  | record (h : Hit) (since : Int) :
      Writes (.record h since)
        { t with
          queryHitResult :=
            t.queryHitResult.insert h.id
              ((t.queryHitResult.find? h.id).getD [] ++ [⟨h.serverInfo, since⟩]) }
  | takeWait (h : Hit) (f : Str) (hf : t.waitQueryhit.find? h.id = some f) :
      Writes (.takeWait h) { t with waitQueryhit := t.waitQueryhit.erase h.id }
  | startTransfers (h : Hit) (f : Str) (results : List SQueryResult)
      (hres : t.queryHitResult.find? h.id = some results) :
      Writes (.startTransfers h f)
        { t with
          requestQueue := t.requestQueue ++ transferRequests net me h.kind.type f results }
  | lock (x : Query) (exclude : PeerID) :
      Writes (.lockSendBuffer x exclude) { t with sendBufferMutex := true }
  | unlock : Writes .unlockSendBuffer { t with sendBufferMutex := false }
  | removeOldQueries (since : Int) :
      Writes (.removeOldQueries since)
        { t with queries := t.queries.filterKeys fun id => !timedOut since queryCacheTimeOut id }
  | removeOldQueryHits (since : Int) :
      Writes (.removeOldQueryHits since)
        { t with
          queryHitResult :=
            t.queryHitResult.filterKeys fun id => !timedOut since queryHitResultsTimeOut id }
  | removeOldWaits (since : Int) :
      Writes (.removeOldWaits since)
        { t with
          waitQueryhit :=
            t.waitQueryhit.filterKeys fun id => !timedOut since queryHitResultsTimeOut id }

end Leads

section Inversion

variable {net : Setup} {me : PeerID} {now : Int} {t : Tables}

theorem isQueryCached_eq_false {id : SMessageID} :
    t.isQueryCached id = false ↔ t.queries.find? id = none := by
  rw [Tables.isQueryCached, Option.isSome_eq_false_iff, Option.isNone_iff_eq_none]

theorem isQueryCached_eq_true {id : SMessageID} :
    t.isQueryCached id = true ↔ t.queries.find? id ≠ none := by
  rw [Tables.isQueryCached, Option.isSome_iff_ne_none]

theorem testTask_of_query {task : Task} (h : task ∈ testQueryTasks net me) :
    TestTask net me task := by
  simp only [testQueryTasks, List.mem_append, List.mem_map, List.mem_singleton] at h
  rcases h with ⟨i, -, rfl⟩ | rfl
  · exact .number i
  · exact .ensure false

theorem testTask_of_obtain {task : Task} (h : task ∈ testObtainTasks net me) :
    TestTask net me task := by
  rw [List.eq_of_mem_replicate h]
  exact .ensure true

theorem testTask_of_large {task : Task} (h : task ∈ testObtainLargeTasks net me) :
    TestTask net me task := by
  rw [List.eq_of_mem_replicate h]
  exact .large

theorem testTask_of_own {test : TestCommand} {task : Task} (h : task ∈ test.ownTasks net me) :
    TestTask net me task := by
  cases test with
  | concurrentTestQuery => exact testTask_of_query h
  | testObtain2 => exact testTask_of_obtain h
  | testObtain3 => exact testTask_of_large h

theorem testTask_of_test {r : Request} {task : Task} (h : task ∈ testTasks net me r) :
    TestTask net me task := by
  unfold testTasks at h
  split at h
  · split at h
    · exact testTask_of_query h
    · cases h
  · split at h
    · split at h
      · exact testTask_of_obtain h
      · exact testTask_of_large h
    · cases h
  · cases h

theorem mem_replicateTasks {out : Var} {f : Str} {task : Task}
    (h : task ∈ replicateTasks net me out f) :
    task = .sendInvQuery out f true ∧ net.hasFile me f = true := by
  unfold replicateTasks at h
  split at h
  · next hf => exact ⟨List.mem_singleton.mp h, hf⟩
  · cases h

/-- The bag's share of an effect: what the thread goes on with, and what it
pushed to the broadcast queue. -/
def Effect.here (e : Effect) : List Task :=
  e.next ++ e.queued.map fun x => .lockSendBuffer x.1 x.2

theorem create_leads {task : Task} {r : Request} {out : Var} {wait : Option Str}
    {rest : List Task} {e : Effect} (hc : Creates net me task r wait)
    (h : create me t out now r wait rest = some e) :
    ∀ task' ∈ e.here, Leads net me now t task task' ∨ task' ∈ rest := by
  intro task' hmem
  unfold create at h
  split at h
  · next hlimit =>
      injection h with h
      subst h
      simp only [Effect.here, List.map_nil, List.append_nil, List.mem_cons] at hmem
      rcases hmem with rfl | hmem
      · exact .inl (.create hc hlimit)
      · exact .inr hmem
  · cases h

theorem actOnRequest_leads {x : Query} :
    ∀ task' ∈ (actOnRequest net me t x).here, Leads net me now t (.act x) task' := by
  intro task' hmem
  unfold actOnRequest at hmem
  cases hr : x.request with
  | query f =>
      rw [hr] at hmem
      dsimp only at hmem
      split at hmem
      · next hf =>
          simp only [Effect.here, List.map_nil, List.append_nil, List.mem_singleton] at hmem
          subst hmem
          exact .answer x _ (by rw [hr]; exact .query f hf)
      · next hf =>
          simp only [Effect.here, List.map_nil, List.append_nil, List.mem_singleton] at hmem
          subst hmem
          exact .relay x (by rw [hr]; exact .query f (by simpa using hf))
  | invQuery f k =>
      rw [hr] at hmem
      dsimp only at hmem
      split at hmem
      · cases hmem
      · next hnew =>
          have hnew' : f ∉ t.replicateQueryFilename := by simpa using hnew
          have hrelay : Leads net me now t (.act x) (.relay x) :=
            .relay x (by rw [hr]; exact .invQuery f k hnew')
          split at hmem
          · simp only [Effect.here, List.map_nil, List.append_nil, List.mem_singleton] at hmem
            subst hmem
            exact hrelay
          · next hf =>
              simp only [Effect.here, List.map_nil, List.append_nil, List.mem_cons,
                List.not_mem_nil, or_false] at hmem
              rcases hmem with rfl | rfl
              · exact .answer x _ (by rw [hr]; exact .invQuery f k hnew' (by simpa using hf))
              · exact hrelay
  | conTestQuery n | conTestObtain n v =>
      rw [hr] at hmem
      simp only [Effect.here, List.map_nil, List.append_nil, List.mem_append,
        List.mem_singleton] at hmem
      rcases hmem with hmem | rfl
      · exact .test x (testTask_of_test hmem)
      · exact .relay x (by rw [hr]; constructor)

theorem hitTasks_leads {h : Hit} :
    ∀ task' ∈ hitTasks me now t h, Leads net me now t (.handleHit h) task' := by
  intro task' hmem
  unfold hitTasks at hmem
  split at hmem
  · next hme =>
      split at hmem
      · next hc =>
          rw [List.mem_singleton.mp hmem]
          exact .home h hme (isQueryCached_eq_true.mp hc)
      · cases hmem
  · next hme =>
      split at hmem
      · cases hmem
      · next httl =>
          rw [List.mem_singleton.mp hmem]
          exact .onward h hme httl

/-- **Every task an effect brings to its own peer was led to.** -/
theorem perform_leads {task : Task} {e : Effect} (h : perform net me now t task = some e) :
    ∀ task' ∈ e.here, Leads net me now t task task' := by
  intro task' hmem
  cases task with
  | startReplicateAllFiles =>
      simp only [perform, Option.some.injEq] at h
      subst h
      simp only [Effect.here, List.map_nil, List.append_nil] at hmem
      split at hmem
      · cases hmem
      · next hR =>
          obtain ⟨f, hf, hmem⟩ := List.mem_flatMap.mp hmem
          obtain ⟨hf, hnew⟩ := List.mem_filter.mp hf
          obtain ⟨rfl, -⟩ := mem_replicateTasks hmem
          exact .replicate f (by omega) hf (by simpa using hnew)
  | sendQuery out f w =>
      rcases create_leads (.query out f w) h task' hmem with hl | hl
      · exact hl
      · cases hl
  | sendInvQuery out f w =>
      simp only [perform] at h
      split at h
      · next hR =>
          injection h with h
          subst h
          simp only [Effect.here, List.map_nil, List.append_nil] at hmem
          split at hmem
          · next hw =>
              rw [List.mem_singleton.mp hmem, hw]
              exact .earlyReturn out f hR
          · cases hmem
      · next hR =>
          rcases create_leads (.invQuery out f w (by omega)) h task' hmem with hl | hl
          · exact hl
          · cases hl
  | createTest test n =>
      rcases create_leads (.test test n) h task' hmem with hl | hl
      · exact hl
      · exact .ownTest test n (testTask_of_own hl)
  | cacheOwn x w =>
      simp only [perform, Option.some.injEq] at h
      subst h
      simp only [Effect.here, List.map_nil, List.append_nil, List.mem_singleton] at hmem
      subst hmem
      exact .broadcast x w
  | broadcastOwn x w =>
      simp only [perform, Option.some.injEq] at h
      subst h
      simp only [Effect.here, List.map_cons, List.map_nil, List.mem_append, List.mem_map,
        List.mem_singleton, Option.mem_toList] at hmem
      rcases hmem with ⟨f, rfl, rfl⟩ | rfl
      · exact .wait x f
      · exact .queueOwn x w
  | handleQuery x =>
      simp only [perform, Option.some.injEq] at h
      subst h
      simp only [Effect.here, List.map_nil, List.append_nil] at hmem
      split at hmem
      · cases hmem
      · next hc =>
          rw [List.mem_singleton.mp hmem]
          exact .accept x (isQueryCached_eq_false.mp (by simpa using hc))
  | handleHit x =>
      simp only [perform, Option.some.injEq] at h
      subst h
      simp only [Effect.here, List.map_nil, List.append_nil] at hmem
      exact hitTasks_leads task' hmem
  | cacheQuery x =>
      simp only [perform, Option.some.injEq] at h
      subst h
      simp only [Effect.here, List.map_nil, List.append_nil, List.mem_singleton] at hmem
      subst hmem
      exact .act x
  | act x =>
      simp only [perform, Option.some.injEq] at h
      subst h
      exact actOnRequest_leads task' hmem
  | relay x =>
      simp only [perform] at h
      split at h
      · injection h with h
        subst h
        cases hmem
      · next y hy =>
          injection h with h
          subst h
          simp only [Effect.here, List.nil_append, List.map_cons, List.map_nil,
            List.mem_singleton] at hmem
          subst hmem
          exact .queueRelayed x y hy
  | relayHit x =>
      simp only [perform] at h
      split at h
      · cases h
      · split at h <;>
          (injection h with h
           subst h
           cases hmem)
  | record x since =>
      simp only [perform, Option.some.injEq] at h
      subst h
      simp only [Effect.here, List.map_nil, List.append_nil, List.mem_singleton] at hmem
      subst hmem
      exact .lookUp x since
  | takeWait x =>
      simp only [perform] at h
      split at h
      · injection h with h
        subst h
        cases hmem
      · next f hf =>
          injection h with h
          subst h
          simp only [Effect.here, List.map_nil, List.append_nil, List.mem_singleton] at hmem
          subst hmem
          exact .transfer x f hf
  | startTransfers x f =>
      simp only [perform] at h
      split at h <;>
        (injection h with h
         subst h
         cases hmem)
  | lockSendBuffer x q =>
      simp only [perform] at h
      split at h
      · cases h
      · injection h with h
        subst h
        simp only [Effect.here, List.map_nil, List.append_nil, List.mem_append, List.mem_map,
          List.mem_filter, List.mem_singleton, decide_eq_true_eq] at hmem
        rcases hmem with ⟨p, ⟨hp, hne⟩, rfl⟩ | rfl
        · exact .sendTo x q p hp hne
        · exact .unlock x q
  | setWait | sendTo | unlockSendBuffer | removeOldQueries | removeOldQueryHits
  | removeOldWaits =>
      simp only [perform, Option.some.injEq] at h
      subst h
      cases hmem

theorem create_sends {out : Var} {r : Request} {wait : Option Str} {rest : List Task}
    {e : Effect} (h : create me t out now r wait rest = some e) : e.sent = [] := by
  unfold create at h
  split at h
  · injection h with h
    subst h
    rfl
  · cases h

theorem actOnRequest_sends {x : Query} : (actOnRequest net me t x).sent = [] := by
  unfold actOnRequest
  split
  · dsimp only
    split <;> rfl
  · dsimp only
    split
    · rfl
    · split <;> rfl
  · rfl
  · rfl

/-- **Every message an effect sends was sent by its task.** -/
theorem perform_sends {task : Task} {e : Effect} (h : perform net me now t task = some e) :
    ∀ x ∈ e.sent, Sends net me t task x.1 x.2 := by
  intro x hmem
  cases task with
  | sendQuery | createTest =>
      rw [create_sends h] at hmem
      cases hmem
  | sendInvQuery out f w =>
      simp only [perform] at h
      split at h
      · injection h with h
        subst h
        cases hmem
      · rw [create_sends h] at hmem
        cases hmem
  | act y =>
      simp only [perform, Option.some.injEq] at h
      subst h
      rw [actOnRequest_sends] at hmem
      cases hmem
  | relayHit y =>
      simp only [perform] at h
      split at h
      · cases h
      · split at h
        · next hu =>
            injection h with h
            subst h
            rw [List.mem_singleton.mp hmem]
            exact .hit y hu
        · injection h with h
          subst h
          cases hmem
  | sendTo q y =>
      simp only [perform, Option.some.injEq] at h
      subst h
      rw [List.mem_singleton.mp hmem]
      exact .query q y
  | relay | takeWait | startTransfers | lockSendBuffer =>
      simp only [perform] at h
      split at h <;> first
        | cases h; done
        | (injection h with h
           subst h
           cases hmem)
  | startReplicateAllFiles | cacheOwn | broadcastOwn | setWait | handleQuery | handleHit
  | cacheQuery | record | unlockSendBuffer | removeOldQueries | removeOldQueryHits
  | removeOldWaits =>
      simp only [perform, Option.some.injEq] at h
      subst h
      cases hmem

theorem mem_cacheEvents {id : SMessageID} {upstream : PeerID} {ev : Event Message}
    (h : ev ∈ t.cacheEvents id upstream) :
    ev = .cached id upstream ∧ t.queries.find? id = none := by
  unfold Tables.cacheEvents at h
  split at h
  · cases h
  · next hc => exact ⟨List.mem_singleton.mp h, isQueryCached_eq_false.mp (by simpa using hc)⟩

theorem create_logs {task : Task} {r : Request} {out : Var} {wait : Option Str}
    {rest : List Task} {e : Effect} (hc : Creates net me task r wait)
    (h : create me t out now r wait rest = some e) :
    ∀ ev ∈ e.events, Logs net me now t task ev := by
  intro ev hmem
  unfold create at h
  split at h
  · next hlimit =>
      injection h with h
      subst h
      rw [List.mem_singleton.mp hmem]
      exact .issued hc hlimit
  · cases h

theorem actOnRequest_logs {x : Query} :
    ∀ ev ∈ (actOnRequest net me t x).events, Logs net me now t (.act x) ev := by
  intro ev hmem
  unfold actOnRequest at hmem
  have hacted : ∀ h : Handler, x.request.handler = h →
      Logs net me now t (.act x) (.acted h x.id) := by
    rintro h rfl
    exact .acted x
  cases hr : x.request with
  | query f =>
      rw [hr] at hmem hacted
      dsimp only at hmem
      split at hmem
      · next hf =>
          simp only [List.mem_cons, List.not_mem_nil, or_false] at hmem
          rcases hmem with rfl | rfl
          · exact hacted _ rfl
          · exact .answered x _ (by rw [hr]; exact .query f hf)
      · rw [List.mem_singleton.mp hmem]
        exact hacted _ rfl
  | invQuery f k =>
      rw [hr] at hmem hacted
      dsimp only at hmem
      split at hmem
      · rw [List.mem_singleton.mp hmem]
        exact hacted _ rfl
      · next hnew =>
          split at hmem
          · rw [List.mem_singleton.mp hmem]
            exact hacted _ rfl
          · next hf =>
              simp only [List.mem_cons, List.not_mem_nil, or_false] at hmem
              rcases hmem with rfl | rfl
              · exact hacted _ rfl
              · exact .answered x _
                  (by rw [hr]; exact .invQuery f k (by simpa using hnew) (by simpa using hf))
  | conTestQuery n | conTestObtain n v =>
      rw [hr] at hmem hacted
      rw [List.mem_singleton.mp hmem]
      exact hacted _ rfl

/-- **Every event an effect brings, its sends apart, was logged by its task.** -/
theorem perform_logs {task : Task} {e : Effect} (h : perform net me now t task = some e) :
    ∀ ev ∈ e.events, Logs net me now t task ev := by
  intro ev hmem
  cases task with
  | sendQuery out f w => exact create_logs (.query out f w) h ev hmem
  | sendInvQuery out f w =>
      simp only [perform] at h
      split at h
      · injection h with h
        subst h
        cases hmem
      · next hR => exact create_logs (.invQuery out f w (by omega)) h ev hmem
  | createTest test n => exact create_logs (.test test n) h ev hmem
  | cacheOwn x w =>
      simp only [perform, Option.some.injEq] at h
      subst h
      obtain ⟨rfl, hnew⟩ := mem_cacheEvents hmem
      exact .cachedOwn x w hnew
  | cacheQuery x =>
      simp only [perform, Option.some.injEq] at h
      subst h
      obtain ⟨rfl, hnew⟩ := mem_cacheEvents hmem
      exact .cached x hnew
  | act x =>
      simp only [perform, Option.some.injEq] at h
      subst h
      exact actOnRequest_logs ev hmem
  | relay x =>
      simp only [perform] at h
      split at h
      · injection h with h
        subst h
        cases hmem
      · next y hy =>
          injection h with h
          subst h
          rw [List.mem_singleton.mp hmem]
          exact .relayed x y hy
  | setWait id f =>
      simp only [perform, Option.some.injEq] at h
      subst h
      rw [List.mem_singleton.mp hmem]
      exact .waitSet id f
  | record x since =>
      simp only [perform, Option.some.injEq] at h
      subst h
      rw [List.mem_singleton.mp hmem]
      exact .recorded x since
  | takeWait x =>
      have hl : Logs net me now t (.takeWait x) _ := .lookedUp x
      simp only [perform] at h
      split at h <;> (next hf =>
        injection h with h
        subst h
        rw [List.mem_singleton.mp hmem]
        rw [hf] at hl
        exact hl)
  | startTransfers x f =>
      simp only [perform] at h
      split at h
      · injection h with h
        subst h
        cases hmem
      · next results hres =>
          injection h with h
          subst h
          rw [List.mem_singleton.mp hmem]
          exact .transfersStarted x f results hres
  | removeOldQueries since =>
      simp only [perform, Option.some.injEq] at h
      subst h
      obtain ⟨id, hid, rfl⟩ := List.mem_map.mp hmem
      obtain ⟨hid, hold⟩ := List.mem_filter.mp hid
      exact .removedQuery since id hid hold
  | removeOldQueryHits since =>
      simp only [perform, Option.some.injEq] at h
      subst h
      obtain ⟨id, hid, rfl⟩ := List.mem_map.mp hmem
      obtain ⟨hid, hold⟩ := List.mem_filter.mp hid
      exact .removedQueryHits since id hid hold
  | removeOldWaits since =>
      simp only [perform, Option.some.injEq] at h
      subst h
      obtain ⟨id, hid, rfl⟩ := List.mem_map.mp hmem
      obtain ⟨hid, hold⟩ := List.mem_filter.mp hid
      exact .removedWait since id hid hold
  | relayHit | lockSendBuffer =>
      simp only [perform] at h
      split at h <;> first
        | cases h; done
        | (injection h with h
           subst h
           cases hmem)
        | (split at h <;>
            (injection h with h
             subst h
             cases hmem))
  | startReplicateAllFiles | broadcastOwn | handleQuery | handleHit | sendTo
  | unlockSendBuffer =>
      simp only [perform, Option.some.injEq] at h
      subst h
      cases hmem

theorem create_writes {task : Task} {r : Request} {out : Var} {wait : Option Str}
    {rest : List Task} {e : Effect} (hc : Creates net me task r wait)
    (h : create me t out now r wait rest = some e) :
    Writes net me now t task e.tables := by
  unfold create at h
  split at h
  · injection h with h
    subst h
    exact .create out hc
  · cases h

theorem cacheQuery_cases (id : SMessageID) (upstream : PeerID) :
    t.cacheQuery id upstream = t ∨
      t.queries.find? id = none ∧
        t.cacheQuery id upstream = { t with queries := t.queries.insert id upstream } := by
  unfold Tables.cacheQuery
  split
  · exact .inl rfl
  · next hc => exact .inr ⟨isQueryCached_eq_false.mp (by simpa using hc), rfl⟩

theorem actOnRequest_writes {x : Query} :
    Writes net me now t (.act x) (actOnRequest net me t x).tables := by
  unfold actOnRequest
  cases hr : x.request with
  | query f =>
      dsimp only
      split <;> exact .none _
  | invQuery f k =>
      dsimp only
      split
      · exact .none _
      · next hnew =>
          split <;> exact .filename x f k hr (by simpa using hnew)
  | conTestQuery | conTestObtain => exact .none _

/-- **A task leaves the members as it may.** -/
theorem perform_writes {task : Task} {e : Effect} (h : perform net me now t task = some e) :
    Writes net me now t task e.tables := by
  cases task with
  | sendQuery out f w => exact create_writes (.query out f w) h
  | sendInvQuery out f w =>
      simp only [perform] at h
      split at h
      · injection h with h
        subst h
        exact .none _
      · next hR => exact create_writes (.invQuery out f w (by omega)) h
  | createTest test n => exact create_writes (.test test n) h
  | cacheOwn x w =>
      simp only [perform, Option.some.injEq] at h
      subst h
      rcases cacheQuery_cases (t := t) x.id (-1) with heq | ⟨hnew, heq⟩
      · simp only [heq]
        exact .none _
      · simp only [heq]
        exact .cacheOwn x w hnew
  | cacheQuery x =>
      simp only [perform, Option.some.injEq] at h
      subst h
      rcases cacheQuery_cases (t := t) x.id x.sender with heq | ⟨hnew, heq⟩
      · simp only [heq]
        exact .none _
      · simp only [heq]
        exact .cacheQuery x hnew
  | act x =>
      simp only [perform, Option.some.injEq] at h
      subst h
      exact actOnRequest_writes
  | setWait id f =>
      simp only [perform, Option.some.injEq] at h
      subst h
      exact .setWait id f
  | relayHit x =>
      simp only [perform] at h
      split at h
      · cases h
      · split at h
        · next hu =>
            injection h with h
            subst h
            exact .relayHit x hu
        · next hu =>
            injection h with h
            subst h
            exact .abort x hu
  | record x since =>
      simp only [perform, Option.some.injEq] at h
      subst h
      exact .record x since
  | takeWait x =>
      simp only [perform] at h
      split at h
      · injection h with h
        subst h
        exact .none _
      · next f hf =>
          injection h with h
          subst h
          exact .takeWait x f hf
  | startTransfers x f =>
      simp only [perform] at h
      split at h
      · injection h with h
        subst h
        exact .none _
      · next results hres =>
          injection h with h
          subst h
          exact .startTransfers x f results hres
  | lockSendBuffer x exclude =>
      simp only [perform] at h
      split at h
      · cases h
      · injection h with h
        subst h
        exact .lock x exclude
  | unlockSendBuffer =>
      simp only [perform, Option.some.injEq] at h
      subst h
      exact .unlock
  | removeOldQueries since =>
      simp only [perform, Option.some.injEq] at h
      subst h
      exact .removeOldQueries since
  | removeOldQueryHits since =>
      simp only [perform, Option.some.injEq] at h
      subst h
      exact .removeOldQueryHits since
  | removeOldWaits since =>
      simp only [perform, Option.some.injEq] at h
      subst h
      exact .removeOldWaits since
  | relay =>
      simp only [perform] at h
      split at h <;>
        (injection h with h
         subst h
         exact .none _)
  | startReplicateAllFiles | broadcastOwn | handleQuery | handleHit | sendTo =>
      simp only [perform, Option.some.injEq] at h
      subst h
      exact .none _

end Inversion

end P2PFileSharing
