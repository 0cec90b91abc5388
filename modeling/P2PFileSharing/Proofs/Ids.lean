import P2PFileSharing.Proofs.Tokens

/-!
# Every message of a run goes back to one that was issued

A peer numbers the messages it creates, so no two have keys that compare equal.
Everything a run does with a query is done with a copy of an issued one, some
hops out, and everything it does with a hit is done with a hit some peer
answered with, unchanged on its way.
-/

namespace P2PFileSharing

/-- A message was issued under its id, by the peer the id names. -/
def Flood.Issued (s : Flood) (x : Query) : Prop :=
  (x.id.peerId, .issued x.id (.query x)) ∈ s.log

/-- A peer answered with a hit. -/
def Flood.Answered (s : Flood) (h : Hit) : Prop :=
  (h.origin, .answered h.id (.hit h)) ∈ s.log

/-- The copy of an issued message that peer `p` sends, `n` hops out. -/
def Query.copy (x : Query) (n : Nat) (p : PeerID) : Query where
  id := x.id
  timeToLive := ttl - n
  sender := p
  request := Request.decrease^[n] x.request

def Flood.Copy (s : Flood) (x : Query) : Prop :=
  ∃ x₀ n p, s.Issued x₀ ∧ x = x₀.copy n p

/-- What the message of a task goes back to. -/
def Task.Known (net : Setup) (s : Flood) (p : PeerID) : Task → Prop
  | .cacheOwn x w | .broadcastOwn x w =>
      s.Issued x ∧ x.id.peerId = p ∧ ∀ f, w = some f → x.request.filename? = some f
  | .handleQuery x | .cacheQuery x | .act x | .relay x => s.Copy x
  | .lockSendBuffer x _ => s.Copy x ∧ x.sender = p
  | .sendTo q x => s.Copy x ∧ x.sender = p ∧ q ∈ net.peerIdToSockfd p
  | .handleHit h | .relayHit h | .record h _ | .takeWait h | .startTransfers h _ =>
      s.Answered h
  | _ => True

theorem decrease_query (f : Str) (n : Nat) :
    Request.decrease^[n] (.query f) = .query f :=
  Function.iterate_fixed rfl n

theorem decrease_invQuery (f : Str) (k : Int) (n : Nat) :
    Request.decrease^[n] (.invQuery f k) = .invQuery f (k - n) := by
  induction n with
  | zero => simp
  | succ n ih =>
      rw [Function.iterate_succ_apply', ih, Request.decrease]
      congr 1
      omega

theorem decrease_iterate_cases (r : Request) (n : Nat) :
    Request.decrease^[n] r = r ∨
      ∃ f k, r = .invQuery f k ∧ Request.decrease^[n] r = .invQuery f (k - n) := by
  cases r with
  | invQuery f k => exact .inr ⟨f, k, rfl, decrease_invQuery f k n⟩
  | _ => exact .inl (Function.iterate_fixed rfl n)

theorem eq_invQuery_of_decrease {r : Request} {n : Nat} {f : Str} {k : Int}
    (h : Request.decrease^[n] r = .invQuery f k) : r = .invQuery f (k + n) := by
  cases r with
  | invQuery g j =>
      rw [decrease_invQuery] at h
      injection h with hg hj
      rw [hg, ← hj]
      congr 1
      omega
  | query | conTestQuery | conTestObtain =>
      rw [Function.iterate_fixed rfl] at h
      cases h

/-- What a relayed copy is, and what allowed it. -/
theorem relayed_copy {x y : Query} {n : Nat} {u me : PeerID}
    (h : (x.copy n u).relayed me = some y) :
    y = x.copy (n + 1) me ∧ 1 ≤ ttl - ((n + 1 : Nat) : Int) ∧
      (x.copy n u).request.exhausted = false := by
  unfold Query.relayed at h
  split at h
  · cases h
  · next hgo =>
      injection h with h
      simp only [not_or, not_le] at hgo
      have httl : (x.copy n u).timeToLive - 1 = ttl - ((n + 1 : Nat) : Int) := by
        show ttl - (n : Int) - 1 = _
        omega
      refine ⟨?_, ?_, by simpa using hgo.1⟩
      · rw [← h, httl]
        simp only [Query.copy, Function.iterate_succ_apply']
      · rw [← httl]
        exact hgo.2

theorem Flood.Issued.grows {s s' : Flood} {x : Query} (h : s.Issued x) (hg : Grows s s') :
    s'.Issued x :=
  hg.mem h

theorem Flood.Copy.grows {s s' : Flood} {x : Query} (h : s.Copy x) (hg : Grows s s') :
    s'.Copy x := by
  obtain ⟨x₀, n, p, h₀, rfl⟩ := h
  exact ⟨x₀, n, p, h₀.grows hg, rfl⟩

theorem Task.Known.grows {net : Setup} {s s' : Flood} {p : PeerID} {task : Task}
    (h : task.Known net s p) (hg : Grows s s') : task.Known net s' p := by
  cases task with
  | cacheOwn | broadcastOwn | lockSendBuffer | sendTo => exact ⟨h.1.grows hg, h.2⟩
  | handleQuery | cacheQuery | act | relay => exact Flood.Copy.grows h hg
  | handleHit | relayHit | record | takeWait | startTransfers => exact hg.mem h
  | _ => trivial

/-- What is said about every event of a run. -/
def Event.Issue (net : Setup) (s : Flood) (p : PeerID) : Event Message → Prop
  | .issued id m =>
      ∃ x, m = .query x ∧ x.id = id ∧ id.peerId = p ∧ p ∈ net.peers ∧
        id.msgId < (s.tables p).msgIdCounter ∧ x = x.copy 0 p ∧
        ∀ f k, x.request = .invQuery f k → k = net.replicationFactor p - 1 ∧ 1 ≤ k
  | _ => True

section Ids

variable {net : Setup} {s s' : Flood} {l : Label}

theorem any_run (net : Setup) : (flood net).PrefixClosed fun _ => True :=
  fun _ _ _ _ _ => trivial

theorem creates_unique {me : PeerID} {task : Task} {r r' : Request} {w w' : Option Str}
    (h : Creates net me task r w) (h' : Creates net me task r' w') : r = r' ∧ w = w' := by
  cases h <;> cases h' <;> exact ⟨rfl, rfl⟩

/-- Creating a message moves the counter on and logs the message. -/
theorem perform_creates {me : PeerID} {now : Int} {t : Tables} {task : Task} {r : Request}
    {w : Option Str} {e : Effect} (hc : Creates net me task r w)
    (h : perform net me now t task = some e) :
    (∃ out, e.tables = t.afterCreate me out now) ∧
      e.events = [.issued (t.nextId me now) (.query (newQuery me t now r))] := by
  have hcreate : ∀ {out r w tests}, create me t out now r w tests = some e →
      (∃ out, e.tables = t.afterCreate me out now) ∧
        e.events = [.issued (t.nextId me now) (.query (newQuery me t now r))] := by
    intro out r w tests h
    unfold create at h
    split at h
    · injection h with h
      rw [← h]
      exact ⟨⟨out, rfl⟩, rfl⟩
    · cases h
  cases hc with
  | query out f w => exact hcreate h
  | invQuery out f w hR =>
      simp only [perform] at h
      rw [if_neg (by omega)] at h
      exact hcreate h
  | test test n => exact hcreate h

/-- The sender goes on to cache what it created, and then to its own tests. -/
theorem creates_next {me : PeerID} {now : Int} {t : Tables} {task : Task} {r : Request}
    {w : Option Str} {e : Effect} (hc : Creates net me task r w)
    (h : perform net me now t task = some e) :
    ∃ tests, e.next = .cacheOwn (newQuery me t now r) w :: tests ∧
      ∀ task ∈ tests, TestTask net me task := by
  have hcreate : ∀ {out r w tests}, create me t out now r w tests = some e →
      e.next = .cacheOwn (newQuery me t now r) w :: tests := by
    intro out r w tests h
    unfold create at h
    split at h
    · injection h with h
      rw [← h]
    · cases h
  cases hc with
  | query out f w => exact ⟨[], hcreate h, no_testTasks net me⟩
  | invQuery out f w hR =>
      simp only [perform] at h
      rw [if_neg (by omega)] at h
      exact ⟨[], hcreate h, no_testTasks net me⟩
  | test test n => exact ⟨_, hcreate h, fun task ht => testTask_of_own ht⟩

theorem creates_here {me : PeerID} {now : Int} {t : Tables} {task : Task} {r : Request}
    {w : Option Str} {e : Effect} (hc : Creates net me task r w)
    (h : perform net me now t task = some e) : .cacheOwn (newQuery me t now r) w ∈ e.here := by
  obtain ⟨tests, hnext, -⟩ := creates_next hc h
  rw [Effect.here, hnext]
  exact List.mem_append_left _ List.mem_cons_self

/-- A peer that answers logs the hit. -/
theorem perform_answers {me : PeerID} {now : Int} {t : Tables} {x : Query} {kind : HitKind}
    {e : Effect} (ha : Answers net me t x.request kind)
    (h : perform net me now t (.act x) = some e) :
    .answered x.id (.hit (newHit net me kind x.id)) ∈ e.events := by
  simp only [perform, Option.some.injEq] at h
  subst h
  unfold actOnRequest
  generalize hr : x.request = r at ha
  cases ha with
  | query f hf => simp [hf]
  | invQuery f k hnew hf => simp [hf, hnew]

/-- And goes on to send it. -/
theorem answers_here {me : PeerID} {now : Int} {t : Tables} {x : Query} {kind : HitKind}
    {e : Effect} (ha : Answers net me t x.request kind)
    (h : perform net me now t (.act x) = some e) :
    .relayHit (newHit net me kind x.id) ∈ e.here := by
  simp only [perform, Option.some.injEq] at h
  subst h
  unfold actOnRequest
  generalize hr : x.request = r at ha
  cases ha with
  | query f hf => simp [hf, Effect.here]
  | invQuery f k hnew hf => simp [hf, hnew, Effect.here]

theorem RunStep.issues {p : PeerID} {th : Thread} {now : Int} {task : Task} {rest : Multiset Work}
    {e : Effect} (hr : RunStep net s p th now task rest e) {r : Request} {w : Option Str}
    (hc : Creates net p task r w) :
    (s.after p th rest e).Issued (newQuery p (s.tables p) now r) := by
  refine hr.logged ?_
  rw [(perform_creates hc hr.perform).2]
  exact List.mem_singleton_self _

theorem creates_request {me : PeerID} {task : Task} {r : Request} {w : Option Str}
    (h : Creates net me task r w) :
    (∀ f k, r = .invQuery f k → k = net.replicationFactor me - 1 ∧ 1 ≤ k) ∧
      ∀ f, w = some f → r.filename? = some f := by
  cases h with
  | query out f w =>
      refine ⟨by simp, ?_⟩
      cases w <;> simp [Request.filename?]
  | invQuery out f w hR =>
      refine ⟨?_, ?_⟩
      · intro g k hk
        injection hk with hg hk
        omega
      · cases w <;> simp [Request.filename?]
  | test test n => cases test <;> simp [TestCommand.request]

/-- Every issued message is its peer's own, with the next number and a full TTL. -/
theorem reachable_issue (h : (flood net).Reachable s) :
    ∀ e ∈ s.log, e.2.Issue net s e.1 := by
  refine events_rule (I := fun s p ev => ev.Issue net s p) (any_run net) ?_ ?_ ?_ ?_ h trivial
  · intro s s' p ev hg _ hev
    cases ev with
    | issued id m =>
        obtain ⟨x, hm, hid, hp, hmem, hlt, hrest⟩ := hev
        exact ⟨x, hm, hid, hp, hmem, Nat.lt_of_lt_of_le hlt (hg.counter p), hrest⟩
    | _ => trivial
  · intro s p th now task rest e hs _ _ hr
    refine ⟨?_, fun _ _ _ _ => trivial⟩
    intro ev _ hl
    cases hl with
    | @issued task r w hc hlimit =>
        refine ⟨_, rfl, rfl, rfl, hr.alive.1, ?_, ?_, (creates_request hc).1⟩
        · obtain ⟨⟨out, ht⟩, -⟩ := perform_creates hc hr.perform
          show (s.tables p).msgIdCounter < (Function.update s.tables p e.tables p).msgIdCounter
          rw [Function.update_self, ht]
          exact Nat.lt_succ_self _
        · simp [newQuery, Query.copy]
    | _ => trivial
  · exact fun _ _ _ _ => trivial
  · exact fun _ _ _ _ _ _ _ _ _ _ _ => trivial

theorem Flood.Issued.spec {x : Query} (hx : s.Issued x) (h : (flood net).Reachable s) :
    x.id.peerId ∈ net.peers ∧ x.id.msgId < (s.tables x.id.peerId).msgIdCounter ∧
      x = x.copy 0 x.id.peerId ∧
      ∀ f k, x.request = .invQuery f k → k = net.replicationFactor x.id.peerId - 1 ∧ 1 ≤ k := by
  obtain ⟨y, hy, -, -, hmem, hlt, hcopy, hk⟩ := reachable_issue h _ hx
  injection hy with hy
  subst hy
  exact ⟨hmem, hlt, hcopy, hk⟩

/-- A task that creates a message logs that one, and no other task logs one. -/
theorem RunStep.issued {p : PeerID} {th : Thread} {now : Int} {task : Task}
    {rest : Multiset Work} {e : Effect} {x : Query} (hr : RunStep net s p th now task rest e)
    (hx : (s.after p th rest e).Issued x) :
    s.Issued x ∨ ∃ r w, Creates net p task r w ∧ x = newQuery p (s.tables p) now r := by
  rcases List.mem_append.mp hx with hx | hx
  · exact .inl hx
  · obtain ⟨ev, hev, heq⟩ := List.mem_map.mp hx
    rcases Effect.mem_history hev with hev | ⟨y, -, rfl⟩
    · have hlog := perform_logs hr.perform _ hev
      have hev' : ev = .issued x.id (.query x) := congrArg Prod.snd heq
      rw [hev'] at hlog
      generalize x.id = id at hlog
      generalize hm : Message.query x = m at hlog
      cases hlog with
      | @issued task r w hc hlimit =>
          injection hm with hm
          exact .inr ⟨r, w, hc, hm⟩
    · cases congrArg Prod.snd heq

/-- A step issues at most one message. -/
theorem issued_step (hl : FloodStep net s l s') :
    (∀ x, s'.Issued x → s.Issued x) ∨
      ∃ p now r, ∀ x, s'.Issued x → s.Issued x ∨ x = newQuery p (s.tables p) now r := by
  cases hl with
  | @run p th now task rest e halive hnow hwork hperform =>
      have hr : RunStep net s p th now task rest e := ⟨halive, hnow, hwork, hperform⟩
      by_cases hc : ∃ r w, Creates net p task r w
      · obtain ⟨r, w, hc⟩ := hc
        refine .inr ⟨p, now, r, fun x hx => ?_⟩
        rcases hr.issued hx with hx | ⟨r', w', hc', rfl⟩
        · exact .inl hx
        · rw [(creates_unique hc hc').1]
          exact .inr rfl
      · refine .inl fun x hx => ?_
        rcases hr.issued hx with hx | ⟨r, w, hc', -⟩
        · exact hx
        · exact absurd ⟨r, w, hc'⟩ hc
  | takeMessage | takeBroadcast | wake => exact .inl fun _ hx => hx
  | @command p cmd _ _ | @deliver p q m rest _ hwork =>
      refine .inl fun x hx => ?_
      rcases List.mem_append.mp hx with hx | hx
      · exact hx
      · cases congrArg Prod.snd (List.mem_singleton.mp hx)

/-- **No two issued messages have keys that compare equal.** -/
theorem issued_unique (h : (flood net).Reachable s) {x y : Query} (hx : s.Issued x)
    (hy : s.Issued y) (hid : (x.id == y.id) = true) : x = y := by
  refine System.Reachable.invariant
    (I := fun s => ∀ x y, s.Issued x → s.Issued y → (x.id == y.id) = true → x = y)
    ?_ ?_ h x y hx hy hid
  · rintro s rfl x y hx
    cases hx
  · intro s l s' hs ih hl x y hx hy hid
    rcases issued_step hl with hold | ⟨p, now, r, hnew⟩
    · exact ih x y (hold x hx) (hold y hy) hid
    · have hfresh : ∀ z, s.Issued z → ¬(z.id == (newQuery p (s.tables p) now r).id) = true := by
        intro z hz heq
        rw [SMessageID.beq_iff] at heq
        obtain ⟨hp, hn⟩ := heq
        have hlt := (hz.spec hs).2.1
        rw [hn, hp] at hlt
        exact Nat.lt_irrefl _ hlt
      rcases hnew x hx with hx | rfl
      · rcases hnew y hy with hy | rfl
        · exact ih x y hx hy hid
        · exact absurd hid (hfresh x hx)
      · rcases hnew y hy with hy | rfl
        · exact absurd (BEq.symm hid) (hfresh y hy)
        · rfl

/-! ## Copies and hits -/

theorem Flood.Issued.copy {x : Query} (hx : s.Issued x) (h : (flood net).Reachable s) :
    s.Copy x :=
  ⟨x, 0, x.id.peerId, hx, (hx.spec h).2.2.1⟩

theorem known_of_leads {p : PeerID} {th : Thread} {now : Int} {task task' : Task}
    {rest : Multiset Work} {e : Effect} (hs : (flood net).Reachable s)
    (hr : RunStep net s p th now task rest e) (hk : task.Known net s p)
    (hl : Leads net p now (s.tables p) task task') : task'.Known net (s.after p th rest e) p := by
  have hg := hr.grows
  cases hl with
  | replicate | earlyReturn | wait | unlock => trivial
  | create hc hlimit =>
      exact ⟨hr.issues hc, rfl, (creates_request hc).2⟩
  | ownTest test n ht | test x ht => cases ht <;> trivial
  | broadcast x w => exact hk.grows hg
  | queueOwn x w =>
      refine ⟨(hk.1.copy hs).grows hg, ?_⟩
      rw [(hk.1.spec hs).2.2.1, hk.2.1]
      rfl
  | answer x kind ha => exact hr.logged (perform_answers ha hr.perform)
  | queueRelayed x y hy =>
      obtain ⟨x₀, n, u, h₀, rfl⟩ := hk
      rw [(relayed_copy hy).1]
      exact ⟨⟨x₀, n + 1, p, h₀.grows hg, rfl⟩, rfl⟩
  | sendTo x exclude q hq hne => exact ⟨hk.1.grows hg, hk.2, hq⟩
  | accept | act | relay => exact Flood.Copy.grows hk hg
  | home | onward | lookUp | transfer => exact hg.mem hk

theorem known_of_sends {p q : PeerID} {th : Thread} {now : Int} {task : Task} {m : Message}
    {rest : Multiset Work} {e : Effect} (hr : RunStep net s p th now task rest e)
    (hk : task.Known net s p) (hl : Sends net p (s.tables p) task q m) :
    m.task.Known net (s.after p th rest e) q := by
  cases hl with
  | query q x => exact hk.1.grows hr.grows
  | hit x hu => exact hr.grows.mem hk

/-- **Every task goes back to an issued message or to a hit somebody answered with.** -/
theorem reachable_known (h : (flood net).Reachable s) :
    ∀ w ∈ s.work, w.task.Known net s w.place.owner := by
  refine tasks_rule (I := fun s p task => task.Known net s p) (any_run net) ?_ ?_ ?_ h trivial
  · intro s p task hstart
    have hnone := hstart.strand
    cases task <;> trivial
  · intro s s' p task hg _ hk
    exact hk.grows hg
  · intro s p th now task rest e hs _ _ hr hk
    exact ⟨fun task' _ hl => known_of_leads hs hr hk hl,
      fun q m _ hsend => known_of_sends hr hk hsend⟩

/-- The hits that answer a request. -/
inductive AnswerOf (net : Setup) (q : PeerID) : Request → HitKind → Prop
  | query (f : Str) (hf : net.hasFile q f = true) : AnswerOf net q (.query f) (.query f)
  | invQuery (f : Str) (k : Int) (hf : net.hasFile q f = false) :
      AnswerOf net q (.invQuery f k) .invQuery

theorem answerOf_copy {x : Query} {n : Nat} {u me : PeerID} {t : Tables} {kind : HitKind}
    (h : Answers net me t (x.copy n u).request kind) : AnswerOf net me x.request kind := by
  generalize hr : (x.copy n u).request = r at h
  change Request.decrease^[n] x.request = r at hr
  rcases decrease_iterate_cases x.request n with heq | ⟨f, k, hx, heq⟩
  · rw [heq] at hr
    rw [hr]
    cases h with
    | query f hf => exact .query f hf
    | invQuery f k hnew hf => exact .invQuery f k hf
  · rw [heq] at hr
    rw [hx]
    subst hr
    cases h with
    | invQuery f k hnew hf => exact .invQuery f _ hf

/-- What is said about an answer. -/
def Event.Answer (net : Setup) (s : Flood) (p : PeerID) : Event Message → Prop
  | .answered id m =>
      ∃ h x, m = .hit h ∧ h = newHit net p h.kind id ∧ s.Issued x ∧ x.id = id ∧
        AnswerOf net p x.request h.kind ∧ p ∈ net.peers
  | _ => True

theorem reachable_answer (h : (flood net).Reachable s) :
    ∀ e ∈ s.log, e.2.Answer net s e.1 := by
  refine events_rule (I := fun s p ev => ev.Answer net s p) (any_run net) ?_ ?_ ?_ ?_ h trivial
  · intro s s' p ev hg _ hev
    cases ev with
    | answered id m =>
        obtain ⟨h, x, hm, hh, hx, hrest⟩ := hev
        exact ⟨h, x, hm, hh, hx.grows hg, hrest⟩
    | _ => trivial
  · intro s p th now task rest e hs _ _ hr
    refine ⟨?_, fun _ _ _ _ => trivial⟩
    intro ev _ hl
    cases hl with
    | answered x kind ha =>
        obtain ⟨x₀, n, u, h₀, rfl⟩ := reachable_known hs _ hr.mem
        exact ⟨_, x₀, rfl, rfl, h₀.grows hr.grows, rfl, answerOf_copy ha, hr.alive.1⟩
    | _ => trivial
  · exact fun _ _ _ _ => trivial
  · exact fun _ _ _ _ _ _ _ _ _ _ _ => trivial

/-- **A hit is sound**: it answers an issued message, for a peer that may. -/
theorem Flood.Answered.spec {x : Hit} (hx : s.Answered x) (h : (flood net).Reachable s) :
    x.origin ∈ net.peers ∧ x = newHit net x.origin x.kind x.id ∧
      ∃ x₀, s.Issued x₀ ∧ x₀.id = x.id ∧ AnswerOf net x.origin x₀.request x.kind := by
  obtain ⟨y, x₀, hy, heq, h₀, hid, ha, hp⟩ := reachable_answer h _ hx
  injection hy with hy
  subst hy
  exact ⟨hp, heq, x₀, h₀, hid, ha⟩

/-! ## Keys -/

/-- Every id in `m_queries` is one that was issued. -/
theorem queries_issued (h : (flood net).Reachable s) (p : PeerID) {id : SMessageID} {u : PeerID}
    (hu : (s.tables p).queries.find? id = some u) :
    ∃ x, s.Issued x ∧ (x.id == id) = true := by
  refine tables_rule (J := fun s _ t => ∀ id u, t.queries.find? id = some u →
    ∃ x, s.Issued x ∧ (x.id == id) = true) (any_run net) ?_ ?_ ?_ h trivial p id u hu
  · intro p id u hu
    cases hu
  · intro s s' p t hg _ ih id u hu
    obtain ⟨x, hx, hid⟩ := ih id u hu
    exact ⟨x, hx.grows hg, hid⟩
  · intro s p th now task rest e hs _ _ hr ih hw id u hu
    have hg := hr.grows
    have hold : ∀ u, (s.tables p).queries.find? id = some u →
        ∃ x, (s.after p th rest e).Issued x ∧ (x.id == id) = true := by
      intro u hu
      obtain ⟨x, hx, hid⟩ := ih id u hu
      exact ⟨x, hx.grows hg, hid⟩
    have hk := reachable_known hs _ hr.mem
    have hindex : ∀ {y : Hit} {v}, s.Answered y →
        ((s.tables p).queries.index y.id 0).2.find? id = some v →
        ∃ x, (s.after p th rest e).Issued x ∧ (x.id == id) = true := by
      intro y v hy hv
      rw [UnorderedMap.find?_index] at hv
      split at hv
      · next hid =>
          obtain ⟨-, -, x₀, h₀, hx₀, -⟩ := hy.spec hs
          exact ⟨x₀, h₀.grows hg, by rw [hx₀]; exact hid⟩
      · exact hold v hv
    generalize e.tables = t' at hw hu
    cases hw with
    | cacheOwn y w hnew =>
        rw [UnorderedMap.find?_insert] at hu
        split at hu
        · next hid => exact ⟨y, hk.1.grows hg, hid⟩
        · exact hold u hu
    | cacheQuery y hnew =>
        rw [UnorderedMap.find?_insert] at hu
        split at hu
        · next hid =>
            obtain ⟨x₀, n, v, h₀, rfl⟩ := hk
            exact ⟨x₀, h₀.grows hg, hid⟩
        · exact hold u hu
    | relayHit y hv | abort y hv => exact hindex hk hu
    | removeOldQueries since => exact hold u (UnorderedMap.find?_filterKeys_some hu)
    | _ => exact hold u hu

end Ids

end P2PFileSharing
