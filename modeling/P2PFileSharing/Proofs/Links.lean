import P2PFileSharing.Proofs.ReversePath

/-!
# One copy over each link

For one id and one link, the tokens are the tasks at the link's near end that
will still send a copy over it, and the copies it sent. A peer mints one when it
issues the id or accepts a first copy, and only then; after that it hands the
token from task to task until the copy is sent.
-/

namespace P2PFileSharing

/-- The tasks at `p` that will send a copy to `q`. -/
def linkWeight (p q : PeerID) (id : SMessageID) (r : PeerID) : Task → Nat
  | .cacheOwn x _ | .broadcastOwn x _ | .act x | .relay x =>
      if r = p ∧ (x.id == id) = true then 1 else 0
  | .lockSendBuffer x exclude => if r = p ∧ (x.id == id) = true ∧ exclude ≠ q then 1 else 0
  | .sendTo q' x => if r = p ∧ (x.id == id) = true ∧ q' = q then 1 else 0
  | _ => 0

def Message.isQueryOf (id : SMessageID) : Message → Bool
  | .query x => x.id == id
  | .hit _ => false

/-- A copy sent from `p` to `q`. -/
def copySent (p q : PeerID) (id : SMessageID) : PeerID → Event Message → Bool :=
  ofPeer p (Event.isSentTo q (Message.isQueryOf id))

/-- The tasks with which a peer still acts on an id it accepted. -/
def actWeight (p : PeerID) (id : SMessageID) (r : PeerID) : Task → Nat
  | .act x => if r = p ∧ (x.id == id) = true then 1 else 0
  | _ => 0

/-- Likewise up to the relay. -/
def relayWeight (p : PeerID) (id : SMessageID) (r : PeerID) : Task → Nat
  | .act x | .relay x => if r = p ∧ (x.id == id) = true then 1 else 0
  | _ => 0

/-- A peer knows an id: it issued it or has it in `m_queries`. -/
def Flood.Knows (s : Flood) (p : PeerID) (id : SMessageID) : Prop :=
  s.upstream p id ≠ none ∨ ∃ x, s.Issued x ∧ (x.id == id) = true ∧ x.id.peerId = p

section Links

variable {net : Setup} {s s' : Flood} {p q r : PeerID} {id : SMessageID} {th : Thread}
  {now : Int} {task : Task} {rest : Multiset Work} {e : Effect}

theorem Flood.Knows.grows (h : s.Knows p id) (hg : Grows s s') (hc : s'.NothingRemoved) :
    s'.Knows p id := by
  rcases h with h | ⟨x, hx, hid, hp⟩
  · obtain ⟨u, hu⟩ := Option.ne_none_iff_exists'.mp h
    refine .inl ?_
    rw [hg.upstream hc hu]
    exact Option.some_ne_none u
  · exact .inr ⟨x, hx.grows hg, hid, hp⟩

/-- Of an effect's history only its sends are sends. -/
theorem countP_history (h : perform net r now (s.tables r) task = some e)
    {P : Event Message → Bool} (hP : ∀ ev, (∀ q m, ev ≠ .sent q m) → P ev = false) :
    e.history.countP P = e.sent.countP fun x => P (.sent x.1 x.2) := by
  have hnone : e.events.countP P = 0 := by
    rw [List.countP_eq_zero]
    intro ev hev
    rw [hP ev]
    · decide
    · intro q m hsent
      rw [hsent] at hev
      cases perform_logs h _ hev
  rw [Effect.history, List.countP_append, hnone, List.countP_map, Nat.zero_add]
  rfl

theorem countP_sent_eq_zero (h : perform net r now (s.tables r) task = some e)
    (hnot : ∀ q x, task ≠ .sendTo q x) :
    e.sent.countP (fun x => copySent p q id r (.sent x.1 x.2)) = 0 := by
  rw [List.countP_eq_zero]
  intro x hx
  have hsend := perform_sends h x hx
  generalize x.1 = q' at hsend
  generalize x.2 = m at hsend
  cases hsend with
  | query _ y => exact absurd rfl (hnot _ y)
  | hit y hu => simp [copySent, ofPeer, Event.isSentTo, Message.isQueryOf]

theorem issued_fresh (hs : (flood net).Reachable s) {t : Request}
    (hid : ((newQuery p (s.tables p) now t).id == id) = true) : ¬s.Knows p id := by
  have hno : ∀ x, s.Issued x → ¬(x.id == id) = true := by
    intro x hx hxid
    rw [SMessageID.beq_iff] at hid hxid
    have hlt := (hx.spec hs).2.1
    rw [hxid.1, hxid.2, ← hid.1, ← hid.2] at hlt
    exact Nat.lt_irrefl _ hlt
  rintro (hu | ⟨x, hx, hxid, -⟩)
  · obtain ⟨u, hu⟩ := Option.ne_none_iff_exists'.mp hu
    obtain ⟨x, hx, hxid⟩ := queries_issued hs p hu
    exact hno x hx hxid
  · exact hno x hx hxid

/-- A peer that is about to cache a copy does not know its id yet. -/
theorem cacheQuery_fresh (hs : (flood net).Reachable s) (hc : s.NothingRemoved) {x : Query}
    (hr : RunStep net s p th now (.cacheQuery x) rest e) (hid : (x.id == id) = true) :
    ¬s.Knows p id := by
  have hnone : s.upstream p x.id = none := reachable_uncached hs hc _ hr.mem x rfl
  have hother : p ≠ x.id.peerId := ((reachable_live hs hc).1 _ hr.mem).2
  rintro (hu | ⟨y, -, hyid, hp⟩)
  · rw [← s.upstream_congr p hid, hnone] at hu
    exact hu rfl
  · rw [SMessageID.beq_iff] at hid hyid
    rw [hyid.1, ← hid.1] at hp
    exact hother hp.symm

theorem cacheQuery_knows (hs : (flood net).Reachable s) (hc : s.NothingRemoved) {x : Query}
    (hr : RunStep net s p th now (.cacheQuery x) rest e) (hid : (x.id == id) = true) :
    (s.after p th rest e).upstream p id ≠ none := by
  have hnone : s.upstream p x.id = none := reachable_uncached hs hc _ hr.mem x rfl
  rw [← (s.after p th rest e).upstream_congr p hid, after_upstream,
    perform_cacheQuery hr.perform hnone]
  exact Option.some_ne_none _

/-- What a task that is no copy's first one hands on over a link is at most its
own token. -/
theorem linkWeight_leads {task task' : Task} {t : Tables} (hl : Leads net r now t task task')
    (hcreate : ∀ t w, ¬Creates net r task t w) (hcache : ∀ x, task ≠ .cacheQuery x) :
    linkWeight p q id r task' ≤ linkWeight p q id r task := by
  cases hl with
  | create hc hlimit => exact absurd hc (hcreate _ _)
  | act x => exact absurd rfl (hcache x)
  | queueOwn x w | sendTo x exclude q' hq hne =>
      simp only [linkWeight]
      split <;> split <;> simp_all
  | queueRelayed x y hy =>
      simp only [linkWeight, relayed_id hy]
      split <;> split <;> simp_all
  | ownTest test n ht | test x ht => cases ht <;> exact Nat.zero_le _
  | broadcast | relay => exact Nat.le_refl _
  | _ => exact Nat.zero_le _

theorem linkWeight_le_one (task : Task) : linkWeight p q id r task ≤ 1 := by
  cases task <;> simp only [linkWeight] <;> first | exact Nat.zero_le _ | (split <;> omega)

theorem linkWeight_message (m : Message) : linkWeight p q id r m.task = 0 := by
  cases m <;> rfl

theorem linkWeight_strand (r : PeerID) (task : Task) (h : task.strand ≠ some .query) :
    linkWeight p q id r task = 0 := by
  cases task <;> first | rfl | exact absurd rfl h

/-- A broadcast loop sends at most one copy to each connected peer. -/
theorem linkWeight_broadcast {x : Query} {exclude : PeerID} :
    (((net.peerIdToSockfd r).filter fun q' => q' ≠ exclude).map fun q' =>
      linkWeight p q id r (.sendTo q' x)).sum ≤
        linkWeight p q id r (.lockSendBuffer x exclude) := by
  have hnodup : ((net.peerIdToSockfd r).filter fun q' => q' ≠ exclude).Nodup :=
    ((net.topology_nodup r).filter _).filter _
  refine sum_map_le_of_countP (P := fun q' => decide (q' = q)) ?_ ?_ ?_
  · have hcount := List.nodup_iff_count_le_one.mp hnodup q
    rwa [List.count] at hcount
  · intro q' _ hq
    have hne : q' ≠ q := by simpa using hq
    simp [linkWeight, hne]
  · intro q' hq'
    have hne : q' ≠ exclude := by simpa using (List.mem_filter.mp hq').2
    simp only [linkWeight]
    split <;> split <;> simp_all

/-- Sending a copy spends its token. -/
theorem linkWeight_sendTo {x : Query} {q' : PeerID}
    (h : perform net r now (s.tables r) (.sendTo q' x) = some e) :
    e.gain (linkWeight p q id) r +
        e.sent.countP (fun x => copySent p q id r (.sent x.1 x.2)) ≤
      linkWeight p q id r (.sendTo q' x) := by
  simp only [perform, Option.some.injEq] at h
  subst h
  have hsent : copySent p q id r (.sent q' (.query x)) =
      decide (r = p ∧ (x.id == id) = true ∧ q' = q) := by
    rw [copySent, ofPeer, Event.isSentTo, Message.isQueryOf, Bool.decide_and, Bool.decide_and,
      Bool.decide_eq_true, Bool.and_comm (x.id == id)]
  show linkWeight p q id q' (.handleQuery x) + 0 + _ ≤ _
  rw [List.countP_singleton, hsent]
  simp only [linkWeight, decide_eq_true_eq]
  omega

theorem linkWeight_create {task task' : Task} {t : Request} {w : Option Str}
    (hc : Creates net r task t w) (hl : Leads net r now (s.tables r) task task')
    (hmatch : ¬(r = p ∧ ((newQuery r (s.tables r) now t).id == id) = true)) :
    linkWeight p q id r task' ≤ 0 := by
  cases hl with
  | create hc' hlimit =>
      rw [← (creates_unique hc hc').1]
      exact (if_neg hmatch).le
  | ownTest test n ht => cases ht <;> exact Nat.le_refl 0
  | earlyReturn => exact Nat.le_refl 0
  | _ => cases hc

/-- **A peer sends at most one copy of an id over each link.** -/
theorem link_tokens (h : (flood net).Reachable s) (hc : s.NothingRemoved) (p q : PeerID)
    (id : SMessageID) :
    s.total (linkWeight p q id) + s.count (copySent p q id) ≤ 1 ∧
      (0 < s.total (linkWeight p q id) + s.count (copySent p q id) → s.Knows p id) := by
  refine tokens_rule (G := fun s => s.Knows p id) (nothingRemoved_prefixClosed net)
    ?_ ?_ ?_ ?_ ?_ h hc
  · exact fun r task hstart => linkWeight_strand r task (by rw [hstart.strand]; simp)
  · exact fun _ _ => Bool.and_false _
  · exact fun _ _ _ => Bool.and_false _
  · exact fun s s' hg hc hk => hk.grows hg hc
  · intro s r th now task rest e hs hcs hcs' hr
    have hlog := countP_history hr.perform (P := copySent p q id r) fun ev hev => by
      cases ev with
      | sent q' m => exact absurd rfl (hev q' m)
      | _ => exact Bool.and_false _
    rw [hlog]
    by_cases hsend : ∃ q' x, task = .sendTo q' x
    · obtain ⟨q', x, rfl⟩ := hsend
      exact .inl (linkWeight_sendTo hr.perform)
    · have hnot : ∀ q' x, task ≠ .sendTo q' x := fun q' x heq => hsend ⟨q', x, heq⟩
      rw [countP_sent_eq_zero hr.perform hnot, Nat.add_zero]
      by_cases hlock : ∃ x exclude, task = .lockSendBuffer x exclude
      · obtain ⟨x, exclude, rfl⟩ := hlock
        refine .inl ?_
        rw [gain_lockSendBuffer hr.perform]
        exact linkWeight_broadcast
      · have hnolock : ∀ x exclude, task ≠ .lockSendBuffer x exclude :=
          fun x exclude heq => hlock ⟨x, exclude, heq⟩
        have hmint : ∀ n, (∀ task', Leads net r now (s.tables r) task task' →
            linkWeight p q id r task' ≤ n) → e.gain (linkWeight p q id) r ≤ n := by
          intro n hn
          refine gain_le hr.perform hnolock .query linkWeight_strand hn ?_
          intro q' m _
          rw [linkWeight_message]
          exact Nat.zero_le n
        by_cases hcreate : ∃ t w, Creates net r task t w
        · obtain ⟨t, w, hcr⟩ := hcreate
          by_cases hmatch : r = p ∧ ((newQuery r (s.tables r) now t).id == id) = true
          · obtain ⟨rfl, hid⟩ := hmatch
            refine .inr ⟨issued_fresh hs hid, ?_, .inr ⟨_, hr.issues hcr, hid, ?_⟩⟩
            · have hone := hmint 1 fun task' _ => linkWeight_le_one task'
              omega
            · rfl
          · refine .inl (Nat.le_trans (hmint 0 fun task' hl => ?_) (Nat.zero_le _))
            exact linkWeight_create hcr hl hmatch
        · by_cases hcache : ∃ x, task = .cacheQuery x
          · obtain ⟨x, rfl⟩ := hcache
            by_cases hmatch : r = p ∧ (x.id == id) = true
            · obtain ⟨rfl, hid⟩ := hmatch
              refine .inr
                ⟨cacheQuery_fresh hs hcs hr hid, ?_, .inl (cacheQuery_knows hs hcs hr hid)⟩
              have hone := hmint 1 fun task' _ => linkWeight_le_one task'
              omega
            · refine .inl (Nat.le_trans (hmint 0 fun task' hl => ?_) (Nat.zero_le _))
              cases hl with
              | create hcr' hlimit => cases hcr'
              | act x => exact (if_neg hmatch).le
          · refine .inl (hmint _ fun task' hl => linkWeight_leads hl ?_ ?_)
            · exact fun t w hcr => hcreate ⟨t, w, hcr⟩
            · exact fun x heq => hcache ⟨x, heq⟩

/-- A copy is sent by a peer of the tree, and not back to the sender's upstream. -/
theorem reachable_sent (h : (flood net).Reachable s) (hc : s.NothingRemoved) {x : Query}
    (hsent : (p, .sent q (.query x)) ∈ s.log) :
    SentBy net s x p ∧ q ∈ net.peerIdToSockfd p ∧ ∃ u, s.upstream p x.id = some u ∧ q ≠ u := by
  let I : Flood → PeerID → Event Message → Prop := fun s p ev => ∀ q x, ev = .sent q (.query x) →
    (Task.sendTo q x).OnPath net s p
  have hall := events_rule (I := I) (nothingRemoved_prefixClosed net) ?_ ?_ ?_ ?_ h hc
  · exact hall _ hsent q x rfl
  · intro s s' p ev hg hc hev q x hx
    exact (hev q x hx).grows hg hc
  · intro s p th now task rest e hs hcs hcs' hr
    refine ⟨?_, ?_⟩
    · intro ev _ hl q x hx
      rw [hx] at hl
      cases hl
    · intro q m _ hl q' x hx
      injection hx with hq hm
      subst hq
      subst hm
      generalize hy : Message.query x = y at hl
      cases hl with
      | query _ y =>
          injection hy with hy
          subst hy
          exact Task.OnPath.grows ((reachable_onPath hs hcs).1 _ hr.mem) hr.grows hcs'
      | hit y hu => cases hy
  · intro s p cmd _ q x hx
    cases hx
  · intro s s' p q m rest _ _ _ _ _ q' x hx
    cases hx

end Links

/-! ## Acting once -/

section Acts

variable {net : Setup} {s s' : Flood} {p q r : PeerID} {id : SMessageID} {th : Thread}
  {now : Int} {task : Task} {rest : Multiset Work} {e : Effect}

/-- **What a peer does once for an id**: tokens that only accepting a copy mints. -/
theorem accepted_once {f : PeerID → Task → Nat} {P : PeerID → Event Message → Bool}
    (hstart : ∀ r task, Starts net r task → f r task = 0)
    (hcommand : ∀ r cmd, P r (.command cmd) = false)
    (hreceived : ∀ r q m, P r (.received q m) = false)
    (hkeep : ∀ s r th now task rest e, (flood net).Reachable s → s.NothingRemoved →
      RunStep net s r th now task rest e → (∀ x, task ≠ .cacheQuery x) →
      e.gain f r + e.history.countP (P r) ≤ f r task)
    (hmint : ∀ s r th now x rest e, RunStep net s r th now (.cacheQuery x) rest e →
      e.gain f r + e.history.countP (P r) ≤ if r = p ∧ (x.id == id) = true then 1 else 0)
    (h : (flood net).Reachable s) (hc : s.NothingRemoved) :
    s.total f + s.count P ≤ 1 ∧
      (0 < s.total f + s.count P → p ≠ id.peerId ∧ s.upstream p id ≠ none) := by
  refine tokens_rule (G := fun s => p ≠ id.peerId ∧ s.upstream p id ≠ none)
    (nothingRemoved_prefixClosed net) hstart hcommand hreceived ?_ ?_ h hc
  · intro s s' hg hc ⟨hp, hu⟩
    obtain ⟨u, hu⟩ := Option.ne_none_iff_exists'.mp hu
    refine ⟨hp, ?_⟩
    rw [hg.upstream hc hu]
    exact Option.some_ne_none u
  · intro s r th now task rest e hs hcs hcs' hr
    by_cases hcache : ∃ x, task = .cacheQuery x
    · obtain ⟨x, rfl⟩ := hcache
      have hle := hmint s r th now x rest e hr
      by_cases hmatch : r = p ∧ (x.id == id) = true
      · obtain ⟨rfl, hid⟩ := hmatch
        refine .inr ⟨?_, ?_, ?_, cacheQuery_knows hs hcs hr hid⟩
        · rintro ⟨-, hu⟩
          exact cacheQuery_fresh hs hcs hr hid (.inl hu)
        · rw [if_pos ⟨rfl, hid⟩] at hle
          exact Nat.le_trans hle (Nat.le_add_left _ _)
        · rw [← (SMessageID.beq_iff.mp hid).1]
          exact ((reachable_live hs hcs).1 _ hr.mem).2
      · rw [if_neg hmatch] at hle
        exact .inl (Nat.le_trans hle (Nat.zero_le _))
    · exact .inl (hkeep s r th now task rest e hs hcs hr fun x hx => hcache ⟨x, hx⟩)

theorem countP_events_eq_zero (hr : RunStep net s r th now task rest e)
    {P : Event Message → Bool} (hsent : ∀ q m, P (.sent q m) = false)
    (hlogs : ∀ ev, Logs net r now (s.tables r) task ev → P ev = false) :
    e.history.countP P = 0 := by
  rw [List.countP_eq_zero]
  intro ev hev
  rcases Effect.mem_history hev with hev | ⟨x, -, rfl⟩
  · rw [hlogs ev (perform_logs hr.perform ev hev)]
    decide
  · rw [hsent]
    decide

/-- A peer acts with one event, and answers with at most one more. -/
theorem act_history {t : Tables} {x : Query}
    (h : perform net r now t (.act x) = some e) :
    e.history = [.acted x.request.handler x.id] ∨
      ∃ k, e.history = [.acted x.request.handler x.id,
        .answered x.id (.hit (newHit net r k x.id))] := by
  simp only [perform, Option.some.injEq] at h
  subst h
  rw [Effect.history, actOnRequest_sends]
  unfold actOnRequest
  cases hr : x.request with
  | query f =>
      dsimp only
      split
      · exact .inr ⟨_, rfl⟩
      · exact .inl rfl
  | invQuery f k =>
      dsimp only
      split
      · exact .inl rfl
      · split
        · exact .inl rfl
        · exact .inr ⟨_, rfl⟩
  | conTestQuery | conTestObtain => exact .inl rfl

theorem actWeight_of_leads {task task' : Task} {t : Tables} (hl : Leads net r now t task task')
    (hcache : ∀ x, task ≠ .cacheQuery x) : actWeight p id r task' = 0 := by
  cases hl with
  | act x => exact absurd rfl (hcache x)
  | ownTest test n ht | test x ht => cases ht <;> rfl
  | _ => rfl

theorem relayWeight_of_leads {task task' : Task} {t : Tables} (hl : Leads net r now t task task')
    (hcache : ∀ x, task ≠ .cacheQuery x) : relayWeight p id r task' ≤ relayWeight p id r task := by
  cases hl with
  | act x => exact absurd rfl (hcache x)
  | relay x hp => exact Nat.le_refl _
  | ownTest test n ht | test x ht => cases ht <;> exact Nat.zero_le _
  | _ => exact Nat.zero_le _

theorem relayWeight_of_cacheQuery {x : Query} {task' : Task} {t : Tables}
    (hl : Leads net r now t (.cacheQuery x) task') :
    relayWeight p id r task' ≤ if r = p ∧ (x.id == id) = true then 1 else 0 := by
  cases hl with
  | create hcr => cases hcr
  | act x => exact Nat.le_refl _

theorem relayWeight_of_relay {x : Query} {task' : Task} {t : Tables}
    (hl : Leads net r now t (.relay x) task') : relayWeight p id r task' = 0 := by
  cases hl with
  | queueRelayed x y hy => rfl
  | create hc => cases hc

theorem ite_le_one {P : Prop} [Decidable P] : (if P then 1 else 0) ≤ 1 := by
  split <;> omega

theorem of_ite_pos {P : Prop} [Decidable P] (h : 0 < if P then 1 else 0) : P := by
  by_contra hP
  rw [if_neg hP] at h
  exact Nat.lt_irrefl 0 h

/-- A weight that only acting and relaying have, as an effect brings it. -/
theorem gain_le_of_leads {f : PeerID → Task → Nat} {n : Nat}
    (hr : RunStep net s r th now task rest e)
    (hf : ∀ r task, f r task ≤ relayWeight p id r task)
    (hn : ∀ task', Leads net r now (s.tables r) task task' → f r task' ≤ n) :
    e.gain f r ≤ n := by
  have hzero : ∀ r task, (∀ x, task ≠ .act x) → (∀ x, task ≠ .relay x) → f r task = 0 := by
    intro r task hact hrelay
    have hle := hf r task
    cases task with
    | act x => exact absurd rfl (hact x)
    | relay x => exact absurd rfl (hrelay x)
    | _ => exact Nat.eq_zero_of_le_zero hle
  by_cases hlock : ∃ x exclude, task = .lockSendBuffer x exclude
  · obtain ⟨x, exclude, rfl⟩ := hlock
    rw [gain_lockSendBuffer hr.perform, hzero r .unlockSendBuffer (by simp) (by simp)]
    have hsum : (((net.peerIdToSockfd r).filter fun q => q ≠ exclude).map fun q =>
        f r (.sendTo q x)).sum = 0 := by
      refine List.sum_eq_zero ?_
      intro k hk
      obtain ⟨q, -, rfl⟩ := List.mem_map.mp hk
      exact hzero r _ (by simp) (by simp)
    omega
  · refine gain_le hr.perform (fun x exclude heq => hlock ⟨x, exclude, heq⟩) .query ?_ hn ?_
    · intro r task hstrand
      refine hzero r task ?_ ?_
      · rintro x rfl
        exact hstrand rfl
      · rintro x rfl
        exact hstrand rfl
    · intro q m _
      rw [hzero q m.task (by cases m <;> simp [Message.task]) (by cases m <;> simp [Message.task])]
      exact Nat.zero_le n

theorem countP_ofPeer (l : List (Event Message)) (P : Event Message → Bool) :
    l.countP (ofPeer p P r) = if r = p then l.countP P else 0 := by
  split
  · next h =>
      refine List.countP_congr fun ev _ => ?_
      simp [ofPeer, h]
  · next h => simp [ofPeer, h]

/-- What a peer does when it acts on an id it does at most once, and never for an
id of its own. -/
theorem act_tokens (p : PeerID) (id : SMessageID) {P : Event Message → Bool}
    (hact : ∀ k id' m, [Event.acted k id', Event.answered id' m].countP P ≤
      if (id' == id) = true then 1 else 0)
    (hother : ∀ ev, (∀ k id', ev ≠ .acted k id') → (∀ id' m, ev ≠ .answered id' m) →
      P ev = false)
    (h : (flood net).Reachable s) (hc : s.NothingRemoved) :
    s.total (actWeight p id) + s.count (ofPeer p P) ≤ 1 ∧
      (0 < s.total (actWeight p id) + s.count (ofPeer p P) →
        p ≠ id.peerId ∧ s.upstream p id ≠ none) := by
  have hlogs : ∀ {s r th now task rest e}, RunStep net s r th now task rest e →
      (∀ x, task ≠ .act x) → e.history.countP P = 0 := by
    intro s r th now task rest e hr hnot
    refine countP_events_eq_zero hr (fun q m => hother _ (by simp) (by simp)) ?_
    intro ev hl
    refine hother ev ?_ ?_
    · rintro k id' rfl
      cases hl with
      | acted x => exact hnot x rfl
    · rintro id' m rfl
      cases hl with
      | answered x => exact hnot x rfl
  have hle : ∀ r task, actWeight p id r task ≤ relayWeight p id r task := by
    intro r task
    cases task <;> first | exact Nat.le_refl _ | exact Nat.zero_le _
  refine accepted_once ?_ (fun _ _ => ?_) (fun _ _ _ => ?_) ?_ ?_ h hc
  · intro r task hstart
    have hnone := hstart.strand
    cases task <;> first | rfl | cases hnone
  · rw [ofPeer, hother _ (by simp) (by simp), Bool.and_false]
  · rw [ofPeer, hother _ (by simp) (by simp), Bool.and_false]
  · intro s r th now task rest e _ _ hr hcache
    have hgain := gain_le_of_leads hr hle (n := 0) fun task' hl =>
      Nat.le_of_eq (actWeight_of_leads hl hcache)
    rw [countP_ofPeer]
    by_cases hx : ∃ x, task = .act x
    · obtain ⟨x, rfl⟩ := hx
      have hcount : e.history.countP P ≤ if (x.id == id) = true then 1 else 0 := by
        rcases act_history hr.perform with heq | ⟨k, heq⟩ <;> rw [heq]
        · refine Nat.le_trans ?_ (hact x.request.handler x.id (.query x))
          exact List.Sublist.countP_le (by simp)
        · exact hact _ _ _
      simp only [actWeight]
      split
      · next hrp =>
          subst hrp
          simp only [true_and]
          omega
      · omega
    · rw [hlogs hr fun x hx' => hx ⟨x, hx'⟩]
      split <;> omega
  · intro s r th now x rest e hr
    have hgain := gain_le_of_leads hr hle fun task' hl =>
      Nat.le_trans (hle r task') (relayWeight_of_cacheQuery hl)
    rw [countP_ofPeer, hlogs hr (by simp)]
    split at hgain <;> split <;> omega

/-- A peer relays an id at most once. -/
theorem relay_tokens (h : (flood net).Reachable s) (hc : s.NothingRemoved) (p : PeerID)
    (id : SMessageID) :
    s.total (relayWeight p id) + s.count (ofPeer p (Event.isRelayed id)) ≤ 1 ∧
      (0 < s.total (relayWeight p id) + s.count (ofPeer p (Event.isRelayed id)) →
        p ≠ id.peerId ∧ s.upstream p id ≠ none) := by
  have hlogs : ∀ {s r th now task rest e}, RunStep net s r th now task rest e →
      (∀ x, task ≠ .relay x) → e.history.countP (Event.isRelayed id) = 0 := by
    intro s r th now task rest e hr hnot
    refine countP_events_eq_zero hr (fun q m => rfl) ?_
    intro ev hl
    cases hl with
    | relayed x => exact absurd rfl (hnot x)
    | _ => rfl
  refine accepted_once ?_ (fun _ _ => Bool.and_false _) (fun _ _ _ => Bool.and_false _) ?_ ?_ h hc
  · intro r task hstart
    have hnone := hstart.strand
    cases task <;> first | rfl | cases hnone
  · intro s r th now task rest e _ _ hr hcache
    rw [countP_ofPeer]
    by_cases hx : ∃ x, task = .relay x
    · obtain ⟨x, rfl⟩ := hx
      have hgain := gain_le_of_leads (f := relayWeight p id) hr (fun _ _ => Nat.le_refl _)
        (n := 0) fun task' hl => Nat.le_of_eq (relayWeight_of_relay hl)
      have hcount : e.history.countP (Event.isRelayed id) ≤
          if (x.id == id) = true then 1 else 0 := by
        have hperform := hr.perform
        simp only [perform] at hperform
        split at hperform
        · injection hperform with hperform
          rw [← hperform]
          exact Nat.zero_le _
        · injection hperform with hperform
          rw [← hperform]
          simp only [Effect.history, List.map_nil, List.append_nil, List.countP_singleton,
            Event.isRelayed]
          exact Nat.le_refl _
      simp only [relayWeight]
      split
      · next hrp =>
          subst hrp
          simp only [true_and]
          omega
      · omega
    · have hgain := gain_le_of_leads (f := relayWeight p id) hr (fun _ _ => Nat.le_refl _)
        fun task' hl => relayWeight_of_leads hl hcache
      rw [hlogs hr fun x hx' => hx ⟨x, hx'⟩]
      split <;> omega
  · intro s r th now x rest e hr
    have hgain := gain_le_of_leads (f := relayWeight p id) hr (fun _ _ => Nat.le_refl _)
      fun task' hl => relayWeight_of_cacheQuery hl
    rw [countP_ofPeer, hlogs hr (by simp)]
    split at hgain <;> split <;> omega

/-- The work a peer does for an id, seen in the history: acting, answering and
relaying. -/
def workEvents (id : SMessageID) {M : Type} : List (Event M → Bool) :=
  [Event.isActed id, Event.isAnswered id, Event.isRelayed id]

/-- **A peer works for an id once**, and not for an id of its own. -/
theorem work_once (h : (flood net).Reachable s) (hc : s.NothingRemoved) (p : PeerID)
    (id : SMessageID) {P : Event Message → Bool} (hP : P ∈ workEvents id) :
    s.count (ofPeer p P) ≤ 1 ∧
      (0 < s.count (ofPeer p P) → p ≠ id.peerId ∧ s.upstream p id ≠ none) := by
  simp only [workEvents, List.mem_cons, List.not_mem_nil, or_false] at hP
  rcases hP with rfl | rfl | rfl
  · have hboth := act_tokens p id (P := Event.isActed id) ?_ ?_ h hc
    · exact ⟨by omega, fun hpos => hboth.2 (by omega)⟩
    · intro k id' m
      rw [List.countP_cons, List.countP_singleton]
      exact Nat.le_of_eq (Nat.zero_add _)
    · intro ev hacted _
      cases ev with
      | acted k id' => exact absurd rfl (hacted k id')
      | _ => rfl
  · have hboth := act_tokens p id (P := Event.isAnswered id) ?_ ?_ h hc
    · exact ⟨by omega, fun hpos => hboth.2 (by omega)⟩
    · intro k id' m
      rw [List.countP_cons, List.countP_singleton]
      exact Nat.le_refl _
    · intro ev _ hanswered
      cases ev with
      | answered id' m => exact absurd rfl (hanswered id' m)
      | _ => rfl
  · have hboth := relay_tokens h hc p id
    exact ⟨by omega, fun hpos => hboth.2 (by omega)⟩

end Acts

/-! ## Streams lose nothing and add nothing -/

def Task.message? : Task → Option Message
  | .handleQuery x => some (.query x)
  | .handleHit h => some (.hit h)
  | _ => none

/-- How many of some messages are on the stream from `p` to `q`. -/
def Flood.onStream (s : Flood) (p q : PeerID) (c : Message → Bool) : Nat :=
  s.work.countP fun w => w.place = .socket p q ∧ w.task.message?.any c = true

section Streams

variable {net : Setup} {s s' : Flood} {l : Label} {p q : PeerID} {c : Message → Bool}

@[simp] theorem message?_task (m : Message) : m.task.message? = some m := by
  cases m <;> rfl

theorem countP_work_stream (e : Effect) (r : PeerID) (th : Thread) :
    (e.work r th : Multiset Work).countP
        (fun w => w.place = .socket p q ∧ w.task.message?.any c = true) =
      if r = p then e.sent.countP (fun x => Event.isSentTo q c (.sent x.1 x.2)) else 0 := by
  rw [Multiset.coe_countP, Effect.work, List.countP_append, List.countP_append,
    List.countP_map, List.countP_map, List.countP_map, List.countP_eq_zero.mpr (by simp),
    List.countP_eq_zero.mpr (by simp), Nat.zero_add, Nat.zero_add]
  split
  · next h =>
      refine List.countP_congr fun x _ => ?_
      simp [Event.isSentTo, h]
  · next h =>
      rw [List.countP_eq_zero]
      intro x _
      simp [h]

theorem countP_singleton_eq_zero {P : PeerID → Event Message → Bool} {r : PeerID}
    {ev : Event Message} (h : P r ev = false) : [(r, ev)].countP (fun e => P e.1 e.2) = 0 := by
  rw [List.countP_singleton, h]
  rfl

/-- What a thread has to do is on no stream. -/
theorem onStream_add_threads {r : PeerID} {th : Thread} {tasks : List Task}
    (hwork : s'.work = s.work + (tasks.map (Work.mk (.thread r th)) : List Work)) :
    s'.onStream p q c = s.onStream p q c := by
  have hnew : ((tasks.map (Work.mk (.thread r th)) : List Work) : Multiset Work).countP
      (fun w => w.place = .socket p q ∧ w.task.message?.any c = true) = 0 := by
    refine Multiset.countP_eq_zero.mpr ?_
    intro w hw
    obtain ⟨task, -, rfl⟩ := List.mem_map.mp (Multiset.mem_coe.mp hw)
    simp
  rw [Flood.onStream, hwork, Multiset.countP_add, hnew, Nat.add_zero, Flood.onStream]

/-- **What was sent on a stream was received or is still on it.** -/
theorem streams (h : (flood net).Reachable s) (p q : PeerID) (c : Message → Bool) :
    s.count (ofPeer p (Event.isSentTo q c)) =
      s.count (ofPeer q (Event.isReceivedFrom p c)) + s.onStream p q c := by
  refine System.Reachable.invariant (I := fun s => s.count (ofPeer p (Event.isSentTo q c)) =
    s.count (ofPeer q (Event.isReceivedFrom p c)) + s.onStream p q c) ?_ ?_ h
  · rintro s rfl
    have hnone : (initialFlood net).onStream p q c = 0 := by
      refine Multiset.countP_eq_zero.mpr ?_
      intro w hw
      obtain ⟨r, -, rfl⟩ := List.mem_map.mp (Multiset.mem_coe.mp hw)
      simp
    rw [hnone]
    rfl
  · intro s l s' _ ih hl
    cases hl with
    | @run r th now task rest e halive hnow hwork hperform =>
        have hr : RunStep net s r th now task rest e := ⟨halive, hnow, hwork, hperform⟩
        have hbefore : s.onStream p q c = rest.countP
            (fun w => w.place = .socket p q ∧ w.task.message?.any c = true) := by
          rw [Flood.onStream, hwork, Multiset.countP_cons, if_neg (by simp), Nat.add_zero]
        have hafter : (s.after r th rest e).onStream p q c = s.onStream p q c +
            if r = p then e.sent.countP (fun x => Event.isSentTo q c (.sent x.1 x.2)) else 0 := by
          rw [hbefore, Flood.onStream, Flood.after, Multiset.countP_add, countP_work_stream]
        have hsent : e.history.countP (ofPeer p (Event.isSentTo q c) r) =
            if r = p then e.sent.countP (fun x => Event.isSentTo q c (.sent x.1 x.2)) else 0 := by
          rw [countP_ofPeer]
          congr 1
          refine countP_history hperform fun ev hev => ?_
          cases ev with
          | sent q' m => exact absurd rfl (hev q' m)
          | _ => rfl
        have hreceived : e.history.countP (ofPeer q (Event.isReceivedFrom p c) r) = 0 := by
          rw [countP_ofPeer, countP_events_eq_zero hr (fun _ _ => rfl), ite_self]
          intro ev hlog
          cases hlog <;> rfl
        rw [hr.count, hr.count, hafter, hsent, hreceived]
        omega
    | @takeMessage r task rest _ _ hwork | @takeBroadcast r task rest _ _ hwork =>
        refine ih.trans ?_
        congr 1
        rw [Flood.onStream, Flood.onStream, hwork, Multiset.countP_cons, Multiset.countP_cons,
          if_neg (by simp), if_neg (by simp)]
    | @command r cmd _ _ =>
        have hafter : Flood.onStream
            { s with
              work := s.work + (commandTasks net r cmd).map (Work.mk (.thread r .command))
              log := s.log ++ [(r, .command cmd)] } p q c = s.onStream p q c :=
          onStream_add_threads rfl
        rw [hafter, Flood.count, Flood.count, List.countP_append, List.countP_append,
          countP_singleton_eq_zero (Bool.and_false _), countP_singleton_eq_zero (Bool.and_false _)]
        exact ih
    | @wake r now _ _ _ =>
        have hafter : Flood.onStream
            { s with
              work := s.work + (mantainTasks (s.tables r) now).map
                (Work.mk (.thread r .mantain)) } p q c = s.onStream p q c :=
          onStream_add_threads rfl
        rw [hafter]
        exact ih
    | @deliver p' q' m rest _ hwork =>
        have hbefore : s.onStream p q c = rest.countP
            (fun w => w.place = .socket p q ∧ w.task.message?.any c = true) +
              if (p' = p ∧ q' = q) ∧ c m = true then 1 else 0 := by
          rw [Flood.onStream, hwork, Multiset.countP_cons]
          simp
        have hafter : Flood.onStream
            { s with
              work := Work.mk (.messagesQueue q') m.task ::ₘ rest
              log := s.log ++ [(q', .received p' m)] } p q c = rest.countP
            (fun w => w.place = .socket p q ∧ w.task.message?.any c = true) := by
          rw [Flood.onStream, Multiset.countP_cons, if_neg (by simp), Nat.add_zero]
        have hnew : [(q', Event.received p' m)].countP
            (fun e => ofPeer q (Event.isReceivedFrom p c) e.1 e.2) =
              if (p' = p ∧ q' = q) ∧ c m = true then 1 else 0 := by
          rw [List.countP_singleton]
          simp only [ofPeer, Event.isReceivedFrom, Bool.and_eq_true, decide_eq_true_eq]
          refine if_congr ?_ rfl rfl
          constructor
          · rintro ⟨h1, h2, h3⟩
            exact ⟨⟨h2, h1⟩, h3⟩
          · rintro ⟨⟨h1, h2⟩, h3⟩
            exact ⟨h2, h1, h3⟩
        rw [hafter, Flood.count, Flood.count, List.countP_append, List.countP_append, hnew]
        rw [countP_singleton_eq_zero (Bool.and_false _)]
        rw [Flood.count, Flood.count] at ih
        omega

end Streams

end P2PFileSharing
