import P2PFileSharing.Proofs.Hits

/-!
# How far a query gets

A peer that accepted a query and is to pass it on owes every neighbour but its
upstream a copy, until it has sent one; a peer a copy was sent to has the query
in its cache or the copy is still before it; and a peer with the file that
accepted the query owes an answer. When no copy is left anywhere, all three
debts are paid.

Only a copy accepted with its last TTL is not passed on. That can happen to a
peer close by, when a copy that came a long way is handled first.
-/

namespace P2PFileSharing

/-- The copies before `q`: received or being looked at, not cached yet. -/
def arrivalWeight (q : PeerID) (id : SMessageID) (r : PeerID) : Task → Nat
  | .handleQuery x | .cacheQuery x => if r = q ∧ (x.id == id) = true then 1 else 0
  | _ => 0

/-- The message its peer created and has not cached yet. -/
def creationWeight (id : SMessageID) (_ : PeerID) : Task → Nat
  | .cacheOwn x _ => if (x.id == id) = true then 1 else 0
  | _ => 0

def Message.isHitOf (id : SMessageID) (q : PeerID) : Message → Bool
  | .query _ => false
  | .hit h => (h.id == id) && decide (h.origin = q)

/-- The hits `q` answered with that it has not sent. -/
def outgoingWeight (q : PeerID) (id : SMessageID) (r : PeerID) : Task → Nat
  | .relayHit h => if r = q ∧ h.origin = q ∧ (h.id == id) = true then 1 else 0
  | _ => 0

/-- A peer near enough that it passes a query on, if it has not the file. -/
def Near (net : Setup) (s : Flood) (id : SMessageID) (p : PeerID) : Prop :=
  p = id.peerId ∨ ∃ n ≤ 4, Depth net s id p n

section Reach

variable {net : Setup} {s s' : Flood} {p q r : PeerID} {id : SMessageID} {th : Thread}
  {now : Int} {task : Task} {rest : Multiset Work} {e : Effect} {f : Str}

theorem act_here {t : Tables} {x : Query} (h : perform net r now t (.cacheQuery x) = some e) :
    .act x ∈ e.here := by
  simp only [perform, Option.some.injEq] at h
  subst h
  exact List.mem_singleton_self _

/-- A query's copies all ask for its file. -/
theorem request_of_issued (hs : (flood net).Reachable s) {x x₀ : Query} (hx : s.Copy x)
    (h₀ : s.Issued x₀) (hr : x₀.request = .query f) (hid : (x.id == x₀.id) = true) :
    x.request = .query f := by
  obtain ⟨y, n, u, hy, rfl⟩ := hx
  have hsame : y = x₀ := issued_unique hs hy h₀ hid
  show Request.decrease^[n] y.request = _
  rw [hsame, hr, decrease_query]

theorem near_back (hs : (flood net).Reachable s) (hc : s.NothingRemoved) (hg : Grows s s')
    (hc' : s'.NothingRemoved) {u : PeerID} (hu : s.upstream p id = some u)
    (hnear : Near net s' id p) : Near net s id p := by
  rcases hnear with hp | ⟨n, hn, hd⟩
  · exact .inl hp
  · obtain ⟨m, hm⟩ := (reachable_onPath hs hc).2 p id u hu
    refine .inr ⟨m, ?_, hm⟩
    rw [(hm.grows hg hc').unique hd]
    exact hn

/-- Only creating and accepting put an id into `m_queries`. -/
theorem upstream_new (hs : (flood net).Reachable s) (hc : s.NothingRemoved)
    (hr : RunStep net s r th now task rest e) (hnone : s.upstream p id = none)
    (hsome : (s.after r th rest e).upstream p id ≠ none) :
    p = r ∧ ((∃ x w, task = .cacheOwn x w ∧ (x.id == id) = true) ∨
      ∃ x, task = .cacheQuery x ∧ (x.id == id) = true) := by
  obtain ⟨u, hu⟩ := Option.ne_none_iff_exists'.mp hsome
  by_cases hp : p = r
  · subst hp
    refine ⟨rfl, ?_⟩
    rw [after_upstream] at hu
    rcases writes_queries (perform_writes hr.perform) hu with
      hold | ⟨-, ⟨x, w, rfl, hid, -⟩ | ⟨x, rfl, hid, -⟩ | ⟨x, rfl, hid⟩⟩
    · rw [show (s.tables p).queries.find? id = none from hnone] at hold
      cases hold
    · exact .inl ⟨x, w, rfl, hid⟩
    · exact .inr ⟨x, rfl, hid⟩
    · -- A hit is only relayed by a peer of the tree.
      obtain ⟨n, hn⟩ := (reachable_onPath hs hc).1 _ hr.mem
      obtain ⟨v, hv⟩ := hn.cached
      have hold : s.upstream p x.id = some v := hv
      rw [s.upstream_congr p hid, hnone] at hold
      cases hold
  · rw [other_upstream hp, hnone] at hu
    cases hu

/-! ## Copies owed to neighbours -/

/-- A copy of a query that came to a peer near the originator has a hop left. -/
theorem CameFrom.goes_on {x : Query} (h : CameFrom net s x r) (hr : r ≠ x.id.peerId)
    (hu : s.upstream r x.id = some x.sender) (hnear : Near net s x.id r)
    (hreq : x.request = .query f) : ¬(x.request.exhausted = true ∨ x.timeToLive - 1 ≤ 0) := by
  obtain ⟨y, n, -, hcopy, hd⟩ := h.depth hr hu
  have hn : n + 1 ≤ 4 := by
    rcases hnear with hp | ⟨m, hm, hdm⟩
    · exact absurd hp hr
    · rw [hd.unique hdm]
      exact hm
  have httl : x.timeToLive = ttl - (n : Int) := by
    rw [hcopy]
    rfl
  rw [hreq, httl]
  simp only [Request.exhausted, ttl, Bool.false_eq_true, false_or]
  omega

theorem Near.congr {id' : SMessageID} (h : Near net s id p) (hid : (id' == id) = true) :
    Near net s id' p := by
  rcases h with hp | ⟨n, hn, hd⟩
  · exact .inl (hp.trans (SMessageID.beq_iff.mp hid).1.symm)
  · exact .inr ⟨n, hn, hd.congr (BEq.symm hid)⟩

/-- What a peer still hands on to a neighbour stays in hand until it is sent. -/
theorem linkWeight_kept (hs : (flood net).Reachable s) (hc : s.NothingRemoved)
    (hr : RunStep net s r th now task rest e) {x₀ : Query} (h₀ : s.Issued x₀)
    (hreq : x₀.request = .query f) (hid₀ : x₀.id = id)
    (hfile : p ≠ id.peerId → net.hasFile p f = false) (hnear : Near net s id p)
    (hlink : q ∈ net.peerIdToSockfd p) (hup : s.upstream p id ≠ some q) :
    linkWeight p q id r task ≤
      e.gain (linkWeight p q id) r + e.history.countP (copySent p q id r) := by
  have hk := reachable_known hs _ hr.mem
  have hpath := (reachable_onPath hs hc).1 _ hr.mem
  have hlive := (reachable_live hs hc).1 _ hr.mem
  have hperform := hr.perform
  have hon : ∀ task', task' ∈ e.here →
      linkWeight p q id r task ≤ linkWeight p q id r task' →
      linkWeight p q id r task ≤
        e.gain (linkWeight p q id) r + e.history.countP (copySent p q id r) := by
    intro task' hmem hle
    have hgain := le_gain_here (f := linkWeight p q id) (p := r) hmem
    omega
  by_cases hzero : linkWeight p q id r task = 0
  · omega
  have hask : ∀ {x}, s.Copy x → (x.id == id) = true → x.request = .query f :=
    fun hx hid => request_of_issued hs hx h₀ hreq (by rw [hid₀]; exact hid)
  cases task with
  | cacheOwn x w =>
      simp only [perform, Option.some.injEq] at hperform
      subst hperform
      exact hon (.broadcastOwn x w) (by simp [Effect.here]) (Nat.le_refl _)
  | broadcastOwn x w =>
      simp only [perform, Option.some.injEq] at hperform
      subst hperform
      refine hon (.lockSendBuffer x (-1)) (by simp [Effect.here]) ?_
      have hne : (-1 : PeerID) ≠ q := by
        rintro rfl
        exact absurd (peerIdToSockfd_nonneg hlink) (by decide)
      simp only [linkWeight, ne_eq, hne, not_false_eq_true, and_true]
      exact Nat.le_refl _
  | act x =>
      simp only [linkWeight, ite_eq_right_iff, Nat.one_ne_zero, imp_false, not_not] at hzero
      obtain ⟨rfl, hid⟩ := hzero
      have hx := hask hk hid
      have hnot : r ≠ id.peerId := by
        rw [← (SMessageID.beq_iff.mp hid).1]
        exact hlive.2
      simp only [perform, Option.some.injEq] at hperform
      subst hperform
      refine hon (.relay x) ?_ (Nat.le_refl _)
      simp [actOnRequest, hx, hfile hnot, Effect.here]
  | relay x =>
      simp only [linkWeight, ite_eq_right_iff, Nat.one_ne_zero, imp_false, not_not] at hzero
      obtain ⟨rfl, hid⟩ := hzero
      have hx := hask hk hid
      obtain ⟨hcame, hu⟩ := hpath
      have hgo := hcame.goes_on hlive.2 hu (hnear.congr hid) hx
      have hne : x.sender ≠ q := by
        intro heq
        refine hup ?_
        rw [← s.upstream_congr r hid, ← heq]
        exact hu
      simp only [perform, Query.relayed, if_neg hgo, Option.some.injEq] at hperform
      subst hperform
      refine hon (.lockSendBuffer _ x.sender) (List.mem_singleton_self _) ?_
      simp [linkWeight, hid, hne]
  | lockSendBuffer x exclude =>
      simp only [linkWeight, ite_eq_right_iff, Nat.one_ne_zero, imp_false, not_not] at hzero
      obtain ⟨rfl, hid, hne⟩ := hzero
      simp only [perform] at hperform
      split at hperform
      · cases hperform
      · injection hperform with hperform
        subst hperform
        refine hon (.sendTo q x) ?_ ?_
        · simp [Effect.here, hlink, Ne.symm hne]
        · simp [linkWeight, hid, hne]
  | sendTo q' x =>
      simp only [linkWeight, ite_eq_right_iff, Nat.one_ne_zero, imp_false, not_not] at hzero
      obtain ⟨rfl, hid, rfl⟩ := hzero
      simp only [perform, Option.some.injEq] at hperform
      subst hperform
      have hsent : (Effect.history { tables := s.tables r, sent := [(q', .query x)] }).countP
          (copySent r q' id r) = 1 := by
        simp [Effect.history, copySent, ofPeer, Event.isSentTo, Message.isQueryOf, hid]
      rw [hsent]
      have hle := @linkWeight_le_one r q' r id (.sendTo q' x)
      omega
  | _ => exact absurd rfl hzero

/-- An id somebody has in `m_queries` was issued before. -/
theorem issued_of_upstream (hs : (flood net).Reachable s) (hu : s.upstream p id ≠ none)
    (hg : Grows s s') (hs' : (flood net).Reachable s') {x₀ : Query} (h₀ : s'.Issued x₀)
    (hid₀ : x₀.id = id) : s.Issued x₀ := by
  obtain ⟨u, hu⟩ := Option.ne_none_iff_exists'.mp hu
  obtain ⟨x, hx, hid⟩ := queries_issued hs p hu
  rw [issued_unique hs' h₀ (hx.grows hg) (by rw [hid₀]; exact BEq.symm hid)]
  exact hx

/-- **A peer that passes a query on owes a copy to every neighbour but its
upstream**, or has sent it. -/
theorem copies_owed (h : (flood net).Reachable s) (hc : s.NothingRemoved) {x₀ : Query}
    (h₀ : s.Issued x₀) (hreq : x₀.request = .query f) (hid₀ : x₀.id = id)
    (hfile : p ≠ id.peerId → net.hasFile p f = false) (hnear : Near net s id p)
    (hlink : q ∈ net.peerIdToSockfd p) (hp : s.upstream p id ≠ none)
    (hup : s.upstream p id ≠ some q) :
    1 ≤ s.total (linkWeight p q id) + s.count (copySent p q id) := by
  let G : Flood → Prop := fun s => s.Issued x₀ ∧ Near net s id p ∧ s.upstream p id ≠ none ∧
    s.upstream p id ≠ some q
  have hback : ∀ s s', (flood net).Reachable s → (flood net).Reachable s' → s.NothingRemoved →
      s'.NothingRemoved → Grows s s' → s.upstream p id ≠ none → G s' → G s := by
    rintro s s' hs hs' hcs hcs' hg hp ⟨h₀, hnear, -, hup⟩
    obtain ⟨u, hu⟩ := Option.ne_none_iff_exists'.mp hp
    refine ⟨issued_of_upstream hs hp hg hs' h₀ hid₀, near_back hs hcs hg hcs' hu hnear, hp, ?_⟩
    rw [hu, ← hg.upstream hcs' hu]
    exact hup
  refine kept_rule (G := G) (nothingRemoved_prefixClosed net) ?_ ?_ ?_ ?_ ?_ h hc
    ⟨h₀, hnear, hp, hup⟩
  · exact fun r task hstart => linkWeight_strand r task (by rw [hstart.strand]; simp)
  · rintro ⟨h₀, -⟩
    cases h₀
  · intro s s' new hs hs' hcs hcs' hg htables _ _ hG
    refine hback s s' hs hs' hcs hcs' hg ?_ hG
    rw [Flood.upstream, ← htables]
    exact hG.2.2.1
  · rintro s r th now task rest e hs hcs hcs' hr ⟨h₀, hnear, -, hup⟩ -
    exact linkWeight_kept hs hcs hr h₀ hreq hid₀ hfile hnear hlink hup
  · intro s r th now task rest e hs hcs hcs' hr hnot hG
    have hnone : s.upstream p id = none := by
      by_contra hne
      exact hnot (hback _ _ hs (.step _ hs hr.step) hcs hcs' hr.grows hne hG)
    have hperform := hr.perform
    have hmint : ∀ task', task' ∈ e.here → linkWeight p q id r task' = 1 →
        1 ≤ e.gain (linkWeight p q id) r + e.history.countP (copySent p q id r) := by
      intro task' hmem hone
      have hgain := le_gain_here (f := linkWeight p q id) (p := r) hmem
      omega
    obtain ⟨rfl, ⟨x, w, rfl, hid⟩ | ⟨x, rfl, hid⟩⟩ := upstream_new hs hcs hr hnone hG.2.2.1
    · simp only [perform, Option.some.injEq] at hperform
      subst hperform
      exact hmint (.broadcastOwn x w) (by simp [Effect.here]) (if_pos ⟨rfl, hid⟩)
    · exact hmint (.act x) (act_here hperform) (if_pos ⟨rfl, hid⟩)

/-! ## Copies on their way -/

/-- **A copy that was sent is before its receiver until the receiver has the id.** -/
theorem copies_arrive (h : (flood net).Reachable s) (hc : s.NothingRemoved)
    (hsent : 0 < s.count (copySent p q id)) (hnone : s.upstream q id = none) :
    1 ≤ s.total (arrivalWeight q id) := by
  let G : Flood → Prop := fun s => 0 < s.count (copySent p q id) ∧ s.upstream q id = none
  have hnotSent : ∀ r ev, (∀ q m, ev ≠ .sent q m) → copySent p q id r ev = false := by
    intro r ev hev
    cases ev with
    | sent q' m => exact absurd rfl (hev q' m)
    | _ => exact Bool.and_false _
  have hback : ∀ s s', s'.NothingRemoved → Grows s s' → s'.upstream q id = none →
      s.upstream q id = none := by
    intro s s' hc hg hnone
    by_contra hne
    obtain ⟨u, hu⟩ := Option.ne_none_iff_exists'.mp hne
    rw [hg.upstream hc hu] at hnone
    cases hnone
  have hkept := kept_rule (f := arrivalWeight q id) (P := fun _ _ => false) (G := G)
    (nothingRemoved_prefixClosed net) ?_ ?_ ?_ ?_ ?_ h hc ⟨hsent, hnone⟩
  · have hzero : s.count (fun _ _ => false) = 0 := by simp [Flood.count]
    omega
  · intro r task hstart
    have hnone := hstart.strand
    cases task <;> first | rfl | cases hnone
  · rintro ⟨hsent, -⟩
    exact absurd hsent (Nat.lt_irrefl 0)
  · rintro s s' new - - - hcs' hg - hlog hnew ⟨hsent, hnone⟩
    refine ⟨?_, hback s s' hcs' hg hnone⟩
    rwa [Flood.count, hlog, List.countP_append,
      countP_quiet (fun _ _ => Bool.and_false _) (fun _ _ _ => Bool.and_false _) hnew,
      Nat.add_zero] at hsent
  · rintro s r th now task rest e hs hcs hcs' hr ⟨-, hnone⟩ ⟨-, hnone'⟩
    by_cases hzero : arrivalWeight q id r task = 0
    · omega
    have hperform := hr.perform
    cases task with
    | handleQuery x =>
        simp only [arrivalWeight, ite_eq_right_iff, Nat.one_ne_zero, imp_false, not_not] at hzero
        obtain ⟨rfl, hid⟩ := hzero
        have hnew : (s.tables r).isQueryCached x.id = false := by
          rw [isQueryCached_eq_false, UnorderedMap.find?_congr _ hid]
          exact hnone
        simp only [perform, hnew, Option.some.injEq] at hperform
        have hmem : Task.cacheQuery x ∈ e.here := by
          rw [← hperform]
          exact List.mem_singleton_self _
        have hgain := le_gain_here (f := arrivalWeight r id) (p := r) hmem
        exact Nat.le_trans hgain (Nat.le_add_right _ _)
    | cacheQuery x =>
        simp only [arrivalWeight, ite_eq_right_iff, Nat.one_ne_zero, imp_false, not_not] at hzero
        obtain ⟨rfl, hid⟩ := hzero
        exact absurd hnone' (cacheQuery_knows hs hcs hr hid)
    | _ => exact absurd rfl hzero
  · rintro s r th now task rest e hs hcs hcs' hr hnot ⟨hsent, hnone⟩
    have hold : s.count (copySent p q id) = 0 := by
      by_contra hne
      exact hnot ⟨Nat.pos_of_ne_zero hne, hback _ _ hcs' hr.grows hnone⟩
    rw [hr.count, hold, Nat.zero_add, countP_history hr.perform (hnotSent r)] at hsent
    obtain ⟨⟨q', m⟩, hmem, hP⟩ := List.countP_pos_iff.mp hsent
    simp only [copySent, ofPeer, Event.isSentTo, Bool.and_eq_true, decide_eq_true_eq] at hP
    obtain ⟨-, rfl, hm⟩ := hP
    cases m with
    | query x =>
        have hgain := le_gain_sent (f := arrivalWeight q' id) (p := r) hmem
        have hone : arrivalWeight q' id q' (Message.query x).task = 1 := if_pos ⟨rfl, hm⟩
        omega
    | hit x => cases hm

/-! ## The originator -/

/-- **An issued id is in its originator's cache** as soon as it was put there. -/
theorem creation_owed (h : (flood net).Reachable s) (hc : s.NothingRemoved) {x₀ : Query}
    (h₀ : s.Issued x₀) (hid₀ : x₀.id = id) (hnone : s.upstream id.peerId id = none) :
    1 ≤ s.total (creationWeight id) := by
  let G : Flood → Prop := fun s => s.Issued x₀ ∧ s.upstream id.peerId id = none
  have hkept := kept_rule (f := creationWeight id) (P := fun _ _ => false) (G := G)
    (nothingRemoved_prefixClosed net) ?_ ?_ ?_ ?_ ?_ h hc ⟨h₀, hnone⟩
  · have hzero : s.count (fun _ _ => false) = 0 := by simp [Flood.count]
    omega
  · intro r task hstart
    have hnone := hstart.strand
    cases task <;> first | rfl | cases hnone
  · rintro ⟨h₀, -⟩
    cases h₀
  · rintro s s' new - - - - - htables hlog hnew ⟨h₀, hnone⟩
    refine ⟨?_, ?_⟩
    · have hmem : (x₀.id.peerId, Event.issued x₀.id (.query x₀)) ∈ s'.log := h₀
      rw [hlog] at hmem
      rcases List.mem_append.mp hmem with hmem | hmem
      · exact hmem
      · rcases hnew _ hmem with ⟨cmd, heq⟩ | ⟨q', m, heq⟩ <;> cases heq
    · rw [Flood.upstream, ← htables]
      exact hnone
  · rintro s r th now task rest e hs hcs hcs' hr - ⟨-, hnone'⟩
    by_cases hzero : creationWeight id r task = 0
    · omega
    cases task with
    | cacheOwn x w =>
        simp only [creationWeight, ite_eq_right_iff, Nat.one_ne_zero, imp_false, not_not] at hzero
        have hp : x.id.peerId = r := (reachable_known hs _ hr.mem).2.1
        have hpeer : id.peerId = r := by rw [← (SMessageID.beq_iff.mp hzero).1, hp]
        rw [hpeer, after_upstream, UnorderedMap.find?_congr _ (BEq.symm hzero)] at hnone'
        cases hold : (s.tables r).queries.find? x.id with
        | none =>
            rw [perform_cacheOwn hr.perform hold] at hnone'
            cases hnone'
        | some u =>
            have hnew := hr.grows.upstream hcs' (show s.upstream r x.id = some u from hold)
            rw [after_upstream, hnone'] at hnew
            cases hnew
    | _ => exact absurd rfl hzero
  · rintro s r th now task rest e hs hcs hcs' hr hnot ⟨h₀, hnone⟩
    have hold : ¬s.Issued x₀ := by
      intro hx
      refine hnot ⟨hx, ?_⟩
      by_contra hne
      obtain ⟨u, hu⟩ := Option.ne_none_iff_exists'.mp hne
      rw [hr.grows.upstream hcs' hu] at hnone
      cases hnone
    rcases hr.issued h₀ with hx | ⟨t, w, hcr, heq⟩
    · exact absurd hx hold
    · have hgain := le_gain_here (f := creationWeight id) (p := r) (creates_here hcr hr.perform)
      have hone : creationWeight id r (.cacheOwn (newQuery r (s.tables r) now t) w) = 1 := by
        refine if_pos ?_
        rw [← heq, hid₀]
        exact BEq.rfl
      omega

/-! ## Answers -/

/-- **A peer with the file that accepted a query owes an answer.** -/
theorem answer_owed (h : (flood net).Reachable s) (hc : s.NothingRemoved) {x₀ : Query}
    (h₀ : s.Issued x₀) (hreq : x₀.request = .query f) (hid₀ : x₀.id = id)
    (hq : q ≠ id.peerId) (hfile : net.hasFile q f = true) (hu : s.upstream q id ≠ none) :
    1 ≤ s.total (actWeight q id) + s.count (ofPeer q (Event.isAnswered id)) := by
  let G : Flood → Prop := fun s => s.Issued x₀ ∧ s.upstream q id ≠ none
  refine kept_rule (G := G) (nothingRemoved_prefixClosed net) ?_ ?_ ?_ ?_ ?_ h hc ⟨h₀, hu⟩
  · intro r task hstart
    have hnone := hstart.strand
    cases task <;> first | rfl | cases hnone
  · rintro ⟨h₀, -⟩
    cases h₀
  · rintro s s' new hs hs' - - hg htables - - ⟨h₀, hu⟩
    have hold : s.upstream q id ≠ none := by
      rw [Flood.upstream, ← htables]
      exact hu
    exact ⟨issued_of_upstream hs hold hg hs' h₀ hid₀, hold⟩
  · rintro s r th now task rest e hs hcs hcs' hr ⟨h₀, -⟩ -
    by_cases hzero : actWeight q id r task = 0
    · omega
    cases task with
    | act x =>
        simp only [actWeight, ite_eq_right_iff, Nat.one_ne_zero, imp_false, not_not] at hzero
        obtain ⟨rfl, hid⟩ := hzero
        have hx : x.request = .query f :=
          request_of_issued hs (reachable_known hs _ hr.mem) h₀ hreq (by rw [hid₀]; exact hid)
        have hanswers : Answers net r (s.tables r) x.request (.query f) := by
          rw [hx]
          exact .query f hfile
        have hmem := perform_answers hanswers hr.perform
        have hpos : 0 < e.history.countP (ofPeer r (Event.isAnswered id) r) :=
          List.countP_pos_iff.mpr ⟨_, List.mem_append_left _ hmem,
            by simp [ofPeer, Event.isAnswered, hid]⟩
        have hle : actWeight r id r (.act x) ≤ 1 := ite_le_one
        omega
    | _ => exact absurd rfl hzero
  · rintro s r th now task rest e hs hcs hcs' hr hnot ⟨h₀, hu⟩
    have hnone : s.upstream q id = none := by
      by_contra hne
      exact hnot ⟨issued_of_upstream hs hne hr.grows (.step _ hs hr.step) h₀ hid₀, hne⟩
    have hperform := hr.perform
    obtain ⟨rfl, ⟨x, w, rfl, hid⟩ | ⟨x, rfl, hid⟩⟩ := upstream_new hs hcs hr hnone hu
    · have hp : x.id.peerId = q := (reachable_known hs _ hr.mem).2.1
      rw [(SMessageID.beq_iff.mp hid).1] at hp
      exact absurd hp.symm hq
    · have hgain := le_gain_here (f := actWeight q id) (p := q) (act_here hr.perform)
      have hone : actWeight q id q (.act x) = 1 := if_pos ⟨rfl, hid⟩
      omega

/-- **A hit a peer answered with is sent, or about to be.** -/
theorem answer_sent (h : (flood net).Reachable s) (hc : s.NothingRemoved)
    (hanswered : 0 < s.count (ofPeer q (Event.isAnswered id))) :
    1 ≤ s.total (outgoingWeight q id) +
      s.count (ofPeer q (Event.isSent (Message.isHitOf id q))) := by
  refine kept_rule (G := fun s => 0 < s.count (ofPeer q (Event.isAnswered id)))
    (nothingRemoved_prefixClosed net) ?_ ?_ ?_ ?_ ?_ h hc hanswered
  · intro r task hstart
    have hnone := hstart.strand
    cases task <;> first | rfl | cases hnone
  · exact Nat.lt_irrefl 0
  · intro s s' new _ _ _ _ _ _ hlog hnew hG
    rwa [Flood.count, hlog, List.countP_append,
      countP_quiet (fun _ _ => Bool.and_false _) (fun _ _ _ => Bool.and_false _) hnew,
      Nat.add_zero] at hG
  · intro s r th now task rest e hs hcs hcs' hr _ _
    by_cases hzero : outgoingWeight q id r task = 0
    · omega
    cases task with
    | relayHit x =>
        simp only [outgoingWeight, ite_eq_right_iff, Nat.one_ne_zero, imp_false, not_not] at hzero
        obtain ⟨rfl, horigin, hid⟩ := hzero
        obtain ⟨u, hsent, -⟩ := sent_relayHit hs hcs hr
        have hmem : Event.sent u (.hit x) ∈ e.history := by
          rw [Effect.history, hsent]
          exact List.mem_append_right _ (List.mem_singleton_self _)
        have hpos : 0 < e.history.countP (ofPeer r (Event.isSent (Message.isHitOf id r)) r) :=
          List.countP_pos_iff.mpr
            ⟨_, hmem, by simp [ofPeer, Event.isSent, Message.isHitOf, horigin, hid]⟩
        have hle : outgoingWeight r id r (.relayHit x) ≤ 1 := ite_le_one
        omega
    | _ => exact absurd rfl hzero
  · intro s r th now task rest e hs hcs hcs' hr hnot hG
    have hold : s.count (ofPeer q (Event.isAnswered id)) = 0 := Nat.eq_zero_of_not_pos hnot
    rw [hr.count, hold, Nat.zero_add] at hG
    obtain ⟨ev, hev, hP⟩ := List.countP_pos_iff.mp hG
    simp only [ofPeer, Bool.and_eq_true, decide_eq_true_eq] at hP
    obtain ⟨rfl, hP⟩ := hP
    rcases Effect.mem_history hev with hev | ⟨y, -, rfl⟩
    · have hlog := perform_logs hr.perform _ hev
      cases hlog with
      | answered x kind ha =>
          have hgain := le_gain_here (f := outgoingWeight r id) (p := r)
            (answers_here ha hr.perform)
          have hone : outgoingWeight r id r (.relayHit (newHit net r kind x.id)) = 1 :=
            if_pos ⟨rfl, rfl, hP⟩
          omega
      | _ => cases hP
    · cases hP

/-! ## The copy a peer accepted -/

/-- A copy that arrived was sent. -/
def Task.WasSent (s : Flood) (p : PeerID) : Task → Prop
  | .handleQuery x | .cacheQuery x => (x.sender, .sent p (.query x)) ∈ s.log
  | _ => True

/-- **A peer's upstream sent it a copy.** -/
theorem upstream_sent (h : (flood net).Reachable s) (hc : s.NothingRemoved) {u : PeerID}
    (hp : p ≠ id.peerId) (hu : s.upstream p id = some u) :
    ∃ x : Query, (x.id == id) = true ∧ (u, .sent p (.query x)) ∈ s.log := by
  have hboth := run_rule (I := fun s p task => task.WasSent s p)
    (J := fun s p t => ∀ id u, t.queries.find? id = some u → p = id.peerId ∨
      ∃ x : Query, (x.id == id) = true ∧ (u, .sent p (.query x)) ∈ s.log)
    (nothingRemoved_prefixClosed net) ?_ ?_ ?_ ?_ ?_ h hc
  · rcases hboth.2 p id u hu with heq | hx
    · exact absurd heq hp
    · exact hx
  · intro s p task hstart
    have hnone := hstart.strand
    cases task <;> trivial
  · intro p id u hu
    cases hu
  · intro s s' p task hg _ hI
    cases task with
    | handleQuery x | cacheQuery x => exact hg.mem hI
    | _ => trivial
  · intro s s' p t hg _ hJ id u hu
    rcases hJ id u hu with heq | ⟨x, hid, hx⟩
    · exact .inl heq
    · exact .inr ⟨x, hid, hg.mem hx⟩
  · intro s p th now task rest e hs hcs hcs' hr hI hJ
    refine ⟨?_, ?_, ?_⟩
    · intro task' _ hl
      cases hl with
      | accept x hnew => exact hr.grows.mem hI
      | ownTest test n ht | test x ht => cases ht <;> trivial
      | _ => trivial
    · intro q m hmem hl
      cases hl with
      | query q x =>
          have hsender : x.sender = p := (reachable_known hs _ hr.mem).2.1
          show (x.sender, Event.sent q (.query x)) ∈ s.log ++ _
          rw [hsender]
          exact List.mem_append_right _ (List.mem_map_of_mem
            (List.mem_append_right _ (List.mem_map.mpr ⟨_, hmem, rfl⟩)))
      | hit x hv => trivial
    · intro hw id u hu
      rcases writes_queries hw hu with hold | ⟨hnone, ⟨x, w, rfl, hid, -⟩ | ⟨x, rfl, hid, rfl⟩ |
        ⟨x, rfl, hid⟩⟩
      · rcases hJ p id u hold with heq | ⟨x, hid, hx⟩
        · exact .inl heq
        · exact .inr ⟨x, hid, hr.grows.mem hx⟩
      · have hx : x.id.peerId = p := (reachable_known hs _ hr.mem).2.1
        rw [← (SMessageID.beq_iff.mp hid).1]
        exact .inl hx.symm
      · exact .inr ⟨x, hid, hr.grows.mem hI⟩
      · obtain ⟨n, hn⟩ := (reachable_onPath hs hcs).1 _ hr.mem
        obtain ⟨v, hv⟩ := hn.cached
        have hold : (s.tables p).queries.find? x.id = some v := hv
        rw [UnorderedMap.find?_congr _ hid, hnone] at hold
        cases hold

/-! ## Nothing left to do -/

/-- **A quiet query is one hop further on**: from a peer that passes it on it has
reached every neighbour. -/
theorem reaches_neighbour (h : (flood net).Reachable s) (hc : s.NothingRemoved) {x₀ : Query}
    (h₀ : s.Issued x₀) (hreq : x₀.request = .query f) (hid₀ : x₀.id = id)
    (hsent : s.total (linkWeight p q id) = 0) (harrived : s.total (arrivalWeight q id) = 0)
    (hfile : p ≠ id.peerId → net.hasFile p f = false) (hnear : Near net s id p)
    (hlink : q ∈ net.peerIdToSockfd p) (hp : s.upstream p id ≠ none) :
    s.upstream q id ≠ none := by
  by_cases hup : s.upstream p id = some q
  · obtain ⟨n, hn⟩ := (reachable_onPath h hc).2 p id q hup
    cases hn with
    | origin hlive =>
        rw [show s.upstream id.peerId id = some (-1) from hlive] at hup
        injection hup with hup
        rw [← hup] at hlink
        exact absurd (peerIdToSockfd_nonneg hlink) (by decide)
    | @hop _ u n hne _ hu hd =>
        rw [hu] at hup
        injection hup with hup
        subst hup
        obtain ⟨v, hv⟩ := hd.cached
        rw [hv]
        exact Option.some_ne_none v
  · have howed := copies_owed h hc h₀ hreq hid₀ hfile hnear hlink hp hup
    intro hnone
    have harrive := copies_arrive h hc (p := p) (by omega) hnone
    omega

end Reach

end P2PFileSharing
