import P2PFileSharing.Proofs.Home
import P2PFileSharing.Proofs.Sequential

/-!
# The reverse path

While nothing is removed, `m_queries` of all peers together hold, for each id, a
tree whose root is the originator: a peer's upstream is a neighbour that is one
hop nearer. Every copy of the query carries how deep its sender is in the tree,
as what is left of its TTL and of its replicate factor.

That comes in two rounds. First, nothing knows an id before its originator has
cached it, so the originator never takes its own query for a new one. Then, with
the message thread doing one thing at a time, the copy a peer acts on is the one
it cached.
-/

namespace P2PFileSharing

theorem Grows.upstream {s s' : Flood} (h : Grows s s') (hc : s'.NothingRemoved) {p : PeerID}
    {id : SMessageID} {u : PeerID} (hu : s.upstream p id = some u) :
    s'.upstream p id = some u :=
  h.queries hc p id u hu

/-- What the first round says about tasks. -/
def Task.Live (s : Flood) (p : PeerID) : Task → Prop
  | .broadcastOwn x _ | .handleQuery x | .lockSendBuffer x _ | .sendTo _ x => s.Live x.id
  | .cacheQuery x | .act x | .relay x => s.Live x.id ∧ p ≠ x.id.peerId
  | .relayHit h => s.Live h.id ∧ p ≠ h.id.peerId
  | .handleHit h | .record h _ | .takeWait h | .startTransfers h _ => s.Live h.id
  | _ => True

/-- Nothing is taken for new at home, and no hit is passed on there. -/
def Task.Away (p : PeerID) : Task → Prop
  | .cacheQuery x | .act x | .relay x => p ≠ x.id.peerId
  | .relayHit h => p ≠ h.id.peerId
  | _ => True

section Live

variable {net : Setup} {s s' : Flood}

theorem live_of_home (h : (flood net).Reachable s) (hc : s.NothingRemoved) {id : SMessageID}
    (hid : s.CachedAtHome id) : s.Live id := by
  refine hid.live h ?_
  intro hevicted
  obtain ⟨id', -, hmem⟩ := hevicted
  cases hc _ hmem

theorem reachable_away (h : (flood net).Reachable s) (hc : s.NothingRemoved) :
    ∀ w ∈ s.work, w.task.Away w.place.owner := by
  refine tasks_rule (I := fun _ p task => task.Away p) (nothingRemoved_prefixClosed net)
    ?_ ?_ ?_ h hc
  · intro s p task hstart
    have hnone := hstart.strand
    cases task <;> trivial
  · exact fun _ _ _ _ _ _ hk => hk
  · intro s p th now task rest e hs hcs _ hr hI
    constructor
    · intro task' _ hl
      cases hl with
      | accept x hnew =>
          intro hp
          have hlive : s.upstream x.id.peerId x.id = some (-1) :=
            live_of_home hs hcs ((reachable_fromHome hs).1 _ hr.mem x.id rfl)
          rw [← hp, show s.upstream p x.id = none from hnew] at hlive
          cases hlive
      | onward x hme httl => exact fun hp => hme hp.symm
      | act | relay | answer => exact hI
      | ownTest test n ht | test x ht => cases ht <;> trivial
      | _ => trivial
    · intro q m _ hsend
      cases hsend <;> trivial

/-- **Nothing knows an id that its originator has not cached.** -/
theorem reachable_live (h : (flood net).Reachable s) (hc : s.NothingRemoved) :
    (∀ w ∈ s.work, w.task.Live s w.place.owner) ∧
      ∀ p id u, s.upstream p id = some u → s.Live id := by
  have hhome := reachable_fromHome h
  refine ⟨?_, fun p id u hu => live_of_home h hc (hhome.2 p id u hu)⟩
  intro w hw
  have hlive : ∀ id, w.task.carried? = some id → s.Live id :=
    fun id hid => live_of_home h hc (hhome.1 w hw id hid)
  have haway := reachable_away h hc w hw
  generalize w.task = task at hlive haway
  cases task with
  | cacheQuery | act | relay | relayHit => exact ⟨hlive _ rfl, haway⟩
  | broadcastOwn | handleQuery | lockSendBuffer | sendTo | handleHit | record | takeWait
  | startTransfers => exact hlive _ rfl
  | _ => trivial

/-- What is being cached is not in `m_queries` yet. -/
def Flood.Uncached (s : Flood) : Prop :=
  ∀ w ∈ s.work, ∀ x, w.task = .cacheQuery x → s.upstream w.place.owner x.id = none

theorem leads_cacheQuery {me : PeerID} {now : Int} {t : Tables} {task : Task} {x : Query}
    (h : Leads net me now t task (.cacheQuery x)) :
    task = .handleQuery x ∧ t.queries.find? x.id = none := by
  generalize htask' : Task.cacheQuery x = task' at h
  cases h with
  | accept y hnew =>
      injection htask' with htask'
      subst htask'
      exact ⟨rfl, hnew⟩
  | ownTest test n ht | test y ht => cases ht <;> cases htask'
  | _ => cases htask'

theorem uncached_step {l : Label} (hs : (flood net).Reachable s) (hc : s.NothingRemoved)
    (ih : s.Uncached) (h : FloodStep net s l s') : s'.Uncached := by
  cases h with
  | @run p th now task rest e halive hnow hwork hperform =>
      have hr : RunStep net s p th now task rest e := ⟨halive, hnow, hwork, hperform⟩
      have hmessage : ∀ w ∈ s.work, ∀ x, w.task = .cacheQuery x →
          w.place = .thread w.place.owner .message := by
        intro w hw x hx
        rcases place_of_messageThread hs hw (by rw [hx]; rfl) with hpl | ⟨m, hm⟩
        · exact hpl
        · rw [hx] at hm
          cases m <;> cases hm
      intro w hw x hx
      rcases Multiset.mem_add.mp hw with hw | hw
      · have hold := ih w (hr.mem_of_rest hw) x hx
        have hlive := (reachable_live hs hc).1 w (hr.mem_of_rest hw)
        rw [hx] at hlive
        by_cases howner : w.place.owner = p
        · -- Whatever else the peer does, it is not at the message thread.
          have hplace := hmessage w (hr.mem_of_rest hw) x hx
          rw [howner] at hold hlive hplace ⊢
          rw [after_upstream]
          by_contra hne
          obtain ⟨u, hu⟩ := Option.ne_none_iff_exists'.mp hne
          have hth : task.ofMessageThread = true → False := by
            intro hof
            have hth := (reachable_holds hs _ hr.mem).2 hof
            rw [hth] at hr
            exact alone hs hr hw (by rw [hx]; rfl) hplace
          rcases writes_queries (perform_writes hperform) hu with
            hsame | ⟨-, ⟨y, v, rfl, hid, -⟩ | ⟨y, rfl, -, -⟩ | ⟨y, rfl, -⟩⟩
          · rw [show (s.tables p).queries.find? x.id = none from hold] at hsame
            cases hsame
          · have hp : y.id.peerId = p := (reachable_known hs _ hr.mem).2.1
            rw [(SMessageID.beq_iff.mp hid).1] at hp
            exact hlive.2 hp.symm
          · exact hth rfl
          · exact hth rfl
        · rw [other_upstream howner]
          exact hold
      · rcases Effect.mem_work hw with ⟨hmem, hpl⟩ | ⟨y, -, rfl⟩
        · have hl := perform_leads hperform _ hmem
          rw [hx] at hl
          obtain ⟨rfl, hnew⟩ := leads_cacheQuery hl
          have howner : w.place.owner = p := by
            rcases hpl with hpl | hpl <;> rw [hpl] <;> rfl
          rw [howner, after_upstream]
          simp only [perform, Option.some.injEq] at hperform
          subst hperform
          exact hnew
        · cases hm : y.2 <;> rw [hm] at hx <;> cases hx
  | @takeMessage p task rest _ _ hwork | @takeBroadcast p task rest _ _ hwork
  | @deliver p q m rest _ hwork =>
      intro w hw x hx
      have hmoved := ih _ (by rw [hwork]; exact Multiset.mem_cons_self _ _) x
      rcases Multiset.mem_cons.mp hw with rfl | hw
      · exact hmoved hx
      · exact ih w (by rw [hwork]; exact Multiset.mem_cons_of_mem hw) x hx
  | @command p cmd _ _ =>
      intro w hw x hx
      rcases Multiset.mem_add.mp hw with hw | hw
      · exact ih w hw x hx
      · obtain ⟨task, ht, rfl⟩ := List.mem_map.mp hw
        have hstart : Starts net p task := .command cmd ht
        have hnone := hstart.strand
        rw [show task = _ from hx] at hnone
        cases hnone
  | @wake p now _ _ _ =>
      intro w hw x hx
      rcases Multiset.mem_add.mp hw with hw | hw
      · exact ih w hw x hx
      · obtain ⟨task, ht, rfl⟩ := List.mem_map.mp hw
        have hstart : Starts net p task := .mantain _ now ht
        have hnone := hstart.strand
        rw [show task = _ from hx] at hnone
        cases hnone

theorem reachable_uncached (h : (flood net).Reachable s) (hc : s.NothingRemoved) :
    s.Uncached := by
  refine System.Reachable.invariant_while (I := Flood.Uncached)
    (nothingRemoved_prefixClosed net) ?_ ?_ h hc
  · rintro s rfl w hw x hx
    obtain ⟨p, -, rfl⟩ := List.mem_map.mp hw
    cases hx
  · exact fun s l s' hs hcs _ ih hl => uncached_step hs hcs ih hl

end Live

/-! ## The tree -/

/-- How many upstream steps a peer is from the originator. -/
inductive Depth (net : Setup) (s : Flood) (id : SMessageID) : PeerID → Nat → Prop
  | origin (h : s.Live id) : Depth net s id id.peerId 0
  | hop {p u : PeerID} {n : Nat} (hp : p ≠ id.peerId) (hlink : u ∈ net.peerIdToSockfd p)
      (hu : s.upstream p id = some u) (hd : Depth net s id u n) : Depth net s id p (n + 1)

/-- A copy as a peer of the tree sends it. -/
def SentBy (net : Setup) (s : Flood) (x : Query) (p : PeerID) : Prop :=
  ∃ x₀ n, s.Issued x₀ ∧ x = x₀.copy n p ∧ Depth net s x.id p n ∧ 1 ≤ ttl - (n : Int) ∧
    ∀ f k, x.request = .invQuery f k → 1 ≤ k

/-- A copy that came from the peer that sent it. -/
def CameFrom (net : Setup) (s : Flood) (x : Query) (p : PeerID) : Prop :=
  SentBy net s x x.sender ∧ x.sender ∈ net.peerIdToSockfd p

/-- What the second round says about tasks. -/
def Task.OnPath (net : Setup) (s : Flood) (p : PeerID) : Task → Prop
  | .broadcastOwn x _ => SentBy net s x p ∧ s.upstream p x.id = some (-1)
  | .lockSendBuffer x exclude => SentBy net s x p ∧ s.upstream p x.id = some exclude
  | .sendTo q x => SentBy net s x p ∧ q ∈ net.peerIdToSockfd p ∧
      ∃ u, s.upstream p x.id = some u ∧ q ≠ u
  | .handleQuery x | .cacheQuery x => CameFrom net s x p
  | .act x | .relay x => CameFrom net s x p ∧ s.upstream p x.id = some x.sender
  | .handleHit h | .relayHit h => ∃ n, Depth net s h.id p n
  | _ => True

section Tree

variable {net : Setup} {s s' : Flood} {id : SMessageID}

theorem mem_peerIdToSockfd {p q : PeerID} :
    q ∈ net.peerIdToSockfd p ↔ q ∈ net.topology p ∧ q ≠ p := by
  rw [Setup.peerIdToSockfd, List.mem_filter, decide_eq_true_eq]

theorem peerIdToSockfd_symm {p q : PeerID} (h : q ∈ net.peerIdToSockfd p) :
    p ∈ net.peerIdToSockfd q := by
  rw [mem_peerIdToSockfd] at h ⊢
  exact ⟨net.topology_symm p q h.1, h.2.symm⟩

theorem peerIdToSockfd_nonneg {p q : PeerID} (h : q ∈ net.peerIdToSockfd p) : 0 ≤ q :=
  (net.peers_range q (net.topology_peers p q (mem_peerIdToSockfd.mp h).1)).1

theorem Depth.grows {p : PeerID} {n : Nat} (h : Depth net s id p n) (hg : Grows s s')
    (hc : s'.NothingRemoved) : Depth net s' id p n := by
  induction h with
  | origin h => exact .origin (hg.upstream hc h)
  | hop hp hlink hu _ ih => exact .hop hp hlink (hg.upstream hc hu) ih

theorem Depth.congr {id' : SMessageID} {p : PeerID} {n : Nat} (h : Depth net s id p n)
    (hid : (id == id') = true) : Depth net s id' p n := by
  have hpeer := (SMessageID.beq_iff.mp hid).1
  induction h with
  | origin h =>
      rw [hpeer]
      exact .origin (h.congr hid)
  | hop hp hlink hu _ ih =>
      rw [hpeer] at hp
      rw [s.upstream_congr _ hid] at hu
      exact .hop hp hlink hu ih

theorem Depth.cached {p : PeerID} {n : Nat} (h : Depth net s id p n) :
    ∃ u, s.upstream p id = some u := by
  cases h with
  | origin h => exact ⟨-1, h⟩
  | hop hp hlink hu hd => exact ⟨_, hu⟩

/-- The depth of a peer is a function of the state. -/
theorem Depth.unique {p : PeerID} {n m : Nat} (h : Depth net s id p n)
    (h' : Depth net s id p m) : n = m := by
  induction h generalizing m with
  | origin h =>
      cases h' with
      | origin => rfl
      | hop hp hlink hu hd => exact absurd rfl hp
  | hop hp hlink hu _ ih =>
      cases h' with
      | origin => exact absurd rfl hp
      | hop hp' hlink' hu' hd' =>
          rw [hu] at hu'
          injection hu' with hu'
          subst hu'
          rw [ih hd']

theorem Depth.live {p : PeerID} {n : Nat} (h : Depth net s id p n) : s.Live id := by
  induction h with
  | origin h => exact h
  | hop hp hlink hu _ ih => exact ih

theorem SentBy.grows {x : Query} {p : PeerID} (h : SentBy net s x p) (hg : Grows s s')
    (hc : s'.NothingRemoved) : SentBy net s' x p := by
  obtain ⟨x₀, n, h₀, hx, hd, hrest⟩ := h
  exact ⟨x₀, n, h₀.grows hg, hx, hd.grows hg hc, hrest⟩

theorem CameFrom.grows {x : Query} {p : PeerID} (h : CameFrom net s x p) (hg : Grows s s')
    (hc : s'.NothingRemoved) : CameFrom net s' x p :=
  ⟨h.1.grows hg hc, h.2⟩

theorem Task.OnPath.grows {p : PeerID} {task : Task} (h : task.OnPath net s p) (hg : Grows s s')
    (hc : s'.NothingRemoved) : task.OnPath net s' p := by
  cases task with
  | broadcastOwn | lockSendBuffer => exact ⟨h.1.grows hg hc, hg.upstream hc h.2⟩
  | sendTo =>
      obtain ⟨hx, hq, u, hu, hne⟩ := h
      exact ⟨hx.grows hg hc, hq, u, hg.upstream hc hu, hne⟩
  | handleQuery | cacheQuery => exact CameFrom.grows h hg hc
  | act | relay => exact ⟨h.1.grows hg hc, hg.upstream hc h.2⟩
  | handleHit | relayHit =>
      obtain ⟨n, hn⟩ := h
      exact ⟨n, hn.grows hg hc⟩
  | _ => trivial

/-- A copy of the tree names its sender. -/
theorem SentBy.sender {x : Query} {p : PeerID} (h : SentBy net s x p) : x.sender = p := by
  obtain ⟨x₀, n, -, hx, -⟩ := h
  rw [hx]
  rfl

/-- A peer that took a copy for its upstream's is one hop further out. -/
theorem CameFrom.depth {x : Query} {p : PeerID} (h : CameFrom net s x p)
    (hp : p ≠ x.id.peerId) (hu : s.upstream p x.id = some x.sender) :
    ∃ x₀ n, s.Issued x₀ ∧ x = x₀.copy n x.sender ∧ Depth net s x.id p (n + 1) := by
  obtain ⟨⟨x₀, n, h₀, hx, hd, -⟩, hlink⟩ := h
  exact ⟨x₀, n, h₀, hx, .hop hp hlink hu hd⟩

theorem onPath_of_leads {p : PeerID} {th : Thread} {now : Int} {task task' : Task}
    {rest : Multiset Work} {e : Effect} (hs : (flood net).Reachable s) (hc : s.NothingRemoved)
    (hc' : (s.after p th rest e).NothingRemoved) (hr : RunStep net s p th now task rest e)
    (hI : task.OnPath net s p) (hJ : ∀ q id u, s.upstream q id = some u →
      ∃ n, Depth net s id q n)
    (hl : Leads net p now (s.tables p) task task') :
    task'.OnPath net (s.after p th rest e) p := by
  have hg := hr.grows
  have hgrown := hI.grows hg hc'
  have hlive := (reachable_live hs hc).1 _ hr.mem
  have hk := reachable_known hs _ hr.mem
  cases hl with
  | broadcast x w =>
      obtain ⟨hx, hp, -⟩ := hk
      have hp : x.id.peerId = p := hp
      have hroot : (s.after p th rest e).Live x.id := by
        show (s.after p th rest e).upstream x.id.peerId x.id = some (-1)
        cases hold : s.upstream p x.id with
        | none =>
            rw [hp, after_upstream]
            exact perform_cacheOwn hr.perform hold
        | some u =>
            obtain ⟨n, hn⟩ := hJ p x.id u hold
            exact (hn.grows hg hc').live
      obtain ⟨-, -, hcopy, hfactor⟩ := hx.spec hs
      rw [hp] at hcopy
      refine ⟨⟨x, 0, hx.grows hg, hcopy, ?_, by decide, fun f k hk => (hfactor f k hk).2⟩, ?_⟩
      · have horigin : Depth net (s.after p th rest e) x.id x.id.peerId 0 := .origin hroot
        rw [hp] at horigin
        exact horigin
      · have hroot' : (s.after p th rest e).upstream x.id.peerId x.id = some (-1) := hroot
        rw [hp] at hroot'
        exact hroot'
  | queueOwn x w => exact hgrown
  | accept x hnew => exact hgrown
  | act x =>
      have hnone := reachable_uncached hs hc _ hr.mem x rfl
      refine ⟨hgrown, ?_⟩
      rw [after_upstream]
      exact perform_cacheQuery hr.perform hnone
  | answer x kind ha =>
      obtain ⟨hcame, hu⟩ := hgrown
      obtain ⟨x₀, n, -, -, hd⟩ := hcame.depth hlive.2 hu
      exact ⟨n + 1, hd⟩
  | relay x hp => exact hgrown
  | queueRelayed x y hy =>
      obtain ⟨hcame, hu⟩ := hgrown
      obtain ⟨x₀, n, h₀, hx, hd⟩ := hcame.depth hlive.2 hu
      have hrel := hy
      rw [hx] at hrel
      obtain ⟨rfl, httl, hex⟩ := relayed_copy hrel
      have hid : x.id = x₀.id := by rw [hx]; rfl
      rw [hid] at hd hu
      refine ⟨⟨x₀, n + 1, h₀, rfl, hd, httl, ?_⟩, hu⟩
      intro f k hk'
      have hreq : Request.decrease^[n + 1] x₀.request = .invQuery f k := hk'
      rw [Function.iterate_succ_apply'] at hreq
      change (Request.decrease^[n] x₀.request).exhausted = false at hex
      cases hprev : Request.decrease^[n] x₀.request with
      | invQuery g j =>
          rw [hprev] at hreq hex
          simp only [Request.decrease, Request.invQuery.injEq] at hreq
          simp only [Request.exhausted, decide_eq_false_iff_not] at hex
          omega
      | _ =>
          rw [hprev] at hreq
          cases hreq
  | onward => exact hgrown
  | sendTo x exclude q hq hne => exact ⟨hgrown.1, hq, exclude, hgrown.2, hne⟩
  | ownTest test n ht | test x ht => cases ht <;> trivial
  | _ => trivial

theorem onPath_of_sends {p q : PeerID} {th : Thread} {now : Int} {task : Task} {m : Message}
    {rest : Multiset Work} {e : Effect} (hs : (flood net).Reachable s) (hc : s.NothingRemoved)
    (hc' : (s.after p th rest e).NothingRemoved) (hr : RunStep net s p th now task rest e)
    (hI : task.OnPath net s p) (hl : Sends net p (s.tables p) task q m) :
    m.task.OnPath net (s.after p th rest e) q := by
  have hg := hr.grows
  have hgrown := hI.grows hg hc'
  have hlive := (reachable_live hs hc).1 _ hr.mem
  cases hl with
  | query q x =>
      obtain ⟨hx, hq, -⟩ := hgrown
      have hsender := hx.sender
      refine ⟨?_, ?_⟩
      · rw [hsender]
        exact hx
      · rw [hsender]
        exact peerIdToSockfd_symm hq
  | hit h hu =>
      obtain ⟨n, hn⟩ := hI
      cases hn with
      | origin => exact absurd rfl hlive.2
      | @hop p u n hp hlink hup hd =>
          have hindex : ((s.tables p).queries.index h.id 0).1 = u := by
            rw [UnorderedMap.index, show (s.tables p).queries.find? h.id = some u from hup]
          rw [hindex]
          exact ⟨n, hd.grows hg hc'⟩

/-- **The reverse path**: every task is where the tree allows it, and every peer
that has an id in `m_queries` is in the id's tree. -/
theorem reachable_onPath (h : (flood net).Reachable s) (hc : s.NothingRemoved) :
    (∀ w ∈ s.work, w.task.OnPath net s w.place.owner) ∧
      ∀ p id u, s.upstream p id = some u → ∃ n, Depth net s id p n := by
  have hboth := run_rule (I := fun s p task => task.OnPath net s p)
    (J := fun s p t => ∀ id u, t.queries.find? id = some u → ∃ n, Depth net s id p n)
    (nothingRemoved_prefixClosed net) ?_ ?_ ?_ ?_ ?_ h hc
  · exact ⟨hboth.1, fun p id u hu => hboth.2 p id u hu⟩
  · intro s p task hstart
    have hnone := hstart.strand
    cases task <;> trivial
  · intro p id u hu
    cases hu
  · exact fun s s' p task hg hc hk => hk.grows hg hc
  · intro s s' p t hg hc hJ id u hu
    obtain ⟨n, hn⟩ := hJ id u hu
    exact ⟨n, hn.grows hg hc⟩
  · intro s p th now task rest e hs hcs hcs' hr hI hJ
    refine ⟨fun task' _ hl => onPath_of_leads hs hcs hcs' hr hI hJ hl,
      fun q m _ hl => onPath_of_sends hs hcs hcs' hr hI hl, ?_⟩
    intro hw id u hu
    have hg := hr.grows
    have hgrown := hI.grows hg hcs'
    have hlive := (reachable_live hs hcs).1 _ hr.mem
    have hnew : (s.after p th rest e).upstream p id = some u := by
      rw [after_upstream]
      exact hu
    rcases writes_queries hw hu with hold | ⟨hnone, ⟨x, w, rfl, hid, rfl⟩ | ⟨x, rfl, hid, rfl⟩ |
      ⟨x, rfl, hid⟩⟩
    · obtain ⟨n, hn⟩ := hJ p id u hold
      exact ⟨n, hn.grows hg hcs'⟩
    · have hp : x.id.peerId = p := (reachable_known hs _ hr.mem).2.1
      have hpeer : id.peerId = p := by rw [← (SMessageID.beq_iff.mp hid).1, hp]
      have horigin : Depth net (s.after p th rest e) id id.peerId 0 := by
        refine .origin ?_
        show (s.after p th rest e).upstream id.peerId id = some (-1)
        rw [hpeer]
        exact hnew
      rw [hpeer] at horigin
      exact ⟨0, horigin⟩
    · rw [← (s.after p th rest e).upstream_congr _ hid] at hnew
      obtain ⟨x₀, n, -, -, hd⟩ := CameFrom.depth hgrown hlive.2 hnew
      exact ⟨n + 1, hd.congr hid⟩
    · obtain ⟨n, hn⟩ := hgrown
      exact ⟨n, hn.congr hid⟩

end Tree

end P2PFileSharing
