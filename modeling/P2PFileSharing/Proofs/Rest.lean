import P2PFileSharing.Lib.Progress
import P2PFileSharing.Proofs.Hits
import P2PFileSharing.Proofs.Threads

/-!
# What is left to do

A copy of a query has a TTL, a hit has a way home, and whatever else a task leads to is
fixed. So tasks can be ranked such that one leads only to lower ones: a copy with another hop
to go ranks above all that its neighbours can do with it, and a hit's rank is how far its
holder is from the originator in the tree of the id, because a hit's TTL is never written back.
How many tasks there are does not matter.
-/

namespace P2PFileSharing

/-- Nobody types a command and the cleaner sleeps. -/
def Label.isUndisturbed : Label → Bool
  | .run _ th _ => decide (th ≠ .mantain)
  | .command _ _ | .wake _ _ => false
  | _ => true

/-- Nothing is left to do, the cleaner's own work apart. -/
structure Network.AtRest (s : Network) : Prop where
  threads : ∀ p th, th ≠ .mantain → (s.peers p).threads th = []
  broadcastQueue : ∀ p, (s.peers p).broadcastQueue = []
  messagesQueue : ∀ p, (s.peers p).messagesQueue = []
  sockets : ∀ p q, s.sockets p q = []

/-- A peer has no message number left to give. -/
def Network.OutOfNumbers (s : Network) : Prop :=
  ∃ p, counterLimit ≤ (s.peers p).tables.msgIdCounter + 1

/-! ## Going on -/

section Going

variable {net : Setup} {s : Network} {p : PeerID}

theorem step_run_of {th : Thread} {now : Int} {sec : Section} {rest : List Section} {o : Outcome}
    (halive : s.alive net p) (hnow : IsInt64 now) (hsec : (s.peers p).threads th = sec :: rest)
    (hexec : exec net p now (s.peers p).tables sec = some o) :
    step net s (.run p th now) = some (commit s p th rest o) := by
  simp only [step, if_pos (And.intro halive hnow), hsec, hexec, Option.map_some]

/-- Whatever waits somewhere waits for a peer that can go on. -/
theorem alive_of_sectionsAt (h : Reachable net s) (hc : s.NothingRemoved) (pl : Place)
    {sec : Section} (hsec : sec ∈ s.sectionsAt pl) : s.alive net pl.owner := by
  obtain ⟨a, ha, hR⟩ := exists_flood h
  obtain ⟨task, hw, -⟩ := hR.exists_task hsec
  have hplace := reachable_holds ha _ hw
  refine ⟨?_, ?_⟩
  · cases pl with
    | thread q th | broadcastQueue q | messagesQueue q => exact hplace.1
    | socket q r => exact net.topology_peers q r (mem_peerIdToSockfd.mp hplace.2.1).1
  · rw [hR.tables]
    exact reachable_faultless ha (hR.nothingRemoved.mp hc) _

/-- A peer with a thread at work can take a step: the thread itself, or the broadcast thread
that it waits for. -/
theorem thread_goes (h : Reachable net s) (hc : s.NothingRemoved) (hnum : ¬s.OutOfNumbers)
    {th : Thread} (hth : th ≠ .mantain) (hbusy : (s.peers p).threads th ≠ []) :
    ∃ l s', l.isUndisturbed = true ∧ step net s l = some s' := by
  obtain ⟨a, ha, hR⟩ := exists_flood h
  obtain ⟨sec, rest, hsec⟩ := List.exists_cons_of_ne_nil hbusy
  have hmem : sec ∈ s.sectionsAt (.thread p th) := by
    rw [Network.sectionsAt, hsec]
    exact List.mem_cons_self
  have halive : s.alive net p := alive_of_sectionsAt h hc (.thread p th) hmem
  have hzero : IsInt64 0 := by decide
  have hpoint := reachable_broadcastPoint h p
  rw [Peer.AtBroadcastPoint] at hpoint
  generalize hmutex : (s.peers p).tables.sendBufferMutex = mutex at hpoint
  cases mutex with
  | false =>
      obtain ⟨task, hw, rfl⟩ := hR.exists_task hmem
      have hlimit : (a.tables p).msgIdCounter + 1 < counterLimit := by
        by_contra hge
        refine hnum ⟨p, ?_⟩
        rw [hR.tables]
        exact Nat.le_of_not_lt hge
      rw [hR.tables] at hmutex
      obtain ⟨e, he⟩ := Option.isSome_iff_exists.mp
        (perform_isSome net p 0 task hmutex hlimit)
      have hexec : exec net p 0 (s.peers p).tables task.code = some e.code := by
        rw [hR.tables, exec_code net p ((reachable_valid ha).work _ hw), he]
        rfl
      exact ⟨.run p th 0, _, decide_eq_true hth, step_run_of halive hzero hsec hexec⟩
  | true =>
      generalize hsecs : (s.peers p).threads .broadcast = secs at hpoint
      cases hpoint with
      | sending message peers =>
          have hrun : ∀ sec rest o, (s.peers p).threads .broadcast = sec :: rest →
              exec net p 0 (s.peers p).tables sec = some o →
              ∃ l s', l.isUndisturbed = true ∧ step net s l = some s' :=
            fun sec rest o hsec hexec =>
              ⟨.run p .broadcast 0, _, rfl, step_run_of halive hzero hsec hexec⟩
          cases peers with
          | nil => exact hrun _ _ _ hsecs rfl
          | cons q peers => exact hrun _ _ _ hsecs rfl

/-- **Nobody waits for good.** -/
theorem network_goes (h : Reachable net s) (hc : s.NothingRemoved) (hnum : ¬s.OutOfNumbers)
    (hbusy : ¬s.AtRest) : ∃ l s', l.isUndisturbed = true ∧ step net s l = some s' := by
  by_contra hnone
  have hstuck : ∀ l, l.isUndisturbed = true → (step net s l).isSome = true → False := by
    intro l hl hsome
    obtain ⟨s', hs'⟩ := Option.isSome_iff_exists.mp hsome
    exact hnone ⟨l, s', hl, hs'⟩
  have hthreads : ∀ p th, th ≠ .mantain → (s.peers p).threads th = [] := by
    intro p th hth
    by_contra hne
    exact hnone (thread_goes h hc hnum hth hne)
  refine hbusy ⟨hthreads, ?_, ?_, ?_⟩
  · intro p
    by_contra hne
    obtain ⟨⟨message, exclude⟩, rest, hqueue⟩ := List.exists_cons_of_ne_nil hne
    have hmem : .lockSendBuffer message exclude ∈ s.sectionsAt (.broadcastQueue p) := by
      rw [Network.sectionsAt, hqueue]
      exact List.mem_cons_self
    have halive : s.alive net p := alive_of_sectionsAt h hc (.broadcastQueue p) hmem
    refine hstuck (.takeBroadcast p) rfl ?_
    simp only [step, if_pos (And.intro halive (hthreads p .broadcast (by decide))), hqueue]
    rfl
  · intro p
    by_contra hne
    obtain ⟨message, rest, hqueue⟩ := List.exists_cons_of_ne_nil hne
    have hmem : .handle message ∈ s.sectionsAt (.messagesQueue p) := by
      rw [Network.sectionsAt, hqueue]
      exact List.mem_cons_self
    have halive : s.alive net p := alive_of_sectionsAt h hc (.messagesQueue p) hmem
    refine hstuck (.takeMessage p) rfl ?_
    simp only [step, if_pos (And.intro halive (hthreads p .message (by decide))), hqueue]
    rfl
  · intro p q
    by_contra hne
    obtain ⟨message, rest, hsocket⟩ := List.exists_cons_of_ne_nil hne
    have hmem : .handle message ∈ s.sectionsAt (.socket p q) := by
      rw [Network.sectionsAt, hsocket]
      exact List.mem_cons_self
    have halive : s.alive net q := alive_of_sectionsAt h hc (.socket p q) hmem
    refine hstuck (.deliver p q) rfl ?_
    simp only [step, if_pos halive, hsocket]
    rfl

end Going

/-! ## Ranks -/

/-- A test makes its receivers start queries of their own. -/
def Request.rank : Request → Nat
  | .query _ | .invQuery _ _ => 0
  | .conTestQuery _ | .conTestObtain _ _ => 100

/-- What a peer that is done with a copy can still make of it. -/
def Query.rank (x : Query) : Nat := x.request.rank + 28 + 13 * x.timeToLive.toNat

/-- The rank of a task; `d` is how far a hit's holder is from home. -/
def Task.rank (d : Nat) : Task → Nat
  | .createTest _ _ => 210
  | .startReplicateAllFiles => 112
  | .sendQuery _ _ _ | .sendInvQuery _ _ _ => 110
  | .cacheOwn x _ => x.rank + 15
  | .broadcastOwn x _ => x.rank + 13
  | .lockSendBuffer x _ => x.rank + 11
  | .sendTo _ x => x.rank + 9
  | .handleQuery x => x.rank + 6
  | .cacheQuery x => x.rank + 4
  | .act x => x.rank + 2
  | .relay x => x.rank
  | .handleHit _ => 5 * d + 6
  | .relayHit _ => 5 * d + 4
  | .record _ _ => 4
  | .takeWait _ => 2
  | _ => 0

def Place.rank : Place → Nat
  | .thread _ _ => 0
  | .broadcastQueue _ | .messagesQueue _ => 1
  | .socket _ _ => 2

/-- How far the holder of a hit is from home. -/
def Task.AtDepth (net : Setup) (s : Flood) (p : PeerID) (d : Nat) : Task → Prop
  | .handleHit h | .relayHit h => Depth net s h.id p d
  | _ => True

/-- What a piece of work rates, where it waits. -/
def Work.Rates (net : Setup) (s : Flood) (w : Work) (n : Nat) : Prop :=
  ∃ d, w.task.AtDepth net s w.place.owner d ∧ n = w.place.rank + w.task.rank d

section Ranks

variable {net : Setup} {s s' : Flood} {p q : PeerID} {th : Thread} {now : Int} {d : Nat}
  {task task' : Task} {rest : Multiset Work} {e : Effect} {l : Label}

theorem Task.AtDepth.grows (h : task.AtDepth net s p d) (hg : Grows s s')
    (hc : s'.NothingRemoved) : task.AtDepth net s' p d := by
  cases task with
  | handleHit | relayHit => exact Depth.grows h hg hc
  | _ => trivial

theorem Work.Rates.grows {w : Work} {n : Nat} (h : w.Rates net s n) (hg : Grows s s')
    (hc : s'.NothingRemoved) : w.Rates net s' n := by
  obtain ⟨d, hd, hn⟩ := h
  exact ⟨d, hd.grows hg hc, hn⟩

theorem exists_rates (h : (flood net).Reachable s) (hc : s.NothingRemoved) :
    ∀ w ∈ s.work, ∃ n, w.Rates net s n := by
  intro w hw
  have hpath := (reachable_onPath h hc).1 w hw
  obtain ⟨d, hd⟩ : ∃ d, w.task.AtDepth net s w.place.owner d := by
    generalize w.task = task at hpath
    cases task with
    | handleHit | relayHit => exact hpath
    | _ => exact ⟨0, trivial⟩
  exact ⟨_, d, hd, rfl⟩

theorem rank_newQuery {t : Tables} (r : Request) :
    (newQuery p t now r).rank = r.rank + 93 := by
  show r.rank + 28 + 13 * 5 = _
  omega

theorem Creates.rank {r : Request} {w : Option Str} (h : Creates net p task r w) (d : Nat) :
    r.rank + 110 ≤ task.rank d := by
  cases h with
  | query | invQuery => exact Nat.le_refl _
  | test test n => cases test <;> exact Nat.le_refl _

theorem TestTask.rank (h : TestTask net p task) (d : Nat) : task.rank d = 110 := by
  cases h <;> rfl

theorem rank_relayed {x y : Query} (h : x.relayed p = some y) : y.rank + 13 = x.rank := by
  unfold Query.relayed at h
  split at h
  · cases h
  · next hgo =>
      injection h with h
      subst h
      have hrequest : x.request.decrease.rank = x.request.rank := by
        cases x.request <;> rfl
      show x.request.decrease.rank + 28 + 13 * (x.timeToLive - 1).toNat + 13 =
        x.request.rank + 28 + 13 * x.timeToLive.toNat
      omega

/-- A peer starts queries of its own only for a test. -/
theorem test_of_act {t : Tables} {x : Query} (ht : TestTask net p task')
    (hmem : task' ∈ (actOnRequest net p t x).here) : task' ∈ testTasks net p x.request := by
  unfold actOnRequest at hmem
  cases hreq : x.request with
  | query f =>
      rw [hreq] at hmem
      dsimp only at hmem
      split at hmem <;> (rw [List.mem_singleton.mp hmem] at ht; cases ht)
  | invQuery f k =>
      rw [hreq] at hmem
      dsimp only at hmem
      split at hmem
      · cases hmem
      · split at hmem
        · rw [List.mem_singleton.mp hmem] at ht
          cases ht
        · rcases List.mem_cons.mp hmem with heq | hmem
          · rw [heq] at ht
            cases ht
          · rw [List.mem_singleton.mp hmem] at ht
            cases ht
  | conTestQuery | conTestObtain =>
      rw [hreq] at hmem
      simp only [Effect.here, List.map_nil, List.append_nil, List.mem_append,
        List.mem_singleton] at hmem
      rcases hmem with hmem | rfl
      · exact hmem
      · cases ht

theorem rank_of_testTasks {r : Request} (h : task ∈ testTasks net p r) : r.rank = 100 := by
  cases r with
  | query | invQuery => cases h
  | conTestQuery | conTestObtain => rfl

/-- **A task leads only to tasks that rank lower**, wherever they wait for the peer. -/
theorem rank_of_leads (hs : (flood net).Reachable s) (hc : s.NothingRemoved)
    (hc' : (s.after p th rest e).NothingRemoved) (hr : RunStep net s p th now task rest e)
    (hd : task.AtDepth net s p d) (hmem : task' ∈ e.here) :
    ∃ d', task'.AtDepth net (s.after p th rest e) p d' ∧ task'.rank d' + 1 < task.rank d := by
  have hg := hr.grows
  have hl := perform_leads hr.perform task' hmem
  cases hl with
  | create hcreates hlimit =>
      have hle := hcreates.rank d
      refine ⟨0, trivial, ?_⟩
      show (newQuery p (s.tables p) now _).rank + 15 + 1 < _
      rw [rank_newQuery]
      omega
  | ownTest test n ht =>
      refine ⟨0, by cases ht <;> trivial, ?_⟩
      rw [ht.rank]
      exact (by decide : 110 + 1 < 210)
  | test x ht =>
      have hperform := hr.perform
      simp only [perform, Option.some.injEq] at hperform
      subst hperform
      have hrank : x.rank = 100 + 28 + 13 * x.timeToLive.toNat := by
        rw [Query.rank, rank_of_testTasks (test_of_act ht hmem)]
      refine ⟨0, by cases ht <;> trivial, ?_⟩
      rw [ht.rank]
      show _ < x.rank + 2
      omega
  | answer x kind ha =>
      have hlive := (reachable_live hs hc).1 _ hr.mem
      obtain ⟨⟨⟨x₀, n, -, hx, hdn, hpos, -⟩, hlink⟩, hu⟩ := (reachable_onPath hs hc).1 _ hr.mem
      refine ⟨n + 1, (Depth.hop hlive.2 hlink hu hdn).grows hg hc', ?_⟩
      have httl : x.timeToLive = 5 - (n : Int) := by
        rw [hx]
        rfl
      have hpos' : 1 ≤ 5 - (n : Int) := hpos
      show 5 * (n + 1) + 4 + 1 < x.request.rank + 28 + 13 * x.timeToLive.toNat + 2
      omega
  | queueRelayed x y hy =>
      have hrank := rank_relayed hy
      refine ⟨0, trivial, ?_⟩
      show y.rank + 11 + 1 < x.rank
      omega
  | onward h hme httl =>
      refine ⟨d, Depth.grows hd hg hc', ?_⟩
      show 5 * d + 4 + 1 < 5 * d + 6
      omega
  | wait x f | unlock x exclude =>
      refine ⟨0, trivial, ?_⟩
      show 0 + 1 < x.rank + _
      omega
  | home h | lookUp h =>
      refine ⟨0, trivial, ?_⟩
      simp only [Task.rank]
      omega
  | _ => exact ⟨0, trivial, by simp [Task.rank]⟩

/-- And what it sends ranks lower wherever that is on its way: a hit is one hop nearer home. -/
theorem rank_of_sends (hs : (flood net).Reachable s) (hc : s.NothingRemoved)
    (hc' : (s.after p th rest e).NothingRemoved) (hr : RunStep net s p th now task rest e)
    (hd : task.AtDepth net s p d) {x : PeerID × Message} (hmem : x ∈ e.sent) :
    ∃ d', x.2.task.AtDepth net (s.after p th rest e) x.1 d' ∧
      x.2.task.rank d' + 2 < task.rank d := by
  obtain ⟨q, m⟩ := x
  have hsend := perform_sends hr.perform _ hmem
  have hlive := (reachable_live hs hc).1 _ hr.mem
  cases hsend with
  | query q x =>
      refine ⟨0, trivial, ?_⟩
      show x.rank + 6 + 2 < x.rank + 9
      omega
  | hit h hin =>
      cases hd with
      | origin => exact absurd rfl hlive.2
      | @hop p u n hp hlink hu hdn =>
          have hindex : ((s.tables p).queries.index h.id 0).1 = u := by
            rw [UnorderedMap.index, show (s.tables p).queries.find? h.id = some u from hu]
          rw [hindex]
          refine ⟨n, hdn.grows hr.grows hc', ?_⟩
          show 5 * n + 6 + 2 < 5 * (n + 1) + 4
          omega

/-- Nothing is removed while the cleaner sleeps. -/
theorem nothingRemoved_of_undisturbed (hs : (flood net).Reachable s) (hc : s.NothingRemoved)
    (hl : l.isUndisturbed = true) (h : FloodStep net s l s') : s'.NothingRemoved := by
  cases h with
  | @run p th now task rest e halive hnow hwork hperform =>
      have hr : RunStep net s p th now task rest e := ⟨halive, hnow, hwork, hperform⟩
      have hduty : task.duty ≠ .cleaning := by
        rw [reachable_onDuty hs _ hr.mem p th rfl]
        intro hclean
        cases th with
        | mantain => simp [Label.isUndisturbed] at hl
        | _ => cases hclean
      intro ev hev
      rcases List.mem_append.mp hev with hev | hev
      · exact hc ev hev
      · obtain ⟨ev', hev', rfl⟩ := List.mem_map.mp hev
        rcases Effect.mem_history hev' with hev' | ⟨x, -, rfl⟩
        · exact removal_of_logs (perform_logs hperform _ hev') hduty
        · rfl
  | takeMessage | takeBroadcast => exact hc
  | command | wake => cases hl
  | deliver _ _ =>
      intro ev hev
      rcases List.mem_append.mp hev with hev | hev
      · exact hc ev hev
      · rw [List.mem_singleton.mp hev]
        rfl

/-- A command in the history was typed. -/
theorem command_typed {cmd : Command} (h : FloodStep net s l s')
    (hmem : (q, .command cmd) ∈ s'.log) : (q, .command cmd) ∈ s.log ∨ l = .command q cmd := by
  cases h with
  | run halive hnow hwork hperform =>
      rcases List.mem_append.mp hmem with hmem | hmem
      · exact .inl hmem
      · obtain ⟨ev, hev, heq⟩ := List.mem_map.mp hmem
        cases heq
        rcases Effect.mem_history hev with hev | ⟨x, -, hx⟩
        · cases perform_logs hperform _ hev
        · cases hx
  | takeMessage | takeBroadcast | wake => exact .inl hmem
  | command =>
      rcases List.mem_append.mp hmem with hmem | hmem
      · exact .inl hmem
      · cases List.mem_singleton.mp hmem
        exact .inr rfl
  | deliver =>
      rcases List.mem_append.mp hmem with hmem | hmem
      · exact .inl hmem
      · cases List.mem_singleton.mp hmem

/-- **An undisturbed step spends what is left to do.** -/
theorem spends_of_undisturbed (hs : (flood net).Reachable s) (hc : s.NothingRemoved)
    (hl : l.isUndisturbed = true) (h : FloodStep net s l s') :
    System.Spends (· < ·) (Work.Rates net s) (Work.Rates net s') s.work s'.work := by
  have hc' := nothingRemoved_of_undisturbed hs hc hl h
  have hg := FloodStep.grows h
  -- A task that only moves on takes its depth along.
  have hmove : ∀ {src dst : Place} {task : Task} {rest : Multiset Work},
      s.work = Work.mk src task ::ₘ rest → s'.work = Work.mk dst task ::ₘ rest →
      src.owner = dst.owner → dst.rank < src.rank →
      System.Spends (· < ·) (Work.Rates net s) (Work.Rates net s') s.work s'.work := by
    intro src dst task rest hwork hwork' howner hlower
    refine ⟨Work.mk src task, rest, {Work.mk dst task}, hwork, ?_,
      fun w _ n hn => hn.grows hg hc', ?_⟩
    · rw [hwork', Multiset.add_comm, Multiset.singleton_add]
    · intro n hn w hw
      rw [Multiset.mem_singleton.mp hw]
      obtain ⟨d, hd, rfl⟩ := hn
      refine ⟨_, ⟨d, ?_, rfl⟩, Nat.add_lt_add_right hlower _⟩
      rw [← show src.owner = dst.owner from howner]
      exact hd.grows hg hc'
  cases h with
  | @run p th now task rest e halive hnow hwork hperform =>
      have hr : RunStep net s p th now task rest e := ⟨halive, hnow, hwork, hperform⟩
      refine ⟨_, rest, _, hwork, rfl, fun w _ n hn => hn.grows hg hc', ?_⟩
      intro n hn w hw
      obtain ⟨d, hd, rfl⟩ := hn
      show ∃ r', w.Rates net _ r' ∧ r' < 0 + task.rank d
      rcases Effect.mem_work (Multiset.mem_coe.mp hw) with ⟨hmem, hplace⟩ | ⟨x, hx, rfl⟩
      · obtain ⟨d', hd', hlower⟩ := rank_of_leads hs hc hc' hr hd hmem
        have howner : w.place.owner = p := by
          rcases hplace with hplace | hplace <;> rw [hplace] <;> rfl
        have hrank : w.place.rank ≤ 1 := by
          rcases hplace with hplace | hplace <;> rw [hplace]
          · exact Nat.zero_le 1
          · exact Nat.le_refl 1
        refine ⟨_, ⟨d', ?_, rfl⟩, by omega⟩
        rw [howner]
        exact hd'
      · obtain ⟨d', hd', hlower⟩ := rank_of_sends hs hc hc' hr hd hx
        refine ⟨_, ⟨d', hd', rfl⟩, ?_⟩
        show 2 + x.2.task.rank d' < _
        omega
  | takeMessage _ _ hwork | takeBroadcast _ _ hwork => exact hmove hwork rfl rfl Nat.zero_lt_one
  | command | wake => cases hl
  | deliver _ hwork => exact hmove hwork rfl rfl Nat.one_lt_two

end Ranks

end P2PFileSharing
