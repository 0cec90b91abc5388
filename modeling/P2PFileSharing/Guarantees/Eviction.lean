import P2PFileSharing.Proofs.Accepted
import P2PFileSharing.Proofs.Bridge
import P2PFileSharing.Proofs.Filling

/-!
# Hits whose query was evicted

`RelayQueryHit` reads `m_queries[message_id]`, which makes an entry for peer 0
when `MantainQueryMapSize` has removed the id. As long as no id was removed
before a hit for it is relayed, every hit goes back to the peer its sender first
accepted the query from, and the map gains nothing by it.
-/

namespace P2PFileSharing

/-- The call of `RelayQueryHit` a step makes. -/
def Network.relays (s : Network) : Label → Option (PeerID × Str × SMessageID)
  | .run p th _ =>
      match (s.peers p).threads th with
      | .relayQueryHit message id :: _ => some (p, message, id)
      | _ => none
  | _ => none

/-- What a call of `RelayQueryHit` should do: no assertion fails, the id's entry in
`m_queries` is left as it is, and the hit goes to the peer the query was first
accepted from, or to nobody when `m_queries` does not have the id. -/
def RelaysBack (s s' : Network) (p : PeerID) (message : Str) (id : SMessageID) : Prop :=
  (s'.peers p).tables.fault = none ∧ s'.upstream p id = s.upstream p id ∧
    ((s.upstream p id = none ∧ s'.sockets = s.sockets) ∨
      (s.upstream p id ≠ none ∧ ∃ u, firstUpstream s.log p id = some u ∧
        s'.sockets = send s.sockets p [(u, message)]))

/-- The id was not removed from `m_queries`, or it was accepted again from the same
connected peer. -/
def Network.EntryKept (net : Setup) (s : Network) (p : PeerID) (id : SMessageID) : Prop :=
  ¬Evicted s.log p id ∨
    ∃ u ∈ net.peerIdToSockfd p, s.upstream p id = some u ∧ firstUpstream s.log p id = some u

/-- The runs in which `RelayQueryHit` is only called for entries that were kept. -/
def entriesKept (net : Setup) : System Network Label :=
  (network net).restrict fun s l =>
    ∀ p message id, s.relays l = some (p, message, id) → s.EntryKept net p id

section Network

variable {net : Setup} {s s' : Network} {a : Flood} {l : Label} {p : PeerID} {message : Str}
  {id : SMessageID}

theorem relays_eq_some (h : s.relays l = some (p, message, id)) :
    ∃ th now rest, l = .run p th now ∧
      (s.peers p).threads th = .relayQueryHit message id :: rest := by
  cases l with
  | run q th now =>
      simp only [Network.relays] at h
      split at h
      · next m id' rest hth =>
          simp only [Option.some.injEq, Prod.mk.injEq] at h
          obtain ⟨rfl, rfl, rfl⟩ := h
          exact ⟨th, now, rest, rfl, hth⟩
      · cases h
  | _ => cases h

theorem relayQueryHit_cases {t : Tables} {o : Outcome}
    (h : relayQueryHit net p t message id = some o) :
    ((t.queries.index id 0).1 ∈ net.peerIdToSockfd p ∧
        o = { tables := { t with queries := (t.queries.index id 0).2 }
              sent := [((t.queries.index id 0).1, message)] }) ∨
      ((t.queries.index id 0).1 ∉ net.peerIdToSockfd p ∧
        o = { tables :=
                Tables.abort { t with queries := (t.queries.index id 0).2 }
                  .assertionFailed }) := by
  simp only [relayQueryHit] at h
  split at h
  · cases h
  · split at h
    · next hin =>
        injection h with h
        exact .inl ⟨hin, h.symm⟩
    · next hin =>
        injection h with h
        exact .inr ⟨hin, h.symm⟩

/-- It only waits for the send buffer. -/
theorem relayQueryHit_runs {t : Tables} (h : t.sendBufferMutex = false) :
    ∃ o, relayQueryHit net p t message id = some o := by
  rw [relayQueryHit, if_neg (by rw [h]; decide)]
  dsimp only
  split
  · exact ⟨_, rfl⟩
  · exact ⟨_, rfl⟩

/-- What a call of `RelayQueryHit` leaves behind. -/
theorem relays_step (hstep : step net s l = some s') (h : s.relays l = some (p, message, id)) :
    (s.peers p).tables.fault = none ∧
      s'.upstream p id = some (((s.peers p).tables.queries.find? id).getD 0) ∧
      ((((s.peers p).tables.queries.find? id).getD 0 ∈ net.peerIdToSockfd p ∧
          (s'.peers p).tables.fault = none ∧
          s'.sockets = send s.sockets p [(((s.peers p).tables.queries.find? id).getD 0, message)]) ∨
        (((s.peers p).tables.queries.find? id).getD 0 ∉ net.peerIdToSockfd p ∧
          (s'.peers p).tables.fault = some .assertionFailed)) := by
  obtain ⟨th, now, rest, rfl, hth⟩ := relays_eq_some h
  obtain ⟨hgo, sec, rest', o, hsec, ho, rfl⟩ := step_run_cases hstep
  rw [hth] at hsec
  obtain ⟨rfl, rfl⟩ := List.cons_eq_cons.mp hsec
  have hentry : ((s.peers p).tables.queries.index id 0).2.find? id =
      some (((s.peers p).tables.queries.find? id).getD 0) := by
    rw [UnorderedMap.find?_index, if_pos BEq.rfl]
  rw [Network.upstream, commit_tables]
  rcases relayQueryHit_cases ho with ⟨hin, rfl⟩ | ⟨hin, rfl⟩
  · rw [UnorderedMap.fst_index] at hin
    refine ⟨hgo.1.2, hentry, .inl ⟨hin, hgo.1.2, ?_⟩⟩
    rw [← UnorderedMap.fst_index]
    rfl
  · rw [UnorderedMap.fst_index] at hin
    exact ⟨hgo.1.2, hentry, .inr ⟨hin, rfl⟩⟩

theorem send_injective {sockets : PeerID → PeerID → List Str} {u v : PeerID}
    (h : send sockets p [(u, message)] = send sockets p [(v, message)]) : u = v := by
  have hlen := congrArg List.length (congrFun (congrFun h p) u)
  by_contra hne
  simp [send, Ne.symm hne] at hlen

/-- A call does what it should exactly if `m_queries` holds the first upstream, which
is connected. -/
theorem relaysBack_iff (hstep : step net s l = some s')
    (h : s.relays l = some (p, message, id)) :
    RelaysBack s s' p message id ↔
      ∃ u ∈ net.peerIdToSockfd p, s.upstream p id = some u ∧
        firstUpstream s.log p id = some u := by
  obtain ⟨-, hentry, hcases⟩ := relays_step hstep h
  constructor
  · rintro ⟨hfault, hsame, hsent⟩
    rcases hcases with ⟨hin, -, hsockets⟩ | ⟨-, hfault'⟩
    · rcases hsent with ⟨hnone, -⟩ | ⟨hsome, u, hfirst, hsockets'⟩
      · rw [hsame, hnone] at hentry
        cases hentry
      · obtain ⟨v, hv⟩ := Option.ne_none_iff_exists'.mp hsome
        have hfind : (s.peers p).tables.queries.find? id = some v := hv
        rw [hfind, Option.getD_some] at hin hsockets
        rw [hsockets] at hsockets'
        obtain rfl := send_injective hsockets'
        exact ⟨v, hin, hv, hfirst⟩
    · rw [hfault'] at hfault
      cases hfault
  · rintro ⟨u, hin, hu, hfirst⟩
    have hfind : (s.peers p).tables.queries.find? id = some u := hu
    rw [hfind, Option.getD_some] at hentry hcases
    rcases hcases with ⟨-, hfault, hsockets⟩ | ⟨hnot, -⟩
    · exact ⟨hfault, hentry.trans hu.symm,
        .inr ⟨by rw [hu]; exact Option.some_ne_none u, u, hfirst, hsockets⟩⟩
    · exact absurd hin hnot

/-- Only `RelayQueryHit` stops a process. -/
theorem writes_fault {now : Int} {t t' : Tables} {task : Task} (h : Writes net p now t task t')
    (hfault : t.fault = none) :
    t'.fault = none ∨
      ∃ x, task = .relayHit x ∧ (t.queries.index x.id 0).1 ∉ net.peerIdToSockfd p := by
  cases h with
  | abort x hu => exact .inr ⟨x, rfl, hu⟩
  | _ => exact .inl hfault

/-- A kept entry is the connected first upstream. -/
theorem EntryKept.finds (hs : (flood net).Reachable a) (hR : Refines s a) (hc : a.SentBack)
    {th : Thread} {x : Hit} (hw : Work.mk (.thread p th) (.relayHit x) ∈ a.work)
    (h : s.EntryKept net p x.id) :
    ∃ u ∈ net.peerIdToSockfd p, a.upstream p x.id = some u ∧
      firstUpstream a.log p x.id = some u := by
  rcases h with hkept | ⟨u, hlink, hu, hfirst⟩
  · exact relayHit_finds hs hc hw rfl fun hev => hkept (hR.evicted hev)
  · rw [hR.upstream] at hu
    rw [hR.firstUpstream] at hfirst
    exact ⟨u, hlink, hu, hfirst⟩

/-- A step of no thread changes no members, and sends nothing. -/
theorem quiet_step {a' : Flood} (hl : FloodStep net a l a') (hne : ∀ p th now, l ≠ .run p th now) :
    a'.tables = a.tables ∧ ∃ new, a'.log = a.log ++ new ∧ ∀ e ∈ new, GoesBack a.log e := by
  cases hl with
  | @run p th now => exact absurd rfl (hne p th now)
  | takeMessage | takeBroadcast | wake =>
      exact ⟨rfl, [], (List.append_nil _).symm, fun e he => absurd he List.not_mem_nil⟩
  | command | deliver =>
      refine ⟨rfl, _, rfl, fun e he => ?_⟩
      rw [List.mem_singleton.mp he]
      trivial

/-- The hits a task sends go back, if what it finds is the first upstream. -/
theorem history_goesBack {th : Thread} {now : Int} {task : Task} {rest : Multiset Work}
    {e : Effect} (hr : RunStep net a p th now task rest e)
    (hfinds : ∀ x, task = .relayHit x → ∃ u ∈ net.peerIdToSockfd p,
      a.upstream p x.id = some u ∧ firstUpstream a.log p x.id = some u) :
    ∀ le ∈ e.history.map (p, ·), GoesBack a.log le := by
  intro le hle
  obtain ⟨ev, hev, rfl⟩ := List.mem_map.mp hle
  rcases Effect.mem_history hev with hev | ⟨y, hy, rfl⟩
  · have hlog := perform_logs hr.perform _ hev
    cases hlog <;> trivial
  · have hsend := perform_sends hr.perform y hy
    obtain ⟨q, m⟩ := y
    cases hsend with
    | query q x => trivial
    | hit x hu =>
        obtain ⟨u, -, hup, hfirst⟩ := hfinds x rfl
        show firstUpstream a.log p x.id = some ((a.tables p).queries.index x.id 0).1
        rw [UnorderedMap.fst_index, show (a.tables p).queries.find? x.id = some u from hup]
        exact hfirst

/-- In a run whose calls were all for entries that were kept, nothing stopped and
every hit went back. -/
theorem entriesKept_flood (h : (entriesKept net).Reachable s) :
    ∃ a, (flood net).Reachable a ∧ Refines s a ∧ a.SentBack ∧
      ∀ p, (a.tables p).fault = none := by
  induction h with
  | init h0 =>
      rw [show _ = initialNetwork net from h0]
      refine ⟨initialFlood net, .init rfl, initial_refines net, ?_, fun _ => rfl⟩
      intro i e he
      cases he
  | @step s s' l _ hl ih =>
      obtain ⟨a, ha, hR, hc, hfault⟩ := ih
      obtain ⟨hkept, hstep⟩ := hl
      by_cases hrun : ∃ p th now, l = .run p th now
      · obtain ⟨p, th, now, rfl⟩ := hrun
        obtain ⟨task, work, e, ⟨rest, hth⟩, hr, hR'⟩ := run_refines ha hR hstep
        have hfinds : ∀ x, task = .relayHit x → ∃ u ∈ net.peerIdToSockfd p,
            a.upstream p x.id = some u ∧ firstUpstream a.log p x.id = some u := by
          rintro x rfl
          refine EntryKept.finds ha hR hc hr.mem (hkept p x.text x.id ?_)
          simp only [Network.relays, hth, Task.code]
        refine ⟨_, .step _ ha hr.step, hR', SentBack.append hc rfl (history_goesBack hr hfinds), ?_⟩
        intro q
        refine after_tables (R := fun t t' => t.fault = none → t'.fault = none) (fun _ h => h)
          (fun hf => ?_) q (hfault q)
        rcases writes_fault (perform_writes hr.perform) hf with hnone | ⟨x, hx, hnot⟩
        · exact hnone
        · obtain ⟨u, hlink, hup, -⟩ := hfinds x hx
          rw [UnorderedMap.fst_index,
            show (a.tables p).queries.find? x.id = some u from hup] at hnot
          exact absurd hlink hnot
      · obtain ⟨a', hl', hR'⟩ := step_refines ha hR hstep
        obtain ⟨htables, new, hlog, hnew⟩ :=
          quiet_step hl' fun p th now hrun' => hrun ⟨p, th, now, hrun'⟩
        refine ⟨a', .step _ ha hl', hR', SentBack.append hc hlog hnew, fun q => ?_⟩
        rw [htables]
        exact hfault q

/-- **A hit is never misrouted, as long as its entry was kept.** In a run in which
`RelayQueryHit` was only called for entries that were kept, no process has stopped
and every entry of `m_queries` was made by `CacheQuery`; and the next call sends the
hit back, fails no assertion and leaves `m_queries` alone exactly if its entry was
kept as well. -/
theorem hit_relayed_back (net : Setup) {s : Network} (hs : (entriesKept net).Reachable s) :
    (∀ p, (s.peers p).tables.fault = none) ∧
      (∀ p id u, s.upstream p id = some u →
        ∃ id', (id' == id) = true ∧ (p, .cached id' u) ∈ s.log) ∧
      ∀ l s' p message id, step net s l = some s' → s.relays l = some (p, message, id) →
        (RelaysBack s s' p message id ↔ s.EntryKept net p id) := by
  obtain ⟨a, ha, hR, hc, hfault⟩ := entriesKept_flood hs
  refine ⟨fun p => by rw [hR.tables]; exact hfault p, ?_, ?_⟩
  · intro p id u hu
    rw [hR.upstream] at hu
    obtain ⟨id', hid, hmem⟩ := (reachable_copied ha hc).2 p (hfault p) id u hu
    exact ⟨id', hid, hR.mem_log hmem⟩
  · intro l s' p message id hstep hcall
    rw [relaysBack_iff hstep hcall]
    refine ⟨.inr, fun hkept => ?_⟩
    obtain ⟨th, now, rest, rfl, hth⟩ := relays_eq_some hcall
    have hsec : .relayQueryHit message id ∈ s.sectionsAt (.thread p th) := by
      rw [Network.sectionsAt, hth]
      exact List.mem_cons_self
    obtain ⟨task, hw, hcode⟩ := hR.exists_task hsec
    obtain ⟨x, rfl, rfl⟩ : ∃ x, task = .relayHit x ∧ x.id = id := by
      cases task with
      | relayHit x =>
          injection hcode with _ hid
          exact ⟨x, rfl, hid⟩
      | _ => cases hcode
    obtain ⟨u, hlink, hu, hfirst⟩ := EntryKept.finds ha hR hc hw hkept
    rw [← hR.firstUpstream] at hfirst
    exact ⟨u, hlink, (hR.upstream p x.id).trans hu, hfirst⟩

/-- A run in which nothing was removed is one in which every entry was kept. -/
theorem entriesKept_of_nothingRemoved (h : Reachable net s) (hc : s.NothingRemoved) :
    (entriesKept net).Reachable s := by
  refine System.Reachable.restrict (C := Network.NothingRemoved) ?_ ?_ h hc
  · exact fun s l s' hl hc e he => hc e ((step_log hl).subset he)
  · rintro s l s' - hl hc p message id -
    refine .inl ?_
    rintro ⟨id', -, hmem⟩
    cases hc _ ((step_log hl).subset hmem)

end Network

/-! ## At the hub -/

/-- The hit of peer 3. -/
def theHit : Str := createQueryHitMessage hub 3 theFile.1 ⟨2, 0, 0⟩

theorem relays_hitInHand : hitInHand.relays (.run 1 .message 0) = some (1, theHit, ⟨2, 0, 0⟩) := by
  decide +kernel

theorem hit_relayed_back_hitInHand :
    ∃ s', step hub hitInHand (.run 1 .message 0) = some s' ∧
      RelaysBack hitInHand s' 1 theHit ⟨2, 0, 0⟩ := by
  have hc : hitInHand.NothingRemoved := by decide +kernel
  have hs := entriesKept_of_nothingRemoved (reachable_finalState hub Label.hitInHand) hc
  have hsome : (step hub hitInHand (.run 1 .message 0)).isSome = true := by decide +kernel
  obtain ⟨s', hstep⟩ := Option.isSome_iff_exists.mp hsome
  refine ⟨s', hstep, ?_⟩
  refine ((hit_relayed_back hub hs).2.2 _ s' 1 theHit ⟨2, 0, 0⟩ hstep relays_hitInHand).mpr ?_
  refine .inl ?_
  rintro ⟨id', -, hmem⟩
  cases hc _ hmem

/-- Peer 1 after two minutes and 120000 queries of its own. -/
theorem evictedMeanwhile_spec :
    runLabels hub (initialNetwork hub) Label.evictedMeanwhile = some evictedMeanwhile ∧
      evictedMeanwhile.alive hub 1 ∧
      (evictedMeanwhile.peers 1).tables.sendBufferMutex = false ∧
      (evictedMeanwhile.peers 1).threads .message = (hitInHand.peers 1).threads .message ∧
      (evictedMeanwhile.peers 1).tables.queries.find? ⟨2, 0, 0⟩ = none ∧
      hitInHand.log <+: evictedMeanwhile.log := by
  have hrun₀ : runLabels hub (initialNetwork hub) Label.hitInHand = some hitInHand := by
    have hsome : (runLabels hub (initialNetwork hub) Label.hitInHand).isSome = true := by
      decide +kernel
    obtain ⟨s, hs⟩ := Option.isSome_iff_exists.mp hsome
    rw [hitInHand, finalState, hs, Option.getD_some]
  have hidle : ∀ th, th = .command ∨ th = .mantain → (hitInHand.peers 1).threads th = [] := by
    rintro th (rfl | rfl) <;> exact List.isEmpty_iff.mp (by decide +kernel)
  have h₀ : Filled hub 1 hitInHand hitInHand 0 :=
    { sockets := rfl, threads := rfl, fault := by decide +kernel, mutex := by decide +kernel
      counter := by decide +kernel, size := Nat.zero_le _, timestamps := by decide +kernel
      own := by decide +kernel, log := List.prefix_refl _ }
  obtain ⟨s₁, hrun₁, hfilled⟩ :=
    filled (by decide) h₀ (hidle .command (.inl rfl)) theFile 120000 (by decide)
  have halive₁ : s₁.alive hub 1 := ⟨by decide, hfilled.fault⟩
  -- The cleaner wakes up to a full map, and every entry is old.
  obtain ⟨s₂, hstep₂, htables₂, hthreads₂, hlog₂⟩ : ∃ s₂,
      step hub s₁ (.wake 1 1000000) = some s₂ ∧ (s₂.peers 1).tables = (s₁.peers 1).tables ∧
        (s₂.peers 1).threads = Function.update (s₁.peers 1).threads .mantain
          [.removeOldQueries 1000000, .removeOldQueryHits 1000000, .removeOldWaits 1000000] ∧
        s₂.log = s₁.log := by
    have hmantain : (s₁.peers 1).threads .mantain = [] := by
      rw [hfilled.threads]
      exact hidle .mantain (.inr rfl)
    refine ⟨_, if_pos ⟨halive₁, by decide, hmantain⟩, ?_, ?_, rfl⟩
    · simp only [Function.update_self]
    · have hsize := hfilled.size
      have hfull : ¬((s₁.peers 1).tables.queries.size : Int) < queryCacheTimeOut * 1000 := by
        show ¬(_ < (120000 : Int))
        omega
      simp only [Function.update_self, mantainQueryMapSize, if_neg hfull]
  have hstep₃ : step hub s₂ (.run 1 .mantain 1000000) = some _ :=
    step_run (by exact ⟨by decide, by rw [htables₂]; exact hfilled.fault⟩) (by decide)
      (by rw [hthreads₂, Function.update_self]) rfl
  generalize hs₃ : commit s₂ 1 .mantain _ _ = s₃ at hstep₃
  have hall : runLabels hub (initialNetwork hub) Label.evictedMeanwhile = some s₃ := by
    rw [Label.evictedMeanwhile, runLabels_append, hrun₀, Option.bind_some, runLabels_append,
      hrun₁, Option.bind_some]
    simp only [runLabels, hstep₂, hstep₃, Option.bind_some]
  have hs : evictedMeanwhile = s₃ := by
    rw [evictedMeanwhile, finalState, hall, Option.getD_some]
  have htables₃ : (s₃.peers 1).tables = (removeOldQueries (s₂.peers 1).tables 1000000).tables := by
    rw [← hs₃, commit_tables]
  rw [hs]
  refine ⟨hall, ⟨by decide, ?_⟩, ?_, ?_, ?_, ?_⟩
  · rw [htables₃, htables₂]
    exact hfilled.fault
  · rw [htables₃, htables₂]
    exact hfilled.mutex
  · rw [← hs₃, commit_threads, hthreads₂, hfilled.threads]
    simp
  · rw [htables₃, htables₂]
    refine UnorderedMap.find?_filterKeys_none fun id hid => ?_
    have htime := hfilled.timestamps id hid
    rw [timedOut, htime]
    decide
  · refine hfilled.log.trans ?_
    rw [← hlog₂, ← hs₃]
    exact commit_log

theorem misroutes {s : Network} (halive : s.alive hub 1)
    (hmutex : (s.peers 1).tables.sendBufferMutex = false)
    (hthreads : (s.peers 1).threads .message = (hitInHand.peers 1).threads .message)
    (hnone : s.upstream 1 ⟨2, 0, 0⟩ = none) (hlog : hitInHand.log <+: s.log) :
    ∃ s', step hub s (.run 1 .message 1000000) = some s' ∧
      s.relays (.run 1 .message 1000000) = some (1, theHit, ⟨2, 0, 0⟩) ∧
      firstUpstream s.log 1 ⟨2, 0, 0⟩ = some 2 ∧ s.upstream 1 ⟨2, 0, 0⟩ = none ∧
      s'.sockets 1 0 = s.sockets 1 0 ++ [theHit] ∧ s'.upstream 1 ⟨2, 0, 0⟩ = some 0 ∧
      ¬RelaysBack s s' 1 theHit ⟨2, 0, 0⟩ := by
  have hcall : s.relays (.run 1 .message 1000000) = some (1, theHit, ⟨2, 0, 0⟩) := by
    have hcall₀ := relays_hitInHand
    rw [Network.relays] at hcall₀ ⊢
    rw [hthreads]
    exact hcall₀
  obtain ⟨th, now, rest, hl, hth⟩ := relays_eq_some hcall
  injection hl with _ hth' hnow
  subst hth'
  obtain ⟨o, ho⟩ : ∃ o, relayQueryHit hub 1 (s.peers 1).tables theHit ⟨2, 0, 0⟩ = some o :=
    relayQueryHit_runs hmutex
  have hclock : IsInt64 1000000 := by decide
  have hstep := step_run halive hclock hth ho
  obtain ⟨-, hentry, hsent⟩ := relays_step hstep hcall
  have hnone' : (s.peers 1).tables.queries.find? ⟨2, 0, 0⟩ = none := hnone
  rw [hnone', Option.getD_none] at hentry hsent
  refine ⟨_, hstep, hcall, firstUpstream_grows hlog (by decide +kernel), hnone, ?_, hentry, ?_⟩
  · rcases hsent with ⟨-, -, hsockets⟩ | ⟨hnot, -⟩
    · rw [hsockets]
      simp [send]
    · exact absurd (by decide) hnot
  · rintro ⟨-, hsame, -⟩
    rw [hentry, hnone] at hsame
    cases hsame

/-- The query came from peer 2, the entry was evicted, and the hit goes to peer 0,
which `m_queries` names from then on. -/
theorem hit_misrouted :
    Reachable hub evictedMeanwhile ∧ ∃ s',
      step hub evictedMeanwhile (.run 1 .message 1000000) = some s' ∧
      evictedMeanwhile.relays (.run 1 .message 1000000) = some (1, theHit, ⟨2, 0, 0⟩) ∧
      firstUpstream evictedMeanwhile.log 1 ⟨2, 0, 0⟩ = some 2 ∧
      evictedMeanwhile.upstream 1 ⟨2, 0, 0⟩ = none ∧
      s'.sockets 1 0 = evictedMeanwhile.sockets 1 0 ++ [theHit] ∧
      s'.upstream 1 ⟨2, 0, 0⟩ = some 0 ∧
      ¬RelaysBack evictedMeanwhile s' 1 theHit ⟨2, 0, 0⟩ := by
  obtain ⟨-, halive, hmutex, hthreads, hnone, hlog⟩ := evictedMeanwhile_spec
  exact ⟨reachable_finalState hub Label.evictedMeanwhile,
    misroutes halive hmutex hthreads hnone hlog⟩

end P2PFileSharing
