import P2PFileSharing.Proofs.Bridge

/-!
# Which thread does what, and who has the send buffer

The broadcast thread sends, the cleaner removes, and the other three do the rest: a task stays
with threads of one duty for as long as it is at a thread at all. So `m_send_buffer_mutex` is
held exactly while the broadcast thread is in its loop, and there its next section can always
run. That is why nobody waits for the mutex for good, and without removals no peer ever stops.
-/

namespace P2PFileSharing

/-- What a thread is for. -/
inductive Duty
  | working | sending | cleaning
  deriving DecidableEq

def Task.duty : Task → Duty
  | .lockSendBuffer _ _ | .sendTo _ _ | .unlockSendBuffer => .sending
  | .removeOldQueries _ | .removeOldQueryHits _ | .removeOldWaits _ => .cleaning
  | _ => .working

def Thread.duty : Thread → Duty
  | .broadcast => .sending
  | .mantain => .cleaning
  | _ => .working

/-- A task at a thread is one of the thread's duty. -/
def Work.OnDuty (w : Work) : Prop := ∀ p th, w.place = .thread p th → w.task.duty = th.duty

section Duties

variable {net : Setup} {s s' : Flood} {l : Label}

theorem Message.task_duty (m : Message) : m.task.duty = .working := by
  cases m <;> rfl

theorem TestTask.duty {me : PeerID} {task : Task} (h : TestTask net me task) :
    task.duty = .working := by
  cases h <;> rfl

/-- What a thread goes on with is of its duty; only the queues lead to another one. -/
theorem next_duty {me : PeerID} {now : Int} {t : Tables} {task : Task} {e : Effect}
    (h : perform net me now t task = some e) : ∀ task' ∈ e.next, task'.duty = task.duty := by
  intro task' hmem
  have hl := perform_leads h task' (List.mem_append_left _ hmem)
  cases hl with
  | queueOwn x w =>
      simp only [perform, Option.some.injEq] at h
      subst h
      obtain ⟨f, -, hf⟩ := List.mem_map.mp hmem
      cases hf
  | queueRelayed x y hy =>
      simp only [perform, hy, Option.some.injEq] at h
      subst h
      cases hmem
  | create hc => cases hc <;> rfl
  | ownTest test n ht | test x ht =>
      rw [ht.duty]
      rfl
  | _ => rfl

theorem commandTasks_duty {p : PeerID} {cmd : Command} {task : Task}
    (h : task ∈ commandTasks net p cmd) : task.duty = .working := by
  cases cmd with
  | query f | obtain f | invQuery f | concurrent test n =>
      rw [List.mem_singleton.mp h]
      rfl
  | replicate f =>
      rw [(mem_replicateTasks h).1]
      rfl
  | testQuery => exact (testTask_of_query h).duty
  | testObtain => exact (testTask_of_obtain h).duty

theorem mantainTasks_duty {t : Tables} {now : Int} {task : Task}
    (h : task ∈ mantainTasks t now) : task.duty = .cleaning := by
  unfold mantainTasks at h
  split at h
  · cases h
  · simp only [List.mem_cons, List.not_mem_nil, or_false] at h
    rcases h with rfl | rfl | rfl <;> rfl

theorem onDuty_step (hreach : (flood net).Reachable s) (h : FloodStep net s l s')
    (ih : ∀ w ∈ s.work, w.OnDuty) : ∀ w ∈ s'.work, w.OnDuty := by
  have hstart : ∀ {p : PeerID} {th : Thread} {tasks : List Task},
      (∀ task ∈ tasks, task.duty = th.duty) →
      ∀ w ∈ s.work + (tasks.map (Work.mk (.thread p th)) : List Work), w.OnDuty := by
    intro p th tasks ht w hw
    rcases Multiset.mem_add.mp hw with hw | hw
    · exact ih w hw
    · obtain ⟨task, hmem, rfl⟩ := List.mem_map.mp (Multiset.mem_coe.mp hw)
      intro p' th' heq
      cases heq
      exact ht task hmem
  have hmove : ∀ {pl : Place} {w' : Work} {rest : Multiset Work}, s.work = w' ::ₘ rest →
      (∀ p th, pl = .thread p th → w'.task.duty = th.duty) →
      ∀ w ∈ Work.mk pl w'.task ::ₘ rest, w.OnDuty := by
    intro pl w' rest hwork hnew w hw
    rcases Multiset.mem_cons.mp hw with rfl | hw
    · exact hnew
    · exact ih w (by rw [hwork]; exact Multiset.mem_cons_of_mem hw)
  cases h with
  | @run p th now task rest e halive hnow hwork hperform =>
      have hr : RunStep net s p th now task rest e := ⟨halive, hnow, hwork, hperform⟩
      intro w hw
      rcases Multiset.mem_add.mp hw with hw | hw
      · exact ih w (hr.mem_of_rest hw)
      · simp only [Effect.work, Multiset.mem_coe, List.mem_append, List.mem_map] at hw
        rcases hw with ⟨task', ht, rfl⟩ | ⟨x, -, rfl⟩ | ⟨x, -, rfl⟩ <;> intro p' th' heq <;>
          cases heq
        exact (next_duty hperform task' ht).trans (ih _ hr.mem p th rfl)
  | @takeMessage p task rest _ _ hwork =>
      refine hmove hwork fun p' th heq => ?_
      cases heq
      obtain ⟨-, m, hm⟩ :=
        reachable_holds hreach _ (by rw [hwork]; exact Multiset.mem_cons_self _ _)
      rw [show task = m.task from hm]
      exact m.task_duty
  | @takeBroadcast p task rest _ _ hwork =>
      refine hmove hwork fun p' th heq => ?_
      cases heq
      obtain ⟨-, x, exclude, hx⟩ :=
        reachable_holds hreach _ (by rw [hwork]; exact Multiset.mem_cons_self _ _)
      rw [show task = _ from hx]
      rfl
  | command => exact hstart fun task ht => commandTasks_duty ht
  | wake => exact hstart fun task ht => mantainTasks_duty ht
  | deliver _ hwork =>
      refine hmove hwork fun p' th heq => ?_
      cases heq

/-- **Every task at a thread is one of the thread's duty.** -/
theorem reachable_onDuty (h : (flood net).Reachable s) : ∀ w ∈ s.work, w.OnDuty := by
  refine System.Reachable.invariant (I := fun s => ∀ w ∈ s.work, w.OnDuty) ?_ ?_ h
  · intro s hs w hw p th heq
    subst hs
    obtain ⟨q, -, rfl⟩ := List.mem_map.mp hw
    cases heq
    rfl
  · exact fun s l s' hreach ih hl => onDuty_step hreach hl ih

/-- Only the cleaner removes anything. -/
theorem removal_of_logs {me : PeerID} {now : Int} {t : Tables} {task : Task} {ev : Event Message}
    (h : Logs net me now t task ev) (hduty : task.duty ≠ .cleaning) : ev.isRemoval = false := by
  cases h with
  | removedQuery | removedQueryHits | removedWait => exact absurd rfl hduty
  | _ => rfl

/-- **Without removals nothing stops a peer.** -/
theorem reachable_faultless (h : (flood net).Reachable s) (hc : s.NothingRemoved) :
    ∀ p, (s.tables p).fault = none := by
  refine tables_rule (J := fun _ _ t => t.fault = none) (nothingRemoved_prefixClosed net)
    (fun _ => rfl) (fun _ _ _ _ _ _ hJ => hJ) ?_ h hc
  intro s p th now task rest e hs hcs _ hr hJ hw
  have hsent : ∀ x, task = .relayHit x → e.sent ≠ [] := by
    intro x hx
    subst hx
    obtain ⟨u, hsent, -⟩ := sent_relayHit hs hcs hr
    rw [hsent]
    exact List.cons_ne_nil _ _
  obtain ⟨t', ht', hw⟩ : ∃ t', e.tables = t' ∧ Writes net p now (s.tables p) task t' :=
    ⟨_, rfl, hw⟩
  rw [ht']
  cases hw with
  | abort x hin =>
      have hperform := hr.perform
      simp only [perform] at hperform
      split at hperform
      · cases hperform
      · injection hperform with hperform
        exact absurd (by rw [← hperform]) (hsent x rfl)
  | _ => exact hJ

/-- A task that is at work without the mutex can be done, unless the counter is at its end. -/
theorem perform_isSome (net : Setup) (me : PeerID) (now : Int) {t : Tables} (task : Task)
    (hmutex : t.sendBufferMutex = false) (hlimit : t.msgIdCounter + 1 < counterLimit) :
    (perform net me now t task).isSome = true := by
  cases task with
  | sendQuery | createTest => simp only [perform, create, if_pos hlimit, Option.isSome_some]
  | sendInvQuery =>
      simp only [perform, create, if_pos hlimit]
      split <;> rfl
  | relay x =>
      simp only [perform]
      split <;> rfl
  | relayHit x =>
      simp only [perform, hmutex]
      split
      · next hfalse => cases hfalse
      · split <;> rfl
  | lockSendBuffer x exclude =>
      simp only [perform, hmutex]
      rfl
  | takeWait x | startTransfers x f =>
      simp only [perform]
      split <;> rfl
  | _ => rfl

/-- Only the broadcast thread keeps the mutex beyond a section of its own. -/
theorem perform_mutex {me : PeerID} {now : Int} {t : Tables} {task : Task} {e : Effect}
    (h : perform net me now t task = some e) (hduty : task.duty ≠ .sending) :
    e.tables.sendBufferMutex = t.sendBufferMutex := by
  obtain ⟨t', ht', hw⟩ : ∃ t', e.tables = t' ∧ Writes net me now t task t' :=
    ⟨_, rfl, perform_writes h⟩
  rw [ht']
  cases hw with
  | lock | unlock => exact absurd rfl hduty
  | _ => rfl

end Duties

/-! ## The loop of the broadcast thread -/

/-- What the broadcast thread can have before it, and whether it has the send buffer. -/
inductive BroadcastPoint : List Section → Bool → Prop
  | idle : BroadcastPoint [] false
  | waiting (message : Str) (exclude : PeerID) :
      BroadcastPoint [.lockSendBuffer message exclude] false
  | sending (message : Str) (peers : List PeerID) :
      BroadcastPoint (peers.map (fun q => .sendTo q message) ++ [.unlockSendBuffer]) true

def Peer.AtBroadcastPoint (x : Peer) : Prop :=
  BroadcastPoint (x.threads .broadcast) x.tables.sendBufferMutex

section Broadcasting

variable {net : Setup} {s s' : Network} {p : PeerID} {l : Label}

/-- One section of the broadcast thread. -/
theorem broadcastPoint_exec {now : Int} {t : Tables} {sec : Section} {rest : List Section}
    {o : Outcome} (h : BroadcastPoint (sec :: rest) t.sendBufferMutex)
    (hexec : exec net p now t sec = some o) :
    BroadcastPoint (o.next ++ rest) o.tables.sendBufferMutex := by
  generalize hsecs : sec :: rest = secs at h
  generalize hmutex : t.sendBufferMutex = mutex at h
  cases h with
  | idle => cases hsecs
  | waiting message exclude =>
      cases hsecs
      simp only [exec, lockSendBuffer, hmutex] at hexec
      injection hexec with hexec
      subst hexec
      show BroadcastPoint ((_ ++ [_]) ++ []) true
      rw [List.append_nil]
      exact .sending message _
  | sending message peers =>
      cases peers with
      | nil =>
          cases hsecs
          injection hexec with hexec
          subst hexec
          exact .idle
      | cons q peers =>
          cases hsecs
          injection hexec with hexec
          subst hexec
          show BroadcastPoint _ t.sendBufferMutex
          rw [hmutex]
          exact .sending message peers

/-- The section that a thread is at is the code of a task, and running it does the task. -/
theorem Refines.exists_perform {a : Flood} {th : Thread} {now : Int} {sec : Section}
    {rest : List Section} {o : Outcome} (hR : Refines s a) (ha : (flood net).Reachable a)
    (hsec : (s.peers p).threads th = sec :: rest)
    (hexec : exec net p now (s.peers p).tables sec = some o) :
    ∃ task e, Work.mk (.thread p th) task ∈ a.work ∧ task.code = sec ∧
      perform net p now (s.peers p).tables task = some e ∧ e.code = o := by
  have hmem : sec ∈ s.sectionsAt (.thread p th) := by
    rw [Network.sectionsAt, hsec]
    exact List.mem_cons_self
  obtain ⟨task, hw, rfl⟩ := hR.exists_task hmem
  rw [exec_code net p ((reachable_valid ha).work _ hw)] at hexec
  obtain ⟨e, hperform, rfl⟩ := Option.map_eq_some_iff.mp hexec
  exact ⟨task, e, hw, rfl, hperform, rfl⟩

/-- A section of another thread leaves the mutex alone. -/
theorem exec_mutex {a : Flood} {th : Thread} {now : Int} {sec : Section} {rest : List Section}
    {o : Outcome} (ha : (flood net).Reachable a) (hR : Refines s a) (hth : th ≠ .broadcast)
    (hsec : (s.peers p).threads th = sec :: rest)
    (hexec : exec net p now (s.peers p).tables sec = some o) :
    o.tables.sendBufferMutex = (s.peers p).tables.sendBufferMutex := by
  obtain ⟨task, e, hw, rfl, hperform, rfl⟩ := hR.exists_perform ha hsec hexec
  refine perform_mutex hperform ?_
  rw [reachable_onDuty ha _ hw p th rfl]
  cases th <;> first | exact absurd rfl hth | exact fun h => by cases h

theorem broadcastPoint_step {a : Flood} (ha : (flood net).Reachable a) (hR : Refines s a)
    (ih : ∀ p, (s.peers p).AtBroadcastPoint) (h : step net s l = some s') :
    ∀ p, (s'.peers p).AtBroadcastPoint := by
  -- A step touches one peer, so only that one has to be looked at.
  have hupdate : ∀ {q : PeerID} {x : Peer}, x.AtBroadcastPoint →
      ∀ p, (Function.update s.peers q x p).AtBroadcastPoint := by
    intro q x hx p
    by_cases hp : p = q
    · subst hp
      rw [Function.update_self]
      exact hx
    · rw [Function.update_of_ne hp]
      exact ih p
  have hother : ∀ (q : PeerID) (th : Thread) (secs : List Section), th ≠ .broadcast →
      BroadcastPoint (Function.update (s.peers q).threads th secs .broadcast)
        (s.peers q).tables.sendBufferMutex := by
    intro q th secs hth
    rw [Function.update_of_ne hth.symm]
    exact ih q
  cases l with
  | run q th now =>
      obtain ⟨-, sec, rest, o, hsec, hexec, rfl⟩ := step_run_cases h
      refine hupdate ?_
      show BroadcastPoint (Function.update (s.peers q).threads th (o.next ++ rest) .broadcast)
        o.tables.sendBufferMutex
      by_cases hth : th = .broadcast
      · subst hth
        rw [Function.update_self]
        have hq : BroadcastPoint ((s.peers q).threads .broadcast) _ := ih q
        rw [hsec] at hq
        exact broadcastPoint_exec hq hexec
      · rw [exec_mutex ha hR hth hsec hexec]
        exact hother q th _ hth
  | takeMessage q =>
      simp only [step] at h
      split at h
      · split at h
        · cases h
        · next message rest _ =>
            injection h with h
            subst h
            exact hupdate (hother q .message [.handle message] (by decide))
      · cases h
  | takeBroadcast q =>
      simp only [step] at h
      split at h
      · next hgo =>
          split at h
          · cases h
          · next message exclude rest _ =>
              injection h with h
              subst h
              refine hupdate ?_
              have hq : BroadcastPoint ((s.peers q).threads .broadcast) _ := ih q
              rw [hgo.2] at hq
              show BroadcastPoint (Function.update (s.peers q).threads .broadcast
                [.lockSendBuffer message exclude] .broadcast) (s.peers q).tables.sendBufferMutex
              rw [Function.update_self]
              generalize (s.peers q).tables.sendBufferMutex = mutex at hq ⊢
              cases mutex with
              | false => exact .waiting message exclude
              | true =>
                  generalize hnil : ([] : List Section) = secs at hq
                  cases hq
                  simp at hnil
      · cases h
  | command q cmd =>
      simp only [step] at h
      split at h
      · injection h with h
        subst h
        exact hupdate (hother q .command (runCommand net q cmd) (by decide))
      · cases h
  | wake q now =>
      simp only [step] at h
      split at h
      · injection h with h
        subst h
        exact hupdate (hother q .mantain (mantainQueryMapSize (s.peers q).tables now) (by decide))
      · cases h
  | deliver q r =>
      simp only [step] at h
      split at h
      · split at h
        · cases h
        · injection h with h
          subst h
          exact hupdate (ih r)
      · cases h

/-- **The mutex is held exactly while the broadcast thread is in its loop.** -/
theorem reachable_broadcastPoint (h : Reachable net s) : ∀ p, (s.peers p).AtBroadcastPoint := by
  have hboth : (∃ a, (flood net).Reachable a ∧ Refines s a) ∧
      ∀ p, (s.peers p).AtBroadcastPoint := by
    refine System.Reachable.invariant (I := fun s => (∃ a, (flood net).Reachable a ∧ Refines s a) ∧
      ∀ p, (s.peers p).AtBroadcastPoint) ?_ ?_ h
    · intro s hs
      refine ⟨exists_flood (.init hs), fun p => ?_⟩
      subst hs
      exact .idle
    · intro s l s' hs ih hl
      obtain ⟨a, ha, hR⟩ := ih.1
      exact ⟨exists_flood (.step l hs hl), broadcastPoint_step ha hR ih.2 hl⟩
  exact hboth.2

end Broadcasting

end P2PFileSharing
