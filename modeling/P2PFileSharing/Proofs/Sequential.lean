import P2PFileSharing.Proofs.Ids

/-!
# The message thread does one thing at a time

The bag forgets the order of a thread's tasks. What the argument needs of it is
that a handler's steps up to its decision are alone at their thread: while a
message is looked up, cached or acted on, or a hit recorded and matched with a
wait entry, the same thread has nothing else to do.
-/

namespace P2PFileSharing

/-- The tasks only the message thread has. -/
def Task.ofMessageThread : Task → Bool
  | .handleQuery _ | .cacheQuery _ | .act _ | .relay _ | .handleHit _ | .relayHit _
  | .record _ _ | .takeWait _ | .startTransfers _ _ => true
  | _ => false

/-- Where a task can wait. A copy of a query on a stream names the peer at the
stream's other end. -/
def Place.Holds (net : Setup) : Place → Task → Prop
  | .thread p th, task => p ∈ net.peers ∧ (task.ofMessageThread = true → th = .message)
  | .broadcastQueue p, task => p ∈ net.peers ∧ ∃ x exclude, task = .lockSendBuffer x exclude
  | .messagesQueue q, task => q ∈ net.peers ∧ ∃ m : Message, task = m.task
  | .socket p q, task =>
      p ∈ net.peers ∧ q ∈ net.peerIdToSockfd p ∧ ∃ m : Message, task = m.task ∧
        ∀ x, m = .query x → x.sender = p

/-- The tasks that are alone at their thread. -/
def Task.solo : Task → Bool
  | .handleQuery _ | .cacheQuery _ | .act _ | .handleHit _ | .record _ _ | .takeWait _
  | .startTransfers _ _ => true
  | _ => false

section Sequential

variable {net : Setup} {s s' : Flood} {l : Label}

theorem ofMessageThread_of_leads {me : PeerID} {now : Int} {t : Tables} {task task' : Task}
    (h : Leads net me now t task task') (h' : task'.ofMessageThread = true) :
    task.ofMessageThread = true := by
  cases h with
  | ownTest test n ht | test x ht => cases ht <;> cases h'
  | accept | act | answer | relay | home | onward | lookUp | transfer => rfl
  | _ => cases h'

theorem Starts.not_ofMessageThread {p : PeerID} {task : Task} (h : Starts net p task) :
    task.ofMessageThread = false := by
  have hnone := h.strand
  cases task <;> first | rfl | cases hnone

theorem holds_of_sends {p q : PeerID} {t : Tables} {task : Task} {m : Message}
    (h : Sends net p t task q m) (hk : task.Known net s p) :
    q ∈ net.peerIdToSockfd p ∧ ∀ x, m = .query x → x.sender = p := by
  cases h with
  | query q x =>
      refine ⟨hk.2.2, fun y hy => ?_⟩
      injection hy with hy
      rw [← hy]
      exact hk.2.1
  | hit h hu => exact ⟨hu, fun y hy => by cases hy⟩

theorem holds_step (hreach : (flood net).Reachable s) (h : FloodStep net s l s')
    (hs : ∀ w ∈ s.work, w.place.Holds net w.task) : ∀ w ∈ s'.work, w.place.Holds net w.task := by
  cases h with
  | @run p th now task rest e halive hnow hwork hperform =>
      have hr : RunStep net s p th now task rest e := ⟨halive, hnow, hwork, hperform⟩
      intro w hw
      rcases Multiset.mem_add.mp hw with hw | hw
      · exact hs w (hr.mem_of_rest hw)
      · simp only [Effect.work, Multiset.mem_coe, List.mem_append, List.mem_map] at hw
        rcases hw with ⟨task', ht, rfl⟩ | ⟨x, hx, rfl⟩ | ⟨x, hx, rfl⟩
        · refine ⟨halive.1, fun hof => ?_⟩
          have hl := perform_leads hperform task' (List.mem_append_left _ ht)
          exact (hs _ hr.mem).2 (ofMessageThread_of_leads hl hof)
        · exact ⟨halive.1, _, _, rfl⟩
        · obtain ⟨hlink, hsender⟩ := holds_of_sends (perform_sends hperform x hx)
            (reachable_known hreach _ hr.mem)
          exact ⟨halive.1, hlink, _, rfl, hsender⟩
  | @takeMessage p task rest _ _ hwork =>
      have hplace := hs _ (by rw [hwork]; exact Multiset.mem_cons_self _ _)
      intro w hw
      rcases Multiset.mem_cons.mp hw with rfl | hw
      · exact ⟨hplace.1, fun _ => rfl⟩
      · exact hs w (by rw [hwork]; exact Multiset.mem_cons_of_mem hw)
  | @takeBroadcast p task rest _ _ hwork =>
      have hplace := hs _ (by rw [hwork]; exact Multiset.mem_cons_self _ _)
      intro w hw
      rcases Multiset.mem_cons.mp hw with rfl | hw
      · obtain ⟨hp, x, exclude, hx⟩ := hplace
        refine ⟨hp, fun hof => ?_⟩
        rw [show task = _ from hx] at hof
        cases hof
      · exact hs w (by rw [hwork]; exact Multiset.mem_cons_of_mem hw)
  | @command p cmd halive _ =>
      intro w hw
      rcases Multiset.mem_add.mp hw with hw | hw
      · exact hs w hw
      · obtain ⟨task, ht, rfl⟩ := List.mem_map.mp hw
        refine ⟨halive.1, fun hof => ?_⟩
        rw [Starts.not_ofMessageThread (.command cmd ht)] at hof
        cases hof
  | @wake p now halive _ _ =>
      intro w hw
      rcases Multiset.mem_add.mp hw with hw | hw
      · exact hs w hw
      · obtain ⟨task, ht, rfl⟩ := List.mem_map.mp hw
        have hstart : Starts net p task := .mantain _ now ht
        refine ⟨halive.1, fun hof => ?_⟩
        rw [hstart.not_ofMessageThread] at hof
        cases hof
  | @deliver p q m rest halive hwork =>
      intro w hw
      rcases Multiset.mem_cons.mp hw with rfl | hw
      · exact ⟨halive.1, m, rfl⟩
      · exact hs w (by rw [hwork]; exact Multiset.mem_cons_of_mem hw)

theorem reachable_holds (h : (flood net).Reachable s) :
    ∀ w ∈ s.work, w.place.Holds net w.task := by
  refine System.Reachable.invariant (I := fun s => ∀ w ∈ s.work, w.place.Holds net w.task)
    ?_ ?_ h
  · rintro s rfl w hw
    obtain ⟨p, hp, rfl⟩ := List.mem_map.mp hw
    refine ⟨hp, fun hof => ?_⟩
    cases hof
  · exact fun s l s' hreach hs hl => holds_step hreach hl hs

/-- Where the message thread's tasks wait. -/
theorem place_of_messageThread (h : (flood net).Reachable s) {w : Work} (hw : w ∈ s.work)
    (hof : w.task.ofMessageThread = true) :
    w.place = .thread w.place.owner .message ∨ ∃ m : Message, w.task = m.task := by
  have hplace := reachable_holds h w hw
  generalize w.place = pl at hplace
  cases pl with
  | thread p th =>
      rw [hplace.2 hof]
      exact .inl rfl
  | broadcastQueue p =>
      obtain ⟨-, x, exclude, hx⟩ := hplace
      rw [hx] at hof
      cases hof
  | messagesQueue p => exact .inr hplace.2
  | socket p q =>
      obtain ⟨-, -, m, hm, -⟩ := hplace
      exact .inr ⟨m, hm⟩

/-- How many tasks wait at a place. -/
def Flood.waiting (s : Flood) (pl : Place) : Nat := s.work.countP fun w => w.place = pl

/-- A solo task at a thread is all the thread has to do. -/
def Flood.Solo (s : Flood) : Prop :=
  ∀ w ∈ s.work, w.task.solo = true → ∀ p th, w.place = .thread p th → s.waiting w.place ≤ 1

theorem solo_of_leads {me : PeerID} {now : Int} {t : Tables} {task task' : Task}
    (h : Leads net me now t task task') (h' : task'.solo = true) :
    task.solo = true ∧ ∀ x, task ≠ .act x := by
  cases h with
  | ownTest test n ht | test x ht => cases ht <;> cases h'
  | accept | act | home | lookUp | transfer => exact ⟨rfl, by simp⟩
  | _ => cases h'

/-- A solo task that has not acted yet has one thing to go on with. -/
theorem next_of_solo {me : PeerID} {now : Int} {t : Tables} {task : Task} {e : Effect}
    (h : perform net me now t task = some e) (hsolo : task.solo = true)
    (hact : ∀ x, task ≠ .act x) : e.next.length ≤ 1 := by
  cases task with
  | handleQuery x =>
      simp only [perform, Option.some.injEq] at h
      subst h
      dsimp only
      split <;> simp
  | handleHit x =>
      simp only [perform, Option.some.injEq, hitTasks] at h
      subst h
      dsimp only
      split <;> split <;> simp
  | cacheQuery | record =>
      simp only [perform, Option.some.injEq] at h
      subst h
      simp
  | act x => exact absurd rfl (hact x)
  | takeWait | startTransfers =>
      simp only [perform] at h
      split at h <;>
        (injection h with h
         subst h
         simp)
  | _ => cases hsolo

theorem countP_work (e : Effect) (p q : PeerID) (th th' : Thread) :
    (e.work p th : Multiset Work).countP (fun w => w.place = .thread q th') =
      if p = q ∧ th = th' then e.next.length else 0 := by
  have hnext : (e.next.map (Work.mk (.thread p th))).countP
      (fun w => w.place = .thread q th') = if p = q ∧ th = th' then e.next.length else 0 := by
    rw [List.countP_map]
    split
    · next heq => exact List.countP_eq_length.mpr (by simp [heq])
    · next hne => exact List.countP_eq_zero.mpr (by simpa using fun _ _ => hne)
  rw [Multiset.coe_countP, Effect.work, List.countP_append, List.countP_append, hnext,
    List.countP_map, List.countP_map, List.countP_eq_zero.mpr (by simp),
    List.countP_eq_zero.mpr (by simp)]
  rfl

theorem waiting_cons {s : Flood} {w : Work} {rest : Multiset Work} (h : s.work = w ::ₘ rest)
    (pl : Place) : s.waiting pl =
      rest.countP (fun w => w.place = pl) + if w.place = pl then 1 else 0 := by
  rw [Flood.waiting, h, Multiset.countP_cons]

theorem waiting_idle {pl : Place} (h : s.idle pl) : s.waiting pl = 0 :=
  Multiset.countP_eq_zero.mpr h

/-- A task that moves to a place where nothing waits. -/
theorem solo_take {src : Place} {p : PeerID} {th : Thread} {task : Task} {rest : Multiset Work}
    (ih : s.Solo) (hidle : s.idle (.thread p th)) (hwork : s.work = Work.mk src task ::ₘ rest)
    (hsrc : ∀ q th', src ≠ .thread q th') :
    Flood.Solo { s with work := Work.mk (.thread p th) task ::ₘ rest } := by
  intro w hw hsolo q th' hplace
  have hbefore := waiting_cons hwork (.thread q th')
  rw [if_neg (hsrc q th')] at hbefore
  rw [hplace, waiting_cons rfl]
  by_cases heq : Place.thread p th = .thread q th'
  · have hzero := waiting_idle hidle
    rw [if_pos heq]
    rw [← heq] at hbefore ⊢
    omega
  · rcases Multiset.mem_cons.mp hw with hw | hw
    · rw [hw] at hplace
      exact absurd hplace heq
    · have hone := ih w (by rw [hwork]; exact Multiset.mem_cons_of_mem hw) hsolo q th' hplace
      rw [hplace] at hone
      rw [if_neg heq]
      omega

/-- Tasks that start at a thread with nothing to do. -/
theorem solo_start (net : Setup) {p : PeerID} {th : Thread} {tasks : List Task} (ih : s.Solo)
    (hidle : s.idle (.thread p th)) (hstart : ∀ task ∈ tasks, Starts net p task)
    (log : List (PeerID × Event Message)) :
    Flood.Solo { s with work := s.work + tasks.map (Work.mk (.thread p th)), log := log } := by
  intro w hw hsolo q th' hplace
  rcases Multiset.mem_add.mp hw with hw | hw
  · have hone := ih w hw hsolo q th' hplace
    have hnew : (tasks.map (Work.mk (.thread p th)) : Multiset Work).countP
        (fun w' => w'.place = w.place) = 0 := by
      rw [Multiset.countP_eq_zero]
      intro w' hw' heq
      obtain ⟨task, -, rfl⟩ := List.mem_map.mp (Multiset.mem_coe.mp hw')
      exact hidle w hw heq.symm
    rw [Flood.waiting, Multiset.countP_add, hnew]
    exact hone
  · obtain ⟨task, ht, rfl⟩ := List.mem_map.mp (Multiset.mem_coe.mp hw)
    have hnone := (hstart task ht).not_ofMessageThread
    cases task <;> first | cases hsolo; done | cases hnone

theorem solo_step (ih : s.Solo) (h : FloodStep net s l s') : s'.Solo := by
  cases h with
  | @run p th now task rest e halive hnow hwork hperform =>
      have hr : RunStep net s p th now task rest e := ⟨halive, hnow, hwork, hperform⟩
      intro w hw hsolo q th' hplace
      have hbefore := waiting_cons hwork (.thread q th')
      have hafter : (s.after p th rest e).waiting (.thread q th') =
          rest.countP (fun w => w.place = .thread q th') +
            if p = q ∧ th = th' then e.next.length else 0 := by
        rw [Flood.waiting, Flood.after, Multiset.countP_add, countP_work]
      rw [hplace]
      show (s.after p th rest e).waiting (.thread q th') ≤ 1
      rw [hafter]
      rcases Multiset.mem_add.mp hw with hw | hw
      · -- An old solo task: the task just done was not at its thread.
        have hone := ih w (hr.mem_of_rest hw) hsolo q th' hplace
        have hpos : 0 < rest.countP (fun w => w.place = .thread q th') :=
          Multiset.countP_pos.mpr ⟨w, hw, hplace⟩
        rw [hplace, hbefore] at hone
        by_cases heq : p = q ∧ th = th'
        · rw [if_pos (by rw [heq.1, heq.2])] at hone
          omega
        · rw [if_neg heq]
          split at hone <;> omega
      · -- A new one: it follows a solo task, which was alone and leads to nothing else.
        rcases Effect.mem_work hw with ⟨hmem, hpl⟩ | ⟨x, -, hx⟩
        · have heq : p = q ∧ th = th' := by
            rcases hpl with hpl | hpl
            · rw [hpl] at hplace
              injection hplace with h1 h2
              exact ⟨h1, h2⟩
            · rw [hpl] at hplace
              cases hplace
          obtain ⟨hbeforeSolo, hact⟩ := solo_of_leads (perform_leads hperform _ hmem) hsolo
          have hone := ih _ hr.mem hbeforeSolo p th rfl
          have hnext := next_of_solo hperform hbeforeSolo hact
          rw [heq.1, heq.2] at hone
          rw [hbefore, if_pos (by rw [heq.1, heq.2])] at hone
          rw [if_pos heq]
          omega
        · rw [hx] at hplace
          cases hplace
  | @takeMessage p task rest _ hidle hwork => exact solo_take ih hidle hwork (by simp)
  | @takeBroadcast p task rest _ hidle hwork => exact solo_take ih hidle hwork (by simp)
  | @command p cmd _ hidle => exact solo_start net ih hidle (fun _ ht => .command cmd ht) _
  | @wake p now _ _ hidle => exact solo_start net ih hidle (fun _ ht => .mantain _ now ht) _
  | @deliver p q m rest _ hwork =>
      intro w hw hsolo q' th hplace
      have hbefore := waiting_cons hwork (.thread q' th)
      rw [if_neg (by simp)] at hbefore
      rw [hplace, waiting_cons rfl, if_neg (by simp)]
      rcases Multiset.mem_cons.mp hw with hw | hw
      · rw [hw] at hplace
        cases hplace
      · have hone := ih w (by rw [hwork]; exact Multiset.mem_cons_of_mem hw) hsolo q' th hplace
        rw [hplace] at hone
        omega

theorem reachable_solo (h : (flood net).Reachable s) : s.Solo := by
  refine System.Reachable.invariant (I := Flood.Solo) ?_ ?_ h
  · rintro s rfl w hw hsolo
    obtain ⟨p, -, rfl⟩ := List.mem_map.mp hw
    cases hsolo
  · exact fun s l s' _ hs hl => solo_step hs hl

/-- While a solo task is at its thread, the thread has no other task. -/
theorem alone (h : (flood net).Reachable s) {p : PeerID} {th : Thread} {now : Int} {task : Task}
    {rest : Multiset Work} {e : Effect} (hr : RunStep net s p th now task rest e) {w : Work}
    (hw : w ∈ rest) (hsolo : w.task.solo = true) (hplace : w.place = .thread p th) : False := by
  have hone := reachable_solo h w (hr.mem_of_rest hw) hsolo p th hplace
  have hpos : 0 < rest.countP (fun w' => w'.place = .thread p th) :=
    Multiset.countP_pos.mpr ⟨w, hw, hplace⟩
  rw [hplace, waiting_cons hr.work, if_pos rfl] at hone
  omega

end Sequential

end P2PFileSharing
