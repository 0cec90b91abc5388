import P2PFileSharing.Proofs.Steps

/-!
# The network refines the flood

A state of the network stands for a bag of tasks: at each place the bag holds
the program points that wait there, in whatever order. Every step of the network
is then a step of the flood with the same label, so whatever holds in every
reachable state of the flood, where messages are values and order is gone, holds
of the code.
-/

namespace P2PFileSharing

/-- What waits at a place of the bag, as program points. -/
def sectionsAt (work : Multiset Work) (pl : Place) : Multiset Section :=
  (work.filter fun w => w.place = pl).map fun w => w.task.code

/-- The network is in the state the bag describes. -/
structure Refines (s : Network) (a : Flood) : Prop where
  tables : ∀ p, (s.peers p).tables = a.tables p
  work : ∀ pl, sectionsAt a.work pl = s.sectionsAt pl
  log : s.log = a.log.map fun e => (e.1, e.2.map Message.text)

section SectionsAt

variable {work work' : Multiset Work} {w : Work} {pl : Place}

theorem sectionsAt_cons_self (h : w.place = pl) :
    sectionsAt (w ::ₘ work) pl = w.task.code ::ₘ sectionsAt work pl := by
  rw [sectionsAt, Multiset.filter_cons_of_pos (p := fun w : Work => w.place = pl) _ h,
    Multiset.map_cons]
  rfl

theorem sectionsAt_cons_other (h : w.place ≠ pl) :
    sectionsAt (w ::ₘ work) pl = sectionsAt work pl := by
  rw [sectionsAt, Multiset.filter_cons_of_neg (p := fun w : Work => w.place = pl) _ h]
  rfl

theorem sectionsAt_add :
    sectionsAt (work + work') pl = sectionsAt work pl + sectionsAt work' pl := by
  rw [sectionsAt, Multiset.filter_add, Multiset.map_add]
  rfl

/-- Work that all waits at one place. -/
theorem sectionsAt_tasks (tasks : List Task) (pl' : Place) :
    sectionsAt (tasks.map (Work.mk pl') : List Work) pl =
      if pl' = pl then ↑(tasks.map Task.code) else (0 : Multiset Section) := by
  induction tasks with
  | nil => simp [sectionsAt]
  | cons task rest ih =>
      rw [List.map_cons, ← Multiset.cons_coe]
      by_cases hpl : pl' = pl
      · rw [sectionsAt_cons_self hpl, ih, if_pos hpl, if_pos hpl]
        rfl
      · rw [sectionsAt_cons_other hpl, ih, if_neg hpl, if_neg hpl]

/-- Taking a program point from where it waits, in the bag. -/
theorem exists_work {sec : Section} {rest : List Section}
    (h : sectionsAt work pl = ↑(sec :: rest)) :
    ∃ task work', work = Work.mk pl task ::ₘ work' ∧ task.code = sec ∧
      sectionsAt work' pl = ↑rest := by
  have hmem : sec ∈ sectionsAt work pl := by
    rw [h]
    exact Multiset.mem_coe.mpr List.mem_cons_self
  obtain ⟨w, hw, hsec⟩ := Multiset.mem_map.mp hmem
  obtain ⟨hw, hpl⟩ := Multiset.mem_filter.mp hw
  obtain ⟨work', rfl⟩ := Multiset.exists_cons_of_mem hw
  refine ⟨w.task, work', by rw [← hpl], hsec, ?_⟩
  rw [sectionsAt_cons_self hpl, hsec, ← Multiset.cons_coe] at h
  exact (Multiset.cons_inj_right sec).mp h

end SectionsAt

/-- The program points an effect adds at each place. -/
theorem sectionsAt_work (e : Effect) (p : PeerID) (th : Thread) (pl : Place) :
    sectionsAt (e.work p th : List Work) pl =
      match pl with
      | .thread p' th' => if p = p' ∧ th = th' then ↑e.code.next else 0
      | .broadcastQueue p' =>
          if p = p' then ↑(e.code.queued.map fun x => Section.lockSendBuffer x.1 x.2) else 0
      | .messagesQueue _ => 0
      | .socket p' q =>
          if p = p' then
            ↑(((e.code.sent.filter fun x => x.1 = q).map Prod.snd).map Section.handle)
          else 0 := by
  have hsent : ∀ sent : List (PeerID × Message),
      sectionsAt (sent.map (fun x => Work.mk (.socket p x.1) x.2.task) : List Work) pl =
        match pl with
        | .socket p' q =>
            if p = p' then
              ↑((((sent.map fun x => (x.1, x.2.text)).filter fun x => x.1 = q).map
                Prod.snd).map Section.handle)
            else 0
        | _ => 0 := by
    intro sent
    induction sent with
    | nil => cases pl <;> simp [sectionsAt]
    | cons x rest ih =>
        have hcode : x.2.task.code = .handle x.2.text := by cases x.2 <;> rfl
        rw [List.map_cons, ← Multiset.cons_coe]
        cases pl with
        | socket p' q =>
            by_cases hp : p = p'
            · by_cases hq : x.1 = q
              · rw [sectionsAt_cons_self (by rw [hp, hq]), ih]
                simp [hp, hq, hcode]
              · rw [sectionsAt_cons_other (by simp [hq]), ih]
                simp [hp, hq]
            · rw [sectionsAt_cons_other (by simp [hp]), ih]
              simp [hp]
        | thread | broadcastQueue | messagesQueue => rw [sectionsAt_cons_other (by simp), ih]
  have hqueued : (e.queued.map fun x => Work.mk (.broadcastQueue p) (.lockSendBuffer x.1 x.2)) =
      (e.queued.map fun x => Task.lockSendBuffer x.1 x.2).map
        (Work.mk (.broadcastQueue p)) := by
    rw [List.map_map]
    rfl
  rw [Effect.work, ← Multiset.coe_add, ← Multiset.coe_add, sectionsAt_add, sectionsAt_add,
    hqueued, sectionsAt_tasks, sectionsAt_tasks, hsent]
  cases pl with
  | thread p' th' => simp [Effect.code]
  | broadcastQueue p' => simp [Effect.code, Function.comp_def, Task.code]
  | messagesQueue p' => simp
  | socket p' q => simp [Effect.code]

/-! ## Simulation -/

section Simulation

variable {net : Setup} {s s' : Network} {a : Flood}

theorem Refines.alive (h : Refines s a) {p : PeerID} : s.alive net p ↔ a.alive net p := by
  rw [Network.alive, Flood.alive, h.tables p]

theorem Refines.idle (h : Refines s a) {pl : Place} (hs : s.sectionsAt pl = []) : a.idle pl := by
  intro w hw hpl
  have hmem : w.task.code ∈ sectionsAt a.work pl :=
    Multiset.mem_map_of_mem _ (Multiset.mem_filter.mpr ⟨hw, hpl⟩)
  rw [h.work pl, hs] at hmem
  cases hmem

theorem sectionsAt_startUp {peers : List PeerID} (hnodup : peers.Nodup) (pl : Place) :
    sectionsAt (peers.map fun p => Work.mk (.thread p .replicate) .startReplicateAllFiles :
        List Work) pl =
      match pl with
      | .thread p th =>
          if th = .replicate ∧ p ∈ peers then {Section.startReplicateAllFiles} else 0
      | _ => 0 := by
  induction peers with
  | nil => cases pl <;> simp [sectionsAt]
  | cons q rest ih =>
      obtain ⟨hq, hrest⟩ := List.nodup_cons.mp hnodup
      rw [List.map_cons, ← Multiset.cons_coe]
      cases pl with
      | thread p th =>
          by_cases hpl : q = p ∧ th = .replicate
          · obtain ⟨rfl, rfl⟩ := hpl
            rw [sectionsAt_cons_self rfl, ih hrest]
            simp [hq, Task.code]
          · rw [sectionsAt_cons_other (by simpa [eq_comm] using hpl), ih hrest]
            by_cases hth : th = .replicate
            · have hqp : p ≠ q := fun h => hpl ⟨h.symm, hth⟩
              simp [hth, hqp]
            · simp [hth]
      | broadcastQueue | messagesQueue | socket =>
          rw [sectionsAt_cons_other (by simp), ih hrest]

theorem initial_refines (net : Setup) : Refines (initialNetwork net) (initialFlood net) where
  tables _ := rfl
  work pl := by
    rw [initialFlood, sectionsAt_startUp net.peers_nodup]
    cases pl with
    | thread p th =>
        simp only [Network.sectionsAt, initialNetwork, initialPeer]
        split <;> rfl
    | broadcastQueue | messagesQueue | socket => rfl
  log := rfl

/-- Putting a section's outcome into effect, place by place. -/
theorem commit_work {p : PeerID} {th : Thread} {rest : List Section} {e : Effect}
    {work : Multiset Work} (hhere : sectionsAt work (.thread p th) = ↑rest)
    (hother : ∀ pl, pl ≠ .thread p th → sectionsAt work pl = s.sectionsAt pl) (pl : Place) :
    sectionsAt (work + e.work p th) pl = (commit s p th rest e.code).sectionsAt pl := by
  rw [sectionsAt_add, sectionsAt_work]
  cases pl with
  | thread p' th' =>
      by_cases hpl : p = p' ∧ th = th'
      · obtain ⟨rfl, rfl⟩ := hpl
        rw [hhere]
        simpa [Network.sectionsAt, commit] using List.perm_append_comm
      · rw [hother _ (by simpa [eq_comm] using hpl)]
        by_cases hp : p' = p
        · have hth : th' ≠ th := fun h => hpl ⟨hp.symm, h.symm⟩
          subst hp
          simp [Network.sectionsAt, commit, hth, Ne.symm hth]
        · simp [Network.sectionsAt, commit, hp, Ne.symm hp]
  | broadcastQueue p' =>
      rw [hother _ (by simp)]
      by_cases hp : p' = p
      · subst hp
        simp [Network.sectionsAt, commit]
      · simp [Network.sectionsAt, commit, hp, Ne.symm hp]
  | messagesQueue p' =>
      rw [hother _ (by simp)]
      by_cases hp : p' = p
      · subst hp
        simp [Network.sectionsAt, commit]
      · simp [Network.sectionsAt, commit, hp]
  | socket p' q =>
      rw [hother _ (by simp)]
      by_cases hp : p' = p
      · subst hp
        simp [Network.sectionsAt, commit, send]
      · simp [Network.sectionsAt, commit, send, hp, Ne.symm hp]

/-- Only a message's own text is handled. -/
theorem exists_message {task : Task} {text : Str} (h : task.code = .handle text) :
    ∃ m : Message, task = m.task ∧ m.text = text := by
  cases task with
  | handleQuery x => exact ⟨.query x, rfl, by injection h⟩
  | handleHit x => exact ⟨.hit x, rfl, by injection h⟩
  | _ => cases h

theorem Message.text_ne_nil (m : Message) : m.text ≠ [] := by
  intro htext
  cases m with
  | query x =>
      have hcmd := command_query x
      rw [show x.text = [] from htext] at hcmd
      cases hr : x.request <;> rw [hr] at hcmd <;> cases hcmd
  | hit h =>
      have hcmd := command_hit h
      rw [show h.text = [] from htext] at hcmd
      cases hk : h.kind <;> rw [hk] at hcmd <;> cases hcmd

theorem history_code (e : Effect) :
    e.code.events ++ e.code.sent.map (fun x => Event.sent x.1 x.2) =
      e.history.map (Event.map Message.text) := by
  simp [Effect.code, Effect.history, Function.comp_def, Event.map]

/-- One program point that moves from one place to the end of another. -/
theorem move_work {src dst : Place} {task : Task} {rest : List Section} {work : Multiset Work}
    (h : Refines s a) (hne : dst ≠ src) (hwork : a.work = Work.mk src task ::ₘ work)
    (hrest : sectionsAt work src = ↑rest) (hfrom : s'.sectionsAt src = rest)
    (hto : s'.sectionsAt dst = s.sectionsAt dst ++ [task.code])
    (hother : ∀ pl, pl ≠ src → pl ≠ dst → s'.sectionsAt pl = s.sectionsAt pl)
    (pl : Place) :
    sectionsAt (Work.mk dst task ::ₘ work) pl = s'.sectionsAt pl := by
  have hold : ∀ pl, pl ≠ src → sectionsAt work pl = s.sectionsAt pl := by
    intro pl hpl
    rw [← h.work pl, hwork, sectionsAt_cons_other hpl.symm]
  by_cases hpl : pl = dst
  · subst hpl
    rw [sectionsAt_cons_self rfl, hold _ hne, hto, Multiset.cons_coe, Multiset.coe_eq_coe]
    exact (List.perm_append_singleton _ _).symm
  · rw [sectionsAt_cons_other (Ne.symm hpl)]
    by_cases hpl' : pl = src
    · subst hpl'
      rw [hrest, hfrom]
    · rw [hold _ hpl', hother _ hpl' hpl]

/-- A thread with nothing left that gets new program points. -/
theorem wake_work {dst : Place} {tasks : List Task} (h : Refines s a)
    (hidle : s.sectionsAt dst = []) (hto : s'.sectionsAt dst = tasks.map Task.code)
    (hother : ∀ pl, pl ≠ dst → s'.sectionsAt pl = s.sectionsAt pl) (pl : Place) :
    sectionsAt (a.work + tasks.map (Work.mk dst)) pl = s'.sectionsAt pl := by
  rw [sectionsAt_add, sectionsAt_tasks, h.work]
  by_cases hpl : dst = pl
  · subst hpl
    rw [if_pos rfl, hidle, hto]
    exact Multiset.zero_add _
  · rw [if_neg hpl, hother _ (Ne.symm hpl)]
    exact Multiset.add_zero _

/-- A place keeps what waits there when only others of its peer change. -/
theorem sectionsAt_update {p : PeerID} {x : Peer} {sockets : PeerID → PeerID → List Str}
    {log : List (PeerID × Event Str)} {pl : Place}
    (hthread : ∀ th, pl = .thread p th → x.threads th = (s.peers p).threads th)
    (hbroadcast : pl = .broadcastQueue p → x.broadcastQueue = (s.peers p).broadcastQueue)
    (hmessages : pl = .messagesQueue p → x.messagesQueue = (s.peers p).messagesQueue)
    (hsocket : ∀ q r, pl = .socket q r → sockets q r = s.sockets q r) :
    Network.sectionsAt ⟨Function.update s.peers p x, sockets, log⟩ pl = s.sectionsAt pl := by
  cases pl with
  | thread p' th =>
      by_cases hp : p' = p
      · subst hp
        simp [Network.sectionsAt, hthread th rfl]
      · simp [Network.sectionsAt, hp]
  | broadcastQueue p' =>
      by_cases hp : p' = p
      · subst hp
        simp [Network.sectionsAt, hbroadcast rfl]
      · simp [Network.sectionsAt, hp]
  | messagesQueue p' =>
      by_cases hp : p' = p
      · subst hp
        simp [Network.sectionsAt, hmessages rfl]
      · simp [Network.sectionsAt, hp]
  | socket q r => simp [Network.sectionsAt, hsocket q r rfl]

/-- Replacing one thread's program points. -/
theorem update_threads {p : PeerID} {th th' : Thread} {secs : List Section}
    (h : Place.thread p th' ≠ .thread p th) :
    Function.update (s.peers p).threads th secs th' = (s.peers p).threads th' := by
  refine Function.update_of_ne ?_ _ _
  intro hth
  exact h (by rw [hth])

theorem tables_update {p : PeerID} {x : Peer} (h : Refines s a)
    (hx : x.tables = (s.peers p).tables) (q : PeerID) :
    (Function.update s.peers p x q).tables = a.tables q := by
  by_cases hq : q = p
  · subst hq
    rw [Function.update_self, hx, h.tables]
  · rw [Function.update_of_ne hq, h.tables]

/-- The next section of a thread is a task of the bag, and running it does the task. -/
theorem run_refines {p : PeerID} {th : Thread} {now : Int} (ha : (flood net).Reachable a)
    (h : Refines s a) (hstep : step net s (.run p th now) = some s') :
    ∃ task work e, (∃ rest, (s.peers p).threads th = task.code :: rest) ∧
      RunStep net a p th now task work e ∧ Refines s' (a.after p th work e) := by
  obtain ⟨hgo, sec, rest, o, hthreads, hexec, rfl⟩ := step_run_cases hstep
  have hplace : sectionsAt a.work (.thread p th) = ↑(sec :: rest) := by
    rw [h.work, Network.sectionsAt, hthreads]
  obtain ⟨task, work', hwork, rfl, hrest⟩ := exists_work hplace
  have hvalid : task.Valid :=
    (reachable_valid ha).work _ (by rw [hwork]; exact Multiset.mem_cons_self _ _)
  rw [exec_code net p hvalid, h.tables p] at hexec
  obtain ⟨e, hperform, rfl⟩ := Option.map_eq_some_iff.mp hexec
  refine ⟨task, work', e, ⟨rest, hthreads⟩,
    ⟨h.alive.mp hgo.1, hgo.2, hwork, hperform⟩, ?_, ?_, ?_⟩
  · intro q
    by_cases hq : q = p
    · subst hq
      simp [commit, Effect.code, Flood.after]
    · simp [commit, Flood.after, hq, h.tables q]
  · intro pl
    refine commit_work hrest ?_ pl
    intro pl hpl
    rw [← h.work pl, hwork, sectionsAt_cons_other hpl.symm]
  · show s.log ++ _ = _
    rw [history_code, h.log, Flood.after, List.map_append, List.map_map, List.map_map]
    rfl

/-- **Every step of the network is a step of the flood.** -/
theorem step_refines {l : Label} (ha : (flood net).Reachable a) (h : Refines s a)
    (hstep : step net s l = some s') : ∃ a', FloodStep net a l a' ∧ Refines s' a' := by
  cases l with
  | run p th now =>
      obtain ⟨task, work, e, -, hr, hR⟩ := run_refines ha h hstep
      exact ⟨_, hr.step, hR⟩
  | takeMessage p =>
      simp only [step] at hstep
      split at hstep
      · next hgo =>
          split at hstep
          · cases hstep
          · next message rest hqueue =>
              injection hstep with hstep
              subst hstep
              have hplace : sectionsAt a.work (.messagesQueue p) =
                  ↑(Section.handle message :: rest.map Section.handle) := by
                rw [h.work, Network.sectionsAt, hqueue, List.map_cons]
              obtain ⟨task, work', hwork, hcode, hrest⟩ := exists_work hplace
              refine ⟨_, .takeMessage (h.alive.mp hgo.1) (h.idle hgo.2) hwork,
                tables_update (a := a) h rfl, ?_, h.log⟩
              refine move_work h (by simp) hwork hrest ?_ ?_ ?_
              · simp [Network.sectionsAt]
              · simp [Network.sectionsAt, hgo.2, hcode]
              · intro pl hfrom hto
                refine sectionsAt_update ?_ (fun _ => rfl) ?_ (fun _ _ _ => rfl)
                · rintro th rfl
                  exact update_threads hto
                · exact fun hpl => absurd hpl hfrom
      · cases hstep
  | takeBroadcast p =>
      simp only [step] at hstep
      split at hstep
      · next hgo =>
          split at hstep
          · cases hstep
          · next message exclude rest hqueue =>
              injection hstep with hstep
              subst hstep
              have hplace : sectionsAt a.work (.broadcastQueue p) =
                  ↑(Section.lockSendBuffer message exclude ::
                    rest.map fun x => Section.lockSendBuffer x.1 x.2) := by
                rw [h.work, Network.sectionsAt, hqueue, List.map_cons]
              obtain ⟨task, work', hwork, hcode, hrest⟩ := exists_work hplace
              refine ⟨_, .takeBroadcast (h.alive.mp hgo.1) (h.idle hgo.2) hwork,
                tables_update (a := a) h rfl, ?_, h.log⟩
              refine move_work h (by simp) hwork hrest ?_ ?_ ?_
              · simp [Network.sectionsAt]
              · simp [Network.sectionsAt, hgo.2, hcode]
              · intro pl hfrom hto
                refine sectionsAt_update ?_ ?_ (fun _ => rfl) (fun _ _ _ => rfl)
                · rintro th rfl
                  exact update_threads hto
                · exact fun hpl => absurd hpl hfrom
      · cases hstep
  | command p cmd =>
      simp only [step] at hstep
      split at hstep
      · next hgo =>
          injection hstep with hstep
          subst hstep
          refine ⟨_, .command (h.alive.mp hgo.1) (h.idle hgo.2),
            tables_update (a := a) h rfl, ?_, ?_⟩
          · refine wake_work h hgo.2 ?_ ?_
            · simp [Network.sectionsAt, commandTasks_code]
            · intro pl hto
              refine sectionsAt_update ?_ (fun _ => rfl) (fun _ => rfl) (fun _ _ _ => rfl)
              rintro th rfl
              exact update_threads hto
          · rw [h.log, List.map_append]
            rfl
      · cases hstep
  | wake p now =>
      simp only [step] at hstep
      split at hstep
      · next hgo =>
          injection hstep with hstep
          subst hstep
          refine ⟨_, .wake (h.alive.mp hgo.1) hgo.2.1 (h.idle hgo.2.2),
            tables_update (a := a) h rfl, ?_, h.log⟩
          refine wake_work h hgo.2.2 ?_ ?_
          · simp [Network.sectionsAt, mantainTasks_code, h.tables p]
          · intro pl hto
            refine sectionsAt_update ?_ (fun _ => rfl) (fun _ => rfl) (fun _ _ _ => rfl)
            rintro th rfl
            exact update_threads hto
      · cases hstep
  | deliver p q =>
      simp only [step] at hstep
      split at hstep
      · next hgo =>
          split at hstep
          · cases hstep
          · next message rest hsocket =>
              injection hstep with hstep
              have hplace : sectionsAt a.work (.socket p q) =
                  ↑(Section.handle message :: rest.map Section.handle) := by
                rw [h.work, Network.sectionsAt, hsocket, List.map_cons]
              obtain ⟨task, work', hwork, hcode, hrest⟩ := exists_work hplace
              obtain ⟨m, rfl, rfl⟩ := exists_message hcode
              rw [if_neg (Message.text_ne_nil m)] at hstep
              subst hstep
              refine ⟨_, .deliver (h.alive.mp hgo) hwork, tables_update (a := a) h rfl, ?_, ?_⟩
              · refine move_work h (by simp) hwork hrest ?_ ?_ ?_
                · simp [Network.sectionsAt]
                · simp [Network.sectionsAt, hcode]
                · intro pl hfrom hto
                  refine sectionsAt_update (fun _ _ => rfl) (fun _ => rfl) ?_ ?_
                  · exact fun hpl => absurd hpl hto
                  · rintro p' q' rfl
                    refine if_neg ?_
                    rintro ⟨rfl, rfl⟩
                    exact hfrom rfl
              · rw [h.log, List.map_append]
                rfl
      · cases hstep

/-- **Every reachable state of the network is what a reachable bag describes.** -/
theorem exists_flood (h : Reachable net s) : ∃ a, (flood net).Reachable a ∧ Refines s a := by
  refine System.Reachable.refine ?_ ?_ h
  · rintro s rfl
    exact ⟨initialFlood net, rfl, initial_refines net⟩
  · intro s a l s' ha hR hstep
    exact step_refines ha hR hstep

/-- Runs of the network that go on from a state are runs of the flood. -/
theorem exists_flood_steps (hs : Steps net s s') (ha : (flood net).Reachable a)
    (h : Refines s a) : ∃ a', (flood net).Steps a a' ∧ Refines s' a' := by
  induction hs with
  | refl => exact ⟨a, .refl a, h⟩
  | tail l _ hstep ih =>
      obtain ⟨a', ha', hR⟩ := ih
      obtain ⟨a'', hstep', hR'⟩ := step_refines (ha.steps ha') hR hstep
      exact ⟨a'', .tail l ha' hstep', hR'⟩

end Simulation

end P2PFileSharing
