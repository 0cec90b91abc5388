import P2PFileSharing.Proofs.Leads
import P2PFileSharing.Proofs.Valid

/-!
# What a step keeps, and how invariants of the flood are proved

History only grows, counters only go up, and a cached id keeps its upstream as
long as nothing is removed. An invariant about the tasks of the bag needs four
things: tasks that start have it, growth keeps it, and it passes from a task to
what the task leads to and to what it sends.
-/

namespace P2PFileSharing

/-- A run so far in which nothing was removed. -/
def Flood.NothingRemoved (s : Flood) : Prop := ∀ e ∈ s.log, e.2.isRemoval = false

/-- What a later state of a run keeps of an earlier one. -/
structure Grows (s s' : Flood) : Prop where
  log : s.log <+: s'.log
  counter : ∀ p, (s.tables p).msgIdCounter ≤ (s'.tables p).msgIdCounter
  filenames : ∀ p, ∀ f ∈ (s.tables p).replicateQueryFilename,
    f ∈ (s'.tables p).replicateQueryFilename
  queries : s'.NothingRemoved → ∀ p id u, (s.tables p).queries.find? id = some u →
    (s'.tables p).queries.find? id = some u

theorem Grows.mem {s s' : Flood} (h : Grows s s') {e : PeerID × Event Message}
    (he : e ∈ s.log) : e ∈ s'.log :=
  h.log.subset he

theorem Grows.nothingRemoved {s s' : Flood} (h : Grows s s') (hs : s'.NothingRemoved) :
    s.NothingRemoved := fun e he => hs e (h.mem he)

theorem Grows.refl (s : Flood) : Grows s s where
  log := List.prefix_refl _
  counter _ := Nat.le_refl _
  filenames _ _ h := h
  queries _ _ _ _ h := h

theorem Grows.trans {s s' s'' : Flood} (h : Grows s s') (h' : Grows s' s'') : Grows s s'' where
  log := h.log.trans h'.log
  counter p := (h.counter p).trans (h'.counter p)
  filenames p f hf := h'.filenames p f (h.filenames p f hf)
  queries hs p id u hu := h'.queries hs p id u (h.queries (h'.nothingRemoved hs) p id u hu)

section Perform

variable {net : Setup} {me : PeerID} {now : Int} {t : Tables} {task : Task} {e : Effect}

/-- A key whose removal is not logged is kept. -/
theorem keep_of_not_logged {ids : List SMessageID} {old : SMessageID → Bool}
    {ev : SMessageID → Event Message} {id : SMessageID}
    (h : ∀ id', (id' == id) = true → ev id' ∉ (ids.filter old).map ev) :
    ∀ id' ∈ ids, (id' == id) = true → (!old id') = true := by
  intro id' hmem hid
  by_cases hold : old id' = true
  · exact absurd (List.mem_map_of_mem (List.mem_filter.mpr ⟨hmem, hold⟩)) (h id' hid)
  · simpa using hold

theorem perform_counter (h : perform net me now t task = some e) :
    t.msgIdCounter ≤ e.tables.msgIdCounter := by
  obtain ⟨t', ht', hw⟩ : ∃ t', e.tables = t' ∧ Writes net me now t task t' :=
    ⟨_, rfl, perform_writes h⟩
  rw [ht']
  cases hw with
  | create out hc => exact Nat.le_succ _
  | _ => exact Nat.le_refl _

theorem perform_filenames (h : perform net me now t task = some e) :
    ∀ f ∈ t.replicateQueryFilename, f ∈ e.tables.replicateQueryFilename := by
  intro f hf
  obtain ⟨t', ht', hw⟩ : ∃ t', e.tables = t' ∧ Writes net me now t task t' :=
    ⟨_, rfl, perform_writes h⟩
  rw [ht']
  cases hw with
  | filename x g k hr hnew => exact List.mem_cons_of_mem _ hf
  | _ => exact hf

/-- An entry of `m_queries` stays, unless its removal is logged. -/
theorem perform_queries (h : perform net me now t task = some e) {id : SMessageID} {u : PeerID}
    (hkeep : ∀ id', (id' == id) = true → .removedQuery id' ∉ e.events)
    (hu : t.queries.find? id = some u) : e.tables.queries.find? id = some u := by
  obtain ⟨t', ht', hw⟩ : ∃ t', e.tables = t' ∧ Writes net me now t task t' :=
    ⟨_, rfl, perform_writes h⟩
  have hinsert : ∀ {id' : SMessageID} {v : PeerID}, t.queries.find? id' = none →
      (t.queries.insert id' v).find? id = some u := by
    intro id' v hnew
    rw [UnorderedMap.find?_insert]
    split
    · next hid =>
        rw [UnorderedMap.find?_congr _ hid, hu] at hnew
        cases hnew
    · exact hu
  have hindex : ∀ {id' : SMessageID}, ((t.queries.index id' 0).2).find? id = some u := by
    intro id'
    rw [UnorderedMap.find?_index]
    split
    · next hid =>
        rw [UnorderedMap.find?_congr _ hid, hu]
        rfl
    · exact hu
  rw [ht']
  cases hw with
  | cacheOwn x w hnew | cacheQuery x hnew => exact hinsert hnew
  | relayHit x hin | abort x hin => exact hindex
  | removeOldQueries since =>
      simp only [perform, Option.some.injEq] at h
      subst h
      rw [UnorderedMap.find?_filterKeys]
      · exact hu
      · exact keep_of_not_logged hkeep
  | _ => exact hu

end Perform

/-- Only the peer that did a task changes its members. -/
theorem after_tables {s : Flood} {p : PeerID} {th : Thread} {rest : Multiset Work} {e : Effect}
    {R : Tables → Tables → Prop} (hrefl : ∀ t, R t t) (hp : R (s.tables p) e.tables)
    (q : PeerID) : R (s.tables q) ((s.after p th rest e).tables q) := by
  by_cases hq : q = p
  · subst hq
    simpa [Flood.after] using hp
  · simpa [Flood.after, hq] using hrefl _

theorem FloodStep.grows {net : Setup} {s s' : Flood} {l : Label} (h : FloodStep net s l s') :
    Grows s s' := by
  cases h with
  | @run p th now task rest e halive hnow hwork hperform =>
      refine ⟨List.prefix_append _ _, ?_, ?_, ?_⟩
      · exact after_tables (R := fun t t' => t.msgIdCounter ≤ t'.msgIdCounter)
          (fun _ => Nat.le_refl _) (perform_counter hperform)
      · exact after_tables (R := fun t t' => ∀ f ∈ t.replicateQueryFilename,
          f ∈ t'.replicateQueryFilename) (fun _ _ h => h) (perform_filenames hperform)
      · intro hs q id u
        refine after_tables (R := fun t t' => t.queries.find? id = some u →
          t'.queries.find? id = some u) (fun _ h => h) (perform_queries hperform ?_) q
        intro id' _ hev
        have hmem : (p, .removedQuery id') ∈ (s.after p th rest e).log :=
          List.mem_append_right _ (List.mem_map_of_mem (List.mem_append_left _ hev))
        cases hs _ hmem
  | takeMessage | takeBroadcast | wake =>
      exact ⟨List.prefix_refl _, fun _ => Nat.le_refl _, fun _ _ h => h, fun _ _ _ _ h => h⟩
  | command | deliver =>
      exact ⟨List.prefix_append _ _, fun _ => Nat.le_refl _, fun _ _ h => h,
        fun _ _ _ _ h => h⟩

theorem flood_steps_grows {net : Setup} {s s' : Flood} (h : (flood net).Steps s s') :
    Grows s s' :=
  System.Steps.rel Grows.refl (fun _ _ _ _ h hl => h.trans (FloodStep.grows hl)) h

theorem nothingRemoved_prefixClosed (net : Setup) :
    (flood net).PrefixClosed Flood.NothingRemoved :=
  fun _ _ _ h => (FloodStep.grows h).nothingRemoved

/-! ## Rules -/

/-- A task of the bag, done. -/
structure RunStep (net : Setup) (s : Flood) (p : PeerID) (th : Thread) (now : Int) (task : Task)
    (rest : Multiset Work) (e : Effect) : Prop where
  alive : s.alive net p
  clock : IsInt64 now
  work : s.work = Work.mk (.thread p th) task ::ₘ rest
  perform : perform net p now (s.tables p) task = some e

/-- The tasks that no other task led to. -/
inductive Starts (net : Setup) (p : PeerID) : Task → Prop
  | startUp : Starts net p .startReplicateAllFiles
  | command (cmd : Command) {task : Task} (h : task ∈ commandTasks net p cmd) :
      Starts net p task
  | mantain (t : Tables) (now : Int) {task : Task} (h : task ∈ mantainTasks t now) :
      Starts net p task

/-- Likewise, with the command in the history. -/
inductive Started (net : Setup) (log : List (PeerID × Event Message)) (p : PeerID) : Task → Prop
  | startUp : Started net log p .startReplicateAllFiles
  | command (cmd : Command) {task : Task} (h : task ∈ commandTasks net p cmd)
      (hlog : (p, .command cmd) ∈ log) : Started net log p task
  | mantain (t : Tables) (now : Int) {task : Task} (h : task ∈ mantainTasks t now) :
      Started net log p task

theorem Started.starts {net : Setup} {log : List (PeerID × Event Message)} {p : PeerID}
    {task : Task} (h : Started net log p task) : Starts net p task := by
  cases h with
  | startUp => exact .startUp
  | command cmd h _ => exact .command cmd h
  | mantain t now h => exact .mantain t now h

section Rules

variable {net : Setup} {s s' : Flood} {l : Label} {p : PeerID} {th : Thread} {now : Int}
  {task : Task} {rest : Multiset Work} {e : Effect}

theorem RunStep.step (h : RunStep net s p th now task rest e) :
    FloodStep net s (.run p th now) (s.after p th rest e) :=
  .run h.alive h.clock h.work h.perform

theorem RunStep.mem (h : RunStep net s p th now task rest e) :
    Work.mk (.thread p th) task ∈ s.work := by
  rw [h.work]
  exact Multiset.mem_cons_self _ _

theorem RunStep.mem_of_rest (h : RunStep net s p th now task rest e) {w : Work}
    (hw : w ∈ rest) : w ∈ s.work := by
  rw [h.work]
  exact Multiset.mem_cons_of_mem hw

theorem RunStep.grows (h : RunStep net s p th now task rest e) :
    Grows s (s.after p th rest e) :=
  h.step.grows

theorem RunStep.logged (_ : RunStep net s p th now task rest e) {ev : Event Message}
    (hev : ev ∈ e.events) : (p, ev) ∈ (s.after p th rest e).log :=
  List.mem_append_right _ (List.mem_map_of_mem (List.mem_append_left _ hev))

/-- **The rule for tasks and members together**: what holds of every task that
starts and of the members at the start, is kept as the run goes on, and passes
from a task and its peer's members to what the task leads to, sends and writes,
holds of every task in the bag and of every peer's members. -/
theorem run_rule {C : Flood → Prop} (hC : (flood net).PrefixClosed C)
    {I : Flood → PeerID → Task → Prop} {J : Flood → PeerID → Tables → Prop}
    (hstart : ∀ s p task, Started net s.log p task → I s p task)
    (hinit : ∀ p, J (initialFlood net) p (initialTables net p))
    (hgrowI : ∀ s s' p task, Grows s s' → C s' → I s p task → I s' p task)
    (hgrowJ : ∀ s s' p t, Grows s s' → C s' → J s p t → J s' p t)
    (hrun : ∀ s p th now task rest e, (flood net).Reachable s → C s →
      C (s.after p th rest e) → RunStep net s p th now task rest e →
      I s p task → (∀ q, J s q (s.tables q)) →
      (∀ task', task' ∈ e.here → Leads net p now (s.tables p) task task' →
        I (s.after p th rest e) p task') ∧
      (∀ q m, (q, m) ∈ e.sent → Sends net p (s.tables p) task q m →
        I (s.after p th rest e) q m.task) ∧
      (Writes net p now (s.tables p) task e.tables → J (s.after p th rest e) p e.tables))
    (h : (flood net).Reachable s) (hc : C s) :
    (∀ w ∈ s.work, I s w.place.owner w.task) ∧ ∀ p, J s p (s.tables p) := by
  refine System.Reachable.invariant_while
    (I := fun s => (∀ w ∈ s.work, I s w.place.owner w.task) ∧ ∀ p, J s p (s.tables p))
    hC ?_ ?_ h hc
  · rintro s rfl
    refine ⟨?_, hinit⟩
    intro w hw
    obtain ⟨p, -, rfl⟩ := List.mem_map.mp hw
    exact hstart _ _ _ .startUp
  · intro s l s' hs hcs hcs' ⟨ihI, ihJ⟩ hl
    have hgrows : Grows s s' := FloodStep.grows hl
    have hkeep : ∀ w ∈ s.work, I s' w.place.owner w.task :=
      fun w hw => hgrowI _ _ _ _ hgrows hcs' (ihI w hw)
    have hkeepJ : ∀ p, J s' p (s.tables p) := fun p => hgrowJ _ _ _ _ hgrows hcs' (ihJ p)
    cases hl with
    | @run p th now task rest e halive hnow hwork hperform =>
        have hr : RunStep net s p th now task rest e := ⟨halive, hnow, hwork, hperform⟩
        obtain ⟨hhere, hsent, hwrites⟩ :=
          hrun s p th now task rest e hs hcs hcs' hr (ihI _ hr.mem) ihJ
        constructor
        · intro w hw
          rcases Multiset.mem_add.mp hw with hw | hw
          · exact hkeep w (hr.mem_of_rest hw)
          · rcases Effect.mem_work hw with ⟨hmem, hplace⟩ | ⟨x, hx, rfl⟩
            · have howner : w.place.owner = p := by
                rcases hplace with hplace | hplace <;> rw [hplace] <;> rfl
              rw [howner]
              exact hhere _ hmem (perform_leads hperform _ hmem)
            · exact hsent _ _ hx (perform_sends hperform x hx)
        · intro q
          by_cases hq : q = p
          · subst hq
            have hnew := hwrites (perform_writes hperform)
            simpa [Flood.after] using hnew
          · have hother := hkeepJ q
            simpa [Flood.after, hq] using hother
    | @takeMessage p task rest _ _ hwork | @takeBroadcast p task rest _ _ hwork
    | @deliver p q m rest _ hwork =>
        -- The task moves to another place of the same peer.
        refine ⟨?_, hkeepJ⟩
        intro w hw
        rw [hwork] at hkeep
        have hmoved := hkeep _ (Multiset.mem_cons_self _ _)
        rcases Multiset.mem_cons.mp hw with rfl | hw
        · exact hmoved
        · exact hkeep w (Multiset.mem_cons_of_mem hw)
    | @command p cmd _ _ =>
        refine ⟨?_, hkeepJ⟩
        intro w hw
        rcases Multiset.mem_add.mp hw with hw | hw
        · exact hkeep w hw
        · obtain ⟨task, ht, rfl⟩ := List.mem_map.mp hw
          refine hstart _ _ _ (.command cmd ht ?_)
          exact List.mem_append_right _ (List.mem_singleton_self _)
    | @wake p now _ _ _ =>
        refine ⟨?_, hkeepJ⟩
        intro w hw
        rcases Multiset.mem_add.mp hw with hw | hw
        · exact hkeep w hw
        · obtain ⟨task, ht, rfl⟩ := List.mem_map.mp hw
          exact hstart _ _ _ (.mantain _ now ht)

/-- The rule for tasks alone. -/
theorem tasks_rule {C : Flood → Prop} (hC : (flood net).PrefixClosed C)
    {I : Flood → PeerID → Task → Prop}
    (hstart : ∀ s p task, Started net s.log p task → I s p task)
    (hgrow : ∀ s s' p task, Grows s s' → C s' → I s p task → I s' p task)
    (hrun : ∀ s p th now task rest e, (flood net).Reachable s → C s →
      C (s.after p th rest e) → RunStep net s p th now task rest e → I s p task →
      (∀ task', task' ∈ e.here → Leads net p now (s.tables p) task task' →
        I (s.after p th rest e) p task') ∧
      ∀ q m, (q, m) ∈ e.sent → Sends net p (s.tables p) task q m →
        I (s.after p th rest e) q m.task)
    (h : (flood net).Reachable s) (hc : C s) : ∀ w ∈ s.work, I s w.place.owner w.task := by
  refine (run_rule (J := fun _ _ _ => True) hC hstart (fun _ => trivial) hgrow
    (fun _ _ _ _ _ _ h => h) ?_ h hc).1
  intro s p th now task rest e hs hcs hcs' hr hI _
  obtain ⟨hhere, hsent⟩ := hrun s p th now task rest e hs hcs hcs' hr hI
  exact ⟨hhere, hsent, fun _ => trivial⟩

/-- The rule for the members alone. -/
theorem tables_rule {C : Flood → Prop} (hC : (flood net).PrefixClosed C)
    {J : Flood → PeerID → Tables → Prop}
    (hinit : ∀ p, J (initialFlood net) p (initialTables net p))
    (hgrow : ∀ s s' p t, Grows s s' → C s' → J s p t → J s' p t)
    (hrun : ∀ s p th now task rest e, (flood net).Reachable s → C s →
      C (s.after p th rest e) → RunStep net s p th now task rest e →
      J s p (s.tables p) → Writes net p now (s.tables p) task e.tables →
      J (s.after p th rest e) p e.tables)
    (h : (flood net).Reachable s) (hc : C s) : ∀ p, J s p (s.tables p) := by
  refine (run_rule (I := fun _ _ _ => True) hC (fun _ _ _ _ => trivial) hinit
    (fun _ _ _ _ _ _ h => h) hgrow ?_ h hc).2
  intro s p th now task rest e hs hcs hcs' hr _ hJ
  exact ⟨fun _ _ _ => trivial, fun _ _ _ _ => trivial,
    hrun s p th now task rest e hs hcs hcs' hr (hJ p)⟩

/-- **The rule for the history**: what holds of every event as it is logged, and
is kept as the run goes on, holds of every event of the history. -/
theorem events_rule {C : Flood → Prop} (hC : (flood net).PrefixClosed C)
    {I : Flood → PeerID → Event Message → Prop}
    (hgrow : ∀ s s' p ev, Grows s s' → C s' → I s p ev → I s' p ev)
    (hrun : ∀ s p th now task rest e, (flood net).Reachable s → C s →
      C (s.after p th rest e) → RunStep net s p th now task rest e →
      (∀ ev, ev ∈ e.events → Logs net p now (s.tables p) task ev →
        I (s.after p th rest e) p ev) ∧
      ∀ q m, (q, m) ∈ e.sent → Sends net p (s.tables p) task q m →
        I (s.after p th rest e) p (.sent q m))
    (hcommand : ∀ s p cmd, s.alive net p → I s p (.command cmd))
    (hdeliver : ∀ s s' p q m rest, (flood net).Reachable s → C s → C s' → s.alive net q →
      s.work = Work.mk (.socket p q) m.task ::ₘ rest → I s' q (.received p m))
    (h : (flood net).Reachable s) (hc : C s) : ∀ e ∈ s.log, I s e.1 e.2 := by
  refine System.Reachable.invariant_while (I := fun s => ∀ e ∈ s.log, I s e.1 e.2) hC ?_ ?_ h hc
  · rintro s rfl e he
    cases he
  · intro s l s' hs hcs hcs' ih hl
    have hgrows : Grows s s' := FloodStep.grows hl
    have hkeep : ∀ e ∈ s.log, I s' e.1 e.2 :=
      fun e he => hgrow _ _ _ _ hgrows hcs' (ih e he)
    cases hl with
    | @run p th now task rest e halive hnow hwork hperform =>
        have hr : RunStep net s p th now task rest e := ⟨halive, hnow, hwork, hperform⟩
        obtain ⟨hevents, hsent⟩ := hrun s p th now task rest e hs hcs hcs' hr
        intro ev hev
        rcases List.mem_append.mp hev with hev | hev
        · exact hkeep ev hev
        · obtain ⟨ev', hev', rfl⟩ := List.mem_map.mp hev
          rcases Effect.mem_history hev' with hev' | ⟨x, hx, rfl⟩
          · exact hevents _ hev' (perform_logs hperform _ hev')
          · exact hsent _ _ hx (perform_sends hperform x hx)
    | takeMessage | takeBroadcast | wake => exact hkeep
    | @command p cmd halive _ =>
        intro ev hev
        rcases List.mem_append.mp hev with hev | hev
        · exact hkeep ev hev
        · rw [List.mem_singleton.mp hev]
          exact hcommand _ p cmd halive
    | @deliver p q m rest halive hwork =>
        intro ev hev
        rcases List.mem_append.mp hev with hev | hev
        · exact hkeep ev hev
        · rw [List.mem_singleton.mp hev]
          exact hdeliver s _ p q m rest hs hcs hcs' halive hwork

end Rules

end P2PFileSharing
