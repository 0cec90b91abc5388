import P2PFileSharing.Proofs.Codec
import P2PFileSharing.Proofs.Handlers
import P2PFileSharing.Proofs.Leads

/-!
# Every task of a run is valid

The texts carry a value exactly only when it is valid, so the refinement needs
every task in the bag to be. Commands and settings bring in valid names, the
clock and the ids fit their machine types, and a handler's arithmetic stays in
range because it only goes on with what is still positive.
-/

namespace P2PFileSharing

/-- The messages of an event are valid. -/
def Event.Valid : Event Message → Prop
  | .issued _ m | .answered _ m | .relayed _ m | .sent _ m | .received _ m => m.Valid
  | _ => True

/-- Every task of the bag and every message of the history is valid. -/
structure Flood.Valid (s : Flood) : Prop where
  work : ∀ w ∈ s.work, w.task.Valid
  log : ∀ e ∈ s.log, e.2.Valid

theorem Message.task_valid {m : Message} : m.task.Valid ↔ m.Valid := by
  cases m <;> exact Iff.rfl

theorem validName_natToString (n : Nat) : ValidName (natToString n) :=
  ⟨natToString_ne_nil n, newline_notMem_natToString n⟩

section Tasks

variable {net : Setup} {me : PeerID} {now : Int} {t : Tables}

theorem testTask_valid {task : Task} (h : TestTask net me task) : task.Valid := by
  cases h with
  | ensure w => exact net.ensure_valid me
  | large => exact net.large_valid me
  | number i => exact validName_natToString i

theorem commandTasks_valid {cmd : Command} {task : Task} (h : task ∈ commandTasks net me cmd) :
    task.Valid := by
  cases cmd with
  | query f | obtain f | invQuery f =>
      rw [List.mem_singleton.mp h]
      exact f.2
  | replicate f =>
      rw [(mem_replicateTasks h).1]
      exact f.2
  | testQuery => exact testTask_valid (testTask_of_query h)
  | testObtain => exact testTask_valid (testTask_of_obtain h)
  | concurrent test n =>
      rw [List.mem_singleton.mp h]
      exact n.2

theorem mantainTasks_valid {task : Task} (h : task ∈ mantainTasks t now) : task.Valid := by
  unfold mantainTasks at h
  split at h
  · cases h
  · simp only [List.mem_cons, List.not_mem_nil, or_false] at h
    rcases h with rfl | rfl | rfl <;> trivial

theorem creates_valid {task : Task} {r : Request} {wait : Option Str}
    (h : Creates net me task r wait) (hv : task.Valid) : r.Valid := by
  cases h with
  | query out f w => exact hv
  | invQuery out f w hR =>
      have hrange := (net.factor_range me).2
      exact ⟨hv, by omega, by omega⟩
  | test test n => cases test <;> exact hv

theorem newQuery_valid (hme : IsInt me) (hnow : IsInt64 now) {r : Request} (hr : r.Valid)
    (hc : t.msgIdCounter + 1 < counterLimit) : (newQuery me t now r).Valid := by
  refine ⟨⟨hme, ?_, hnow⟩, ?_, hme, hr⟩
  · exact Nat.lt_of_succ_lt hc
  · show IsCount 5
    decide

theorem newHit_valid (hme : IsInt me) {r : Request} (hr : r.Valid) {kind : HitKind}
    (ha : Answers net me t r kind) {id : SMessageID} (hid : id.Valid) :
    (newHit net me kind id).Valid := by
  refine ⟨hid, ?_, hme, net.ip_valid me, ?_⟩
  · show IsCount 5
    decide
  · cases ha with
    | query f hf => exact hr
    | invQuery f k hnew hf => trivial

theorem relayed_valid (hme : IsInt me) {x y : Query} (hx : x.Valid)
    (h : x.relayed me = some y) : y.Valid := by
  obtain ⟨hid, httl, -, hr⟩ := hx
  unfold Query.relayed at h
  split at h
  · cases h
  · next hgo =>
      injection h with h
      subst h
      simp only [not_or, not_le] at hgo
      refine ⟨hid, ?_, hme, ?_⟩
      · have hlt : x.timeToLive - 1 < 2 ^ 31 := by
          have hlt := httl.2
          omega
        exact ⟨hgo.2, hlt⟩
      · show x.request.decrease.Valid
        cases hreq : x.request with
        | invQuery f k =>
            rw [hreq] at hr hgo
            have hk : ¬k - 1 ≤ 0 := by simpa [Request.exhausted] using hgo.1
            have hlt := hr.2.2
            exact ⟨hr.1, by omega, by omega⟩
        | query | conTestQuery | conTestObtain =>
            rw [hreq] at hr
            exact hr

theorem leads_valid (hme : IsInt me) (hnow : IsInt64 now) {task task' : Task}
    (h : Leads net me now t task task') (hv : task.Valid) : task'.Valid := by
  cases h with
  | replicate f hR hf hnew => exact net.files_valid me f hf
  | create hc hlimit => exact newQuery_valid hme hnow (creates_valid hc hv) hlimit
  | ownTest _ _ ht | test _ ht => exact testTask_valid ht
  | answer x kind ha => exact newHit_valid hme hv.2.2.2 ha hv.1
  | queueRelayed x y hy => exact relayed_valid hme hv hy
  | earlyReturn | wait | unlock => trivial
  | _ => exact hv

theorem sends_valid {task : Task} {q : PeerID} {m : Message} (h : Sends net me t task q m)
    (hv : task.Valid) : m.Valid := by
  cases h <;> exact hv

theorem logs_valid (hme : IsInt me) (hnow : IsInt64 now) {task : Task} {ev : Event Message}
    (h : Logs net me now t task ev) (hv : task.Valid) : ev.Valid := by
  cases h with
  | issued hc hlimit => exact newQuery_valid hme hnow (creates_valid hc hv) hlimit
  | answered x kind ha => exact newHit_valid hme hv.2.2.2 ha hv.1
  | relayed x y hy => exact relayed_valid hme hv hy
  | _ => trivial

end Tasks

/-- Where the new work of an effect comes from. -/
theorem Effect.mem_work {e : Effect} {p : PeerID} {th : Thread} {w : Work}
    (h : w ∈ e.work p th) :
    w.task ∈ e.here ∧ (w.place = .thread p th ∨ w.place = .broadcastQueue p) ∨
      ∃ x ∈ e.sent, w = Work.mk (.socket p x.1) x.2.task := by
  simp only [Effect.work, List.mem_append, List.mem_map] at h
  rcases h with ⟨task, ht, rfl⟩ | ⟨x, hx, rfl⟩ | ⟨x, hx, rfl⟩
  · exact .inl ⟨List.mem_append_left _ ht, .inl rfl⟩
  · exact .inl ⟨List.mem_append_right _ (List.mem_map.mpr ⟨x, hx, rfl⟩), .inr rfl⟩
  · exact .inr ⟨x, hx, rfl⟩

theorem Effect.mem_history {e : Effect} {ev : Event Message} (h : ev ∈ e.history) :
    ev ∈ e.events ∨ ∃ x ∈ e.sent, ev = .sent x.1 x.2 := by
  simp only [Effect.history, List.mem_append, List.mem_map] at h
  rcases h with h | ⟨x, hx, rfl⟩
  · exact .inl h
  · exact .inr ⟨x, hx, rfl⟩

theorem floodStep_valid {net : Setup} {s s' : Flood} {l : Label} (h : FloodStep net s l s')
    (hs : s.Valid) : s'.Valid := by
  cases h with
  | @run p th now task rest e halive hnow hwork hperform =>
      have hw : ∀ w ∈ Work.mk (.thread p th) task ::ₘ rest, w.task.Valid := by
        rw [← hwork]
        exact hs.work
      have hme := (net.peers_range p halive.1).2
      have htask : task.Valid := hw _ (Multiset.mem_cons_self _ _)
      have hsent : ∀ x ∈ e.sent, x.2.Valid := by
        intro x hx
        exact sends_valid (perform_sends hperform x hx) htask
      constructor
      · intro w hmem
        rcases Multiset.mem_add.mp hmem with hmem | hmem
        · exact hw w (Multiset.mem_cons_of_mem hmem)
        · rcases Effect.mem_work hmem with ⟨hhere, -⟩ | ⟨x, hx, rfl⟩
          · exact leads_valid hme hnow (perform_leads hperform _ hhere) htask
          · exact Message.task_valid.mpr (hsent x hx)
      · intro ev hev
        rcases List.mem_append.mp hev with hev | hev
        · exact hs.log ev hev
        · obtain ⟨ev', hev', rfl⟩ := List.mem_map.mp hev
          rcases Effect.mem_history hev' with hev' | ⟨x, hx, rfl⟩
          · exact logs_valid hme hnow (perform_logs hperform _ hev') htask
          · exact hsent x hx
  | @takeMessage p task rest _ _ hwork | @takeBroadcast p task rest _ _ hwork =>
      refine ⟨?_, hs.log⟩
      have hw := hs.work
      rw [hwork] at hw
      have htask : task.Valid := hw _ (Multiset.mem_cons_self _ _)
      intro w hmem
      rcases Multiset.mem_cons.mp hmem with rfl | hmem
      · exact htask
      · exact hw w (Multiset.mem_cons_of_mem hmem)
  | @command p cmd _ _ =>
      constructor
      · intro w hmem
        rcases Multiset.mem_add.mp hmem with hmem | hmem
        · exact hs.work w hmem
        · obtain ⟨task, ht, rfl⟩ := List.mem_map.mp hmem
          exact commandTasks_valid ht
      · intro ev hev
        rcases List.mem_append.mp hev with hev | hev
        · exact hs.log ev hev
        · rw [List.mem_singleton.mp hev]
          trivial
  | @wake p now _ _ _ =>
      refine ⟨?_, hs.log⟩
      intro w hmem
      rcases Multiset.mem_add.mp hmem with hmem | hmem
      · exact hs.work w hmem
      · obtain ⟨task, ht, rfl⟩ := List.mem_map.mp hmem
        exact mantainTasks_valid ht
  | @deliver p q m rest _ hwork =>
      have hw := hs.work
      rw [hwork] at hw
      have hm : m.task.Valid := hw _ (Multiset.mem_cons_self _ _)
      constructor
      · intro w hmem
        rcases Multiset.mem_cons.mp hmem with rfl | hmem
        · exact hm
        · exact hw w (Multiset.mem_cons_of_mem hmem)
      · intro ev hev
        rcases List.mem_append.mp hev with hev | hev
        · exact hs.log ev hev
        · rw [List.mem_singleton.mp hev]
          exact Message.task_valid.mp hm

/-- **Every task and every logged message of a run is valid.** -/
theorem reachable_valid {net : Setup} {s : Flood} (h : (flood net).Reachable s) : s.Valid := by
  refine System.Reachable.invariant ?_ ?_ h
  · rintro s rfl
    constructor
    · intro w hw
      obtain ⟨p, -, rfl⟩ := List.mem_map.mp hw
      trivial
    · intro e he
      cases he
  · intro s l s' _ hs hl
    exact floodStep_valid hl hs

end P2PFileSharing
