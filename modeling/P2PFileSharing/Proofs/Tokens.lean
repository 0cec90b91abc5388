import P2PFileSharing.Lib.Counting
import P2PFileSharing.Proofs.Steps

/-!
# Counting tasks and events

A task at a peer may stand for something that must happen once: a copy that is
still to be sent, a hit that is still on its way. Giving such tasks a weight, the
weights of the bag together with the matching events of the history are what a
step keeps, and the rules below reduce "at most once in every run" to how much
one task hands on.
-/

namespace P2PFileSharing

/-- The weight of a bag of work. -/
def weigh (f : PeerID → Task → Nat) (work : Multiset Work) : Nat :=
  (work.map fun w => f w.place.owner w.task).sum

def Flood.total (f : PeerID → Task → Nat) (s : Flood) : Nat := weigh f s.work

/-- How many events of the history match. -/
def Flood.count (P : PeerID → Event Message → Bool) (s : Flood) : Nat :=
  s.log.countP fun e => P e.1 e.2

/-- What an effect brings to which peer. -/
def Effect.out (e : Effect) (p : PeerID) : List (PeerID × Task) :=
  e.here.map (fun task => (p, task)) ++ e.sent.map fun x => (x.1, x.2.task)

/-- The weight an effect brings. -/
def Effect.gain (e : Effect) (f : PeerID → Task → Nat) (p : PeerID) : Nat :=
  ((e.out p).map fun x => f x.1 x.2).sum

section Totals

variable {net : Setup} {s s' : Flood} {l : Label} {p : PeerID} {th : Thread} {now : Int}
  {task : Task} {rest : Multiset Work} {e : Effect} {f : PeerID → Task → Nat}
  {P : PeerID → Event Message → Bool}

theorem weigh_cons (w : Work) (work : Multiset Work) :
    weigh f (w ::ₘ work) = f w.place.owner w.task + weigh f work := by
  rw [weigh, Multiset.map_cons, Multiset.sum_cons]
  rfl

theorem weigh_add (work work' : Multiset Work) :
    weigh f (work + work') = weigh f work + weigh f work' := by
  rw [weigh, Multiset.map_add, Multiset.sum_add]
  rfl

theorem weigh_eq_zero {work : Multiset Work} (h : ∀ w ∈ work, f w.place.owner w.task = 0) :
    weigh f work = 0 := by
  refine Multiset.sum_eq_zero ?_
  intro n hn
  obtain ⟨w, hw, rfl⟩ := Multiset.mem_map.mp hn
  exact h w hw

theorem weigh_pos {work : Multiset Work} {w : Work} (hw : w ∈ work)
    (hf : 0 < f w.place.owner w.task) : 0 < weigh f work := by
  obtain ⟨rest, rfl⟩ := Multiset.exists_cons_of_mem hw
  rw [weigh_cons]
  omega

theorem exists_of_weigh_pos {work : Multiset Work} (h : 0 < weigh f work) :
    ∃ w ∈ work, 0 < f w.place.owner w.task := by
  by_contra hnone
  have hzero : weigh f work = 0 := by
    refine weigh_eq_zero fun w hw => ?_
    by_contra hne
    exact hnone ⟨w, hw, Nat.pos_of_ne_zero hne⟩
  omega

theorem weigh_work (e : Effect) (p : PeerID) (th : Thread) :
    weigh f (e.work p th : List Work) = e.gain f p := by
  simp [weigh, Effect.work, Effect.gain, Effect.out, Effect.here, Function.comp_def,
    Place.owner]

/-- Doing a task trades its weight for what it brings. -/
theorem RunStep.total (h : RunStep net s p th now task rest e) :
    (s.after p th rest e).total f + f p task = s.total f + e.gain f p := by
  have hbefore : s.total f = f p task + weigh f rest := by
    rw [Flood.total, h.work, weigh_cons]
    rfl
  have hafter : (s.after p th rest e).total f = weigh f rest + e.gain f p := by
    rw [Flood.total, Flood.after, weigh_add, weigh_work]
  omega

theorem RunStep.count (_ : RunStep net s p th now task rest e) :
    (s.after p th rest e).count P = s.count P + e.history.countP (P p) := by
  rw [Flood.count, Flood.after, List.countP_append, List.countP_map]
  rfl

/-- The steps that do no task keep every weight that no starting task has. -/
theorem FloodStep.total_cases (h : FloodStep net s l s')
    (hstart : ∀ p task, Starts net p task → f p task = 0) :
    (∃ p th now task rest e, RunStep net s p th now task rest e ∧ s' = s.after p th rest e) ∨
      (s'.tables = s.tables ∧ s'.total f = s.total f ∧
        ∃ new, s'.log = s.log ++ new ∧
          ∀ e ∈ new, (∃ cmd, e.2 = .command cmd) ∨ ∃ q m, e.2 = .received q m) := by
  have hzero : ∀ (p : PeerID) (th : Thread) (tasks : List Task),
      (∀ task ∈ tasks, Starts net p task) →
      weigh f (tasks.map (Work.mk (.thread p th)) : List Work) = 0 := by
    intro p th tasks hs
    refine weigh_eq_zero fun w hw => ?_
    obtain ⟨task, ht, rfl⟩ := List.mem_map.mp (Multiset.mem_coe.mp hw)
    exact hstart p task (hs task ht)
  cases h with
  | @run p th now task rest e halive hnow hwork hperform =>
      exact .inl ⟨p, th, now, task, rest, e, ⟨halive, hnow, hwork, hperform⟩, rfl⟩
  | @takeMessage p task rest _ _ hwork | @takeBroadcast p task rest _ _ hwork =>
      refine .inr ⟨rfl, ?_, [], (List.append_nil _).symm, by simp⟩
      rw [Flood.total, Flood.total, hwork, weigh_cons, weigh_cons]
      rfl
  | @command p cmd _ _ =>
      refine .inr ⟨rfl, ?_, _, rfl, by simp⟩
      rw [Flood.total, weigh_add, hzero p .command _ fun task ht => .command cmd ht]
      rfl
  | @wake p now _ _ _ =>
      refine .inr ⟨rfl, ?_, [], (List.append_nil _).symm, by simp⟩
      rw [Flood.total, weigh_add, hzero p .mantain _ fun task ht => .mantain _ now ht]
      rfl
  | @deliver p q m rest _ hwork =>
      refine .inr ⟨rfl, ?_, _, rfl, by simp⟩
      rw [Flood.total, Flood.total, hwork, weigh_cons, weigh_cons]
      rfl

/-- Commands and arrivals match no predicate about what tasks log. -/
theorem countP_quiet {new : List (PeerID × Event Message)}
    (hcommand : ∀ p cmd, P p (.command cmd) = false)
    (hreceived : ∀ p q m, P p (.received q m) = false)
    (hnew : ∀ e ∈ new, (∃ cmd, e.2 = .command cmd) ∨ ∃ q m, e.2 = .received q m) :
    new.countP (fun e => P e.1 e.2) = 0 := by
  rw [List.countP_eq_zero]
  intro ev hev
  rcases hnew ev hev with ⟨cmd, heq⟩ | ⟨q, m, heq⟩
  · rw [heq, hcommand]
    decide
  · rw [heq, hreceived]
    decide

theorem count_quiet {new : List (PeerID × Event Message)}
    (hcommand : ∀ p cmd, P p (.command cmd) = false)
    (hreceived : ∀ p q m, P p (.received q m) = false)
    (hnew : ∀ e ∈ new, (∃ cmd, e.2 = .command cmd) ∨ ∃ q m, e.2 = .received q m)
    (hlog : s'.log = s.log ++ new) : s'.count P = s.count P := by
  rw [Flood.count, hlog, List.countP_append, countP_quiet hcommand hreceived hnew]
  rfl

/-- Nothing that weighs anything is there at the start. -/
theorem total_initialFlood (hstart : ∀ p task, Starts net p task → f p task = 0) :
    (initialFlood net).total f = 0 := by
  refine weigh_eq_zero fun w hw => ?_
  obtain ⟨p, -, rfl⟩ := List.mem_map.mp (Multiset.mem_coe.mp hw)
  exact hstart _ _ .startUp

/-- **The rule for tokens**: a task hands on and logs at most what it weighs,
except that it may mint one token while a guard is down and then raises it. Then
the tokens in the bag and in the history are at most one in every run. -/
theorem tokens_rule {C G : Flood → Prop} (hC : (flood net).PrefixClosed C)
    (hstart : ∀ p task, Starts net p task → f p task = 0)
    (hcommand : ∀ p cmd, P p (.command cmd) = false)
    (hreceived : ∀ p q m, P p (.received q m) = false)
    (hG : ∀ s s', Grows s s' → C s' → G s → G s')
    (hrun : ∀ s p th now task rest e, (flood net).Reachable s → C s →
      C (s.after p th rest e) → RunStep net s p th now task rest e →
      e.gain f p + e.history.countP (P p) ≤ f p task ∨
        (¬G s ∧ e.gain f p + e.history.countP (P p) ≤ f p task + 1 ∧ G (s.after p th rest e)))
    (h : (flood net).Reachable s) (hc : C s) :
    s.total f + s.count P ≤ 1 ∧ (0 < s.total f + s.count P → G s) := by
  refine System.Reachable.once (M := fun s => s.total f + s.count P) hC ?_ ?_ h hc
  · rintro s rfl
    rw [total_initialFlood hstart]
    rfl
  · intro s l s' hs hcs hcs' hl
    rcases FloodStep.total_cases hl hstart with
      ⟨p, th, now, task, rest, e, hr, rfl⟩ | ⟨-, htotal, new, hlog, hnew⟩
    · have htotal := hr.total (f := f)
      have hcount := hr.count (P := P)
      rcases hrun s p th now task rest e hs hcs hcs' hr with hle | ⟨hnot, hle, hraise⟩
      · exact .inl ⟨by omega, hG _ _ hr.grows hcs'⟩
      · exact .inr ⟨hnot, by omega, hraise⟩
    · rw [htotal, count_quiet hcommand hreceived hnew hlog]
      exact .inl ⟨Nat.le_refl _, hG _ _ (FloodStep.grows hl) hcs'⟩

/-- A relation between the tokens there are and those that were counted holds in every run
if it holds of none and sections of threads preserve it. -/
theorem balance_rule {C : Flood → Prop} (hC : (flood net).PrefixClosed C)
    {Q : PeerID → Event Message → Bool} {R : Nat → Nat → Prop} (hzero : R 0 0)
    (hstart : ∀ p task, Starts net p task → f p task = 0)
    (hcommand : ∀ p cmd, P p (.command cmd) = false ∧ Q p (.command cmd) = false)
    (hreceived : ∀ p q m, P p (.received q m) = false ∧ Q p (.received q m) = false)
    (hrun : ∀ s p th now task rest e, (flood net).Reachable s → C s →
      C (s.after p th rest e) → RunStep net s p th now task rest e →
      R (s.total f + s.count P) (s.count Q) →
      R ((s.after p th rest e).total f + (s.after p th rest e).count P)
        ((s.after p th rest e).count Q))
    (h : (flood net).Reachable s) (hc : C s) : R (s.total f + s.count P) (s.count Q) := by
  refine System.Reachable.invariant_while (I := fun s => R (s.total f + s.count P) (s.count Q))
    hC ?_ ?_ h hc
  · intro s hs
    obtain rfl := hs
    rw [total_initialFlood hstart]
    exact hzero
  · intro s l s' hs hcs hcs' ih hl
    rcases FloodStep.total_cases hl hstart with
      ⟨p, th, now, task, rest, e, hr, rfl⟩ | ⟨-, htotal, new, hlog, hnew⟩
    · exact hrun s p th now task rest e hs hcs hcs' hr ih
    · rw [htotal,
        count_quiet (fun p cmd => (hcommand p cmd).1) (fun p q m => (hreceived p q m).1) hnew hlog,
        count_quiet (fun p cmd => (hcommand p cmd).2) (fun p q m => (hreceived p q m).2) hnew hlog]
      exact ih

/-- **The conservation rule**: if every task hands on or spends exactly what it
weighs and what it mints, then what was minted is in the bag or spent. -/
theorem conserve_rule {C : Flood → Prop} (hC : (flood net).PrefixClosed C)
    {Q : PeerID → Event Message → Bool} (hstart : ∀ p task, Starts net p task → f p task = 0)
    (hcommand : ∀ p cmd, P p (.command cmd) = false ∧ Q p (.command cmd) = false)
    (hreceived : ∀ p q m, P p (.received q m) = false ∧ Q p (.received q m) = false)
    (hrun : ∀ s p th now task rest e, (flood net).Reachable s → C s →
      C (s.after p th rest e) → RunStep net s p th now task rest e →
      e.gain f p + e.history.countP (P p) = f p task + e.history.countP (Q p))
    (h : (flood net).Reachable s) (hc : C s) : s.total f + s.count P = s.count Q := by
  refine balance_rule hC rfl hstart hcommand hreceived ?_ h hc
  intro s p th now task rest e hs hcs hcs' hr ih
  have htotal := hr.total (f := f)
  have hP := hr.count (P := P)
  have hQ := hr.count (P := Q)
  have heq := hrun s p th now task rest e hs hcs hcs' hr
  omega

/-- **The rule for spending**: if every task hands on and spends at most what it
weighs and what it mints, then no more is in the bag and spent than was minted. -/
theorem spend_rule {C : Flood → Prop} (hC : (flood net).PrefixClosed C)
    {Q : PeerID → Event Message → Bool} (hstart : ∀ p task, Starts net p task → f p task = 0)
    (hcommand : ∀ p cmd, P p (.command cmd) = false ∧ Q p (.command cmd) = false)
    (hreceived : ∀ p q m, P p (.received q m) = false ∧ Q p (.received q m) = false)
    (hrun : ∀ s p th now task rest e, (flood net).Reachable s → C s →
      C (s.after p th rest e) → RunStep net s p th now task rest e →
      e.gain f p + e.history.countP (P p) ≤ f p task + e.history.countP (Q p))
    (h : (flood net).Reachable s) (hc : C s) : s.total f + s.count P ≤ s.count Q := by
  refine balance_rule hC (Nat.le_refl 0) hstart hcommand hreceived ?_ h hc
  intro s p th now task rest e hs hcs hcs' hr ih
  have htotal := hr.total (f := f)
  have hP := hr.count (P := P)
  have hQ := hr.count (P := Q)
  have hle := hrun s p th now task rest e hs hcs hcs' hr
  omega

/-- What an effect brings weighs at least as much as one task it brings. -/
theorem le_gain_here {task' : Task} (h : task' ∈ e.here) : f p task' ≤ e.gain f p :=
  List.le_sum_of_mem (List.mem_map.mpr
    ⟨(p, task'), List.mem_append_left _ (List.mem_map_of_mem h), rfl⟩)

theorem le_gain_sent {q : PeerID} {m : Message} (h : (q, m) ∈ e.sent) :
    f q m.task ≤ e.gain f p :=
  List.le_sum_of_mem (List.mem_map.mpr
    ⟨(q, m.task), List.mem_append_right _ (List.mem_map.mpr ⟨_, h, rfl⟩), rfl⟩)

/-- A weight that neither queued nor sent messages have is what the thread goes on
with. -/
theorem gain_next (hqueued : ∀ x exclude, f p (.lockSendBuffer x exclude) = 0)
    (hsent : ∀ q (m : Message), f q m.task = 0) :
    e.gain f p = (e.next.map (f p)).sum := by
  have hqueue : ((e.queued.map fun x => Task.lockSendBuffer x.1 x.2).map (f p)).sum = 0 := by
    rw [List.map_map]
    exact List.sum_eq_zero fun n hn => by
      obtain ⟨x, -, rfl⟩ := List.mem_map.mp hn
      exact hqueued _ _
  have hsend : (e.sent.map fun x => f x.1 x.2.task).sum = 0 :=
    List.sum_eq_zero fun n hn => by
      obtain ⟨x, -, rfl⟩ := List.mem_map.mp hn
      exact hsent _ _
  rw [Effect.gain, Effect.out, Effect.here, List.map_append, List.map_map, List.map_map,
    List.sum_append]
  show ((e.next ++ _).map (f p)).sum + _ = _
  rw [List.map_append, List.sum_append, hqueue]
  show _ + (e.sent.map fun x => f x.1 x.2.task).sum = _
  rw [hsend]
  rfl

/-- **The rule for what is not lost**: if raising the guard brings a token, and a
task under the guard hands on or logs at least what it weighs, then under the
guard there is a token in the bag or in the history. -/
theorem kept_rule {C G : Flood → Prop} (hC : (flood net).PrefixClosed C)
    (hstart : ∀ p task, Starts net p task → f p task = 0)
    (hinit : ¬G (initialFlood net))
    (hback : ∀ s s' new, (flood net).Reachable s → (flood net).Reachable s' → C s → C s' →
      Grows s s' → s'.tables = s.tables → s'.log = s.log ++ new →
      (∀ e ∈ new, (∃ cmd, e.2 = .command cmd) ∨ ∃ q m, e.2 = .received q m) → G s' → G s)
    (hkeep : ∀ s p th now task rest e, (flood net).Reachable s → C s →
      C (s.after p th rest e) → RunStep net s p th now task rest e → G s →
      G (s.after p th rest e) → f p task ≤ e.gain f p + e.history.countP (P p))
    (hmint : ∀ s p th now task rest e, (flood net).Reachable s → C s →
      C (s.after p th rest e) → RunStep net s p th now task rest e → ¬G s →
      G (s.after p th rest e) → 1 ≤ e.gain f p + e.history.countP (P p))
    (h : (flood net).Reachable s) (hc : C s) : G s → 1 ≤ s.total f + s.count P := by
  refine System.Reachable.invariant_while (I := fun s => G s → 1 ≤ s.total f + s.count P)
    hC ?_ ?_ h hc
  · rintro s rfl hG
    exact absurd hG hinit
  · intro s l s' hs hcs hcs' ih hl hG'
    have hg : Grows s s' := FloodStep.grows hl
    rcases FloodStep.total_cases hl hstart with
      ⟨p, th, now, task, rest, e, hr, rfl⟩ | ⟨htables, htotal, new, hlog, hnew⟩
    · have htotal := hr.total (f := f)
      have hcount := hr.count (P := P)
      by_cases hG : G s
      · have hone := ih hG
        have hle := hkeep s p th now task rest e hs hcs hcs' hr hG hG'
        omega
      · have hle := hmint s p th now task rest e hs hcs hcs' hr hG hG'
        have hpos : f p task ≤ s.total f := by
          rw [Flood.total, hr.work, weigh_cons]
          exact Nat.le_add_right _ _
        omega
    · have hone := ih (hback s s' new hs (.step l hs hl) hcs hcs' hg htables hlog hnew hG')
      have hmore : s.count P ≤ s'.count P := hg.log.sublist.countP_le
      omega

end Totals

/-! ## What one task can hand on -/

/-- The kinds of thing a task carries on. -/
inductive Strand
  | query | hit | wait
  deriving DecidableEq

def Task.strand : Task → Option Strand
  | .cacheOwn _ _ | .broadcastOwn _ _ | .handleQuery _ | .cacheQuery _ | .act _ | .relay _
  | .lockSendBuffer _ _ | .sendTo _ _ => some .query
  | .handleHit _ | .relayHit _ | .record _ _ | .takeWait _ | .startTransfers _ _ => some .hit
  | .setWait _ _ => some .wait
  | _ => none

theorem Starts.strand {net : Setup} {p : PeerID} {task : Task} (h : Starts net p task) :
    task.strand = none := by
  cases h with
  | startUp => rfl
  | command cmd h =>
      cases cmd with
      | query | obtain | invQuery | concurrent =>
          rw [List.mem_singleton.mp h]
          rfl
      | replicate f =>
          rw [(mem_replicateTasks h).1]
          rfl
      | testQuery => cases testTask_of_query h <;> rfl
      | testObtain => cases testTask_of_obtain h <;> rfl
  | mantain t now h =>
      unfold mantainTasks at h
      split at h
      · cases h
      · simp only [List.mem_cons, List.not_mem_nil, or_false] at h
        rcases h with rfl | rfl | rfl <;> rfl

theorem Started.strand {net : Setup} {log : List (PeerID × Event Message)} {p : PeerID}
    {task : Task} (h : Started net log p task) : task.strand = none :=
  h.starts.strand

section Single

variable {net : Setup} {me : PeerID} {now : Int} {t : Tables}

theorem mem_out {task : Task} {e : Effect} (h : perform net me now t task = some e)
    {x : PeerID × Task} (hx : x ∈ e.out me) :
    (x.1 = me ∧ Leads net me now t task x.2) ∨
      ∃ q m, Sends net me t task q m ∧ x = (q, m.task) := by
  rcases List.mem_append.mp hx with hx | hx
  · obtain ⟨task', hmem, rfl⟩ := List.mem_map.mp hx
    exact .inl ⟨rfl, perform_leads h _ hmem⟩
  · obtain ⟨y, hy, rfl⟩ := List.mem_map.mp hx
    exact .inr ⟨y.1, y.2, perform_sends h y hy, rfl⟩

theorem gain_eq_zero {task : Task} {e : Effect} {f : PeerID → Task → Nat}
    (h : perform net me now t task = some e)
    (hhere : ∀ task', Leads net me now t task task' → f me task' = 0)
    (hsent : ∀ q m, Sends net me t task q m → f q m.task = 0) : e.gain f me = 0 := by
  refine List.sum_eq_zero ?_
  intro n hn
  obtain ⟨x, hx, rfl⟩ := List.mem_map.mp hn
  rcases mem_out h hx with ⟨hme, hl⟩ | ⟨q, m, hs, rfl⟩
  · rw [hme]
    exact hhere _ hl
  · exact hsent q m hs

theorem countP_testTasks {tasks : List Task} (c : Strand)
    (h : ∀ task ∈ tasks, TestTask net me task) :
    tasks.countP (fun task => task.strand = some c) = 0 := by
  rw [List.countP_eq_zero]
  intro task hmem
  cases h task hmem <;> simp [Task.strand]

theorem no_testTasks (net : Setup) (me : PeerID) : ∀ task ∈ [], TestTask net me task :=
  fun _ h => absurd h List.not_mem_nil

theorem create_single {out : Var} {r : Request} {wait : Option Str} {tests : List Task}
    {e : Effect} (h : create me t out now r wait tests = some e)
    (htests : ∀ task ∈ tests, TestTask net me task) (c : Strand) :
    (e.out me).countP (fun x => x.2.strand = some c) ≤ 1 := by
  unfold create at h
  split at h
  · injection h with h
    subst h
    have hnone := countP_testTasks c htests
    simp only [Effect.out, Effect.here, List.map_nil, List.append_nil, List.countP_map,
      List.countP_cons]
    simp only [Function.comp_def, hnone]
    split <;> omega
  · cases h

theorem Effect.length_out (e : Effect) (p : PeerID) :
    (e.out p).length = e.next.length + e.queued.length + e.sent.length := by
  simp only [Effect.out, Effect.here, List.length_append, List.length_map]

/-- What carries on one thing carries on one of each kind at most. -/
theorem countP_out_le {e : Effect} (h : e.next.length + e.queued.length + e.sent.length ≤ 1)
    (p : PeerID) (c : Strand) : (e.out p).countP (fun x => x.2.strand = some c) ≤ 1 := by
  rw [← e.length_out p] at h
  exact Nat.le_trans List.countP_le_length h

theorem actOnRequest_single (x : Query) (c : Strand) :
    ((actOnRequest net me t x).out me).countP (fun x => x.2.strand = some c) ≤ 1 := by
  have htests := countP_testTasks c fun task (h : task ∈ testTasks net me x.request) =>
    testTask_of_test h
  unfold actOnRequest
  cases hr : x.request with
  | query f =>
      dsimp only
      refine countP_out_le ?_ me c
      split <;> simp
  | invQuery f k =>
      dsimp only
      split
      · exact countP_out_le (by simp) me c
      · split <;> cases c <;> simp [Effect.out, Effect.here, Task.strand]
  | conTestQuery n | conTestObtain n v =>
      rw [hr] at htests
      simp only [Effect.out, Effect.here, List.map_nil, List.append_nil, List.countP_map,
        List.countP_append, Function.comp_def, htests]
      cases c <;> simp [Task.strand]

/-- Apart from the loop over the connected peers, a task carries on one thing of
each kind at most. -/
theorem perform_single {task : Task} {e : Effect} (h : perform net me now t task = some e)
    (hlock : ∀ x exclude, task ≠ .lockSendBuffer x exclude) (c : Strand) :
    (e.out me).countP (fun x => x.2.strand = some c) ≤ 1 := by
  cases task with
  | startReplicateAllFiles =>
      have hnone : (e.out me).countP (fun x => x.2.strand = some c) = 0 := by
        rw [List.countP_eq_zero]
        intro x hx
        rcases mem_out h hx with ⟨-, hl⟩ | ⟨q, m, hs, -⟩
        · generalize x.2 = task' at hl
          cases hl with
          | replicate f hR hf hnew => simp [Task.strand]
          | create hc hlimit => cases hc
        · cases hs
      omega
  | sendQuery out f w => exact create_single h (no_testTasks net me) c
  | sendInvQuery out f w =>
      simp only [perform] at h
      split at h
      · injection h with h
        subst h
        refine countP_out_le ?_ me c
        cases w <;> simp
      · exact create_single h (no_testTasks net me) c
  | createTest test n => exact create_single h (fun task ht => testTask_of_own ht) c
  | act x =>
      simp only [perform, Option.some.injEq] at h
      subst h
      exact actOnRequest_single x c
  | lockSendBuffer x exclude => exact absurd rfl (hlock x exclude)
  | broadcastOwn x w =>
      simp only [perform, Option.some.injEq] at h
      subst h
      cases w <;> cases c <;> simp [Effect.out, Effect.here, Task.strand]
  | handleQuery x =>
      simp only [perform, Option.some.injEq] at h
      subst h
      refine countP_out_le ?_ me c
      dsimp only
      split <;> simp
  | handleHit x =>
      simp only [perform, Option.some.injEq] at h
      subst h
      refine countP_out_le ?_ me c
      dsimp only [hitTasks]
      split <;> split <;> simp
  | relay | takeWait | startTransfers =>
      simp only [perform] at h
      split at h <;>
        (injection h with h
         subst h
         exact countP_out_le (by simp) me c)
  | relayHit x =>
      simp only [perform] at h
      split at h
      · cases h
      · split at h <;>
          (injection h with h
           subst h
           exact countP_out_le (by simp) me c)
  | cacheOwn | cacheQuery | setWait | record | sendTo | unlockSendBuffer | removeOldQueries
  | removeOldQueryHits | removeOldWaits =>
      simp only [perform, Option.some.injEq] at h
      subst h
      exact countP_out_le (by simp) me c

/-- A weight of one kind, handed on by anything but the loop over the connected
peers, is at most what the heaviest thing handed on weighs. -/
theorem gain_le {task : Task} {e : Effect} {f : PeerID → Task → Nat} {n : Nat}
    (h : perform net me now t task = some e)
    (hlock : ∀ x exclude, task ≠ .lockSendBuffer x exclude) (c : Strand)
    (hstrand : ∀ p task, task.strand ≠ some c → f p task = 0)
    (hhere : ∀ task', Leads net me now t task task' → f me task' ≤ n)
    (hsent : ∀ q m, Sends net me t task q m → f q m.task ≤ n) : e.gain f me ≤ n := by
  refine sum_map_le_of_countP (perform_single h hlock c) ?_ ?_
  · intro x _ hx
    exact hstrand x.1 x.2 (by simpa using hx)
  · intro x hx
    rcases mem_out h hx with ⟨hme, hl⟩ | ⟨q, m, hs, rfl⟩
    · rw [hme]
      exact hhere _ hl
    · exact hsent q m hs

/-- The loop over the connected peers hands on a copy to each but the excluded one. -/
theorem gain_lockSendBuffer {x : Query} {exclude : PeerID} {e : Effect}
    {f : PeerID → Task → Nat} (h : perform net me now t (.lockSendBuffer x exclude) = some e) :
    e.gain f me =
      (((net.peerIdToSockfd me).filter fun q => q ≠ exclude).map fun q =>
        f me (.sendTo q x)).sum + f me .unlockSendBuffer := by
  simp only [perform] at h
  split at h
  · cases h
  · injection h with h
    subst h
    simp [Effect.gain, Effect.out, Effect.here, Function.comp_def]

end Single

end P2PFileSharing
