import P2PFileSharing.Proofs.Steps

/-!
# The startup replication and the filenames recorded meanwhile

`StartReplicateAllFiles` takes its snapshot of unrecorded filenames once and then
floods them one by one; the message thread records filenames all the while.
Nothing else of the peer touches either, so a filename the startup replication
has still to flood is unrecorded as long as the message thread records none of
those.
-/

namespace P2PFileSharing

/-- The filename a task of the startup replication is about to flood. -/
def Task.startsUp : Task → Option Str
  | .sendInvQuery _ f true | .cacheOwn _ (some f) | .broadcastOwn _ (some f) => some f
  | _ => none

/-- The tasks of the startup replication. -/
def Task.OfStartUp : Task → Prop
  | .startReplicateAllFiles | .setWait _ _ => True
  | .sendInvQuery _ _ wait => wait = true
  | .cacheOwn x wait | .broadcastOwn x wait => ∃ f k, wait = some f ∧ x.request = .invQuery f k
  | _ => False

/-- The startup replications have nothing but their own tasks to do, and all the
filenames they have still to flood are unrecorded. -/
def Flood.Yields (s : Flood) : Prop :=
  ∀ w ∈ s.work, ∀ p, w.place = .thread p .replicate →
    w.task.OfStartUp ∧ ∀ f, w.task.startsUp = some f → f ∉ (s.tables p).replicateQueryFilename

section Perform

variable {net : Setup} {me : PeerID} {now : Int} {t : Tables} {task : Task} {e : Effect}

/-- What the startup replication goes on with: the files of its snapshot, and then
the same file until it is flooded. -/
theorem next_of_startUp (h : perform net me now t task = some e) (hof : task.OfStartUp) :
    ∀ task' ∈ e.next, task'.OfStartUp ∧ ∀ f, task'.startsUp = some f →
      task.startsUp = some f ∨ f ∉ t.replicateQueryFilename := by
  intro task' hmem
  cases task with
  | startReplicateAllFiles =>
      simp only [perform, Option.some.injEq] at h
      subst h
      dsimp only at hmem
      split at hmem
      · cases hmem
      · obtain ⟨g, hg, hmem⟩ := List.mem_flatMap.mp hmem
        obtain ⟨-, hnew⟩ := List.mem_filter.mp hg
        obtain ⟨rfl, -⟩ := mem_replicateTasks hmem
        refine ⟨rfl, fun f hf => .inr ?_⟩
        injection hf with hf
        rw [← hf]
        simpa using hnew
  | sendInvQuery out g wait =>
      obtain rfl : wait = true := hof
      simp only [perform] at h
      split at h
      · injection h with h
        subst h
        rw [List.mem_singleton.mp hmem]
        exact ⟨trivial, fun f hf => by cases hf⟩
      · unfold create at h
        split at h
        · injection h with h
          subst h
          rw [List.mem_singleton.mp hmem]
          exact ⟨⟨g, _, rfl, rfl⟩, fun f hf => .inl hf⟩
        · cases h
  | cacheOwn x wait =>
      simp only [perform, Option.some.injEq] at h
      subst h
      rw [List.mem_singleton.mp hmem]
      exact ⟨hof, fun f hf => .inl (by obtain ⟨g, k, rfl, -⟩ := hof; exact hf)⟩
  | broadcastOwn x wait =>
      simp only [perform, Option.some.injEq] at h
      subst h
      obtain ⟨g, -, rfl⟩ := List.mem_map.mp hmem
      exact ⟨trivial, fun f hf => by cases hf⟩
  | setWait id g =>
      simp only [perform, Option.some.injEq] at h
      subst h
      cases hmem
  | _ => cases hof

/-- Only `HandleInvQuery` records a filename, and only a new one. -/
theorem perform_records (h : perform net me now t task = some e) :
    e.tables.replicateQueryFilename = t.replicateQueryFilename ∨
      ∃ x f k, task = .act x ∧ x.request = .invQuery f k ∧ f ∉ t.replicateQueryFilename ∧
        e.tables.replicateQueryFilename = f :: t.replicateQueryFilename := by
  obtain ⟨t', ht', hw⟩ : ∃ t', e.tables = t' ∧ Writes net me now t task t' :=
    ⟨_, rfl, perform_writes h⟩
  rw [ht']
  cases hw with
  | filename x f k hr hnew => exact .inr ⟨x, f, k, rfl, hr, hnew, rfl⟩
  | _ => exact .inl rfl

end Perform

section Steps

variable {net : Setup} {s s' : Flood} {l : Label}

theorem after_self {p : PeerID} {th : Thread} {rest : Multiset Work} {e : Effect} :
    (s.after p th rest e).tables p = e.tables := by
  rw [Flood.after]
  exact Function.update_self _ _ _

/-- A step that records no filename still to be flooded. -/
theorem yields_run {p : PeerID} {th : Thread} {now : Int} {task : Task} {rest : Multiset Work}
    {e : Effect} (hr : RunStep net s p th now task rest e) (hs : s.Yields)
    (hguard : ∀ x f k, task = .act x → x.request = .invQuery f k →
      f ∉ (s.tables p).replicateQueryFilename →
      ∀ w ∈ s.work, w.place = .thread p .replicate → w.task.startsUp ≠ some f) :
    (s.after p th rest e).Yields := by
  have hold : ∀ w ∈ s.work, ∀ q, w.place = .thread q .replicate → ∀ f,
      w.task.startsUp = some f → f ∉ ((s.after p th rest e).tables q).replicateQueryFilename := by
    intro w hw q hplace f hf
    have hnot := (hs w hw q hplace).2 f hf
    by_cases hq : q = p
    · subst hq
      rw [after_self]
      rcases perform_records hr.perform with hsame | ⟨x, g, k, htask, hreq, hnew, hrecord⟩
      · rw [hsame]
        exact hnot
      · rw [hrecord]
        intro hmem
        rcases List.mem_cons.mp hmem with rfl | hmem
        · exact hguard x f k htask hreq hnew w hw hplace hf
        · exact hnot hmem
    · simpa [Flood.after, hq] using hnot
  intro w hw q hplace
  rcases Multiset.mem_add.mp hw with hw | hw
  · have hmem := hr.mem_of_rest hw
    exact ⟨(hs w hmem q hplace).1, hold w hmem q hplace⟩
  · simp only [Effect.work, Multiset.mem_coe, List.mem_append, List.mem_map] at hw
    rcases hw with ⟨task', ht, rfl⟩ | ⟨x, -, rfl⟩ | ⟨x, -, rfl⟩
    · injection hplace with hp hth
      subst hp hth
      obtain ⟨hof, hmine⟩ := hs _ hr.mem p rfl
      obtain ⟨hof', hnext⟩ := next_of_startUp hr.perform hof task' ht
      refine ⟨hof', fun f hf => ?_⟩
      rcases hnext f hf with hbefore | hnew
      · exact hold _ hr.mem p rfl f hbefore
      · -- The snapshot; a task of the startup replication records nothing.
        rw [after_self]
        rcases perform_records hr.perform with hsame | ⟨x, g, k, htask, -⟩
        · rw [hsame]
          exact hnew
        · rw [htask] at hof
          cases hof
    · cases hplace
    · cases hplace

/-- A step of no thread leaves the startup replications alone. -/
theorem yields_quiet (hl : FloodStep net s l s') (hne : ∀ p th now, l ≠ .run p th now)
    (hs : s.Yields) : s'.Yields := by
  cases hl with
  | @run p th now => exact absurd rfl (hne p th now)
  | @takeMessage p task rest _ _ hwork | @takeBroadcast p task rest _ _ hwork
  | @deliver p q m rest _ hwork =>
      intro w hw q hplace
      rcases Multiset.mem_cons.mp hw with rfl | hw
      · cases hplace
      · exact hs w (by rw [hwork]; exact Multiset.mem_cons_of_mem hw) q hplace
  | command | wake =>
      intro w hw q hplace
      rcases Multiset.mem_add.mp hw with hw | hw
      · exact hs w hw q hplace
      · obtain ⟨task, -, rfl⟩ := List.mem_map.mp hw
        cases hplace

theorem yields_init (net : Setup) : (initialFlood net).Yields := by
  intro w hw q hplace
  obtain ⟨p, -, rfl⟩ := List.mem_map.mp hw
  exact ⟨trivial, fun f hf => by cases hf⟩

end Steps

end P2PFileSharing
