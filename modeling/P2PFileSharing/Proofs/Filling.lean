import P2PFileSharing.Model.Scenario
import P2PFileSharing.Proofs.Refine

/-!
# A peer fills its own `m_queries`

`MantainQueryMapSize` removes nothing below 120000 entries. A run that gets
there is too long to compute, but its rounds are all alike: a peer with nothing
else to do that queries on its own adds one entry each time.
-/

namespace P2PFileSharing

section Steps

variable {net : Setup} {s : Network} {p : PeerID} {th : Thread} {rest : List Section}
  {o : Outcome}

theorem commit_tables : ((commit s p th rest o).peers p).tables = o.tables := by
  simp [commit]

theorem commit_threads :
    ((commit s p th rest o).peers p).threads =
      Function.update (s.peers p).threads th (o.next ++ rest) := by
  simp [commit]

theorem commit_sockets (hsent : o.sent = []) : (commit s p th rest o).sockets = s.sockets := by
  funext a b
  simp [commit, send, hsent]

theorem commit_log : s.log <+: (commit s p th rest o).log := List.prefix_append _ _

theorem step_run {now : Int} {sec : Section} (halive : s.alive net p) (hnow : IsInt64 now)
    (hth : (s.peers p).threads th = sec :: rest)
    (hexec : exec net p now (s.peers p).tables sec = some o) :
    step net s (.run p th now) = some (commit s p th rest o) := by
  simp only [step, halive, hnow, and_self, if_true, hth, hexec, Option.map_some]

theorem runLabels_query (f : {f : Str // ValidName f}) (halive : s.alive net p)
    (hidle : (s.peers p).threads .command = [])
    (hlimit : (s.peers p).tables.msgIdCounter + 1 < counterLimit) :
    ∃ s', runLabels net s (Label.commandRun p (.query f) 3) = some s' ∧
      s'.sockets = s.sockets ∧ (s'.peers p).threads = (s.peers p).threads ∧
      (s'.peers p).tables = ((s.peers p).tables.afterCreate p .run 0).cacheQuery
        ((s.peers p).tables.nextId p 0) (-1) ∧ s.log <+: s'.log := by
  have hnow : IsInt64 0 := by decide
  -- The loop reads the command.
  obtain ⟨s₁, hstep₁, hsockets₁, hthreads₁, htables₁, hlog₁⟩ : ∃ s₁,
      step net s (.command p (.query f)) = some s₁ ∧ s₁.sockets = s.sockets ∧
        (s₁.peers p).threads =
          Function.update (s.peers p).threads .command [.sendQuery .run f.1 false] ∧
        (s₁.peers p).tables = (s.peers p).tables ∧ s.log <+: s₁.log := by
    refine ⟨_, if_pos ⟨halive, hidle⟩, rfl, ?_, ?_, List.prefix_append _ _⟩ <;> simp [runCommand]
  -- It creates the message, caches the id and queues the message.
  have hrun : ∀ {s : Network} {sec : Section} {o : Outcome}, s.alive net p →
      (s.peers p).threads .command = [sec] → exec net p 0 (s.peers p).tables sec = some o →
      step net s (.run p .command 0) = some (commit s p .command [] o) :=
    fun ha hth he => step_run ha hnow hth he
  have halive₁ : s₁.alive net p := ⟨halive.1, by rw [htables₁]; exact halive.2⟩
  have hstep₂ := hrun halive₁ (by rw [hthreads₁, Function.update_self])
    (by rw [htables₁]; exact if_pos hlimit)
  generalize hs₂ : commit s₁ p .command [] _ = s₂ at hstep₂
  have htables₂ : (s₂.peers p).tables = (s.peers p).tables.afterCreate p .run 0 := by
    rw [← hs₂, commit_tables]
  have hstep₃ := hrun (s := s₂) ⟨halive.1, by rw [htables₂]; exact halive.2⟩
    (by rw [← hs₂, commit_threads, Function.update_self]; rfl) rfl
  generalize hs₃ : commit s₂ p .command [] _ = s₃ at hstep₃
  have htables₃ : (s₃.peers p).tables = (s₂.peers p).tables.cacheQuery
      ((s.peers p).tables.nextId p 0) (-1) := by
    rw [← hs₃, commit_tables]
    rfl
  have hfault₃ : (s₃.peers p).tables.fault = none := by
    rw [htables₃, Tables.cacheQuery]
    split <;> exact (by rw [htables₂]; exact halive.2)
  have hstep₄ := hrun (s := s₃) ⟨halive.1, hfault₃⟩
    (by rw [← hs₃, commit_threads, Function.update_self]; rfl) rfl
  generalize hs₄ : commit s₃ p .command [] _ = s₄ at hstep₄
  refine ⟨s₄, ?_, ?_, ?_, ?_, ?_⟩
  · simp only [Label.commandRun, Label.turns, List.replicate, runLabels, hstep₁, hstep₂, hstep₃,
      hstep₄, Option.bind_some]
  · rw [← hs₄, commit_sockets rfl, ← hs₃, commit_sockets rfl, ← hs₂, commit_sockets rfl, hsockets₁]
  · rw [← hs₄, commit_threads, ← hs₃, commit_threads, ← hs₂, commit_threads, hthreads₁]
    simp only [Function.update_idem]
    exact Function.update_eq_self_iff.mpr hidle.symm
  · rw [← hs₄, commit_tables]
    show (s₃.peers p).tables = _
    rw [htables₃, htables₂]
  · have hlog₂ : s₁.log <+: s₂.log := hs₂ ▸ commit_log
    have hlog₃ : s₂.log <+: s₃.log := hs₃ ▸ commit_log
    have hlog₄ : s₃.log <+: s₄.log := hs₄ ▸ commit_log
    exact hlog₁.trans (hlog₂.trans (hlog₃.trans hlog₄))

theorem step_log {l : Label} {s' : Network} (h : step net s l = some s') : s.log <+: s'.log := by
  rcases step_log_cases h with ⟨p, th, now, rfl⟩ | hsame | ⟨p, cmd, hlog⟩ | ⟨p, q, message, hlog⟩
  · obtain ⟨-, sec, rest, o, -, -, rfl⟩ := step_run_cases h
    exact commit_log
  · rw [hsame]
  · rw [hlog]
    exact List.prefix_append _ _
  · rw [hlog]
    exact List.prefix_append _ _

theorem runLabels_append (ls ls' : List Label) :
    runLabels net s (ls ++ ls') = (runLabels net s ls).bind fun s' => runLabels net s' ls' := by
  induction ls generalizing s with
  | nil => rfl
  | cons l ls ih =>
      rw [List.cons_append, runLabels, runLabels]
      cases step net s l with
      | none => rfl
      | some s₁ => exact ih

end Steps

/-- The state after `n` queries of a peer's own, all at time 0: what the peer was
doing otherwise has not moved, and its map has grown. -/
structure Filled (net : Setup) (p : PeerID) (s₀ s : Network) (n : Nat) : Prop where
  sockets : s.sockets = s₀.sockets
  threads : (s.peers p).threads = (s₀.peers p).threads
  fault : (s.peers p).tables.fault = none
  mutex : (s.peers p).tables.sendBufferMutex = false
  counter : (s.peers p).tables.msgIdCounter = n
  size : n ≤ (s.peers p).tables.queries.size
  timestamps : ∀ id ∈ (s.peers p).tables.queries.keys, id.timestamp = 0
  own : ∀ id ∈ (s.peers p).tables.queries.keys, id.peerId = p → id.msgId < n
  log : s₀.log <+: s.log

section Filling

variable {net : Setup} {s₀ s : Network} {p : PeerID} {n : Nat}

theorem cacheQuery_queries {t : Tables} {id : SMessageID} {u : PeerID}
    (hnew : t.queries.find? id = none) :
    (t.cacheQuery id u).queries = t.queries.insert id u := by
  rw [Tables.cacheQuery, isQueryCached_eq_false.mpr hnew]
  rfl

theorem cacheQuery_other (t : Tables) (id : SMessageID) (u : PeerID) :
    (t.cacheQuery id u).fault = t.fault ∧
      (t.cacheQuery id u).sendBufferMutex = t.sendBufferMutex ∧
      (t.cacheQuery id u).msgIdCounter = t.msgIdCounter := by
  rw [Tables.cacheQuery]
  split <;> exact ⟨rfl, rfl, rfl⟩

/-- One more query. -/
theorem Filled.next (h : Filled net p s₀ s n) (hp : p ∈ net.peers)
    (hidle : (s₀.peers p).threads .command = []) (hlimit : n + 1 < counterLimit)
    (f : {f : Str // ValidName f}) :
    ∃ s', runLabels net s (Label.commandRun p (.query f) 3) = some s' ∧
      Filled net p s₀ s' (n + 1) := by
  obtain ⟨s', hrun, hsockets, hthreads, htables, hlog⟩ :=
    runLabels_query f ⟨hp, h.fault⟩ (by rw [h.threads]; exact hidle)
      (by rw [h.counter]; exact hlimit)
  generalize hid : (s.peers p).tables.nextId p 0 = id at htables
  have hnew : (s.peers p).tables.queries.find? id = none := by
    rw [UnorderedMap.find?_eq_none]
    intro e he
    rw [Bool.eq_false_iff]
    intro heq
    obtain ⟨hpeer, hmsg⟩ := SMessageID.beq_iff.mp heq
    have hlt := h.own e.1 (List.mem_map_of_mem he) (by rw [hpeer, ← hid]; rfl)
    rw [hmsg, ← hid] at hlt
    exact absurd (h.counter ▸ hlt) (Nat.lt_irrefl _)
  obtain ⟨hfault, hmutex, hcounter⟩ :=
    cacheQuery_other ((s.peers p).tables.afterCreate p .run 0) id (-1)
  rw [← htables] at hfault hmutex hcounter
  have hqueries : (s'.peers p).tables.queries = (s.peers p).tables.queries.insert id (-1) := by
    rw [htables]
    exact cacheQuery_queries hnew
  have hkeys : (s'.peers p).tables.queries.keys = (s.peers p).tables.queries.keys ++ [id] := by
    rw [hqueries, UnorderedMap.keys_insert_of_none _ hnew]
  refine ⟨s', hrun, ?_, ?_, ?_, ?_, ?_, ?_, ?_, ?_, ?_⟩
  · rw [hsockets, h.sockets]
  · rw [hthreads, h.threads]
  · rw [hfault]
    exact h.fault
  · rw [hmutex]
    exact h.mutex
  · rw [hcounter]
    exact congrArg Nat.succ h.counter
  · rw [hqueries, UnorderedMap.size_insert_of_none _ hnew]
    exact Nat.succ_le_succ h.size
  · intro k hk
    rw [hkeys] at hk
    rcases List.mem_append.mp hk with hk | hk
    · exact h.timestamps k hk
    · rw [List.mem_singleton.mp hk, ← hid]
      rfl
  · intro k hk hpeer
    rw [hkeys] at hk
    rcases List.mem_append.mp hk with hk | hk
    · exact Nat.lt_succ_of_lt (h.own k hk hpeer)
    · rw [List.mem_singleton.mp hk, ← hid]
      exact Nat.lt_succ_of_le (Nat.le_of_eq h.counter)
  · exact h.log.trans hlog

/-- And any number of them. -/
theorem filled (hp : p ∈ net.peers) (h₀ : Filled net p s₀ s₀ 0)
    (hidle : (s₀.peers p).threads .command = []) (f : {f : Str // ValidName f}) (n : Nat)
    (hlimit : n < counterLimit) :
    ∃ s, runLabels net s₀ (List.replicate n (Label.commandRun p (.query f) 3)).flatten = some s ∧
      Filled net p s₀ s n := by
  induction n with
  | zero => exact ⟨s₀, rfl, h₀⟩
  | succ n ih =>
      obtain ⟨s, hrun, hs⟩ := ih (Nat.lt_of_succ_lt hlimit)
      obtain ⟨s', hrun', hs'⟩ := hs.next hp hidle hlimit f
      refine ⟨s', ?_, hs'⟩
      rw [List.replicate_succ', List.flatten_append, List.flatten_singleton, runLabels_append,
        hrun]
      exact hrun'

end Filling

end P2PFileSharing
