import P2PFileSharing.Proofs.Ids

/-!
# Ids come from home

Whatever carries an id, its originator has called `CacheQuery` for it before, since
the sending functions do so before they queue the text. That is read off the
history, which keeps it for good. `m_queries` still says the same as long as
`MantainQueryMapSize` has not removed the id.
-/

namespace P2PFileSharing

/-- The upstream peer in `m_queries`. -/
def Flood.upstream (s : Flood) (p : PeerID) (id : SMessageID) : Option PeerID :=
  (s.tables p).queries.find? id

/-- The originator has cached the id as its own. -/
def Flood.Live (s : Flood) (id : SMessageID) : Prop := s.upstream id.peerId id = some (-1)

theorem Flood.upstream_congr (s : Flood) (p : PeerID) {id id' : SMessageID}
    (h : (id == id') = true) : s.upstream p id = s.upstream p id' :=
  UnorderedMap.find?_congr _ h

theorem Flood.Live.congr {s : Flood} {id id' : SMessageID} (h : s.Live id)
    (hid : (id == id') = true) : s.Live id' := by
  rw [Flood.Live, ← s.upstream_congr _ hid, ← (SMessageID.beq_iff.mp hid).1]
  exact h

theorem after_upstream (s : Flood) (p : PeerID) (th : Thread) (rest : Multiset Work)
    (e : Effect) (id : SMessageID) :
    (s.after p th rest e).upstream p id = e.tables.queries.find? id := by
  rw [Flood.upstream, Flood.after]
  simp

theorem other_upstream {s : Flood} {p q : PeerID} {th : Thread} {rest : Multiset Work}
    {e : Effect} {id : SMessageID} (hq : q ≠ p) :
    (s.after p th rest e).upstream q id = s.upstream q id := by
  rw [Flood.upstream, Flood.after]
  simp [hq, Flood.upstream]

section Evicted

variable {M : Type} {log log' : List (PeerID × Event M)} {p : PeerID} {id : SMessageID}

theorem Evicted.congr {id' : SMessageID} (h : Evicted log p id) (hid : (id == id') = true) :
    Evicted log p id' := by
  obtain ⟨k, hk, hmem⟩ := h
  exact ⟨k, PartialEquivBEq.trans hk hid, hmem⟩

theorem Evicted.grows (h : Evicted log p id) (hpre : log <+: log') : Evicted log' p id := by
  obtain ⟨k, hk, hmem⟩ := h
  exact ⟨k, hk, hpre.subset hmem⟩

end Evicted

/-! ## What `CacheQuery` does -/

section CacheQuery

variable {net : Setup}

theorem perform_cacheOwn {me : PeerID} {now : Int} {t : Tables} {x : Query} {w : Option Str}
    {e : Effect} (h : perform net me now t (.cacheOwn x w) = some e)
    (hnew : t.queries.find? x.id = none) : e.tables.queries.find? x.id = some (-1) := by
  simp only [perform, Option.some.injEq] at h
  subst h
  simp only [Tables.cacheQuery, isQueryCached_eq_false.mpr hnew]
  exact UnorderedMap.find?_insert_self _ _ _

theorem perform_cacheQuery {me : PeerID} {now : Int} {t : Tables} {x : Query} {e : Effect}
    (h : perform net me now t (.cacheQuery x) = some e)
    (hnew : t.queries.find? x.id = none) : e.tables.queries.find? x.id = some x.sender := by
  simp only [perform, Option.some.injEq] at h
  subst h
  simp only [Tables.cacheQuery, isQueryCached_eq_false.mpr hnew]
  exact UnorderedMap.find?_insert_self _ _ _

/-- The entries a task may add to `m_queries`. -/
theorem writes_queries {me : PeerID} {now : Int} {t t' : Tables} {task : Task}
    (h : Writes net me now t task t') {id : SMessageID} {u : PeerID}
    (hu : t'.queries.find? id = some u) :
    t.queries.find? id = some u ∨
      (t.queries.find? id = none ∧
        ((∃ x w, task = .cacheOwn x w ∧ (x.id == id) = true ∧ u = -1) ∨
          (∃ x, task = .cacheQuery x ∧ (x.id == id) = true ∧ u = x.sender) ∨
          ∃ x, task = .relayHit x ∧ (x.id == id) = true)) := by
  have hindex : ∀ {y : Hit}, task = .relayHit y →
      (t.queries.index y.id 0).2.find? id = some u →
      t.queries.find? id = some u ∨ (t.queries.find? id = none ∧
        ∃ x, task = .relayHit x ∧ (x.id == id) = true) := by
    intro y hy hv
    rw [UnorderedMap.find?_index] at hv
    split at hv
    · next hid =>
        rw [UnorderedMap.find?_congr _ hid] at hv
        cases hold : t.queries.find? id with
        | none => exact .inr ⟨rfl, y, hy, hid⟩
        | some v =>
            rw [hold] at hv
            exact .inl hv
    · exact .inl hv
  cases h with
  | cacheOwn x w hnew =>
      rw [UnorderedMap.find?_insert] at hu
      split at hu
      · next hid =>
          injection hu with hu
          exact .inr ⟨by rw [← UnorderedMap.find?_congr _ hid]; exact hnew,
            .inl ⟨x, w, rfl, hid, hu.symm⟩⟩
      · exact .inl hu
  | cacheQuery x hnew =>
      rw [UnorderedMap.find?_insert] at hu
      split at hu
      · next hid =>
          injection hu with hu
          exact .inr ⟨by rw [← UnorderedMap.find?_congr _ hid]; exact hnew,
            .inr (.inl ⟨x, rfl, hid, hu.symm⟩)⟩
      · exact .inl hu
  | relayHit y hv | abort y hv =>
      rcases hindex rfl hu with hold | ⟨hnone, hy⟩
      · exact .inl hold
      · exact .inr ⟨hnone, .inr (.inr hy)⟩
  | removeOldQueries since => exact .inl (UnorderedMap.find?_filterKeys_some hu)
  | _ => exact .inl hu

theorem cacheOwn_logs {me : PeerID} {now : Int} {t : Tables} {x : Query} {w : Option Str}
    {e : Effect} (h : perform net me now t (.cacheOwn x w) = some e)
    (hnone : t.queries.find? x.id = none) : .cached x.id (-1) ∈ e.events := by
  simp only [perform, Option.some.injEq] at h
  subst h
  simp [Tables.cacheEvents, isQueryCached_eq_false.mpr hnone]

theorem cacheQuery_logs {me : PeerID} {now : Int} {t : Tables} {x : Query} {e : Effect}
    (h : perform net me now t (.cacheQuery x) = some e)
    (hnone : t.queries.find? x.id = none) : .cached x.id x.sender ∈ e.events := by
  simp only [perform, Option.some.injEq] at h
  subst h
  simp [Tables.cacheEvents, isQueryCached_eq_false.mpr hnone]

end CacheQuery

/-! ## Entries that were never removed -/

section Kept

variable {net : Setup} {s : Flood} {p : PeerID} {id : SMessageID} {u : PeerID}

/-- A task that logs a `CacheQuery` made the entry. -/
theorem perform_cached {now : Int} {t : Tables} {task : Task} {e : Effect} {id' : SMessageID}
    (h : perform net p now t task = some e) (hid : (id' == id) = true)
    (hev : .cached id' u ∈ e.events) : e.tables.queries.find? id = some u := by
  rw [← UnorderedMap.find?_congr _ hid]
  have hlog := perform_logs h _ hev
  generalize hc : Event.cached id' u = ev at hlog
  cases hlog with
  | cachedOwn x w hnew =>
      injection hc with hid hu
      rw [hid, hu]
      exact perform_cacheOwn h hnew
  | cached x hnew =>
      injection hc with hid hu
      rw [hid, hu]
      exact perform_cacheQuery h hnew
  | _ => cases hc

/-- **An entry that was never removed is as `CacheQuery` made it.** -/
theorem entry_of_cached (h : (flood net).Reachable s) {p : PeerID} {id id' : SMessageID}
    {u : PeerID} (hid : (id' == id) = true) (hmem : (p, .cached id' u) ∈ s.log)
    (hkept : ¬Evicted s.log p id) : s.upstream p id = some u := by
  refine System.Reachable.invariant
    (I := fun s => ∀ p id id' u, (id' == id) = true → (p, .cached id' u) ∈ s.log →
      ¬Evicted s.log p id → s.upstream p id = some u) ?_ ?_ h p id id' u hid hmem hkept
  · rintro s rfl p id id' u _ hmem
    cases hmem
  · intro s l s' _ ih hl q id id' u hid hmem hkept
    have hsame : ∀ new, s'.log = s.log ++ new → (q, .cached id' u) ∉ new →
        s'.tables q = s.tables q → s'.upstream q id = some u := by
      intro new hlog hnew htables
      rw [hlog, List.mem_append, or_iff_left hnew] at hmem
      rw [Flood.upstream, htables]
      exact ih q id id' u hid hmem fun hev => hkept (hev.grows ⟨new, hlog.symm⟩)
    cases hl with
    | @run p th now task rest e halive hnow hwork hperform =>
        by_cases hq : q = p
        · subst hq
          rw [after_upstream]
          rcases List.mem_append.mp hmem with hold | hnew
          · refine perform_queries hperform ?_
              (ih q id id' u hid hold fun hev => hkept (hev.grows (List.prefix_append _ _)))
            intro id'' hid'' hmem''
            exact hkept ⟨id'', hid'', List.mem_append_right _
              (List.mem_map_of_mem (List.mem_append_left _ hmem''))⟩
          · obtain ⟨ev, hev, heq⟩ := List.mem_map.mp hnew
            have hcached : ev = .cached id' u := congrArg Prod.snd heq
            rw [hcached] at hev
            rcases Effect.mem_history hev with hev | ⟨x, -, hx⟩
            · exact perform_cached hperform hid hev
            · cases hx
        · refine hsame _ rfl ?_ (by simp [Flood.after, hq])
          intro hnew
          obtain ⟨ev, -, heq⟩ := List.mem_map.mp hnew
          exact hq (congrArg Prod.fst heq).symm
    | takeMessage | takeBroadcast | wake => exact hsame [] (List.append_nil _).symm (by simp) rfl
    | command | deliver => exact hsame _ rfl (by simp) rfl

end Kept

/-! ## Home -/

/-- The originator once cached the id as its own. -/
def Flood.CachedAtHome (s : Flood) (id : SMessageID) : Prop :=
  ∃ id', (id' == id) = true ∧ (id.peerId, .cached id' (-1)) ∈ s.log

/-- The id a task carries, unless its message is one the task has still to cache. -/
def Task.carried? : Task → Option SMessageID
  | .broadcastOwn x _ | .handleQuery x | .cacheQuery x | .act x | .relay x
  | .lockSendBuffer x _ | .sendTo _ x => some x.id
  | .handleHit h | .relayHit h | .record h _ | .takeWait h | .startTransfers h _ => some h.id
  | _ => none

/-- What a task carries was cached at home. -/
def Task.FromHome (s : Flood) (task : Task) : Prop :=
  ∀ id, task.carried? = some id → s.CachedAtHome id

section Home

variable {net : Setup} {s s' : Flood} {id id' : SMessageID}

theorem Flood.CachedAtHome.grows (h : s.CachedAtHome id) (hg : Grows s s') :
    s'.CachedAtHome id := by
  obtain ⟨id', hid, hmem⟩ := h
  exact ⟨id', hid, hg.mem hmem⟩

theorem Flood.CachedAtHome.congr (h : s.CachedAtHome id) (hid : (id == id') = true) :
    s.CachedAtHome id' := by
  obtain ⟨k, hk, hmem⟩ := h
  rw [(SMessageID.beq_iff.mp hid).1] at hmem
  exact ⟨k, PartialEquivBEq.trans hk hid, hmem⟩

theorem Task.FromHome.grows {task : Task} (h : task.FromHome s) (hg : Grows s s') :
    task.FromHome s' :=
  fun id hid => (h id hid).grows hg

theorem carried_of_started {p : PeerID} {task : Task} (h : Started net s.log p task) :
    task.carried? = none := by
  have hnone := h.strand
  cases task <;> first | rfl | cases hnone

theorem relayed_id {x y : Query} {me : PeerID} (h : x.relayed me = some y) : y.id = x.id := by
  unfold Query.relayed at h
  split at h
  · cases h
  · injection h with h
    rw [← h]

/-- A task leads to tasks that carry what it carried, except where a creator's own
text goes from being cached to being broadcast. -/
theorem carried_of_leads {p : PeerID} {now : Int} {t : Tables} {task task' : Task}
    (hl : Leads net p now t task task') (hid : task'.carried? = some id) :
    task.carried? = some id ∨ ∃ x w, task = .cacheOwn x w ∧ x.id = id := by
  cases hl with
  | broadcast x w =>
      injection hid with hid
      exact .inr ⟨x, w, rfl, hid⟩
  | queueRelayed x y hy =>
      injection hid with hid
      rw [relayed_id hy] at hid
      exact .inl (congrArg some hid)
  | ownTest test n ht | test x ht => cases ht <;> cases hid
  | replicate | create | earlyReturn | wait | unlock => cases hid
  | _ => exact .inl hid

theorem carried_of_sends {p q : PeerID} {t : Tables} {task : Task} {m : Message}
    (h : Sends net p t task q m) : m.task.carried? = task.carried? := by
  cases h <;> rfl

/-- **Whatever carries an id, and every entry of `m_queries`, comes after its
originator's own `CacheQuery`.** -/
theorem reachable_fromHome (h : (flood net).Reachable s) :
    (∀ w ∈ s.work, w.task.FromHome s) ∧
      ∀ p id u, s.upstream p id = some u → s.CachedAtHome id := by
  have hboth := run_rule (I := fun s _ task => task.FromHome s)
    (J := fun s _ t => ∀ id u, t.queries.find? id = some u → s.CachedAtHome id)
    (any_run net) ?_ ?_ ?_ ?_ ?_ h trivial
  · exact ⟨hboth.1, fun p id u hu => hboth.2 p id u hu⟩
  · intro s p task hstart id hid
    rw [carried_of_started hstart] at hid
    cases hid
  · intro p id u hu
    cases hu
  · exact fun s s' p task hg _ hk => hk.grows hg
  · exact fun s s' p t hg _ hJ id u hu => (hJ id u hu).grows hg
  · intro s p th now task rest e hs _ _ hr hI hJ
    have hg := hr.grows
    -- After `CacheQuery` of a sending function the id is cached at home.
    have hown : ∀ x w, task = .cacheOwn x w → (s.after p th rest e).CachedAtHome x.id := by
      intro x w htask
      subst htask
      have hp : x.id.peerId = p := (reachable_known hs _ hr.mem).2.1
      cases hold : (s.tables p).queries.find? x.id with
      | none =>
          refine ⟨x.id, BEq.rfl, ?_⟩
          rw [hp]
          exact hr.logged (cacheOwn_logs hr.perform hold)
      | some u => exact (hJ p x.id u hold).grows hg
    refine ⟨?_, ?_, ?_⟩
    · intro task' _ hl id hid
      rcases carried_of_leads hl hid with hid | ⟨x, w, htask, rfl⟩
      · exact (hI id hid).grows hg
      · exact hown x w htask
    · intro q m _ hsend id hid
      rw [carried_of_sends hsend] at hid
      exact (hI id hid).grows hg
    · intro hw id u hu
      rcases writes_queries hw hu with hold | ⟨-, ⟨x, w, htask, hid, -⟩ | ⟨x, rfl, hid, -⟩ |
        ⟨x, rfl, hid⟩⟩
      · exact (hJ p id u hold).grows hg
      · exact (hown x w htask).congr hid
      · exact ((hI x.id rfl).grows hg).congr hid
      · exact ((hI x.id rfl).grows hg).congr hid

/-- So unless it was evicted there, the originator's `m_queries` maps the id to -1. -/
theorem Flood.CachedAtHome.live (h : s.CachedAtHome id) (hs : (flood net).Reachable s)
    (hkept : ¬Evicted s.log id.peerId id) : s.Live id := by
  obtain ⟨id', hid, hmem⟩ := h
  exact entry_of_cached hs hid hmem hkept

end Home

end P2PFileSharing
