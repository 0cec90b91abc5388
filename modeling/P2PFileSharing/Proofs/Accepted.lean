import P2PFileSharing.Proofs.Links

/-!
# Who accepted an id first from whom

The tree of `m_queries` lasts as long as nothing is removed. What the history
says about who accepted an id, and from whom first, lasts for good: a copy only
comes from a peer that accepted the id, the first upstream of every peer but the
originator is a neighbour that accepted it before, and an entry that was never
removed still names the first upstream.

A hit goes where `m_queries` says. So as long as every hit went to its sender's
first upstream, a hit is only ever at a peer that accepted its id.
-/

namespace P2PFileSharing

/-! ## The first upstream -/

section First

variable {M : Type} {log log' : List (PeerID × Event M)} {p : PeerID} {id : SMessageID}
  {u : PeerID}

theorem firstUpstream_append (log log' : List (PeerID × Event M)) (p : PeerID)
    (id : SMessageID) :
    firstUpstream (log ++ log') p id = (firstUpstream log p id).or (firstUpstream log' p id) :=
  List.findSome?_append

theorem firstUpstream_grows (h : log <+: log') (hu : firstUpstream log p id = some u) :
    firstUpstream log' p id = some u := by
  obtain ⟨new, rfl⟩ := h
  rw [firstUpstream_append, hu]
  rfl

theorem mem_of_firstUpstream (hu : firstUpstream log p id = some u) :
    ∃ id', (id' == id) = true ∧ (p, .cached id' u) ∈ log := by
  obtain ⟨⟨r, ev⟩, hmem, hsome⟩ := List.exists_of_findSome?_eq_some hu
  cases ev with
  | cached id' v =>
      dsimp only at hsome
      split at hsome
      · next hid =>
          injection hsome with hsome
          obtain ⟨rfl, hid⟩ := hid
          exact ⟨id', hid, hsome ▸ hmem⟩
      · cases hsome
  | _ => cases hsome

theorem firstUpstream_of_mem {id' : SMessageID} (hid : (id' == id) = true)
    (h : (p, .cached id' u) ∈ log) : ∃ v, firstUpstream log p id = some v := by
  rw [← Option.isSome_iff_exists, firstUpstream, List.findSome?_isSome_iff]
  exact ⟨_, h, by simp [hid]⟩

theorem firstUpstream_congr {id' : SMessageID} (hid : (id == id') = true) :
    firstUpstream log p id = firstUpstream log p id' := by
  have hsame : ∀ k : SMessageID, (k == id) = (k == id') := by
    intro k
    rw [Bool.eq_iff_iff]
    exact ⟨fun h => PartialEquivBEq.trans h hid,
      fun h => PartialEquivBEq.trans h (BEq.symm hid)⟩
  simp only [firstUpstream, hsame]

end First

/-- A peer once put an id into its `m_queries`. -/
def Flood.Accepted (s : Flood) (p : PeerID) (id : SMessageID) : Prop :=
  ∃ u, firstUpstream s.log p id = some u

/-- A hit goes to the first upstream of its sender. -/
def GoesBack (before : List (PeerID × Event Message)) : PeerID × Event Message → Prop
  | (p, .sent u (.hit h)) => firstUpstream before p h.id = some u
  | _ => True

/-- Every hit so far went to the first upstream of its sender. -/
def Flood.SentBack (s : Flood) : Prop :=
  ∀ i e, s.log[i]? = some e → GoesBack (s.log.take i) e

section SentBack

variable {net : Setup} {s s' : Flood}

theorem sentBack_earlier (hpre : s.log <+: s'.log) (h : s'.SentBack) : s.SentBack := by
  intro i e he
  obtain ⟨new, hnew⟩ := hpre
  have hi : i < s.log.length := (List.getElem?_eq_some_iff.mp he).1
  have hback := h i e (by rw [← hnew, List.getElem?_append_left hi]; exact he)
  rw [← hnew, List.take_append_of_le_length (Nat.le_of_lt hi)] at hback
  exact hback

theorem sentBack_prefixClosed (net : Setup) : (flood net).PrefixClosed Flood.SentBack :=
  fun _ _ _ hl hc => sentBack_earlier (FloodStep.grows hl).log hc

/-- Growing by events that go back. -/
theorem SentBack.append {new : List (PeerID × Event Message)} (h : s.SentBack)
    (hlog : s'.log = s.log ++ new) (hnew : ∀ e ∈ new, GoesBack s.log e) : s'.SentBack := by
  intro i e he
  rw [hlog] at he ⊢
  by_cases hi : i < s.log.length
  · rw [List.getElem?_append_left hi] at he
    rw [List.take_append_of_le_length (Nat.le_of_lt hi)]
    exact h i e he
  · rw [List.getElem?_append_right (Nat.le_of_not_lt hi)] at he
    have hback := hnew e (List.mem_of_getElem? he)
    obtain ⟨p, ev⟩ := e
    cases ev with
    | sent u m =>
        cases m with
        | hit x =>
            refine firstUpstream_grows ?_ hback
            rw [List.take_append, List.take_of_length_le (Nat.le_of_not_lt hi)]
            exact List.prefix_append _ _
        | query x => trivial
    | _ => trivial

theorem Flood.Accepted.grows {p : PeerID} {id : SMessageID} (h : s.Accepted p id)
    (hg : Grows s s') : s'.Accepted p id := by
  obtain ⟨u, hu⟩ := h
  exact ⟨u, firstUpstream_grows hg.log hu⟩

theorem Flood.Accepted.congr {p : PeerID} {id id' : SMessageID} (h : s.Accepted p id)
    (hid : (id == id') = true) : s.Accepted p id' := by
  obtain ⟨u, hu⟩ := h
  exact ⟨u, by rw [← firstUpstream_congr hid]; exact hu⟩

end SentBack

/-! ## Entries that were never removed -/

section Kept

variable {net : Setup} {s s' : Flood} {l : Label} {p q : PeerID} {id : SMessageID} {u : PeerID}

/-- So it names the first upstream. -/
theorem entry_of_not_evicted (h : (flood net).Reachable s) (p : PeerID) (id : SMessageID)
    (u : PeerID) (hu : firstUpstream s.log p id = some u) (hkept : ¬Evicted s.log p id) :
    s.upstream p id = some u := by
  obtain ⟨id', hid, hmem⟩ := mem_of_firstUpstream hu
  exact entry_of_cached h hid hmem hkept

end Kept

/-! ## Who a message shows to have accepted its id -/

/-- What a copy shows. At the originator only an evicted id is ever accepted again. -/
def Task.Copied (net : Setup) (s : Flood) (p : PeerID) : Task → Prop
  | .broadcastOwn x _ | .lockSendBuffer x _ | .sendTo _ x | .relay x =>
      s.Accepted p x.id ∧ s.Accepted x.id.peerId x.id
  | .handleQuery x =>
      x.sender ∈ net.peerIdToSockfd p ∧ s.Accepted x.sender x.id ∧ s.Accepted x.id.peerId x.id
  | .cacheQuery x =>
      x.sender ∈ net.peerIdToSockfd p ∧ s.Accepted x.sender x.id ∧
        s.Accepted x.id.peerId x.id ∧ (p = x.id.peerId → Evicted s.log p x.id)
  | .act x =>
      s.Accepted p x.id ∧ s.Accepted x.id.peerId x.id ∧
        (p = x.id.peerId → Evicted s.log p x.id)
  | _ => True

/-- Every entry of a running peer's `m_queries` was made by `CacheQuery`. -/
def Tables.EntriesCached (s : Flood) (p : PeerID) (t : Tables) : Prop :=
  t.fault = none → ∀ id u, t.queries.find? id = some u →
    ∃ id', (id' == id) = true ∧ (p, .cached id' u) ∈ s.log

/-- Where an id of `m_queries` came from: the peer itself, or a neighbour that
accepted it. At the originator the latter comes after an eviction. -/
def Event.FromAccepted (net : Setup) (s : Flood) (p : PeerID) : Event Message → Prop
  | .cached id u =>
      (p = id.peerId ∧ u = -1) ∨
        (u ∈ net.peerIdToSockfd p ∧ s.Accepted u id ∧ (p = id.peerId → Evicted s.log p id))
  | _ => True

/-- What a hit shows. -/
def Task.Returned (s : Flood) (p : PeerID) : Task → Prop
  | .handleHit h => s.Accepted p h.id
  | .relayHit h => s.Accepted p h.id ∧ (p = h.id.peerId → Evicted s.log p h.id)
  | _ => True

section Accepted

variable {net : Setup} {s s' : Flood}

theorem Task.Copied.grows {p : PeerID} {task : Task} (h : task.Copied net s p)
    (hg : Grows s s') : task.Copied net s' p := by
  cases task with
  | broadcastOwn | lockSendBuffer | sendTo | relay => exact ⟨h.1.grows hg, h.2.grows hg⟩
  | handleQuery => exact ⟨h.1, h.2.1.grows hg, h.2.2.grows hg⟩
  | cacheQuery =>
      exact ⟨h.1, h.2.1.grows hg, h.2.2.1.grows hg, fun hp => (h.2.2.2 hp).grows hg.log⟩
  | act => exact ⟨h.1.grows hg, h.2.1.grows hg, fun hp => (h.2.2 hp).grows hg.log⟩
  | _ => trivial

theorem Tables.EntriesCached.accepted {p : PeerID} {id : SMessageID} {u : PeerID}
    (h : (s.tables p).EntriesCached s p) (hfault : (s.tables p).fault = none)
    (hu : s.upstream p id = some u) : s.Accepted p id := by
  obtain ⟨id', hid, hmem⟩ := h hfault id u hu
  exact firstUpstream_of_mem hid hmem

/-- A copy that finds no entry at a peer that accepted its id finds an evicted one. -/
theorem evicted_of_accepted (h : (flood net).Reachable s) {p : PeerID} {id : SMessageID}
    (hacc : s.Accepted p id) (hnone : s.upstream p id = none) : Evicted s.log p id := by
  by_contra hkept
  obtain ⟨u, hu⟩ := hacc
  rw [entry_of_not_evicted h p id u hu hkept] at hnone
  cases hnone

/-- `RelayQueryHit` sends the hit where `m_queries` says, or stops the process. -/
theorem perform_relayHit {me : PeerID} {now : Int} {t : Tables} {h : Hit} {e : Effect}
    (hperform : perform net me now t (.relayHit h) = some e) :
    ((t.queries.index h.id 0).1 ∈ net.peerIdToSockfd me ∧
        e = { tables := { t with queries := (t.queries.index h.id 0).2 }
              sent := [((t.queries.index h.id 0).1, .hit h)] }) ∨
      ((t.queries.index h.id 0).1 ∉ net.peerIdToSockfd me ∧
        e = { tables :=
                Tables.abort { t with queries := (t.queries.index h.id 0).2 }
                  .assertionFailed }) := by
  simp only [perform] at hperform
  split at hperform
  · cases hperform
  · split at hperform
    · next hin =>
        injection hperform with hperform
        exact .inl ⟨hin, hperform.symm⟩
    · next hin =>
        injection hperform with hperform
        exact .inr ⟨hin, hperform.symm⟩

/-- What `SentBack` says about the hit a step sends. -/
theorem firstUpstream_of_sentBack {p u : PeerID} {h : Hit}
    (hc : s'.SentBack) (hlog : s'.log = s.log ++ [(p, .sent u (.hit h))]) :
    firstUpstream s.log p h.id = some u := by
  have hback := hc s.log.length (p, .sent u (.hit h)) (by rw [hlog]; simp)
  rw [hlog, List.take_left] at hback
  exact hback

/-- A task that makes its peer accept an id: the event it logs, or the entry it found. -/
theorem accepted_after {p : PeerID} {th : Thread} {now : Int} {task : Task}
    {rest : Multiset Work} {e : Effect} {id : SMessageID} {u : PeerID}
    (hr : RunStep net s p th now task rest e) (hentries : (s.tables p).EntriesCached s p)
    (hev : (s.tables p).queries.find? id = none → .cached id u ∈ e.events) :
    (s.after p th rest e).Accepted p id := by
  cases hold : (s.tables p).queries.find? id with
  | none => exact firstUpstream_of_mem BEq.rfl (hr.logged (hev hold))
  | some v => exact (hentries.accepted hr.alive.2 hold).grows hr.grows

/-- **Every copy was accepted by the peer it comes from, and every entry by its own.** -/
theorem reachable_copied (h : (flood net).Reachable s) (hc : s.SentBack) :
    (∀ w ∈ s.work, w.task.Copied net s w.place.owner) ∧
      ∀ p, (s.tables p).EntriesCached s p := by
  refine run_rule (I := fun s p task => task.Copied net s p)
    (J := fun s p t => t.EntriesCached s p) (sentBack_prefixClosed net) ?_ ?_ ?_ ?_ ?_ h hc
  · intro s p task hstart
    have hnone := hstart.strand
    cases task <;> trivial
  · intro p _ id u hu
    cases hu
  · exact fun s s' p task hg _ hk => hk.grows hg
  · intro s s' p t hg _ hJ hfault id u hu
    obtain ⟨id', hid, hmem⟩ := hJ hfault id u hu
    exact ⟨id', hid, hg.mem hmem⟩
  · intro s p th now task rest e hs hcs hcs' hr hI hJ
    have hg := hr.grows
    have hk := reachable_known hs _ hr.mem
    have hgrown := hI.grows hg
    refine ⟨?_, ?_, ?_⟩
    · intro task' _ hl
      cases hl with
      | broadcast x w =>
          have hp : x.id.peerId = p := hk.2.1
          have hacc : (s.after p th rest e).Accepted p x.id := 
            accepted_after hr (hJ p) (cacheOwn_logs hr.perform)
          exact ⟨hacc, by rw [hp]; exact hacc⟩
      | queueOwn x w => exact hgrown
      | accept x hnew =>
          refine ⟨hgrown.1, hgrown.2.1, hgrown.2.2, fun hp => ?_⟩
          have hacc : s.Accepted x.id.peerId x.id := hI.2.2
          rw [← hp] at hacc
          exact (evicted_of_accepted hs hacc hnew).grows hg.log
      | act x =>
          exact ⟨accepted_after hr (hJ p) (cacheQuery_logs hr.perform), hgrown.2.2.1,
            hgrown.2.2.2⟩
      | relay x hx => exact ⟨hgrown.1, hgrown.2.1⟩
      | queueRelayed x y hy =>
          show _ ∧ _
          rw [relayed_id hy]
          exact hgrown
      | sendTo x exclude q hq hne => exact hgrown
      | ownTest test n ht | test x ht => cases ht <;> trivial
      | _ => trivial
    · intro q m _ hsend
      cases hsend with
      | query q x =>
          refine ⟨?_, ?_, hgrown.2⟩
          · rw [hk.2.1]
            exact peerIdToSockfd_symm hk.2.2
          · rw [hk.2.1]
            exact hgrown.1
      | hit x hu => trivial
    · intro hw hfault id u hu
      rcases writes_queries hw hu with hold | ⟨hnone, ⟨x, w, rfl, hid, rfl⟩ | ⟨x, rfl, hid, rfl⟩ |
        ⟨x, rfl, hid⟩⟩
      · obtain ⟨id', hid, hmem⟩ := hJ p hr.alive.2 id u hold
        exact ⟨id', hid, hg.mem hmem⟩
      · rw [← UnorderedMap.find?_congr _ hid] at hnone
        exact ⟨x.id, hid, hr.logged (cacheOwn_logs hr.perform hnone)⟩
      · rw [← UnorderedMap.find?_congr _ hid] at hnone
        exact ⟨x.id, hid, hr.logged (cacheQuery_logs hr.perform hnone)⟩
      · -- `m_queries[id]` made the entry; the hit then went to peer 0, the first upstream.
        rcases perform_relayHit hr.perform with ⟨-, rfl⟩ | ⟨-, rfl⟩
        · have hfirst := firstUpstream_of_sentBack hcs' rfl
          rw [UnorderedMap.find?_index, if_pos hid] at hu
          obtain ⟨id', hid', hmem⟩ := mem_of_firstUpstream hfirst
          refine ⟨id', PartialEquivBEq.trans hid' hid, hg.mem ?_⟩
          rw [UnorderedMap.fst_index] at hmem
          injection hu with hu
          rw [← hu]
          exact hmem
        · cases hfault

/-- **An id came from a peer that had accepted it.** -/
theorem reachable_fromAccepted (h : (flood net).Reachable s) (hc : s.SentBack) :
    ∀ e ∈ s.log, e.2.FromAccepted net s e.1 := by
  refine events_rule (I := fun s p ev => ev.FromAccepted net s p) (sentBack_prefixClosed net)
    ?_ ?_ ?_ ?_ h hc
  · intro s s' p ev hg _ hev
    cases ev with
    | cached id u =>
        rcases hev with hown | ⟨hlink, hacc, hevicted⟩
        · exact .inl hown
        · exact .inr ⟨hlink, hacc.grows hg, fun hp => (hevicted hp).grows hg.log⟩
    | _ => trivial
  · intro s p th now task rest e hs hcs _ hr
    refine ⟨?_, fun _ _ _ _ => trivial⟩
    intro ev _ hl
    cases hl with
    | cachedOwn x w hnew => exact .inl ⟨(reachable_known hs _ hr.mem).2.1.symm, rfl⟩
    | cached x hnew =>
        have hcopied := (reachable_copied hs hcs).1 _ hr.mem
        exact .inr ⟨hcopied.1, hcopied.2.1.grows hr.grows,
          fun hp => (hcopied.2.2.2 hp).grows hr.grows.log⟩
    | _ => trivial
  · exact fun _ _ _ _ => trivial
  · exact fun _ _ _ _ _ _ _ _ _ _ _ => trivial

/-- The first upstream is a neighbour that accepted the id, or else the peer is the
originator, which keeps its own entry until it is evicted. -/
theorem firstUpstream_cases (h : (flood net).Reachable s) (hc : s.SentBack) {p u : PeerID}
    {id : SMessageID} (hu : firstUpstream s.log p id = some u) :
    (p = id.peerId ∧ u = -1) ∨ (u ∈ net.peerIdToSockfd p ∧ s.Accepted u id) := by
  obtain ⟨id', hid, hmem⟩ := mem_of_firstUpstream hu
  rcases reachable_fromAccepted h hc _ hmem with ⟨hp, rfl⟩ | ⟨hlink, hacc, -⟩
  · exact .inl ⟨Eq.trans hp (SMessageID.beq_iff.mp hid).1, rfl⟩
  · exact .inr ⟨hlink, hacc.congr hid⟩

/-- **A hit is only ever at a peer that accepted its id**, and at the originator only
once the id was evicted there. -/
theorem reachable_returned (h : (flood net).Reachable s) (hc : s.SentBack) :
    ∀ w ∈ s.work, w.task.Returned s w.place.owner := by
  refine tasks_rule (I := fun s p task => task.Returned s p) (sentBack_prefixClosed net)
    ?_ ?_ ?_ h hc
  · intro s p task hstart
    have hnone := hstart.strand
    cases task <;> trivial
  · intro s s' p task hg _ hk
    cases task with
    | handleHit => exact Flood.Accepted.grows hk hg
    | relayHit => exact ⟨hk.1.grows hg, fun hp => (hk.2 hp).grows hg.log⟩
    | _ => trivial
  · intro s p th now task rest e hs hcs hcs' hr hI
    have hg := hr.grows
    constructor
    · intro task' _ hl
      cases hl with
      | onward x hme httl => exact ⟨Flood.Accepted.grows hI hg, fun hp => absurd hp.symm hme⟩
      | answer x kind ha =>
          have hcopied := (reachable_copied hs hcs).1 _ hr.mem
          exact ⟨hcopied.1.grows hg, fun hp => (hcopied.2.2 hp).grows hg.log⟩
      | ownTest test n ht | test x ht => cases ht <;> trivial
      | _ => trivial
    · intro q m hmem hsend
      cases hsend with
      | query q x => trivial
      | hit x hu =>
          rcases perform_relayHit hr.perform with ⟨hlink, rfl⟩ | ⟨hlink, -⟩
          · have hfirst := firstUpstream_of_sentBack hcs' rfl
            rcases firstUpstream_cases hs hcs hfirst with ⟨-, hminus⟩ | ⟨-, hacc⟩
            · have hpos := peerIdToSockfd_nonneg hlink
              rw [hminus] at hpos
              exact absurd hpos (by decide)
            · exact hacc.grows hg
          · exact absurd hu hlink

/-- **`RelayQueryHit` for an id that was not evicted finds the first upstream**, which
is connected. -/
theorem relayHit_finds (h : (flood net).Reachable s) (hc : s.SentBack) {w : Work} {x : Hit}
    (hw : w ∈ s.work) (hx : w.task = .relayHit x)
    (hkept : ¬Evicted s.log w.place.owner x.id) :
    ∃ u ∈ net.peerIdToSockfd w.place.owner, s.upstream w.place.owner x.id = some u ∧
      firstUpstream s.log w.place.owner x.id = some u := by
  have hreturned := reachable_returned h hc w hw
  rw [hx] at hreturned
  obtain ⟨⟨u, hu⟩, hown⟩ := hreturned
  refine ⟨u, ?_, entry_of_not_evicted h _ _ u hu hkept, hu⟩
  rcases firstUpstream_cases h hc hu with ⟨hp, -⟩ | ⟨hlink, -⟩
  · exact absurd (hown hp) hkept
  · exact hlink

end Accepted

end P2PFileSharing
